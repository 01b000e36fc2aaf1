import AmbientBundle.Proofs.Merge.EntryExports
import AmbientBundle.Proofs.Merge.OuterImports
import AmbientBundle.Proofs.Merge.Shown
import AmbientBundle.Proofs.Merge.Statements
/-!
What an entry file exports as a type only. A list of the file's own names and one that leads out of
the chunk stay with their marks, and so does a type import from a module of which only types are
taken. A name that an entry file exports in these ways alone is exported as a type by the chunk,
unless the exports of an entry file have to be gathered.
-/
namespace AmbientBundle

open Syntax

namespace Syntax

/-- Whether the specifier itself is marked as one of a type. -/
def ExportSpecifier.typeOnly : ExportSpecifier → Bool
  | .named _ _ typeOnly => typeOnly
  | .all _ => false

theorem ExportSpecifier.typeOnly_rename (ρ : Rename.Renaming) (sp : ExportSpecifier) :
    (sp.rename ρ).typeOnly = sp.typeOnly := by
  cases sp with
  | all name => rfl
  | named orig exported typeOnly =>
    cases orig with
    | word name =>
      simp only [ExportSpecifier.rename]
      split <;> rfl
    | str lit => rfl

end Syntax

namespace Merge

variable {cx : Context} {earlier : SeenSet Url} {files : List Url} {f : Url} {n : Nat}
  {s t : State} {d : ExportList} {part : List Item} {name : String}

namespace Context

/-- The list is one of the file's own names, or it leads out of the chunk. -/
def KeepsList (cx : Context) (f : Url) (d : ExportList) : Prop :=
  ∀ src ∈ d.src, cx.inChunk? src.value f = none

/-- The chunk takes names of the module outside only as types, and no default export. -/
def ImportsTypes (cx : Context) (module : String) : Prop :=
  cx.TakesTypes module ∧ ∀ isType, ¬cx.TakesOut (module, .default) isType

/-- A specifier of a list of the file exports a type only: it is marked so, or it names the local of
an import from a module of which only types are taken. -/
inductive TypeSpecifier (cx : Context) (f : Url) (d : ExportList) : ExportSpecifier → Prop where
  | marked {sp : ExportSpecifier} (h : d.typeOnly = true ∨ sp.typeOnly = true) :
      TypeSpecifier cx f d sp
  | imported {x : String} {exported : Option ExportName} {typeOnly : Bool}
      {e : ImportDecl × ImportSpecifier} (hsrc : d.src = none) (he : e ∈ cx.specifiers f)
      (hloc : e.2.loc = x) (hsole : ∀ e' ∈ cx.specifiers f, e'.2.loc = x → e' = e)
      (hout : cx.inChunk? e.1.src.value f = none)
      (htypes : cx.ImportsTypes (cx.placeSpecifier e.1.src.value f)) :
      TypeSpecifier cx f d (.named (.word x) exported typeOnly)

/-- Each entry file is new when its turn comes: it is in no earlier chunk, and no entry file before
it leads to it. -/
def EntriesNew (cx : Context) (earlier : SeenSet Url) (files : List Url) : Prop :=
  (∀ f ∈ files, earlier.contains f = false) ∧
    files.Pairwise (fun e f => ¬Relation.ReflTransGen cx.Links e f)

end Context

/-- The list of a file under final names, where the module that it exports from has its place. -/
def keptList (cx : Context) (f : Url) (ρ : Rename.Renaming) (d : ExportList) : ExportList :=
  match d.src with
  | none => d.rename ρ
  | some src => { d with src := some (.made (cx.placeSpecifier src.value f)) }

section KeptList

variable {ρ : Rename.Renaming}

theorem typeOnly_keptList (d : ExportList) : (keptList cx f ρ d).typeOnly = d.typeOnly := by
  cases h : d.src <;> simp [keptList, h, ExportList.rename]

/-- The specifiers of a list that stays are those of the file, renamed if they name its own. -/
theorem specifiers_keptList (d : ExportList) : (keptList cx f ρ d).specifiers =
    d.specifiers.map (if d.src.isNone then ExportSpecifier.rename ρ else id) := by
  cases h : d.src <;> simp [keptList, h, ExportList.rename]

theorem mem_keptList {sp : ExportSpecifier} (h : sp ∈ (keptList cx f ρ d).specifiers) :
    ∃ sp₀ ∈ d.specifiers, exportedName sp = exportedName sp₀ ∧ sp.typeOnly = sp₀.typeOnly ∧
      (d.src = none → sp = sp₀.rename ρ) := by
  rw [specifiers_keptList] at h
  obtain ⟨sp₀, hsp₀, rfl⟩ := List.mem_map.1 h
  refine ⟨sp₀, hsp₀, ?_⟩
  cases hsrc : d.src with
  | none => exact ⟨exportedName_rename ρ sp₀, ExportSpecifier.typeOnly_rename ρ sp₀, fun _ => rfl⟩
  | some src => exact ⟨rfl, rfl, fun hno => (nomatch hno)⟩

theorem exportedNames_keptList (d : ExportList) :
    (keptList cx f ρ d).specifiers.map exportedName = d.specifiers.map exportedName := by
  rw [specifiers_keptList, List.map_map]
  refine List.map_congr_left (fun sp _ => ?_)
  rw [Function.comp_apply]
  split
  · exact exportedName_rename ρ sp
  · rfl

end KeptList

section Parts

/-- What merging puts for a list that stays is the list. -/
theorem EntryPart.keptList (h : EntryPart cx earlier f s t (.exportList d) part)
    (hkeeps : cx.KeepsList f d) :
    part = [.exportList (Merge.keptList cx f (Rename.ofEnvironment t.root.env f) d)] := by
  obtain ⟨τ, env, es, rfl, -, -, -, k, s₁, t₁, hre⟩ := h.inv
  cases k with
  | zero => exact (Step.failure_inv hre).elim
  | succ k =>
  cases reexport_inv hre with
  | @list _ src es t hsrc h =>
    cases k with
    | zero => exact (Step.failure_inv h).elim
    | succ k =>
    cases mergeReexport_inv h with
    | outer hout => simp [shown, Merge.keptList, hsrc, renameItems, linkItems]
    | inner hin => exact absurd ((hkeeps src hsrc).symm.trans hin) (by simp)
  | nothing hsrc =>
    simp [shown, Merge.keptList, hsrc d rfl, renameItems, linkItems, Item.rename, Item.link]

/-- What merging put for a statement of an entry file: it exports what the statement does, and a list
that stays is the list under final names. -/
structure PutFor (cx : Context) (earlier : SeenSet Url) (env : Environment) (f : Url) (i : Item)
    (part : List Item) : Prop where
  exposure : Exposure cx earlier env f i part
  list : ∀ d, i = .exportList d → cx.KeepsList f d →
    part = [.exportList (keptList cx f (Rename.ofEnvironment env f) d)]

theorem PutFor.congr {i : Item} (h : PutFor cx earlier s.root.env f i part) (hk : Keeps s t)
    (hf : s.included.contains f = true) : PutFor cx earlier t.root.env f i part :=
  ⟨h.exposure.congr hk hf, hk.same f hf ▸ h.list⟩

/-- The statements at the root stand for those of the given files, or they export nothing. -/
structure EntriesPut (cx : Context) (earlier : SeenSet Url) (files : List Url) (s : State) : Prop where
  sound : ∀ p ∈ s.root.items, SilentItem p.item ∨ ∃ f ∈ files, ∃ i ∈ cx.statements f, ∃ part,
    PutFor cx earlier s.root.env f i part ∧ ∃ j ∈ part, p = .ofFile f j
  complete : ∀ f ∈ files, ∀ i ∈ cx.statements f, ∃ part,
    PutFor cx earlier s.root.env f i part ∧ ∀ j ∈ part, .ofFile f j ∈ s.root.items

theorem Interspersed.subset {ps : List Piece} {parts : List (List Item)}
    (h : Interspersed f ps parts) {part : List Item} (hpart : part ∈ parts) :
    ∀ j ∈ part, .ofFile f j ∈ ps := by
  induction h with
  | nil => cases hpart
  | cons silent _ ih =>
    intro j hj
    rcases List.mem_cons.1 hpart with rfl | hpart
    · exact List.mem_append_left _ (List.mem_append_right _ (List.mem_map_of_mem hj))
    · exact List.mem_append_right _ (ih hpart j hj)

/-- Entry files that are new when their turn comes are put as they are. -/
theorem Reached.entriesPut (h : Reached cx earlier files s) (hnew : cx.EntriesNew earlier files) :
    EntriesPut cx earlier files s := by
  induction h with
  | start => exact ⟨fun p hp => (nomatch hp), fun f hf => (nomatch hf)⟩
  | @entry files s t f n before hhas h ih =>
    obtain ⟨hearlier, hapart⟩ := hnew
    obtain ⟨hbefore, -, hlast⟩ := List.pairwise_append.1 hapart
    have hdone := before.entriesDone
    have hput := ih ⟨fun g hg => hearlier g (List.mem_append_left _ hg), hbefore⟩
    have hkeeps := (h.run before.atRoot hhas).keeps before.atRoot.rooted rfl
    cases h with
    | again hold hc =>
      rcases hdone.leads f hold with hf | ⟨e, he, hl⟩
      · rw [hearlier f (by simp)] at hf
        cases hf
      · exact absurd hl (hlast e he f (List.mem_singleton_self f))
    | @inlined t₁ t₂ ps hnew imports ht prints =>
      obtain ⟨added, hadded, hitems⟩ := items_of_inlined imports ht prints
      obtain ⟨parts, hparts, hplaced⟩ := prints.parts rfl rfl ht rfl
      have hpart {i : Item} {part : List Item} (h : EntryPart cx earlier f t₁ t₂ i part) :
          PutFor cx earlier (t₂.addItems ps).root.env f i part := by
        rw [State.root_addItems_env]
        exact ⟨h.exposure, fun d hi hd => EntryPart.keptList (hi ▸ h) hd⟩
      refine ⟨fun p hp => ?_, fun g hg i hi => ?_⟩
      · rw [hitems, List.mem_append, List.mem_append] at hp
        rcases hp with (hp | hp) | hp
        · refine (hput.sound p hp).imp_right ?_
          rintro ⟨g, hg, i, hi, part, hpart, hj⟩
          exact ⟨g, List.mem_append_left _ hg, i, hi, part, hpart.congr hkeeps (hdone.included g hg),
            hj⟩
        · exact Or.inl (hadded p hp)
        · refine (hplaced.mem hp).imp_right ?_
          rintro ⟨part, hmem, hj⟩
          obtain ⟨i, hi, h⟩ := forall₂_mem_right hparts hmem
          exact ⟨f, by simp, i, hi, part, hpart h, hj⟩
      · rcases List.mem_append.1 hg with hg | hg
        · obtain ⟨part, hpart, hmem⟩ := hput.complete g hg i hi
          refine ⟨part, hpart.congr hkeeps (hdone.included g hg), fun j hj => ?_⟩
          rw [hitems]
          exact List.mem_append_left _ (List.mem_append_left _ (hmem j hj))
        · obtain rfl := List.mem_singleton.1 hg
          obtain ⟨part, hmem, h⟩ := forall₂_mem_left hparts hi
          refine ⟨part, hpart h, fun j hj => ?_⟩
          rw [hitems]
          exact List.mem_append_right _ (hplaced.subset hmem j hj)

end Parts

section Imports

variable {included included' : SeenSet Url} {m : Merged} {warnings : List Warning}

/-- A name of the merged module is the local of a type import. -/
def Merged.ImportsType (m : Merged) (x : String) : Prop :=
  ∃ p ∈ m.pieces, ∃ d ∈ importDecl? p.item, d.typeOnly = true ∧ ∃ sp ∈ d.specifiers, sp.loc = x

/-- The statement exports the name as a type only. -/
def Merged.ExportsType (m : Merged) (name : String) (i : Item) : Prop :=
  ∃ d, i = .exportList d ∧ ∀ sp ∈ d.specifiers, exportedName sp = name →
    d.typeOnly = true ∨ sp.typeOnly = true ∨ ∃ x, sp.bound (d.src.map StrLit.value) = .here x ∧
      m.ImportsType x

/-- An import declaration is no statement of a file. -/
theorem ShownAs.not_importDecl {inBlock keep : Bool} {i j : Item}
    (h : ShownAs cx f inBlock keep i j) (e : ImportDecl) : j ≠ .importDecl e := by
  rintro rfl
  generalize hj : Item.importDecl e = j at h
  cases h with
  | same hsrc => subst hj; cases hsrc
  | @declared d isExport isExport' => cases isExport' <;> cases hj
  | byDefault => cases hj
  | equals => cases hj
  | listed => cases hj
  | listedDefault => cases hj

/-- The import declarations of a chunk hold what is taken out. They are type imports where only types
are taken, unless a default export is. -/
theorem Derived.importDecl {scope : Option Url} {o : Names.Owner} {e : ImportDecl}
    (h : Derived cx included scope ⟨o, .importDecl e⟩) :
    (∀ sp ∈ e.specifiers, ∃ imported isType,
      cx.TakesOut (e.src.value, imported) isType ∧ SpecifierOf imported sp) ∧
    (cx.TakesTypes e.src.value →
      e.typeOnly = true ∨ e.specifiers = [] ∨ ∃ loc, .default loc ∈ e.specifiers) := by
  generalize hp : (⟨o, .importDecl e⟩ : Piece) = p at h
  cases h with
  | @shown _ g i j keep env ρ τ hg hi hscope hj =>
    refine absurd ?_ ((shownAs_of_mem hj).not_importDecl e)
    have hitem : Item.importDecl e = (j.rename ρ).link τ := congrArg Piece.item hp
    cases j <;> cases hitem
    rfl
  | imported h hnone htypes =>
    cases hp
    exact ⟨fun sp hsp => (h sp hsp).2, htypes⟩
  | _ => cases hp

/-- The local of an import from a module of which only types are taken stands for that of a type
import. -/
theorem importsType_of_mergeChunk? (h : mergeChunk? cx included = some (m, included', warnings))
    (hf : included'.contains f = true) (hnew : included.contains f = false)
    {e : ImportDecl × ImportSpecifier} (he : e ∈ cx.specifiers f)
    (hsole : ∀ e' ∈ cx.specifiers f, e'.2.loc = e.2.loc → e' = e)
    (hout : cx.inChunk? e.1.src.value f = none)
    (htypes : cx.ImportsTypes (cx.placeSpecifier e.1.src.value f)) :
    m.ImportsType (Rename.ofEnvironment m.names f e.2.loc) := by
  obtain ⟨v, ⟨⟨o, i⟩, hp, d, hd, hmodule, sp, hsp, hloc, -⟩, hlocal⟩ :=
    importsAs_of_mergeChunk? h hf hnew he hout
  obtain rfl : i = .importDecl d := by
    cases i <;> cases hd
    rfl
  obtain ⟨htaken, htypeOnly⟩ := (derived_of_mergeChunk? h _ hp).importDecl
  refine ⟨_, hp, d, rfl, ?_, sp, hsp, ?_⟩
  · rcases htypeOnly (hmodule ▸ htypes.1) with h | hnil | ⟨loc, hdefault⟩
    · exact h
    · rw [hnil] at hsp
      cases hsp
    · obtain ⟨imported, isType, htake, hof⟩ := htaken _ hdefault
      generalize hl : ImportSpecifier.default loc = sp' at hof
      cases hof with
      | default => exact absurd (hmodule ▸ htake) (htypes.2 isType)
      | named => cases hl
      | secondDefault => cases hl
      | all => cases hl
  · rw [hlocal hsole, ← hloc, ofSpecifier_loc]

theorem exportsType_keptList (h : mergeChunk? cx included = some (m, included', warnings))
    (hf : included'.contains f = true) (hnew : included.contains f = false)
    (htypes : ∀ sp ∈ d.specifiers, exportedName sp = name → cx.TypeSpecifier f d sp) :
    m.ExportsType name (.exportList (keptList cx f (Rename.ofEnvironment m.names f) d)) := by
  refine ⟨_, rfl, fun sp hsp hname => ?_⟩
  obtain ⟨sp₀, hsp₀, hsame, htype, hrenamed⟩ := mem_keptList hsp
  rw [typeOnly_keptList, htype]
  cases htypes sp₀ hsp₀ (hsame ▸ hname) with
  | marked hmarked => exact hmarked.imp_right Or.inl
  | @imported x exported typeOnly e hsrc he hloc hsole hout htypes =>
    subst hloc
    refine Or.inr (Or.inr ⟨Rename.ofEnvironment m.names f e.2.loc, ?_,
      importsType_of_mergeChunk? h hf hnew he hsole hout htypes⟩)
    have hnone : (keptList cx f (Rename.ofEnvironment m.names f) d).src = none := by
      simp [keptList, hsrc, ExportList.rename]
    rw [hnone, hrenamed hsrc, Option.map_none, bound_rename]
    rfl

theorem Merged.ExportsType.left {i j : Item} (h : m.ExportsType name i) (hleft : LeftOf i j) :
    m.ExportsType name j := by
  cases hleft with
  | all => exact h
  | fewer hsub =>
    obtain ⟨d, hd, h⟩ := h
    cases hd
    exact ⟨_, rfl, fun sp hsp => h sp (hsub hsp)⟩

theorem LeftOf.exports_subset {i j : Item} (h : LeftOf i j) : j.exports ⊆ i.exports := by
  cases h with
  | all => exact List.Subset.refl _
  | fewer hsub => exact List.map_subset _ hsub

/-- A chunk exports a name as a type only, if its entry files export the name by lists that stay and
as a type only, and each of these files is new when its turn comes. The chunk does export it then. -/
theorem type_exports_kept (hentries : cx.EntriesNew included cx.entryFiles)
    (h : mergeChunk? cx included = some (m, included', warnings))
    (honly : ∀ f ∈ cx.entryFiles, ∀ i ∈ cx.statements f, ∀ b, Exposes cx m.names f i name b →
      ∃ d, i = .exportList d ∧ cx.KeepsList f d ∧
        ∀ sp ∈ d.specifiers, exportedName sp = name → cx.TypeSpecifier f d sp) :
    (∀ p ∈ m.pieces, name ∈ namesOf p.item.exports → m.ExportsType name p.item) ∧
      ∀ f ∈ cx.entryFiles, ∀ d, .exportList d ∈ cx.statements f → cx.KeepsList f d →
        name ∈ d.specifiers.map exportedName → name ∈ namesOf m.exports := by
  obtain ⟨s, hreached, rfl, rfl⟩ := reached_of_mergeChunk? h
  have hdone := hreached.entriesDone
  have hput := hreached.entriesPut hentries
  refine ⟨fun p hp hname => ?_, fun f hf d hd hkeeps hname => ?_⟩
  · rcases List.mem_append.1 hp with hp | hp
    · obtain ⟨i, hi, rfl⟩ := List.mem_map.1 hp
      obtain ⟨e, rfl⟩ := importDecl_of_mem_hoistedImports hi
      cases hname
    -- what is left of a statement at the root exports no more than the statement
    obtain ⟨q, hq, -, hleft⟩ := leftOf_keepNewAll hp
    refine Merged.ExportsType.left ?_ hleft
    obtain ⟨⟨x, b⟩, he, rfl⟩ := List.mem_map.1 hname
    have heq := hleft.exports_subset he
    rcases hput.sound q hq with hsilent | ⟨f, hf, i, hi, part, hpart, j, hj, rfl⟩
    · rw [hsilent.exports] at heq
      cases heq
    have hexposes : Exposes cx s.root.env f i x b := hpart.exposure.sound (x, b)
      ((List.mem_append.1 heq).imp (List.mem_flatMap_of_mem hj) (List.mem_flatMap_of_mem hj))
    obtain ⟨d, rfl, hkeeps, htypes⟩ := honly f hf i hi b hexposes
    rw [hpart.list d rfl hkeeps, List.mem_singleton] at hj
    subst hj
    exact exportsType_keptList h (hdone.included f hf) (hentries.1 f hf) htypes
  · obtain ⟨part, hpart, hmem⟩ := hput.complete f hf _ hd
    have hroot := hmem _ (hpart.list d rfl hkeeps ▸ List.mem_singleton_self _)
    rw [← @exportedNames_keptList cx f (Rename.ofEnvironment s.root.env f)] at hname
    obtain ⟨sp, hsp, rfl⟩ := List.mem_map.1 hname
    have hlisted : exportedName sp ∈ namesOf (listExportsOf (s.root.items.map Piece.item)) :=
      List.mem_map.2 ⟨_, List.mem_flatMap.2 ⟨_, List.mem_map_of_mem hroot,
        List.mem_map_of_mem hsp⟩, rfl⟩
    obtain ⟨b, hb⟩ := exists_stays (Or.inr hlisted)
    exact List.mem_map.2 ⟨_, mem_exports_finish.2 hb, rfl⟩

/-- `import type { T } from "ext"` and `export { T }` in `/i.d.ts`. -/
def importedType : Context := .ofFiles
  [("/i.d.ts", [.importDecl ⟨[.named none "T" false], StrLit.made "ext", true, none⟩,
    Exports.list [Exports.specifier "T" "T"]])]

theorem importsTypes_importedType : importedType.ImportsTypes "ext" := by
  suffices H : ∀ imported isType, importedType.TakesOut ("ext", imported) isType →
      imported = .named "T" ∧ isType = true from
    ⟨fun imported isType h => (H imported isType h).2, fun isType h => (nomatch (H _ _ h).1)⟩
  have hfile {g : Url} (hg : importedType.HasFile g) : g = .ofPath "/i.d.ts" :=
    Finset.mem_singleton.1 hg.mem_fileSet
  intro imported isType h
  generalize hkey : ("ext", imported) = key at h
  cases h with
  | imported hg hd hsp hout =>
    obtain rfl := hfile hg
    obtain rfl := List.mem_singleton.1 hd
    obtain rfl := List.mem_singleton.1 hsp
    exact ⟨(Prod.mk.inj hkey).2, rfl⟩
  | named hg hs hout =>
    obtain rfl := hfile hg
    cases List.mem_singleton.1 hs
  | space hg hs hout =>
    obtain rfl := hfile hg
    cases List.mem_singleton.1 hs
  | star hg hs hout =>
    obtain rfl := hfile hg
    cases List.mem_singleton.1 hs

set_option maxRecDepth 100000 in
/-- What the entry imports as a type and hands on is exported as a type. -/
theorem type_exports_kept_import : importedType.EntriesNew ∅ importedType.entryFiles ∧
    ∃ m included' warnings, mergeChunk? importedType ∅ = some (m, included', warnings) ∧
      (∀ p ∈ m.pieces, "T" ∈ namesOf p.item.exports → m.ExportsType "T" p.item) ∧
      "T" ∈ namesOf m.exports := by
  have hfiles : importedType.entryFiles = [.ofPath "/i.d.ts"] := by decide +kernel
  have hentries : importedType.EntriesNew ∅ importedType.entryFiles := by
    rw [hfiles]
    exact ⟨fun _ _ => rfl, List.pairwise_singleton _ _⟩
  have hmerged : (mergeChunk? importedType ∅).isSome := by decide +kernel
  obtain ⟨⟨m, included', warnings⟩, hm⟩ := Option.isSome_iff_exists.1 hmerged
  have hstatements : importedType.statements (.ofPath "/i.d.ts") =
      [Exports.list [Exports.specifier "T" "T"]] := rfl
  have hkept := @type_exports_kept _ "T" _ _ _ _ hentries hm (fun f hf i hi b hexposes => by
    obtain rfl := List.mem_singleton.1 (hfiles ▸ hf)
    obtain rfl := List.mem_singleton.1 (hstatements ▸ hi)
    refine ⟨_, rfl, by simp [Context.KeepsList], fun sp hsp _ => ?_⟩
    obtain rfl := List.mem_singleton.1 hsp
    have hspecifiers : importedType.specifiers (.ofPath "/i.d.ts") =
      [(⟨[.named none "T" false], StrLit.made "ext", true, none⟩, .named none "T" false)] := rfl
    have hout : importedType.inChunk? "ext" (.ofPath "/i.d.ts") = none := by decide +kernel
    have hplace : importedType.placeSpecifier "ext" (.ofPath "/i.d.ts") = "ext" := by
      decide +kernel
    refine .imported rfl (hspecifiers ▸ List.mem_singleton_self _) rfl (fun e' he' _ => ?_) hout ?_
    · exact List.mem_singleton.1 (hspecifiers ▸ he')
    · change importedType.ImportsTypes (importedType.placeSpecifier "ext" (.ofPath "/i.d.ts"))
      rw [hplace]
      exact importsTypes_importedType)
  exact ⟨hentries, m, included', warnings, hm, hkept.1, hkept.2 _ (by simp [hfiles]) _
    (hstatements ▸ List.mem_singleton_self _) (by simp [Context.KeepsList]) (by decide)⟩

/-- `export type * from "ext"` in `/i.d.ts`. -/
def starOfTypes : Context := .ofFiles [("/i.d.ts", [.exportAll ⟨StrLit.made "ext", true, none⟩])]

/-- Whether the statement is a star of values. -/
def isValueStar : Item → Bool
  | .exportAll d => !d.typeOnly
  | _ => false

set_option maxRecDepth 100000 in
/-- The star is not one of types any more. -/
theorem star_loses_type :
    ¬∀ m included' warnings, mergeChunk? starOfTypes ∅ = some (m, included', warnings) →
      ∀ p ∈ m.pieces, ∀ d, p.item = .exportAll d → d.typeOnly = true := by
  intro htypes
  have hcheck : (mergeChunk? starOfTypes ∅).any (fun r =>
      r.1.pieces.any (fun p => isValueStar p.item)) := by decide +kernel
  obtain ⟨⟨m, included', warnings⟩, hm, hr⟩ := (Option.any_eq_true _ _).1 hcheck
  obtain ⟨p, hp, hstar⟩ := List.any_eq_true.1 hr
  cases hi : p.item with
  | exportAll d =>
    rw [hi, isValueStar, htypes m included' warnings hm p hp d hi] at hstar
    cases hstar
  | _ =>
    rw [hi] at hstar
    cases hstar

end Imports

end Merge

end AmbientBundle
