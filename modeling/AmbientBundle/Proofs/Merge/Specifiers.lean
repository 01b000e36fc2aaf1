import AmbientBundle.Proofs.Merge.BlockBodies
import AmbientBundle.Proofs.Syntax.LinkedTypes
/-!
The modules that the statements of a chunk mention. Each mention leads out of the chunk and is given
its place there, or it stands where merging does not look: in the body of a namespace or of an
ambient module, or as the name of one. Of the import types that lead into the chunk those stay for
which nothing is found.
-/
namespace AmbientBundle

open Syntax ImportTypes

namespace Syntax

/-- How a module is mentioned. -/
inductive MentionKind where
  | imported | required | exported | starred | typed | ambient
deriving DecidableEq

structure Mention where
  kind : MentionKind
  specifier : String
deriving DecidableEq

def Item.sourceKind : Item → MentionKind
  | .importDecl _ => .imported
  | .importEquals _ => .required
  | .exportList _ => .exported
  | _ => .starred

/-- The module that a statement imports or exports from itself. -/
def Item.ownMentions (i : Item) : List Mention :=
  (i.source?.map (fun src => ⟨i.sourceKind, src.value⟩)).toList

def ModuleName.mentions : ModuleName → List Mention
  | .str lit => [⟨.ambient, lit.value⟩]
  | .ident _ => []
  | .global => []

mutual

/-- The modules that the statements of a body mention, and the name of an ambient module. -/
def Decl.innerMentions : Decl → List Mention
  | .space _ name _ body => name.mentions ++ bodyMentions body
  | _ => []

def Item.innerMentions : Item → List Mention
  | .decl d => d.innerMentions
  | .exportDecl d => d.innerMentions
  | _ => []

def itemsMentions : List Item → List Mention
  | [] => []
  | i :: is => i.ownMentions ++ i.innerMentions ++ itemsMentions is

def bodyMentions : Option (List Item) → List Mention
  | none => []
  | some is => itemsMentions is

end

def Mention.ofKey (key : ImportTypeKey) : Mention := ⟨.typed, key.specifier⟩

/-- All modules that a statement mentions, wherever they stand. -/
def Item.mentions (i : Item) : List Mention :=
  i.ownMentions ++ i.innerMentions ++ (i.collect pickKey).map Mention.ofKey

theorem Item.mem_mentions {i : Item} {x : Mention} : x ∈ i.mentions ↔
    x ∈ i.ownMentions ∨ x ∈ i.innerMentions ∨ ∃ key ∈ i.collect pickKey, Mention.ofKey key = x := by
  simp [Item.mentions]

theorem mem_itemsMentions {is : List Item} {x : Mention} :
    x ∈ itemsMentions is ↔ ∃ i ∈ is, x ∈ i.ownMentions ∨ x ∈ i.innerMentions := by
  induction is with
  | nil => simp [itemsMentions]
  | cons i is ih => simp [itemsMentions, ih, or_assoc]

section Passes

variable (ρ : Rename.Renaming) (τ : Targets)

theorem Item.ownMentions_rename (i : Item) : (i.rename ρ).ownMentions = i.ownMentions := by
  cases i with
  | importEquals d => cases h : d.target <;> simp [Item.rename, ownMentions, source?, sourceKind, h,
      ImportTarget.rename]
  | exportList d =>
    simp [Item.rename, ownMentions, source?, sourceKind, ExportList.src_rename]
  | _ => rfl

theorem Item.ownMentions_link (i : Item) : (i.link τ).ownMentions = i.ownMentions := by
  cases i <;> rfl

mutual

theorem Decl.innerMentions_rename (ρ : Rename.Renaming) (d : Decl) :
    (d.rename ρ).innerMentions = d.innerMentions := by
  cases d with
  | space declare name inner body =>
    have hname : (name.rename ρ).mentions = name.mentions := by cases name <;> rfl
    simp only [Decl.rename, Decl.innerMentions, hname, bodyMentions_rename]
  | _ => rfl

theorem Item.innerMentions_rename (ρ : Rename.Renaming) (i : Item) :
    (i.rename ρ).innerMentions = i.innerMentions := by
  cases i with
  | decl d => exact Decl.innerMentions_rename ρ d
  | exportDecl d => exact Decl.innerMentions_rename ρ d
  | _ => rfl

theorem itemsMentions_rename (ρ : Rename.Renaming) (is : List Item) :
    itemsMentions (renameItems ρ is) = itemsMentions is := by
  cases is with
  | nil => rfl
  | cons i is =>
    simp only [renameItems, itemsMentions, Item.ownMentions_rename, Item.innerMentions_rename,
      itemsMentions_rename]

theorem bodyMentions_rename (ρ : Rename.Renaming) (b : Option (List Item)) :
    bodyMentions (renameBody ρ b) = bodyMentions b := by
  cases b with
  | none => rfl
  | some is => simp only [renameBody, bodyMentions, itemsMentions_rename]

end

mutual

theorem Decl.innerMentions_link (τ : Targets) (d : Decl) :
    (d.link τ).innerMentions = d.innerMentions := by
  cases d with
  | space declare name inner body =>
    simp only [Decl.link, Decl.innerMentions, bodyMentions_link]
  | _ => rfl

theorem Item.innerMentions_link (τ : Targets) (i : Item) :
    (i.link τ).innerMentions = i.innerMentions := by
  cases i with
  | decl d => exact Decl.innerMentions_link τ d
  | exportDecl d => exact Decl.innerMentions_link τ d
  | _ => rfl

theorem itemsMentions_link (τ : Targets) (is : List Item) :
    itemsMentions (linkItems τ is) = itemsMentions is := by
  cases is with
  | nil => rfl
  | cons i is =>
    simp only [linkItems, itemsMentions, Item.ownMentions_link, Item.innerMentions_link,
      itemsMentions_link]

theorem bodyMentions_link (τ : Targets) (b : Option (List Item)) :
    bodyMentions (linkBody τ b) = bodyMentions b := by
  cases b with
  | none => rfl
  | some is => simp only [linkBody, bodyMentions, itemsMentions_link]

end

end Passes

end Syntax

namespace Merge

variable {cx : Context} {included : SeenSet Url}

/-- A file mentions a module in its own statements, or it exports what a chunk imports for it. -/
inductive Context.Mentions (cx : Context) (g : Url) : MentionKind → String → Prop where
  | imported {d : ImportDecl} (hd : d ∈ cx.imports g) : Mentions cx g .imported d.src.value
  | reexported {s : ExportedSymbol} {src : String} (hs : s ∈ cx.exports g)
      (hsrc : s.source? = some src) : Mentions cx g .imported src
  | required {d : ImportEquals} {src : StrLit} (hd : .importEquals d ∈ cx.statements g)
      (hsrc : d.target = .require src) : Mentions cx g .required src.value
  | exported {d : ExportList} {src : StrLit} (hd : .exportList d ∈ cx.statements g)
      (hsrc : d.src = some src) : Mentions cx g .exported src.value
  | starred {src : String} (hs : .all src ∈ cx.exports g) : Mentions cx g .starred src
  | typed {key : ImportTypeKey} (hkey : key ∈ collectItems pickKey (cx.statements g)) :
      Mentions cx g .typed key.specifier

/-- Where a mention of a chunk's statements comes from. -/
inductive Mention.Sourced (cx : Context) (included : SeenSet Url) : Mention → Prop where
  /-- It leads out of the chunk and has its place there. -/
  | placed {g : Url} {kind : MentionKind} {specifier : String} (hg : cx.HasFile g)
      (hm : cx.Mentions g kind specifier) (hout : cx.inChunk? specifier g = none) :
      Mention.Sourced cx included ⟨kind, cx.placeSpecifier specifier g⟩
  /-- It stands within a declaration of a file, as it is written there. -/
  | inner {g : Url} {i : Item} {x : Mention} (hg : cx.HasFile g) (hi : i ∈ cx.statements g)
      (hx : x ∈ i.innerMentions) : Mention.Sourced cx included x
  /-- It is an import type for which the file of the chunk that it leads to exports nothing. -/
  | missed {g file : Url} {key : ImportTypeKey} {head : String} (hg : cx.HasFile g)
      (hkey : key ∈ collectItems pickKey (cx.statements g))
      (hin : cx.inChunk? key.specifier g = some file) (hhead : key.head = some head)
      (hm : Missed cx included file head) : Mention.Sourced cx included (.ofKey key)

section Shown

variable {g : Url} {inBlock keep : Bool} {i j : Item}

theorem innerMentions_ofDecl (isExport : Bool) (d : Decl) :
    (Item.ofDecl isExport d).innerMentions = d.innerMentions := by
  cases isExport <;> rfl

theorem ownMentions_ofDecl (isExport : Bool) (d : Decl) :
    (Item.ofDecl isExport d).ownMentions = [] := by
  cases isExport <;> rfl

theorem innerMentions_ensure (declare : Bool) (d : Decl) :
    (Declare.ensure declare d).innerMentions = d.innerMentions := by
  refine Declare.ensure_keeps (fun d => ?_) d
  cases d with
  | space declare' name inner body => cases name <;> rfl
  | _ => rfl

/-- Declarations keep what stands within them. -/
theorem ShownAs.innerMentions (h : ShownAs cx g inBlock keep i j) :
    ∀ x ∈ j.innerMentions, x ∈ i.innerMentions := by
  intro x hx
  cases h with
  | same => exact hx
  | declared => simpa only [innerMentions_ofDecl, innerMentions_ensure] using hx
  | @byDefault d =>
    rw [Item.innerMentions, innerMentions_ensure] at hx
    cases d <;> cases hx
  | equals => cases hx
  | listed => cases hx
  | listedDefault => cases hx

/-- Of a statement's own mentions only the target of an `import x = require` is shown. -/
theorem ShownAs.ownMentions (h : ShownAs cx g inBlock keep i j) {x : Mention}
    (hx : x ∈ j.ownMentions) : ∃ d src, i = .importEquals d ∧ d.target = .require src ∧
      x = ⟨.required, cx.placeSpecifier src.value g⟩ := by
  cases h with
  | same hsrc => simp [Item.ownMentions, hsrc] at hx
  | declared => simp [ownMentions_ofDecl] at hx
  | byDefault => cases hx
  | @equals d e hid ht =>
    cases hd : d.target with
    | entity name => simp [Item.ownMentions, Item.source?, ht, hd, placeTarget] at hx
    | require src =>
      refine ⟨d, src, rfl, hd, ?_⟩
      simpa [Item.ownMentions, Item.source?, Item.sourceKind, ht, hd, placeTarget,
        StrLit.made] using hx
  | listed => cases hx
  | listedDefault => cases hx

end Shown

theorem LinkOf.of_specifier {g : Url} {key : ImportTypeKey} {text : String}
    (h : LinkOf cx included g key (some (.specifier text))) :
    cx.inChunk? key.specifier g = none ∧ text = cx.placeSpecifier key.specifier g := by
  cases h with
  | outside hout => exact ⟨hout, rfl⟩

theorem sourced_takesOut {module : String} {imported : ImportedName} {isType : Bool}
    (h : cx.TakesOut (module, imported) isType) : Mention.Sourced cx included ⟨.imported, module⟩ := by
  cases h with
  | imported hg hd hsp hout => exact .placed hg (.imported hd) hout
  | named hg hs hout => exact .placed hg (.reexported hs rfl) hout
  | space hg hs hout => exact .placed hg (.reexported hs rfl) hout
  | star hg hs hout => exact .placed hg (.reexported hs rfl) hout

theorem mentions_exportMember (i : Item) : (exportMember i).mentions = i.mentions := by
  cases i <;> rfl

theorem mem_mentions_spaceOf {declare : Bool} {name : String} {body : List Item} {x : Mention}
    (h : x ∈ (spaceOf declare name body).mentions) : ∃ i ∈ body, x ∈ i.mentions := by
  rcases Item.mem_mentions.1 h with h | h | ⟨key, hkey, rfl⟩
  · cases h
  · obtain ⟨i, hi, hx⟩ := mem_itemsMentions.1 h
    exact ⟨i, hi, Item.mem_mentions.2 (hx.imp_right Or.inl)⟩
  · have hbody : key ∈ collectItems pickKey body := hkey
    obtain ⟨i, hi, hki⟩ := mem_collectItems.1 hbody
    exact ⟨i, hi, Item.mem_mentions.2 (Or.inr (Or.inr ⟨key, hki, rfl⟩))⟩

/-- The mentions of a statement that merging puts into a chunk. -/
theorem Derived.sourced {scope : Option Url} {p : Piece} (h : Derived cx included scope p) :
    ∀ x ∈ p.item.mentions, Mention.Sourced cx included x := by
  induction h with
  | @shown scope g i j keep env ρ τ hg hi hscope hj hρ hτ hbind =>
    have has := shownAs_of_mem hj
    intro x hx
    rcases Item.mem_mentions.1 hx with hx | hx | ⟨key, hkey, rfl⟩
    · rw [Piece.ofFile, Item.ownMentions_link, Item.ownMentions_rename] at hx
      obtain ⟨d, src, rfl, hd, rfl⟩ := has.ownMentions hx
      exact .placed hg (.required hi hd) (outer_of_required hi hd)
    · rw [Piece.ofFile, Item.innerMentions_link, Item.innerMentions_rename] at hx
      exact .inner hg hi (has.innerMentions x hx)
    · -- A key that is left is one of the file, for which a place is found, or nothing.
      obtain ⟨key₀, hkey₀, hleaves⟩ := (Item.keys_link τ _ key hkey).resolve_left id
      have hown : key₀ ∈ collectItems pickKey (cx.statements g) := by
        refine mem_collectItems.2 ⟨i, hi, keys_shownAs has ?_⟩
        rwa [Item.collect_rename pickKey_blind] at hkey₀
      have hlink := hτ key₀ hkey₀
      rcases hleaves.target with hspec | ⟨hnone, rfl⟩
      · rw [hspec] at hlink
        obtain ⟨hout, htext⟩ := hlink.of_specifier
        rw [Mention.ofKey, htext]
        exact .placed hg (.typed hown) hout
      · rw [hnone] at hlink
        cases hlink with
        | missed hin hhead hm => exact .missed hg hown hin hhead hm
  | handed hg hd hsrc hout =>
    intro x hx
    obtain rfl := List.mem_singleton.1 hx
    exact .placed hg (.exported hd hsrc) hout
  | listed => simp [Item.mentions, Piece.ofFile, Exports.list, Item.ownMentions, Item.source?,
      Item.innerMentions, Item.collect]
  | star hh hs hout =>
    intro x hx
    obtain rfl := List.mem_singleton.1 hx
    exact .placed hh (.starred hs) hout
  | narrowed h hsub ih => exact ih
  | @imported specifiers module typeOnly h hnone =>
    intro x hx
    obtain rfl := List.mem_singleton.1 hx
    cases specifiers with
    | nil =>
      obtain ⟨g, hg, d, hd, hout, rfl⟩ := hnone rfl
      exact .placed hg (.imported hd) hout
    | cons sp sps =>
      obtain ⟨-, imported, isType, htakes, -⟩ := h sp List.mem_cons_self
      exact sourced_takesOut htakes
  | aliased => simp [Item.mentions, Piece.made, aliasOf, Item.ownMentions, Item.source?,
      Item.innerMentions, Item.collect]
  | block hT hname hbody hexports ih =>
    intro x hx
    obtain ⟨i, hi, hxi⟩ := mem_mentions_spaceOf hx
    refine forall_mem_exportMembers (P := fun i => ∀ x ∈ i.mentions, Mention.Sourced cx included x)
      ih (fun i h x hx => h x (mentions_exportMember i ▸ hx)) (fun e _ x hx => ?_) i hi x hxi
    simp [Item.mentions, aliasOf, Item.ownMentions, Item.source?, Item.innerMentions,
      Item.collect] at hx

/-- Every chunk can be merged, and each mention of a module in its statements then leads out of the
chunk and is given its place there, except in two cases: it stands in the body or in the name of a
declaration of a file and is what is written there, or it is an import type that leads into the
chunk and for which nothing is found. -/
theorem mentions_sourced (cx : Context) (included : SeenSet Url) : ∃ s,
    mergeChunk? cx included = some (finish cx.chunk s, s.included, s.warnings) ∧
      ∀ p ∈ (finish cx.chunk s).pieces, ∀ x ∈ p.item.mentions, Mention.Sourced cx included x := by
  obtain ⟨s, hmerge, hderived⟩ := mergeChunk_derived cx included
  exact ⟨s, hmerge, fun p hp => (hderived p hp).sourced⟩

/-- `import "../dist/e"` and `declare module "../dist/e" {}` in `/src/i.d.ts`. The chunk stands beside
the module that they mean. -/
def augmentedModule : Context :=
  { Context.ofFiles [("/src/i.d.ts", [.importDecl ⟨[], StrLit.made "../dist/e", false, none⟩,
      .decl (.space true (.str (StrLit.made "../dist/e")) [] (some []))])] with
    resolver := fun _ _ => some (.ofPath "/dist/e.d.ts") }

theorem place_augmentedModule :
    augmentedModule.placeSpecifier "../dist/e" (.ofPath "/src/i.d.ts") = "./e" := by
  decide +kernel

set_option maxRecDepth 100000 in
/-- The name of the ambient module stays as it is, while the import is given its place. -/
theorem augmentation_keeps_name :
    ¬∀ m included' warnings, mergeChunk? augmentedModule ∅ = some (m, included', warnings) →
      ∀ p ∈ m.pieces, ∀ x ∈ p.item.mentions,
        x.specifier = augmentedModule.placeSpecifier "../dist/e" (.ofPath "/src/i.d.ts") := by
  intro hplaced
  have hcheck : (mergeChunk? augmentedModule ∅).any (fun r => r.1.pieces.any (fun p =>
      decide (⟨.ambient, "../dist/e"⟩ ∈ p.item.mentions))) := by decide +kernel
  obtain ⟨⟨m, included', warnings⟩, hm, hr⟩ := (Option.any_eq_true _ _).1 hcheck
  simp only [List.any_eq_true, decide_eq_true_eq] at hr
  obtain ⟨p, hp, hx⟩ := hr
  have hname := hplaced m included' warnings hm p hp _ hx
  rw [place_augmentedModule] at hname
  exact absurd hname (by decide)

end Merge

end AmbientBundle
