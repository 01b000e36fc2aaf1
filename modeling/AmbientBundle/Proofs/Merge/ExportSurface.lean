import AmbientBundle.Proofs.Merge.EntryExports
import AmbientBundle.Proofs.Merge.ImportLinks
/-!
The names that a chunk exports are those of its entry files: what each of them exports explicitly
or by stars inside of the chunk, as far as merging finds something for the name.
-/
namespace AmbientBundle.Merge

open Syntax

/-- The names that a statement exports otherwise than from another module. -/
def ownNames (i : Item) : List String := namesOf i.ownExports

namespace Context

/-- The statements of a file as its module has them. -/
def written (cx : Context) (file : Url) : List Item :=
  match cx.files.get? file with
  | some m => m.body
  | none => []

variable {cx : Context} {f g target : Url} {i : Item} {name : String}

theorem exports_eq_written : cx.exports f = Exports.table f (cx.written f) := by
  unfold exports written
  cases cx.files.get? f <;> rfl

theorem mem_written {m : Module} (h : cx.files.get? f = some m) : i ∈ cx.written f ↔ i ∈ m.body := by
  simp [written, h]

section Statements

theorem ownNames_onItem? (p : Declare.Pass) (i : Item) :
    ownNames ((p.onItem? i).getD i) = ownNames i :=
  p.apply_onItem? ownNames (fun _ _ => rfl) (fun b d => by
    simp [ownNames, namesOf, Item.ownExports, Item.directExports, Decl.bound_setModifier]) i

theorem ownNames_nameDefaults (is : List Item) :
    (nameDefaults f is).flatMap ownNames = is.flatMap ownNames := by
  rw [nameDefaults, List.flatMap_assoc]
  refine List.flatMap_congr (fun i _ => ?_)
  split
  · rename_i h
    cases i with
    | exportDefaultDecl d =>
      simp [Exports.nodes_promote_default, ownNames, namesOf, Item.ownExports, Item.directExports,
        Exports.list, Item.listExports]
    | _ => cases h
  · simp

theorem ownNames_splitImport (i : Item) :
    (splitImport cx f i).2.flatMap ownNames = ownNames i := by
  cases i with
  | importEquals d =>
    simp only [splitImport]
    split
    · cases he : d.isExport <;>
        simp [he, ownNames, namesOf, Item.ownExports, Item.directExports, Exports.list,
          Item.listExports]
    · simp
  | importDecl d => rfl
  | _ => simp [splitImport]

/-- What is merged of a file exports by itself the same names as the file's module. -/
theorem ownNames_statements :
    (cx.statements f).flatMap ownNames = (cx.written f).flatMap ownNames := by
  have hpasses : ∀ (ps : List Declare.Pass) (m : Module),
      (ps.foldl (fun m p => p.run m) m).body.flatMap ownNames = m.body.flatMap ownNames := by
    intro ps
    induction ps with
    | nil => exact fun _ => rfl
    | cons p ps ih =>
      intro m
      rw [List.foldl_cons, ih, Declare.Pass.body_run, List.flatMap_map]
      exact List.flatMap_congr (fun i _ => ownNames_onItem? p i)
  unfold statements body written
  cases cx.files.get? f with
  | none => rfl
  | some m =>
    simp only [List.flatMap_assoc, ownNames_splitImport]
    rw [ownNames_nameDefaults, prepare, hpasses]

/-- A statement that no pass changes is there behind them. -/
theorem mem_prepare {m : Module} (h : i ∈ m.body) (hpass : ∀ p, (Declare.Pass.onItem? p i).getD i = i) :
    i ∈ (cx.prepare m).body := by
  unfold prepare
  generalize cx.passes = ps
  induction ps generalizing m with
  | nil => exact h
  | cons p ps ih =>
    refine ih (m := p.run m) ?_
    rw [Declare.Pass.body_run]
    exact List.mem_map.2 ⟨i, h, hpass p⟩

/-- An export list or a star of a file's module is merged as it is. -/
theorem mem_statements_of_written (h : i ∈ cx.written f) (hi : isExportStatement i = true) :
    i ∈ cx.statements f := by
  have hpass (p : Declare.Pass) : (p.onItem? i).getD i = i := by
    cases i with
    | exportList d => cases p <;> rfl
    | exportAll d => cases p <;> rfl
    | _ => cases hi
  unfold written at h
  unfold statements body
  cases hm : cx.files.get? f with
  | none => simp [hm] at h
  | some m =>
    simp only [hm] at h
    refine List.mem_flatMap.2 ⟨i, List.mem_flatMap.2 ⟨i, mem_prepare h hpass, ?_⟩, ?_⟩
    · cases i with
      | exportList d => simp [Exports.isAnonymousDefault]
      | exportAll d => simp [Exports.isAnonymousDefault]
      | _ => cases hi
    · cases i with
      | exportList d => simp [splitImport]
      | exportAll d => simp [splitImport]
      | _ => cases hi

theorem written_of_mem_statements (h : i ∈ cx.statements f)
    (hi : (∃ d : ExportList, i = .exportList d ∧ d.src.isSome) ∨ ∃ d, i = .exportAll d) :
    i ∈ cx.written f := by
  obtain ⟨m, hm, hmem⟩ := mem_of_mem_statements h hi
  exact (mem_written hm).2 hmem

end Statements

/-- A file exports a name explicitly, or, where stars count, in any way: there is a statement for
it, and if that takes the name from a file of the chunk then the name is exported there. -/
inductive Gives (cx : Context) : Bool → Url → String → Prop where
  | own {stars : Bool} {f : Url} {i : Item} {name : String} (hi : i ∈ cx.written f)
      (hn : name ∈ ownNames i) : Gives cx stars f name
  | taken {stars : Bool} {f target : Url} {d : ExportList} {src : StrLit} {orig : ExportName}
      {exported : Option ExportName} {typeOnly : Bool} (hi : .exportList d ∈ cx.written f)
      (hsrc : d.src = some src) (hsp : .named orig exported typeOnly ∈ d.specifiers)
      (hin : cx.inChunk? src.value f = some target) (h : Gives cx true target orig.text) :
      Gives cx stars f (exported.getD orig).text
  | space {stars : Bool} {f : Url} {d : ExportList} {src : StrLit} {name : ExportName}
      (hi : .exportList d ∈ cx.written f) (hsrc : d.src = some src)
      (hsp : .all name ∈ d.specifiers) : Gives cx stars f name.text
  | outer {stars : Bool} {f : Url} {d : ExportList} {src : StrLit} {sp : ExportSpecifier}
      (hi : .exportList d ∈ cx.written f) (hsrc : d.src = some src) (hsp : sp ∈ d.specifiers)
      (hout : cx.inChunk? src.value f = none) : Gives cx stars f (exportedName sp)
  | star {f target : Url} {name : String} (hs : cx.Stars f target) (hn : name ≠ "default")
      (h : Gives cx true target name) : Gives cx true f name
  | outerStar {f : Url} {src name : String} (hs : .all src ∈ cx.exports f) (hn : name ≠ "default")
      (hout : cx.inChunk? src f = none) : Gives cx true f name

/-- The names that a file exports: its own, and those of the files to which its stars lead but for
their default exports. -/
def Surface (cx : Context) (f : Url) (name : String) : Prop :=
  ∃ g, cx.Within f g ∧ (name = "default" → g = f) ∧ cx.Gives false g name

/-- A symbol of the export table comes from a statement. -/
inductive Symbol (cx : Context) (f : Url) : ExportedSymbol → Prop where
  | own {i : Item} {name property : String} {id : Option DeclId} (hi : i ∈ cx.written f)
      (hn : name ∈ ownNames i) : Symbol cx f (.named name property none id)
  | taken {d : ExportList} {src : StrLit} {orig : ExportName} {exported : Option ExportName}
      {typeOnly : Bool} (hi : .exportList d ∈ cx.written f) (hsrc : d.src = some src)
      (hsp : .named orig exported typeOnly ∈ d.specifiers) :
      Symbol cx f (.named (exported.getD orig).text orig.text (some src.value) none)
  | space {d : ExportList} {src : StrLit} {name : ExportName} (hi : .exportList d ∈ cx.written f)
      (hsrc : d.src = some src) (hsp : .all name ∈ d.specifiers) :
      Symbol cx f (.allAs name.text src.value)
  | star {d : ExportAll} (hi : .exportAll d ∈ cx.written f) : Symbol cx f (.all d.src.value)

theorem symbol_of_mem_exports {e : ExportedSymbol} (h : e ∈ cx.exports f) : cx.Symbol f e := by
  rw [exports_eq_written] at h
  obtain ⟨i, hi, he⟩ := List.mem_flatMap.1 h
  cases i with
  | exportAll d =>
    rw [List.mem_singleton.1 he]
    exact .star hi
  | exportList d =>
    obtain ⟨sp, hsp, hof⟩ := List.mem_filterMap.1 he
    cases sp with
    | named orig exported typeOnly =>
      cases hsrc : d.src with
      | none =>
        simp only [hsrc, Exports.ofSpecifier, Option.map_none, Option.some.injEq] at hof
        subst hof
        refine .own hi ?_
        simp only [ownNames, namesOf, Item.ownExports, hsrc, Option.isSome_none,
          Bool.false_eq_true, if_false, Item.listExports, List.map_map]
        exact List.mem_map.2 ⟨_, hsp, rfl⟩
      | some src =>
        simp only [hsrc, Exports.ofSpecifier, Option.map_some, Option.some.injEq] at hof
        subst hof
        exact .taken hi hsrc hsp
    | all name =>
      cases hsrc : d.src with
      | none => simp [hsrc, Exports.ofSpecifier] at hof
      | some src =>
        simp only [hsrc, Exports.ofSpecifier, Option.map_some, Option.some.injEq] at hof
        subst hof
        exact .space hi hsrc hsp
  | exportDecl d =>
    obtain ⟨id, hid, rfl⟩ := List.mem_map.1 he
    refine .own hi ?_
    simp only [ownNames, namesOf, Item.ownExports, Item.directExports, List.map_map]
    exact List.mem_map.2 ⟨id, hid, rfl⟩
  | exportDefaultDecl d =>
    rw [List.mem_singleton.1 he]
    exact .own hi (by simp [ownNames, namesOf, Item.ownExports, Item.directExports])
  | exportDefaultExpr e =>
    cases e with
    | ident x =>
      rw [List.mem_singleton.1 he]
      exact .own hi (by simp [ownNames, namesOf, Item.ownExports, Item.directExports])
    | _ => cases he
  | importEquals d =>
    simp only [Exports.ofItem] at he
    split at he
    · rename_i hd
      rw [List.mem_singleton.1 he]
      exact .own hi (by simp [ownNames, namesOf, Item.ownExports, Item.directExports, hd])
    · cases he
  | _ => cases he

/-- A step from an exported name is one of a statement that gives the name. -/
theorem gives_of_follow {b : Hop} (hb : b ∈ cx.follow (.exported f name))
    (hgo : ∀ target x, b = .go (.exported target x) → cx.Gives true target x) :
    cx.Gives true f name ∧ (cx.Lists f name → cx.Gives false f name) := by
  cases hx : cx.explicit? f name with
  | none =>
    refine ⟨?_, fun hl => by simp [Lists, hx] at hl⟩
    simp only [follow, hx] at hb
    split at hb
    · cases hb
    · rename_i hn
      obtain ⟨e, he, hthrough⟩ := List.mem_filterMap.1 hb
      cases e with
      | all src =>
        obtain rfl := Option.some.inj hthrough
        cases hin : cx.inChunk? src f with
        | none => exact .outerStar he hn hin
        | some target =>
          exact .star ⟨src, he, hin⟩ hn (hgo target name (takeFrom_of_inChunk? hin))
      | named => cases hthrough
      | allAs => cases hthrough
  | some e =>
    suffices H : ∀ stars, cx.Gives stars f name from ⟨H true, fun _ => H false⟩
    intro stars
    obtain ⟨hmem, hname⟩ := Calls.exported_of_explicit? hx
    have hsymbol := symbol_of_mem_exports hmem
    cases hsymbol with
    | own hi hn =>
      obtain rfl := Option.some.inj hname
      exact .own hi hn
    | @taken d src orig exported typeOnly hi hsrc hsp =>
      obtain rfl := Option.some.inj hname
      simp only [follow, hx, List.mem_singleton] at hb
      cases hin : cx.inChunk? src.value f with
      | none => exact .outer hi hsrc hsp hin
      | some target =>
        exact .taken hi hsrc hsp hin (hgo target orig.text (hb.trans (takeFrom_of_inChunk? hin)))
    | space hi hsrc hsp =>
      obtain rfl := Option.some.inj hname
      exact .space hi hsrc hsp
    | star => cases hname

theorem gives_of_leads {τ : Denoted} (h : cx.Leads (.exported f name) τ) :
    cx.Gives true f name ∧ (cx.Lists f name → cx.Gives false f name) := by
  generalize ha : Reference.exported f name = a at h
  induction h generalizing f name with
  | here hb =>
    subst ha
    exact gives_of_follow hb (by simp)
  | next hb _ ih =>
    subst ha
    refine gives_of_follow hb (fun target x he => ?_)
    exact (ih (Hop.go.inj he).symm).1

end Context

section Entry

variable {cx : Context} {earlier : SeenSet Url} {env : Environment} {f g target : Url} {i : Item}
  {name : String}

/-- What is gathered for a file is on its surface. -/
theorem surface_of_gathered {withDefault : Bool} {v : String}
    (h : Gathered cx env f withDefault g name v) : cx.Surface f name := by
  obtain ⟨τ, hτ⟩ := h.fits.leads
  exact ⟨g, h.within, fun he => (h.default he).1, (Context.gives_of_leads hτ).2 h.lists⟩

/-- A final name of an exported `import x = …` that is not its own. -/
def TakenAlias (cx : Context) (env : Environment) (f : Url) (name : String) : Prop :=
  ∃ d, .importEquals d ∈ cx.statements f ∧ d.isExport = true ∧
    name = Rename.ofEnvironment env f d.id.name ∧ name ≠ d.id.name

/-- What a statement of a file exposes is on the file's surface. -/
theorem surface_of_exposes {b : Bound} (hi : i ∈ cx.statements f)
    (h : Exposes cx env f i name b) : cx.Surface f name ∨ TakenAlias cx env f name := by
  have hown {x : String} (hx : x ∈ ownNames i) : cx.Surface f x := by
    have hmem : x ∈ (cx.statements f).flatMap ownNames := List.mem_flatMap.2 ⟨i, hi, hx⟩
    rw [Context.ownNames_statements] at hmem
    obtain ⟨j, hj, hxj⟩ := List.mem_flatMap.1 hmem
    exact ⟨f, .refl, fun _ => rfl, .own hj hxj⟩
  cases h with
  | own he => exact Or.inl (hown (List.mem_map_of_mem he))
  | @aliased d he =>
    by_cases hkept : Rename.ofEnvironment env f d.id.name = d.id.name
    · rw [hkept]
      exact Or.inl (hown (by simp [ownNames, namesOf, Item.ownExports, Item.directExports, he]))
    · exact Or.inr ⟨d, hi, he, rfl, hkept⟩
  | taken hsrc hsp hin hv =>
    obtain ⟨τ, hτ⟩ := hv.leads
    have hw := Context.written_of_mem_statements hi (Or.inl ⟨_, rfl, by simp [hsrc]⟩)
    exact Or.inl ⟨f, .refl, fun _ => rfl, .taken hw hsrc hsp hin (Context.gives_of_leads hτ).1⟩
  | space hsrc hsp =>
    have hw := Context.written_of_mem_statements hi (Or.inl ⟨_, rfl, by simp [hsrc]⟩)
    exact Or.inl ⟨f, .refl, fun _ => rfl, .space hw hsrc hsp⟩
  | outer hsrc hsp hout =>
    have hw := Context.written_of_mem_statements hi (Or.inl ⟨_, rfl, by simp [hsrc]⟩)
    exact Or.inl ⟨f, .refl, fun _ => rfl, .outer hw hsrc hsp hout⟩
  | star hin hg =>
    have hstar : cx.Stars f _ := ⟨_, Context.mem_exports_of_star hi, hin⟩
    obtain ⟨τ, hτ⟩ := hg.fits.leads
    exact Or.inl ⟨_, .head hstar hg.within, fun he => absurd (hg.default he).2 (by simp),
      (Context.gives_of_leads hτ).2 hg.lists⟩

theorem Live.of_source {busy : Url → Prop} {k property src : String} {id : Option DeclId}
    {τ : Denoted} (h : Live cx earlier busy f name τ)
    (hx : cx.explicit? f name = some (.named k property (some src) id))
    (hin : cx.inChunk? src f = some target) : Live cx earlier busy target property τ := by
  cases h with
  | source hx' hin' hl =>
    cases hx.symm.trans hx'
    cases hin.symm.trans hin'
    exact hl
  | outer hx' hout =>
    cases hx.symm.trans hx'
    cases hin.symm.trans hout
  | declared hx' => cases hx.symm.trans hx'
  | linked hx' => cases hx.symm.trans hx'
  | kept hx' => cases hx.symm.trans hx'
  | space hx' => cases hx.symm.trans hx'
  | star hx' => cases hx.symm.trans hx'
  | outerStar hx' => cases hx.symm.trans hx'

/-- A name that a file exports explicitly is one that some statement promises, unless nothing may
be found for it. -/
theorem promises_of_lists {τ : Denoted} (h : cx.Lists f name)
    (hl : Live cx earlier Idle f name τ) :
    ∃ i ∈ cx.statements f, Promises cx earlier f i name := by
  obtain ⟨e, hx⟩ := Option.isSome_iff_exists.1 h
  obtain ⟨hmem, hname⟩ := Calls.exported_of_explicit? hx
  have hsymbol := Context.symbol_of_mem_exports hmem
  cases hsymbol with
  | @own _ x _ _ hi hn =>
    obtain rfl := Option.some.inj hname
    have hmem : x ∈ (cx.statements f).flatMap ownNames := by
      rw [Context.ownNames_statements]
      exact List.mem_flatMap.2 ⟨_, hi, hn⟩
    obtain ⟨j, hj, hxj⟩ := List.mem_flatMap.1 hmem
    obtain ⟨e, he, rfl⟩ := List.mem_map.1 hxj
    exact ⟨j, hj, .own he⟩
  | @taken d src orig exported typeOnly hi hsrc hsp =>
    obtain rfl := Option.some.inj hname
    refine ⟨_, Context.mem_statements_of_written hi rfl, ?_⟩
    cases hin : cx.inChunk? src.value f with
    | none => exact .outer hsrc hsp hin
    | some target => exact .taken hsrc hsp hin (hl.of_source hx hin)
  | @space d src x hi hsrc hsp =>
    obtain rfl := Option.some.inj hname
    refine ⟨_, Context.mem_statements_of_written hi rfl, ?_⟩
    cases hin : cx.inChunk? src.value f with
    | none => exact .outer hsrc hsp hin
    | some target => exact .space hsrc hsp hin
  | star => cases hname

/-- A name of a file that is not dead is one that some statement promises. -/
theorem promises_of_offers (hg : cx.Offers f true g name) (hl : ¬Dead cx earlier f true name) :
    ∃ i ∈ cx.statements f, Promises cx earlier f i name := by
  have hlive {h : Url} (hh : cx.Offers f true h name) : ∃ τ, Live cx earlier Idle h name τ := by
    by_contra hnone
    exact hl ⟨h, hh, hnone⟩
  by_cases hgf : g = f
  · subst hgf
    obtain ⟨τ, hτ⟩ := hlive hg
    exact promises_of_lists hg.lists hτ
  · have hdefault : name ≠ "default" := fun he => hgf (hg.default he).1
    rcases Relation.ReflTransGen.cases_head hg.within with rfl | ⟨target, hstar, hw⟩
    · exact absurd rfl hgf
    · obtain ⟨src, hsrc, hin⟩ := hstar
      have hsymbol := Context.symbol_of_mem_exports hsrc
      cases hsymbol with
      | @star d hi =>
        have hoffers {h : Url} (hh : cx.Offers target false h name) : cx.Offers f true h name :=
          ⟨.head ⟨_, hsrc, hin⟩ hh.within, hh.lists, fun he => absurd he hdefault⟩
        refine ⟨_, Context.mem_statements_of_written hi rfl, .star hin
          ⟨hw, hg.lists, fun he => absurd he hdefault⟩ ?_⟩
        rintro ⟨h, hh, hnone⟩
        exact hl ⟨h, hoffers hh, hnone⟩

/-- Every name that entries export is on the surface of one of them. -/
theorem Entries.surface {files : List Url} {is : List Item} (h : Entries cx earlier env files is)
    {e : String × Bound} (he : e ∈ directExportsOf is ∨ e ∈ listExportsOf is) :
    ∃ f ∈ files, cx.Surface f e.1 ∨ TakenAlias cx env f e.1 := by
  induction h with
  | nil => simp [directExportsOf, listExportsOf] at he
  | @printed files is f parts _ _ _ hparts ih =>
    rw [directExportsOf_append, listExportsOf_append, List.mem_append, List.mem_append,
      or_or_or_comm] at he
    rcases he with he | he
    · obtain ⟨g, hg, hs⟩ := ih he
      exact ⟨g, by simp [hg], hs⟩
    · have hpart : ∃ is ∈ parts, e ∈ directExportsOf is ∨ e ∈ listExportsOf is := by
        simp only [directExportsOf, listExportsOf, List.mem_flatMap, List.mem_flatten] at he ⊢
        rcases he with ⟨i, ⟨is, his, hi⟩, he⟩ | ⟨i, ⟨is, his, hi⟩, he⟩
        · exact ⟨is, his, Or.inl ⟨i, hi, he⟩⟩
        · exact ⟨is, his, Or.inr ⟨i, hi, he⟩⟩
      obtain ⟨js, hjs, he⟩ := hpart
      obtain ⟨i, hi, hexposure⟩ := forall₂_mem_right hparts hjs
      exact ⟨f, by simp, surface_of_exposes hi (hexposure.sound e he)⟩
  | @again files is js f _ _ hdirect hsound _ ih =>
    rw [directExportsOf_append, listExportsOf_append, hdirect, List.append_nil, List.mem_append,
      ← or_assoc] at he
    rcases he with he | he
    · obtain ⟨g, hg, hs⟩ := ih he
      exact ⟨g, by simp [hg], hs⟩
    · obtain ⟨g, v, _, hg⟩ := hsound e he
      exact ⟨f, by simp, Or.inl (surface_of_gathered hg)⟩

/-- No exported `import x = …` that the file exports under the name has another final name. -/
def KeepsAlias (cx : Context) (env : Environment) (f : Url) (name : String) : Prop :=
  ∀ d, .importEquals d ∈ cx.statements f → d.isExport = true → d.id.name = name →
    Rename.ofEnvironment env f name = name

/-- What a statement promises is exported by what stands for it. -/
theorem Exposure.promised {part : List Item} (h : Exposure cx earlier env f i part)
    (hi : i ∈ cx.statements f) (hk : KeepsAlias cx env f name)
    (hp : Promises cx earlier f i name) :
    name ∈ namesOf (directExportsOf part) ∨ name ∈ namesOf (listExportsOf part) := by
  refine h.complete (fun d he hd => ?_) name hp
  subst he
  cases hp with
  | own he =>
    simp only [Item.ownExports, Item.directExports, hd, if_true, List.mem_singleton] at he
    subst he
    exact hk d hi hd rfl

/-- Every name of an entry for which something is found for sure is exported. -/
theorem Entries.offered {files : List Url} {is : List Item} (h : Entries cx earlier env files is)
    (hf : f ∈ files) (hk : KeepsAlias cx env f name) (hg : cx.Offers f true g name)
    (hl : ¬Dead cx earlier f true name) :
    name ∈ namesOf (directExportsOf is) ∨ name ∈ namesOf (listExportsOf is) := by
  induction h with
  | nil => cases hf
  | @printed files is f' parts _ _ _ hparts ih =>
    rw [directExportsOf_append, listExportsOf_append, namesOf_append, namesOf_append,
      List.mem_append, List.mem_append, or_or_or_comm]
    rcases List.mem_append.1 hf with hf | hf
    · exact Or.inl (ih hf)
    · obtain rfl := List.mem_singleton.1 hf
      obtain ⟨i, hi, hpromise⟩ := promises_of_offers hg hl
      obtain ⟨part, hpart, hexposure⟩ := forall₂_mem_left hparts hi
      exact Or.inr (mem_names_flatten hpart (hexposure.promised hi hk hpromise))
  | @again files is js f' _ _ hdirect _ hcomplete ih =>
    rw [directExportsOf_append, listExportsOf_append, namesOf_append, namesOf_append,
      List.mem_append, List.mem_append, or_or_or_comm]
    rcases List.mem_append.1 hf with hf | hf
    · exact Or.inl (ih hf)
    · obtain rfl := List.mem_singleton.1 hf
      exact Or.inr (Or.inr (hcomplete g name hg hl))

theorem Entries.eq_nil {is : List Item} (h : Entries cx earlier env [] is) : is = [] := by
  generalize hfiles : ([] : List Url) = files at h
  cases h with
  | nil => rfl
  | printed => simp at hfiles
  | again => simp at hfiles

/-- An entry among others is the last one, or stands among those before the last. -/
theorem snoc_eq_append_cons {files before after : List Url} {f' : Url}
    (h : files ++ [f'] = before ++ f :: after) : (files = before ∧ f' = f ∧ after = []) ∨
      ∃ after' g, after = after' ++ [g] ∧ files = before ++ f :: after' := by
  rcases List.eq_nil_or_concat after with rfl | ⟨after', g, rfl⟩
  · obtain ⟨rfl, hf⟩ := List.append_inj' h rfl
    cases hf
    exact Or.inl ⟨rfl, rfl, rfl⟩
  · rw [List.concat_eq_append, ← List.cons_append, ← List.append_assoc] at h
    exact Or.inr ⟨after', g, List.concat_eq_append, (List.append_inj' h rfl).1⟩

/-- A new entry to which no entry before it leads is inlined with its exports. -/
theorem Entries.printed_part {files before after : List Url} {is : List Item}
    (h : Entries cx earlier env files is) (hfiles : files = before ++ f :: after)
    (hnew : earlier.contains f = false)
    (hfirst : ∀ e ∈ before, ¬Relation.ReflTransGen cx.Links e f) :
    ∃ front parts back, is = front ++ parts.flatten ++ back ∧
      List.Forall₂ (Exposure cx earlier env f) (cx.statements f) parts ∧
      (before = [] → front = []) ∧ (after = [] → back = []) := by
  induction h generalizing after with
  | nil => simp at hfiles
  | @printed files is f' parts h _ _ hparts ih =>
    rcases snoc_eq_append_cons hfiles with ⟨rfl, rfl, rfl⟩ | ⟨after', g, rfl, hfiles'⟩
    · refine ⟨is, parts, [], by simp, hparts, fun hb => ?_, fun _ => rfl⟩
      subst hb
      exact h.eq_nil
    · obtain ⟨front, parts', back, rfl, hparts', hfront, _⟩ := ih hfiles'
      exact ⟨front, parts', back ++ parts.flatten, by simp, hparts', hfront, by simp⟩
  | @again files is js f' _ hold _ _ _ ih =>
    rcases snoc_eq_append_cons hfiles with ⟨rfl, rfl, rfl⟩ | ⟨after', g, rfl, hfiles'⟩
    · rcases hold with hold | ⟨e, he, hl⟩
      · rw [hold] at hnew
        cases hnew
      · exact absurd hl (hfirst e he)
    · obtain ⟨front, parts', back, rfl, hparts', hfront, _⟩ := ih hfiles'
      exact ⟨front, parts', back ++ js, by simp, hparts', hfront, by simp⟩

end Entry

section Merged

variable {cx : Context} {included included' : SeenSet Url} {m : Merged} {warnings : List Warning}

/-- A chunk exports what its entry files do. An exported `import x = …` is exported under its final
name. What is looked for in other files is exported where it is found for sure, and what an entry
exports by itself wherever the entry is inlined with its exports. -/
structure ExportsSurface (cx : Context) (earlier : SeenSet Url) (m : Merged) : Prop where
  only : ∀ name ∈ namesOf m.exports,
    ∃ f ∈ cx.entryFiles, cx.Surface f name ∨ TakenAlias cx m.names f name
  offered : ∀ f ∈ cx.entryFiles, ∀ g name, cx.Offers f true g name →
    ¬Dead cx earlier f true name → KeepsAlias cx m.names f name → name ∈ namesOf m.exports
  own : ∀ before f after, cx.entryFiles = before ++ f :: after → earlier.contains f = false →
    (∀ e ∈ before, ¬Relation.ReflTransGen cx.Links e f) → ∀ i ∈ cx.written f,
      ∀ name ∈ ownNames i, KeepsAlias cx m.names f name → name ∈ namesOf m.exports

theorem exports_of_entries (h : mergeChunk? cx included = some (m, included', warnings)) :
    ExportsSurface cx included m := by
  obtain ⟨is, his, hexports⟩ := entries_of_mergeChunk? h
  have hmem {name : String} (hn : name ∈ namesOf (directExportsOf is) ∨
      name ∈ namesOf (listExportsOf is)) : name ∈ namesOf m.exports := by
    obtain ⟨b, hb⟩ := exists_stays hn
    exact List.mem_map.2 ⟨_, (hexports _).2 hb, rfl⟩
  refine ⟨fun name hname => ?_, fun f hf g name hg hl hk => hmem (his.offered hf hk hg hl), ?_⟩
  · obtain ⟨e, he, rfl⟩ := List.mem_map.1 hname
    cases (hexports e).1 he with
    | direct he => exact his.surface (Or.inl he)
    | listed _ he => exact his.surface (Or.inr (mem_of_firstExport? he).1)
  · intro before f after hfiles hnew hfirst i hi name hname hk
    obtain ⟨front, parts, back, rfl, hparts, _, _⟩ := his.printed_part hfiles hnew hfirst
    have hown : name ∈ (cx.statements f).flatMap ownNames := by
      rw [Context.ownNames_statements]
      exact List.mem_flatMap.2 ⟨i, hi, hname⟩
    obtain ⟨j, hj, hxj⟩ := List.mem_flatMap.1 hown
    obtain ⟨e, he, rfl⟩ := List.mem_map.1 hxj
    obtain ⟨part, hpart, hexposure⟩ := forall₂_mem_left hparts hj
    have hpromised := mem_names_flatten hpart (hexposure.promised hj hk (.own he))
    refine hmem ?_
    simp only [directExportsOf_append, listExportsOf_append, namesOf_append, List.mem_append]
    tauto

/-- `/b.d.ts` imports a class under another name, declares one of the class's name itself, and
exports both. -/
def exportingBoth : Context := .ofFiles
  [("/a.d.ts", [.exportDecl (emptyClass "Item")]),
    ("/b.d.ts", [.importDecl (oneImport "Item" "X" "/a.d.ts").1, .exportDecl (emptyClass "Item"),
      Exports.list [Exports.specifier "X" "Other"]])]

set_option maxRecDepth 100000 in
theorem exports_of_entries_both :
    (mergeChunk? exportingBoth ∅).map (fun r => r.1.exports) =
        some [("Item", .here "Item"), ("Other", .here "Item_1")] ∧
      ∃ m included' warnings, mergeChunk? exportingBoth ∅ = some (m, included', warnings) ∧
        ExportsSurface exportingBoth ∅ m ∧ "Other" ∈ namesOf m.exports := by
  have hsome : (mergeChunk? exportingBoth ∅).isSome := by decide +kernel
  obtain ⟨⟨m, included', warnings⟩, hm⟩ := Option.isSome_iff_exists.1 hsome
  have hsurface := exports_of_entries hm
  have hentry : exportingBoth.entryFiles = [] ++ .ofPath "/b.d.ts" :: [] := by decide +kernel
  have hstatements : exportingBoth.statements (.ofPath "/b.d.ts") =
      [.exportDecl (emptyClass "Item"), Exports.list [Exports.specifier "X" "Other"]] := rfl
  have hwritten : exportingBoth.written (.ofPath "/b.d.ts") =
      [.importDecl (oneImport "Item" "X" "/a.d.ts").1, .exportDecl (emptyClass "Item"),
        Exports.list [Exports.specifier "X" "Other"]] := rfl
  have hlist : Exports.list [Exports.specifier "X" "Other"] ∈
      exportingBoth.written (.ofPath "/b.d.ts") := by simp [hwritten]
  exact ⟨by decide +kernel, m, included', warnings, hm, hsurface,
    hsurface.own _ _ _ hentry (by decide) (by simp) _ hlist "Other" (by decide)
      (fun d hd => by simp [hstatements, Exports.list] at hd)⟩

/-- `/b.d.ts`, the entry, hands on the default export of `/a.d.ts`, which is a value. -/
def handingOnValue : Context := .ofFiles
  [("/a.d.ts", [.decl (emptyClass "N"), .exportDefaultExpr (.member (.ident "N") false "x")]),
    ("/b.d.ts", [.exportList ⟨[.named (.word "default") none false],
      some (StrLit.made "/a.d.ts"), false, none⟩])]

set_option maxRecDepth 100000 in
/-- The entry exports a default, and its chunk does not. -/
theorem export_dropped :
    ¬∀ m included' warnings, mergeChunk? handingOnValue ∅ = some (m, included', warnings) →
      ∀ name, name ∈ namesOf m.exports ↔
        ∃ f ∈ handingOnValue.entryFiles, handingOnValue.Surface f name := by
  intro hexact
  have hcheck : (mergeChunk? handingOnValue ∅).any
      (fun r => !decide ("default" ∈ namesOf r.1.exports)) := by decide +kernel
  obtain ⟨⟨m, included', warnings⟩, hm, hr⟩ := (Option.any_eq_true _ _).1 hcheck
  have hwritten : handingOnValue.written (.ofPath "/a.d.ts") =
      [.decl (emptyClass "N"), .exportDefaultExpr (.member (.ident "N") false "x")] := rfl
  have hwritten' : handingOnValue.written (.ofPath "/b.d.ts") =
      [.exportList ⟨[.named (.word "default") none false], some (StrLit.made "/a.d.ts"), false,
        none⟩] := rfl
  have hvalue : handingOnValue.Gives true (.ofPath "/a.d.ts") "default" :=
    .own (hwritten ▸ List.mem_cons_of_mem _ List.mem_cons_self) (by decide)
  have hgives : handingOnValue.Gives false (.ofPath "/b.d.ts") "default" :=
    .taken (hwritten' ▸ List.mem_cons_self) rfl List.mem_cons_self (by decide +kernel) hvalue
  have hsurface : ∃ f ∈ handingOnValue.entryFiles, handingOnValue.Surface f "default" :=
    ⟨.ofPath "/b.d.ts", by decide +kernel, _, .refl, fun _ => rfl, hgives⟩
  have hexported := (hexact m included' warnings hm "default").2 hsurface
  simp [hexported] at hr

end Merged

end AmbientBundle.Merge
