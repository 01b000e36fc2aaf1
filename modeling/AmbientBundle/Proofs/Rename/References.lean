import AmbientBundle.Proofs.Names.Uses
import AmbientBundle.Proofs.Rename.Scopes
/-!
What renaming a file does to its references. It keeps what is bound around an identifier and what
stands there by itself, and looks up every other reference. So a reference to a declaration of the
file follows the declaration to its final name, unless a binder around it binds a name that was
made up for the declaration: new names are chosen among those of the chunk alone.
-/
namespace AmbientBundle.Rename

open Syntax Names

/-- How an identifier of a file reads behind the renaming that an environment prescribes. -/
structure Follows (env : Environment) (origin : Url) (o o' : Occurrence) : Prop where
  kind : o'.kind = o.kind
  place : o'.place = o.place
  fixed : o.kind = .binder ∨ o.kind = .label ∨ o.kind = .parameter ∧ o.place.inPattern = false →
    o'.name = o.name
  bound : o.kind = .reference → o.name ∈ o.place.bound → o'.name = o.name
  free : o.kind = .reference → o.name ∉ o.place.bound →
    o'.name = (env.lookup origin o.name).getD o.name

@[simp]
theorem Occurrence.kind_rename (ρ : Renaming) (o : Occurrence) : (o.rename ρ).kind = o.kind := by
  unfold Occurrence.rename
  split <;> rfl

@[simp]
theorem Occurrence.place_rename (ρ : Renaming) (o : Occurrence) : (o.rename ρ).place = o.place := by
  unfold Occurrence.rename
  split <;> rfl

theorem Occurrence.name_rename_of_lookedUp (ρ : Renaming) {o : Occurrence}
    (h : o.isLookedUp = true) : (o.rename ρ).name = hide o.place.bound ρ o.name := by
  rw [Occurrence.rename, if_pos h]

theorem Occurrence.rename_of_not_lookedUp (ρ : Renaming) {o : Occurrence}
    (h : o.isLookedUp = false) : o.rename ρ = o := by
  rw [Occurrence.rename, if_neg (by simp [h])]

theorem follows_rename (env : Environment) (origin : Url) (o : Occurrence) :
    Follows env origin o (o.rename (ofEnvironment env origin)) where
  kind := o.kind_rename _
  place := o.place_rename _
  fixed h := by
    rw [o.rename_of_not_lookedUp]
    rcases h with h | h | ⟨h, hp⟩
    · simp [Occurrence.isLookedUp, h]
    · simp [Occurrence.isLookedUp, h]
    · simp [Occurrence.isLookedUp, h, hp]
  bound h hb := by
    rw [o.name_rename_of_lookedUp _ (by simp [Occurrence.isLookedUp, h]), hide_of_mem _ hb]
  free h hb := by
    rw [o.name_rename_of_lookedUp _ (by simp [Occurrence.isLookedUp, h]), hide_of_not_mem _ hb,
      ofEnvironment]

/-- What a file's statements read behind a renaming, identifier by identifier. -/
theorem itemsOccurrences_renamed (ρ : Renaming) (items : List Item) :
    itemsOccurrences .top (renameItems ρ items) =
      (itemsOccurrences .top items).map (Occurrence.rename ρ) := by
  simpa [Place.top] using itemsOccurrences_rename ρ [] items

/-- Renaming a file keeps its binders, parameters and labels and the references that a binder around
them binds, and it looks up all other references. -/
theorem scopes_respected (env : Environment) (origin : Url) (items : List Item) :
    List.Forall₂ (Follows env origin) (itemsOccurrences .top items)
      (itemsOccurrences .top (renameItems (ofEnvironment env origin) items)) := by
  rw [itemsOccurrences_renamed, List.forall₂_map_right_iff]
  exact List.forall₂_same.2 (fun o _ => follows_rename env origin o)

/-- Members of an enumeration are not bound in its initializers: a member's name that is also one of
the file's is looked up there. -/
theorem sibling_member_renamed : ¬∀ (env : Environment) (origin : Url)
    (members : List EnumMember) (sibling m : EnumMember) (name : String),
    sibling ∈ members → sibling.key = .word name → m ∈ members → m.init = some (.ident name) →
      EnumMember.rename (ofEnvironment env origin) m = m := by
  intro h
  have hb : (ofEnvironment (useAll fooTwice).1 (fileOf "/b.d.ts")) "Foo" = "Foo_1" := by
    decide +kernel
  have hm := h (useAll fooTwice).1 (fileOf "/b.d.ts")
    [⟨.word "Foo", some (.word "1")⟩, ⟨.word "Bar", some (.ident "Foo")⟩]
    ⟨.word "Foo", some (.word "1")⟩ ⟨.word "Bar", some (.ident "Foo")⟩ "Foo"
    (by simp) rfl (by simp) rfl
  simp [EnumMember.rename, renameExpr?, Expr.rename, hb] at hm

/-- By lexical scoping an identifier refers to what its file declares under the name. -/
structure Occurrence.RefersTo (o : Occurrence) (name : String) : Prop where
  lookedUp : o.kind = .reference ∨ o.kind = .shorthand
  reads : o.name = name
  free : name ∉ o.place.bound

/-- A reference to a declaration of a file behind the renaming. A binder around it captures it only
if it binds the name that was made up for the declaration. -/
structure KeepsReferring (us : List Use) (file : Url) (d : Ident) (o o' : Occurrence) : Prop where
  final : HasFinal us file d o'.name
  place : o'.place = o.place
  refers : o'.RefersTo o'.name ∨
    MadeUpFor us file d.name o'.name ∧ o'.name ∈ o'.place.bound

theorem mem_declaredIn {us : List Use} {file : Url} {items : List Item} {d : Ident}
    (h : Use.declare file items ∈ us) (hd : d ∈ items.flatMap Item.declared) :
    d ∈ declaredIn us file :=
  List.mem_flatMap.2 ⟨_, h, by simpa [Use.declared] using hd⟩

theorem Occurrence.RefersTo.rename {us : List Use} {file : Url} {d : Ident} {o : Occurrence}
    (hd : d ∈ declaredIn us file) (h : o.RefersTo d.name) :
    KeepsReferring us file d o (o.rename (ofEnvironment (useAll us).1 file)) := by
  obtain ⟨v, hv⟩ := Told.hasFinal us hd
  have hlooked : o.isLookedUp = true := by
    rcases h.lookedUp with hk | hk <;> simp [Occurrence.isLookedUp, hk]
  have hname : (o.rename (ofEnvironment (useAll us).1 file)).name = v := by
    rw [o.name_rename_of_lookedUp _ hlooked, h.reads, hide_of_not_mem _ h.free, ofEnvironment,
      hv.lookup, Option.getD_some]
  refine ⟨hname ▸ hv, o.place_rename _, ?_⟩
  rw [hname, o.place_rename]
  by_cases hb : v ∈ o.place.bound
  · have hne : v ≠ d.name := fun he => h.free (he ▸ hb)
    obtain ⟨hform, howner⟩ :=
      ((Told.useAll us).assigned.form file d.name v hv.lookup).resolve_left hne
    exact Or.inr ⟨⟨hv.lookup, hne, hform, howner⟩, hb⟩
  · exact Or.inl ⟨by rw [o.kind_rename]; exact h.lookedUp, hname, by rwa [o.place_rename]⟩

/-- Behind the renaming each reference of a file to one of its declarations stands under the final
name of the declaration, and it is captured only where a binder around it binds that name and the
name was made up since something else owns the declared one. -/
theorem references_follow (us : List Use) {file : Url} {items : List Item}
    (h : Use.declare file items ∈ us) :
    List.Forall₂
      (fun o o' => ∀ d ∈ items.flatMap Item.declared, o.RefersTo d.name →
        KeepsReferring us file d o o')
      (itemsOccurrences .top items)
      (itemsOccurrences .top (renameItems (ofEnvironment (useAll us).1 file) items)) := by
  rw [itemsOccurrences_renamed, List.forall₂_map_right_iff]
  exact List.forall₂_same.2 (fun o _ d hd hr => hr.rename (mem_declaredIn h hd))

/-- `declare type Foo = any;` and `declare type Box<…> = Foo;` with the given parameter. -/
def boxed (param : String) : List Item :=
  [anyType "Foo" 14,
    .decl (.typeAlias ⟨"Box", 38⟩ true [.mk [] param none none] (.ref ⟨"Foo", []⟩ []))]

/-- `/a.d.ts` declares `Foo`, and `/b.d.ts` declares `Foo` and `Box`. -/
def fooBoxed (param : String) : List Use :=
  [.declare (fileOf "/a.d.ts") [anyType "Foo" 14], .declare (fileOf "/b.d.ts") (boxed param)]

/-- The reference to `Foo` inside `Box`. -/
def inBox (name param : String) : Occurrence := ⟨.reference, name, ⟨[param], false⟩⟩

theorem occurrences_boxed (param : String) : itemsOccurrences .top (boxed param) =
    [⟨.reference, "Foo", .top⟩, ⟨.reference, "Box", .top⟩,
      ⟨.binder, param, ⟨[param], false⟩⟩, inBox "Foo" param] := rfl

theorem references_follow_box :
    Use.declare (fileOf "/b.d.ts") (boxed "T") ∈ fooBoxed "T" ∧
      (inBox "Foo" "T").RefersTo "Foo" ∧
      ∃ o', KeepsReferring (fooBoxed "T") (fileOf "/b.d.ts") ⟨"Foo", 14⟩ (inBox "Foo" "T") o' := by
  have hmem : Use.declare (fileOf "/b.d.ts") (boxed "T") ∈ fooBoxed "T" := by simp [fooBoxed]
  have hrefers : (inBox "Foo" "T").RefersTo "Foo" := ⟨Or.inl rfl, rfl, by decide⟩
  have hall := references_follow (fooBoxed "T") hmem
  rw [occurrences_boxed] at hall
  obtain ⟨o', hlast⟩ : ∃ o', KeepsReferring (fooBoxed "T") (fileOf "/b.d.ts") ⟨"Foo", 14⟩
      (inBox "Foo" "T") o' := by
    obtain ⟨_, _, _, h₁, _⟩ := List.forall₂_cons_left_iff.1 hall
    obtain ⟨_, _, _, h₂, _⟩ := List.forall₂_cons_left_iff.1 h₁
    obtain ⟨_, _, _, h₃, _⟩ := List.forall₂_cons_left_iff.1 h₂
    obtain ⟨o', _, h₄, _, _⟩ := List.forall₂_cons_left_iff.1 h₃
    exact ⟨o', h₄ ⟨"Foo", 14⟩ (by decide) hrefers⟩
  exact ⟨hmem, hrefers, o', hlast⟩

/-- `Box<Foo_1>` captures its reference to `Foo`, which is `Foo_1` in the end. -/
theorem reference_captured : ¬∀ (us : List Use) (file : Url) (items : List Item),
    Use.declare file items ∈ us →
      List.Forall₂
        (fun o o' => ∀ d ∈ items.flatMap Item.declared, o.RefersTo d.name → o'.RefersTo o'.name)
        (itemsOccurrences .top items)
        (itemsOccurrences .top (renameItems (ofEnvironment (useAll us).1 file) items)) := by
  intro h
  have hall := h (fooBoxed "Foo_1") (fileOf "/b.d.ts") (boxed "Foo_1") (by simp [fooBoxed])
  rw [itemsOccurrences_renamed, List.forall₂_map_right_iff, List.forall₂_same] at hall
  have hrefers := hall (inBox "Foo" "Foo_1") (by simp [occurrences_boxed]) ⟨"Foo", 14⟩ (by decide)
    ⟨Or.inl rfl, rfl, by decide⟩
  have hb : (ofEnvironment (useAll (fooBoxed "Foo_1")).1 (fileOf "/b.d.ts")) "Foo" = "Foo_1" := by
    decide +kernel
  have hnew : (inBox "Foo" "Foo_1").rename
      (ofEnvironment (useAll (fooBoxed "Foo_1")).1 (fileOf "/b.d.ts")) = inBox "Foo_1" "Foo_1" := by
    simp [inBox, hide, hb]
  rw [hnew] at hrefers
  exact hrefers.free (by decide)

end AmbientBundle.Rename
