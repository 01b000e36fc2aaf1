import AmbientBundle.Proofs.Rename.Identity
import AmbientBundle.Proofs.Rename.Scopes
import AmbientBundle.Proofs.Syntax.LinkedIdentifiers
/-!
The names of the identifiers of a statement, wherever they stand in it. Renaming, linking import types
and changing modifiers brings in the names that these are given and no others.
-/
namespace AmbientBundle.Syntax

open Rename ImportTypes

/-- The names of the identifiers that a statement holds. Of import types the first names behind them
are listed once more, since in the computed name of an enum's member they have no place. -/
def Item.identifiers (i : Item) : List String :=
  (i.occurrences .top).map Occurrence.name ++ (i.collect pickKey).filterMap ImportTypeKey.head

def ExportName.quoted : ExportName → List String
  | .word _ => []
  | .str lit => [lit.value]

def ImportSpecifier.quoted : ImportSpecifier → List String
  | .named imported _ _ => imported.toList.flatMap ExportName.quoted
  | .default _ => []
  | .all _ => []

def ExportSpecifier.quoted : ExportSpecifier → List String
  | .named orig exported _ => orig.quoted ++ exported.toList.flatMap ExportName.quoted
  | .all name => name.quoted

/-- The names that a statement imports or exports as strings. -/
def Item.quoted : Item → List String
  | .importDecl d => d.specifiers.flatMap ImportSpecifier.quoted
  | .exportList d => d.specifiers.flatMap ExportSpecifier.quoted
  | _ => []

/-- The specifier has the name, as an identifier or as a string. -/
def ExportSpecifier.Holds (s : ExportSpecifier) (x : String) : Prop :=
  (∃ o ∈ s.occurrences .top, o.name = x) ∨ x ∈ s.quoted

def ImportSpecifier.Holds (s : ImportSpecifier) (x : String) : Prop :=
  (∃ o ∈ s.occurrences .top, o.name = x) ∨ x ∈ s.quoted

section Specifiers

theorem ExportName.text_mem (n : ExportName) :
    (∃ o ∈ n.occurrences .top, o.name = n.text) ∨ n.text ∈ n.quoted := by
  cases n with
  | word text => exact Or.inl ⟨_, List.mem_singleton_self _, rfl⟩
  | str lit => exact Or.inr (List.mem_singleton_self _)

theorem ExportSpecifier.holds_orig (orig : ExportName) (exported : Option ExportName)
    (typeOnly : Bool) : (ExportSpecifier.named orig exported typeOnly).Holds orig.text := by
  cases orig with
  | word name => exact Or.inl ⟨_, List.mem_cons_self, rfl⟩
  | str lit => exact Or.inr (List.mem_append_left _ (List.mem_singleton_self _))

theorem ExportSpecifier.holds_exported (orig : ExportName) (exported : Option ExportName)
    (typeOnly : Bool) :
    (ExportSpecifier.named orig exported typeOnly).Holds (exported.getD orig).text := by
  cases exported with
  | none => exact ExportSpecifier.holds_orig orig none typeOnly
  | some n =>
    rcases n.text_mem with ⟨o, ho, hname⟩ | h
    · refine Or.inl ⟨o, ?_, hname⟩
      cases orig with
      | word name => exact List.mem_cons_of_mem _ ho
      | str lit => exact List.mem_flatMap.2 ⟨n, List.mem_singleton_self n, ho⟩
    · exact Or.inr (List.mem_append_right _ (List.mem_flatMap.2 ⟨n, List.mem_singleton_self n, h⟩))

theorem ImportSpecifier.holds_loc (s : ImportSpecifier) : s.Holds s.loc := by
  cases s with
  | named imported loc typeOnly =>
    exact Or.inl ⟨_, List.mem_append_right _ (List.mem_singleton_self _), rfl⟩
  | default loc => exact Or.inl ⟨_, List.mem_singleton_self _, rfl⟩
  | all loc => exact Or.inl ⟨_, List.mem_singleton_self _, rfl⟩

theorem ImportSpecifier.holds_imported (n : ExportName) (loc : String) (typeOnly : Bool) :
    (ImportSpecifier.named (some n) loc typeOnly).Holds n.text := by
  rcases n.text_mem with ⟨o, ho, hname⟩ | h
  · have hmem := List.mem_flatMap.2 ⟨n, List.mem_singleton_self n, ho⟩
    exact Or.inl ⟨o, List.mem_append_left _ hmem, hname⟩
  · exact Or.inr (List.mem_flatMap.2 ⟨n, List.mem_singleton_self n, h⟩)

end Specifiers

section Names

variable {i : Item} {x : String}

theorem Item.mem_identifiers : x ∈ i.identifiers ↔ (∃ o ∈ i.occurrences .top, o.name = x) ∨
    ∃ key ∈ i.collect pickKey, key.head = some x := by
  simp [Item.identifiers]

/-- The identifiers of a statement have the same names wherever the statement stands. -/
theorem Item.exists_name_place (a a' : Place) {o : Occurrence} (ho : o ∈ i.occurrences a') :
    ∃ o' ∈ i.occurrences a, o'.name = o.name := by
  have hcovers := Item.occurrences_link (τ := noTargets) i a a'
  rw [Item.link_none] at hcovers
  rcases hcovers o ho with ⟨key, hkey⟩ | ⟨o', ho', hsame⟩
  · cases hkey
  · exact ⟨o', ho', hsame.symm⟩

theorem exists_of_mem_itemsOccurrences {is : List Item} {a : Place} {o : Occurrence}
    (ho : o ∈ itemsOccurrences a is) : ∃ i ∈ is, o ∈ i.occurrences a := by
  induction is with
  | nil => cases ho
  | cons i is ih =>
    rw [itemsOccurrences] at ho
    rcases List.mem_append.1 ho with ho | ho
    · exact ⟨i, List.mem_cons_self, ho⟩
    · obtain ⟨j, hj, hoj⟩ := ih ho
      exact ⟨j, List.mem_cons_of_mem _ hj, hoj⟩

theorem Occurrence.name_rename (ρ : Renaming) (o : Occurrence) :
    (o.rename ρ).name = o.name ∨ (o.rename ρ).name = ρ o.name := by
  unfold Occurrence.rename hide
  split
  · dsimp only
    split
    · exact Or.inl rfl
    · exact Or.inr rfl
  · exact Or.inl rfl

/-- Renaming brings in new names only. -/
theorem Item.identifiers_rename (ρ : Renaming) (h : x ∈ (i.rename ρ).identifiers) :
    x ∈ i.identifiers ∨ ∃ y ∈ i.identifiers, x = ρ y := by
  rcases Item.mem_identifiers.1 h with ⟨o, ho, rfl⟩ | ⟨key, hkey, hhead⟩
  · have hmap := Item.occurrences_rename ρ [] i
    rw [hide_nil] at hmap
    rw [Place.top, hmap] at ho
    obtain ⟨o', ho', rfl⟩ := List.mem_map.1 ho
    have hold : o'.name ∈ i.identifiers := Item.mem_identifiers.2 (Or.inl ⟨o', ho', rfl⟩)
    rcases Occurrence.name_rename ρ o' with hname | hname
    · exact Or.inl (hname ▸ hold)
    · exact Or.inr ⟨_, hold, hname⟩
  · rw [Item.collect_rename pickKey_blind] at hkey
    exact Or.inl (Item.mem_identifiers.2 (Or.inr ⟨key, hkey, hhead⟩))

/-- Linking brings in bindings only. -/
theorem Item.identifiers_link (τ : Targets) (h : x ∈ (i.link τ).identifiers) :
    x ∈ i.identifiers ∨ ∃ key, τ key = some (.binding x) := by
  rcases Item.mem_identifiers.1 h with ⟨o, ho, rfl⟩ | ⟨key, hkey, hhead⟩
  · rcases Item.occurrences_link i .top .top o ho with hplace | ⟨o', ho', hsame⟩
    · exact Or.inr hplace
    · exact Or.inl (Item.mem_identifiers.2 (Or.inl ⟨o', ho', hsame.symm⟩))
  · obtain ⟨key', hkey', hleaves⟩ := (Item.keys_link τ i key hkey).resolve_left id
    exact Or.inl (Item.mem_identifiers.2 (Or.inr ⟨key', hkey', hleaves.head.symm.trans hhead⟩))

end Names

section Modifier

open Declare

theorem Decl.occurrences_setModifier (a : Place) (declare : Bool) (d : Decl) :
    (setModifier declare d).occurrences a = d.occurrences a := by
  cases d with
  | space old name inner body => cases name <;> simp [setModifier, Decl.occurrences]
  | _ => simp [setModifier, Decl.occurrences]

theorem Decl.occurrences_ensure (a : Place) (declare : Bool) (d : Decl) :
    (ensure declare d).occurrences a = d.occurrences a :=
  ensure_keeps (Decl.occurrences_setModifier a declare) d

@[simp] theorem Item.occurrences_ofDecl (a : Place) (isExport : Bool) (d : Decl) :
    (Item.ofDecl isExport d).occurrences a = d.occurrences a := by
  cases isExport <;> simp [Item.ofDecl, Item.occurrences]

/-- The modifier of a declaration is no identifier, nor is `export`. -/
theorem Item.identifiers_ensure (isExport isExport' declare : Bool) (d : Decl) :
    (Item.ofDecl isExport' (ensure declare d)).identifiers = (Item.ofDecl isExport d).identifiers := by
  simp only [Item.identifiers, Item.occurrences_ofDecl, Item.collect_ofDecl,
    Decl.occurrences_ensure, Decl.keys_ensure]

end Modifier

section Declared

variable {id : Ident}

mutual

theorem Pat.name_bound (p : Pat) (a : Place) (declares : Bool) (h : id ∈ p.bound) :
    ∃ o ∈ p.occurrences a declares, o.name = id.name := by
  cases p with
  | ident id' isOptional ann =>
    simp only [Pat.bound, List.mem_singleton] at h
    subst h
    simp only [Pat.occurrences]
    exact ⟨_, List.mem_cons_self, rfl⟩
  | hole => simp [Pat.bound] at h
  | array elems isOptional ann =>
    simp only [Pat.bound] at h
    obtain ⟨o, ho, hname⟩ := pats_name_bound elems a declares h
    simp only [Pat.occurrences]
    exact ⟨o, List.mem_append_left _ ho, hname⟩
  | object fields isOptional ann =>
    simp only [Pat.bound] at h
    obtain ⟨o, ho, hname⟩ := fields_name_bound fields a declares h
    simp only [Pat.occurrences]
    exact ⟨o, List.mem_append_left _ ho, hname⟩
  | rest arg ann =>
    simp only [Pat.bound] at h
    obtain ⟨o, ho, hname⟩ := Pat.name_bound arg a declares h
    simp only [Pat.occurrences]
    exact ⟨o, List.mem_append_left _ ho, hname⟩
  | assign left right =>
    simp only [Pat.bound] at h
    obtain ⟨o, ho, hname⟩ := Pat.name_bound left a declares h
    simp only [Pat.occurrences]
    exact ⟨o, List.mem_append_left _ ho, hname⟩

theorem pats_name_bound (ps : List Pat) (a : Place) (declares : Bool) (h : id ∈ patsBound ps) :
    ∃ o ∈ patsOccurrences a declares ps, o.name = id.name := by
  cases ps with
  | nil => simp [patsBound] at h
  | cons p ps =>
    simp only [patsBound] at h
    simp only [patsOccurrences]
    rcases List.mem_append.1 h with h | h
    · obtain ⟨o, ho, hname⟩ := Pat.name_bound p a declares h
      exact ⟨o, List.mem_append_left _ ho, hname⟩
    · obtain ⟨o, ho, hname⟩ := pats_name_bound ps a declares h
      exact ⟨o, List.mem_append_right _ ho, hname⟩

theorem Field.name_bound (f : Field) (a : Place) (declares : Bool) (h : id ∈ f.bound) :
    ∃ o ∈ f.occurrences a declares, o.name = id.name := by
  cases f with
  | keyed key value =>
    simp only [Field.bound] at h
    obtain ⟨o, ho, hname⟩ := Pat.name_bound value a declares h
    simp only [Field.occurrences]
    exact ⟨o, List.mem_append_right _ ho, hname⟩
  | short id' default =>
    simp only [Field.bound, List.mem_singleton] at h
    subst h
    simp only [Field.occurrences]
    exact ⟨_, List.mem_cons_self, rfl⟩
  | rest arg =>
    simp only [Field.bound] at h
    simp only [Field.occurrences]
    exact Pat.name_bound arg a declares h

theorem fields_name_bound (fs : List Field) (a : Place) (declares : Bool) (h : id ∈ fieldsBound fs) :
    ∃ o ∈ fieldsOccurrences a declares fs, o.name = id.name := by
  cases fs with
  | nil => simp [fieldsBound] at h
  | cons f fs =>
    simp only [fieldsBound] at h
    simp only [fieldsOccurrences]
    rcases List.mem_append.1 h with h | h
    · obtain ⟨o, ho, hname⟩ := Field.name_bound f a declares h
      exact ⟨o, List.mem_append_left _ ho, hname⟩
    · obtain ⟨o, ho, hname⟩ := fields_name_bound fs a declares h
      exact ⟨o, List.mem_append_right _ ho, hname⟩

end

theorem declarators_name_bound (ds : List Declarator) (a : Place)
    (h : id ∈ ds.flatMap (fun d => d.pat.bound)) :
    ∃ o ∈ ds.flatMap (Declarator.occurrences a), o.name = id.name := by
  obtain ⟨d, hd, hid⟩ := List.mem_flatMap.1 h
  obtain ⟨o, ho, hname⟩ := Pat.name_bound d.pat a true hid
  exact ⟨o, List.mem_flatMap.2 ⟨d, hd, List.mem_append_left _ ho⟩, hname⟩

theorem Decl.name_bound (d : Decl) (a : Place) (h : id ∈ d.bound) :
    ∃ o ∈ d.occurrences a, o.name = id.name := by
  cases d with
  | var kind declare decls =>
    simp only [Decl.occurrences]
    exact declarators_name_bound decls a h
  | resource isAwait decls =>
    simp only [Decl.occurrences]
    exact declarators_name_bound decls a h
  | space declare name inner body =>
    cases name with
    | ident id' =>
      obtain rfl := List.mem_singleton.1 h
      simp only [Decl.occurrences]
      exact ⟨_, List.mem_append_left _ (List.mem_append_left _ (List.mem_singleton_self _)), rfl⟩
    | str lit => cases h
    | global => cases h
  | interface body =>
    obtain rfl := List.mem_singleton.1 h
    simp only [Decl.occurrences]
    exact ⟨_, List.mem_cons_self, rfl⟩
  | _ =>
    obtain rfl := List.mem_singleton.1 h
    simp only [Decl.occurrences]
    exact ⟨_, List.mem_cons_self, rfl⟩

/-- A statement holds the names that it declares. -/
theorem Item.name_declared {i : Item} (h : id ∈ i.declared) : id.name ∈ i.identifiers := by
  refine Item.mem_identifiers.2 (Or.inl ?_)
  cases i with
  | decl d =>
    simp only [Item.occurrences]
    exact Decl.name_bound d _ h
  | exportDecl d =>
    simp only [Item.occurrences]
    exact Decl.name_bound d _ h
  | exportDefaultDecl d =>
    have hnamed (name : DefaultName) (hid : id ∈ name.ident?.toList) :
        (⟨.reference, id.name, .top⟩ : Occurrence) ∈ name.occurrences .top :=
      List.mem_map.2 ⟨id, hid, rfl⟩
    cases d with
    | cls name body => exact ⟨_, List.mem_append_left _ (hnamed name h), rfl⟩
    | func name body => exact ⟨_, List.mem_append_left _ (hnamed name h), rfl⟩
    | interface body =>
      obtain rfl : id = body.id := by simpa [Item.declared, DefaultDecl.ident?] using h
      exact ⟨_, List.mem_cons_self, rfl⟩
  | importEquals d =>
    obtain rfl := List.mem_singleton.1 h
    exact ⟨_, List.mem_cons_self, rfl⟩
  | _ => cases h

end Declared

end AmbientBundle.Syntax
