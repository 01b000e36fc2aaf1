import AmbientBundle.Proofs.Exports.Promotion
import AmbientBundle.Proofs.Merge.Context
import AmbientBundle.Proofs.Names.Recorded
/-!
The places of declarations in an export table. When a file's declarations are bound, each of these
places comes on record, and on record is the final name of what the symbol exports.
-/
namespace AmbientBundle.Exports

open Names Syntax

variable {origin : Url} {items : List Item} {name property : String} {src : Option String}
  {id : DeclId}

/-- Naming the nameless default exports makes declarations of all that the file knows. -/
theorem declared_nameDefaults (origin : Url) (items : List Item) :
    (Merge.nameDefaults origin items).flatMap Item.declared = items.flatMap (knownAs origin) := by
  unfold Merge.nameDefaults
  rw [List.flatMap_assoc]
  refine List.flatMap_congr (fun i _ => ?_)
  split
  · exact (promoted_nodes origin i).declared
  · rename_i h
    rw [knownAs_of_named origin (Bool.eq_false_iff.2 h), List.flatMap_singleton]

/-- A symbol with a place is a declaration that starts there. -/
theorem knownAs_of_mem_ofItem {i : Item}
    (h : .named name property src (some id) ∈ ofItem origin i) :
    ∃ x ∈ knownAs origin i, property = x.name ∧ id = ⟨origin, x.start⟩ := by
  cases i with
  | exportDecl d =>
    obtain ⟨x, hx, he⟩ := List.mem_map.1 h
    cases he
    exact ⟨x, hx, rfl, rfl⟩
  | exportDefaultDecl d =>
    cases List.mem_singleton.1 h
    exact ⟨_, List.mem_singleton_self _, rfl, rfl⟩
  | importEquals d =>
    simp only [ofItem] at h
    split at h
    · cases List.mem_singleton.1 h
      exact ⟨d.id, List.mem_singleton_self _, rfl, rfl⟩
    · cases h
  | exportList d =>
    obtain ⟨sp, -, he⟩ := List.mem_filterMap.1 h
    cases sp with
    | named orig exported typeOnly => cases he
    | all name => cases hsrc : d.src <;> simp [ofSpecifier, hsrc] at he
  | exportAll d => cases List.mem_singleton.1 h
  | exportDefaultExpr e =>
    cases e with
    | ident x => cases List.mem_singleton.1 h
    | _ => cases h
  | _ => cases h

/-- On record for each symbol with a place is the final name that what it exports has in its file.
Declarations of one name have one final name. -/
structure TableOnRecord (origin : Url) (items : List Item) (p : Environment × Bindings) : Prop where
  symbols : ∀ name property src id, .named name property src (some id) ∈ table origin items →
    ∃ v, p.2.get? id = some v ∧ p.1.lookup origin property = some v
  repeated : ∀ a ∈ (Merge.nameDefaults origin items).flatMap Item.declared,
    ∀ b ∈ (Merge.nameDefaults origin items).flatMap Item.declared, a.name = b.name →
      ∃ v, p.2.get? ⟨origin, a.start⟩ = some v ∧ p.2.get? ⟨origin, b.start⟩ = some v

/-- When the declarations of a file are bound, its export table is on record, whatever names there
were before. -/
theorem table_recorded (env : Environment) (bs : Bindings)
    (hstarts : StartsApart ((Merge.nameDefaults origin items).flatMap Item.declared)) :
    TableOnRecord origin items
      (bindDeclarations (Merge.nameDefaults origin items) origin env bs) := by
  have hrecorded : Recorded origin ((Merge.nameDefaults origin items).flatMap Item.declared ++ [])
      (bindDeclarations (Merge.nameDefaults origin items) origin env bs) :=
    Recorded.bindIdents (fun _ hid => (nomatch hid)) (by rwa [List.append_nil])
  rw [List.append_nil] at hrecorded
  refine ⟨fun name property src id hs => ?_, fun a ha b hb hname => ?_⟩
  · obtain ⟨i, hi, hs⟩ := List.mem_flatMap.1 hs
    obtain ⟨x, hx, rfl, rfl⟩ := knownAs_of_mem_ofItem hs
    -- what the table knows a nameless default export by is declared once it is named
    have hdeclared : x ∈ (Merge.nameDefaults origin items).flatMap Item.declared := by
      rw [declared_nameDefaults]
      exact List.mem_flatMap.2 ⟨i, hi, hx⟩
    obtain ⟨v, hinner, hget⟩ := hrecorded x hdeclared
    exact ⟨v, hget, by rw [Environment.lookup_eq_or, hinner, Option.some_or]⟩
  · obtain ⟨v, hv, hget⟩ := hrecorded a ha
    obtain ⟨w, hw, hget'⟩ := hrecorded b hb
    rw [← hname, hv] at hw
    exact ⟨v, hget, hw ▸ hget'⟩

/-- A class merged with a namespace, a nameless class and an exported alias. -/
def mergedClass : List Item :=
  [.exportDecl (.cls ⟨"Box", 13⟩ true ⟨false, [], none, [], []⟩),
    .exportDecl (.space true (.ident ⟨"Box", 44⟩) [] (some [])),
    .exportDefaultDecl (.cls (.anonymous 66) ⟨false, [], none, [], []⟩),
    .importEquals ⟨true, false, ⟨"Alias", 91⟩, .entity ⟨"Box", []⟩⟩]

/-- Its declarations as they are bound where another file owns the name `Box`. -/
def mergedClassNames : Environment × Bindings :=
  bindDeclarations (Merge.nameDefaults (.ofPath "/box.d.ts") mergedClass) (.ofPath "/box.d.ts")
    (Environment.empty.bind (.ofPath "/a.d.ts") "Box" "Box") ∅

theorem table_recorded_mergedClass :
    StartsApart ((Merge.nameDefaults (.ofPath "/box.d.ts") mergedClass).flatMap Item.declared) ∧
      mergedClassNames.2.entries.map Prod.snd = ["Box_1", "Box_1", "boxClass", "Alias"] ∧
      TableOnRecord (.ofPath "/box.d.ts") mergedClass mergedClassNames :=
  ⟨by decide +kernel, by decide +kernel, table_recorded _ _ (by decide +kernel)⟩

end AmbientBundle.Exports
