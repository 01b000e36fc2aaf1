import AmbientBundle.Merge.Exports
import AmbientBundle.Proofs.Syntax.Bound
/-!
Export lists and stars bind nothing, and dropping repeated exports changes nothing else: of an export
list some names are left, of other statements all.
-/
namespace AmbientBundle.Merge

open Syntax

def isExportStatement : Item → Bool
  | .exportList _ => true
  | .exportAll _ => true
  | _ => false

/-- An export statement binds nothing. -/
theorem binds_of_isExportStatement {i : Item} (h : isExportStatement i = true) :
    i.binds = [] := by
  cases i with
  | exportList d => rfl
  | exportAll d => rfl
  | _ => cases h

/-- A surface is written down by export statements. -/
theorem isExportStatement_of_mem_items {sf : Surface} {i : Item} (h : i ∈ sf.items) :
    isExportStatement i = true := by
  unfold Surface.items at h
  rcases List.mem_append.1 h with h | h
  · split at h
    · cases h
    · rw [List.mem_singleton.1 h]
      rfl
  · obtain ⟨star, _, rfl⟩ := List.mem_map.1 h
    rfl

theorem newSpecifiers_subset (names : List String) (ss : List ExportSpecifier) :
    (newSpecifiers names ss).1 ⊆ ss := by
  induction ss generalizing names with
  | nil => exact List.Subset.refl _
  | cons s ss ih =>
    simp only [newSpecifiers]
    split
    · exact List.subset_cons_of_subset s (ih names)
    · exact List.cons_subset_cons s (ih _)

/-- What is left of a statement by dropping repeated exports: all of it, or an export list of some
of its names. -/
inductive LeftOf : Item → Item → Prop where
  | all (i : Item) : LeftOf i i
  | fewer {d : ExportList} {ss : List ExportSpecifier} (h : ss ⊆ d.specifiers) :
      LeftOf (.exportList d) (.exportList { d with specifiers := ss })

theorem leftOf_keepNew {seen : Exported} {i j : Item} (h : j ∈ (keepNew seen i).1.toList) :
    LeftOf i j := by
  cases i with
  | exportList d =>
    simp only [keepNew] at h
    split at h
    · split at h
      · exact List.mem_singleton.1 h ▸ .all _
      · split at h
        · cases h
        · exact List.mem_singleton.1 h ▸ .all _
    · dsimp only at h
      split at h
      · cases h
      · exact List.mem_singleton.1 h ▸ .fewer (newSpecifiers_subset _ _)
  | exportAll d =>
    simp only [keepNew] at h
    split at h
    · cases h
    · exact List.mem_singleton.1 h ▸ .all _
  | _ => exact List.mem_singleton.1 h ▸ .all _

theorem LeftOf.cases {i j : Item} (h : LeftOf i j) :
    j = i ∨ isExportStatement i = true ∧ isExportStatement j = true := by
  cases h with
  | all => exact Or.inl rfl
  | fewer => exact Or.inr ⟨rfl, rfl⟩

theorem mem_keepNew {seen : Exported} {i j : Item} (h : j ∈ (keepNew seen i).1.toList) :
    j = i ∨ isExportStatement i = true ∧ isExportStatement j = true :=
  (leftOf_keepNew h).cases

theorem leftOf_keepNewAll {seen : Exported} {ps : List Piece} {p : Piece}
    (h : p ∈ keepNewAll seen ps) : ∃ q ∈ ps, q.owner = p.owner ∧ LeftOf q.item p.item := by
  induction ps generalizing seen with
  | nil => cases h
  | cons q ps ih =>
    rw [keepNewAll] at h
    rcases List.mem_append.1 h with h | h
    · obtain ⟨i, hi, rfl⟩ := List.mem_map.1 h
      exact ⟨q, by simp, rfl, leftOf_keepNew hi⟩
    · obtain ⟨q', hq', hrest⟩ := ih h
      exact ⟨q', List.mem_cons_of_mem q hq', hrest⟩

theorem mem_keepNewAll {seen : Exported} {ps : List Piece} {p : Piece}
    (h : p ∈ keepNewAll seen ps) : ∃ q ∈ ps, q.owner = p.owner ∧
      (p.item = q.item ∨ isExportStatement q.item = true ∧ isExportStatement p.item = true) := by
  obtain ⟨q, hq, howner, hleft⟩ := leftOf_keepNewAll h
  exact ⟨q, hq, howner, hleft.cases⟩

/-- A statement that exports nothing by lists stays. -/
theorem keepNew_of_not_isExportStatement {seen : Exported} {i : Item}
    (h : isExportStatement i = false) : keepNew seen i = (some i, seen) := by
  cases i with
  | exportList d => cases h
  | exportAll d => cases h
  | _ => rfl

end AmbientBundle.Merge
