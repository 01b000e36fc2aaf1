import AmbientBundle.Names.Fresh
import Mathlib.Data.List.Nodup
import Mathlib.Data.List.Perm.Subperm
import Std.Data.String.ToNat
/-!
A fresh name is not taken, and it is the wanted name, with an underscore where it is reserved, or
a numbered form of that.
-/
namespace AmbientBundle.Names

theorem numbered_injective (base : String) : Function.Injective (numbered base) := by
  intro i j h
  have hl := congrArg (fun s => s.toList.length) h
  cases i with
  | zero =>
    cases j with
    | zero => rfl
    | succ j => simp [numbered] at hl
  | succ i =>
    cases j with
    | zero => simp [numbered] at hl
    | succ j =>
      have hd := congrArg String.toList h
      simp only [numbered, String.toList_append] at hd
      have hr : toString (i + 1) = toString (j + 1) :=
        String.toList_injective (List.append_cancel_left hd)
      exact Nat.repr_injective hr

/-- The search goes on as long as the forms are taken and the bound allows. -/
theorem seek_cases (taken : List String) (base : String) (bound k : Nat) :
    ∃ j, k ≤ j ∧ j ≤ k + bound ∧ seek taken base bound k = numbered base j ∧
      (∀ i, k ≤ i → i < j → numbered base i ∈ taken) ∧
        (numbered base j ∈ taken → j = k + bound) := by
  induction bound generalizing k with
  | zero => exact ⟨k, Nat.le_refl k, Nat.le_refl k, rfl, fun i hi hk => by omega, fun _ => rfl⟩
  | succ bound ih =>
    rw [seek]
    split
    · rename_i hk
      obtain ⟨j, hkj, hj, heq, hleast, hlast⟩ := ih (k + 1)
      refine ⟨j, by omega, by omega, heq, fun i hi hij => ?_, fun hmem => ?_⟩
      · rcases Nat.eq_or_lt_of_le hi with rfl | hi
        · simpa using hk
        · exact hleast i hi hij
      · have hj := hlast hmem
        omega
    · rename_i hk
      exact ⟨k, Nat.le_refl k, by omega, rfl, fun i hi hk => by omega,
        fun hmem => absurd (by simpa using hmem) hk⟩

theorem fresh_eq_numbered (taken : List String) (wanted : String) :
    ∃ k, fresh taken wanted = numbered (unreserved wanted) k := by
  obtain ⟨j, -, -, heq, -⟩ := seek_cases taken (unreserved wanted) taken.length 0
  exact ⟨j, heq⟩

/-- Of one more forms than there are taken names, one is free. -/
theorem fresh_not_mem (taken : List String) (wanted : String) : fresh taken wanted ∉ taken := by
  intro h
  obtain ⟨j, -, -, heq, hleast, hlast⟩ := seek_cases taken (unreserved wanted) taken.length 0
  have hmem : numbered (unreserved wanted) j ∈ taken := heq ▸ h
  have hj := hlast hmem
  have hn : ((List.range (taken.length + 1)).map (numbered (unreserved wanted))).Nodup :=
    List.nodup_range.map (numbered_injective (unreserved wanted))
  have hs : (List.range (taken.length + 1)).map (numbered (unreserved wanted)) ⊆ taken := by
    intro x hx
    obtain ⟨i, hi, rfl⟩ := List.mem_map.1 hx
    have hij : i ≤ j := by
      have hi' := List.mem_range.1 hi
      omega
    rcases Nat.eq_or_lt_of_le hij with rfl | hij
    · exact hmem
    · exact hleast i (Nat.zero_le i) hij
  have hle := (List.subperm_of_subset hn hs).length_le
  rw [List.length_map, List.length_range] at hle
  omega

/-- No reserved word is made up. -/
theorem isReserved_fresh (taken : List String) (wanted : String) :
    isReserved (fresh taken wanted) = false := by
  have hwords : ∀ w ∈ reservedWords, '_' ∉ w.toList := by decide
  have hmark : ∀ x : String, '_' ∈ x.toList → isReserved x = false := by
    intro x hx
    rw [isReserved, Bool.eq_false_iff]
    exact fun hr => hwords x (by simpa using hr) hx
  obtain ⟨k, hk⟩ := fresh_eq_numbered taken wanted
  rw [hk]
  cases k with
  | zero =>
    rw [numbered, unreserved]
    split
    · exact hmark _ (by simp)
    · rename_i hr
      simpa using hr
  | succ k => exact hmark _ (by simp [numbered])

end AmbientBundle.Names
