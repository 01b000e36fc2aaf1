import AmbientBundle.Proofs.Merge.Formed
import AmbientBundle.Proofs.Names.Inheritance
/-!
The search for a fresh name, without a bound: the forms of the wanted name are tried one after the
other until one is not taken. Main statement: whatever the frames of an environment, or the scopes
that are asked together, the search ends, and the name that is made up is the one in which it ends,
the first form that is not taken.
-/
namespace AmbientBundle.Names

/-- `Search taken base k x`: the forms of the name are tried from the `k`-th on, and `x` is the one
in which that ends. -/
inductive Search (taken : String → Bool) (base : String) : Nat → String → Prop where
  | free {k : Nat} (h : taken (numbered base k) = false) :
      Search taken base k (numbered base k)
  | next {k : Nat} {x : String} (h : taken (numbered base k) = true)
      (rest : Search taken base (k + 1) x) : Search taken base k x

section Search

variable {taken : String → Bool} {base x y : String} {k j : Nat}

theorem Search.unique (h : Search taken base k x) (h' : Search taken base k y) : x = y := by
  induction h with
  | free h =>
    cases h' with
    | free _ => rfl
    | next ht _ => cases h.symm.trans ht
  | next h _ ih =>
    cases h' with
    | free ht => cases h.symm.trans ht
    | next _ rest => exact ih rest

/-- The search ends in a form before which all forms are taken. -/
theorem Search.of_least (hk : k ≤ j) (hfree : taken (numbered base j) = false)
    (hleast : ∀ i, k ≤ i → i < j → taken (numbered base i) = true) :
    Search taken base k (numbered base j) := by
  obtain ⟨d, rfl⟩ := Nat.exists_eq_add_of_le hk
  induction d generalizing k with
  | zero => exact .free hfree
  | succ d ih =>
    refine .next (hleast k (Nat.le_refl k) (by omega)) ?_
    have hd : k + (d + 1) = k + 1 + d := by omega
    rw [hd] at hfree hleast ⊢
    exact ih (by omega) hfree (fun i hi => hleast i (by omega))

end Search

/-- The name that is made up for a wanted one where some names are taken: it is free and not
reserved, the search for it ends and ends there, and it is the wanted name, with an underscore where
that is reserved, or the first of its numbered forms that is not taken. The number is at most that
of the names that are taken. -/
structure FirstFree (taken : String → Bool) (names : List String) (wanted x : String) : Prop where
  free : taken x = false
  legal : isReserved x = false
  ends : ∀ y, Search taken (unreserved wanted) 0 y ↔ y = x
  own : taken (unreserved wanted) = false → x = unreserved wanted
  suffixed : taken (unreserved wanted) = true → ∃ k, 1 ≤ k ∧ k ≤ names.length ∧
    x = unreserved wanted ++ "_" ++ toString k ∧
    ∀ j, 1 ≤ j → j < k → taken (unreserved wanted ++ "_" ++ toString j) = true

/-- Where finitely many names are taken a fresh name is the first one that is free. -/
theorem firstFree_fresh {taken : String → Bool} {names : List String}
    (hnames : ∀ x, taken x = true ↔ x ∈ names) (wanted : String) :
    FirstFree taken names wanted (fresh names wanted) := by
  have hfree : taken (fresh names wanted) = false := by
    rw [Bool.eq_false_iff]
    exact fun h => fresh_not_mem names wanted ((hnames _).1 h)
  obtain ⟨j, -, hj, heq, hleast, -⟩ := seek_cases names (unreserved wanted) names.length 0
  have heq : fresh names wanted = numbered (unreserved wanted) j := heq
  have htaken : ∀ i, i < j → taken (numbered (unreserved wanted) i) = true :=
    fun i hi => (hnames _).2 (hleast i (Nat.zero_le i) hi)
  have hsearch : Search taken (unreserved wanted) 0 (fresh names wanted) := by
    rw [heq] at hfree ⊢
    exact .of_least (Nat.zero_le j) hfree (fun i _ hi => htaken i hi)
  refine ⟨hfree, isReserved_fresh names wanted,
    fun y => ⟨fun h => h.unique hsearch, fun h => h ▸ hsearch⟩, fun h => ?_, fun h => ?_⟩
  · exact hsearch.unique (.free (k := 0) h)
  · cases j with
    | zero =>
      rw [heq] at hfree
      cases hfree.symm.trans h
    | succ k =>
      refine ⟨k + 1, by omega, by omega, heq, fun i hi hik => ?_⟩
      obtain ⟨i, rfl⟩ := Nat.exists_eq_add_of_le' hi
      exact htaken (i + 1) hik

end AmbientBundle.Names

namespace AmbientBundle.Merge

open Names

/-- One of the scopes owns the name in one of its frames. -/
def takenIn (scopes : List Scope) (x : String) : Bool := scopes.any (fun c => c.env.isTaken x)

theorem takenIn_iff {scopes : List Scope} {x : String} :
    takenIn scopes x = true ↔ x ∈ scopes.flatMap (fun c => c.env.takenNames) := by
  simp only [takenIn, List.any_eq_true, List.mem_flatMap, Environment.isTaken_iff,
    Environment.taken_iff_mem]

theorem State.takenNames_eq (s : State) :
    s.takenNames = s.scopes.flatMap (fun c => c.env.takenNames) := by
  simp [State.takenNames, State.scopes, List.flatMap_map]

/-- Fresh names are free, first and always found: in an environment of any frames, in any scopes
taken together, and where merging claims one in all its scopes. -/
theorem fresh_names_first (wanted : String) :
    (∀ env : Environment, FirstFree env.isTaken env.takenNames wanted (env.freshName wanted)) ∧
    (∀ scopes : List Scope, FirstFree (takenIn scopes)
      (scopes.flatMap (fun c => c.env.takenNames)) wanted
      (fresh (scopes.flatMap (fun c => c.env.takenNames)) wanted)) ∧
    ∀ s : State, FirstFree (takenIn s.scopes) s.takenNames wanted (s.freshName wanted) ∧
      claimFresh wanted s = some (s.freshName wanted, s.claim (s.freshName wanted)) := by
  refine ⟨fun env => firstFree_fresh (fun _ => ?_) wanted,
    fun scopes => firstFree_fresh (fun _ => takenIn_iff) wanted,
    fun s => ⟨firstFree_fresh (fun x => ?_) wanted, rfl⟩⟩
  · exact Environment.isTaken_iff.trans Environment.taken_iff_mem
  · rw [takenIn_iff, s.takenNames_eq]

end AmbientBundle.Merge
