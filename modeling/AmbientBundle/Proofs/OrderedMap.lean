import AmbientBundle.OrderedMap
/-!
Entries, keys and values of ordered maps.
-/
namespace AmbientBundle.OrderedMap

variable {κ α : Type} [DecidableEq κ]

theorem mem_of_find {k : κ} {a : α} {es : List (κ × α)} (h : find k es = some a) : (k, a) ∈ es := by
  induction es with
  | nil => simp [find] at h
  | cons e r ih =>
    by_cases hk : e.1 = k
    · simp only [find, hk, if_true, Option.some.injEq] at h
      subst hk h
      simp
    · simp only [find, hk, if_false] at h
      exact List.mem_cons_of_mem e (ih h)

theorem mem_entries_of_get? {m : OrderedMap κ α} {k : κ} {a : α} (h : m.get? k = some a) :
    (k, a) ∈ m.entries :=
  mem_of_find h

theorem find_of_mem {k : κ} {a : α} {es : List (κ × α)} (hn : (es.map Prod.fst).Nodup)
    (h : (k, a) ∈ es) : find k es = some a := by
  induction es with
  | nil => simp at h
  | cons e r ih =>
    rw [List.map_cons, List.nodup_cons] at hn
    rcases List.mem_cons.1 h with rfl | h
    · simp [find]
    · have hk : e.1 ≠ k := by
        rintro rfl
        exact hn.1 (List.mem_map.2 ⟨_, h, rfl⟩)
      simpa [find, hk] using ih hn.2 h

theorem get?_eq_some_iff {m : OrderedMap κ α} {k : κ} {a : α} :
    m.get? k = some a ↔ (k, a) ∈ m.entries :=
  ⟨mem_entries_of_get?, find_of_mem m.keys_nodup⟩

theorem mem_keys_iff {m : OrderedMap κ α} {k : κ} : k ∈ m.keys ↔ ∃ a, m.get? k = some a := by
  rw [← Option.isSome_iff_exists]
  exact (find_isSome_iff k m.entries).symm

theorem mem_place {k : κ} {a : α} {es : List (κ × α)} {e : κ × α} (h : e ∈ place k a es) :
    e = (k, a) ∨ e ∈ es := by
  induction es with
  | nil => simpa [place] using h
  | cons d r ih =>
    rw [place] at h
    split at h
    · rcases List.mem_cons.1 h with rfl | h
      · exact Or.inl rfl
      · exact Or.inr (List.mem_cons_of_mem d h)
    · rcases List.mem_cons.1 h with rfl | h
      · exact Or.inr (by simp)
      · exact (ih h).imp_right (List.mem_cons_of_mem d)

theorem mem_entries_put {m : OrderedMap κ α} {k : κ} {a : α} {e : κ × α}
    (h : e ∈ (m.put k a).entries) : e = (k, a) ∨ e ∈ m.entries :=
  mem_place h

theorem keys_prefix_putNew (m : OrderedMap κ α) (k : κ) (a : α) : m.keys <+: (m.putNew k a).keys := by
  unfold putNew
  split
  · exact List.prefix_refl _
  · rw [keys_put]
    split
    · exact List.prefix_refl _
    · exact List.prefix_append _ _

theorem get?_putNew_of_some {m : OrderedMap κ α} {k l : κ} {a b : α} (h : m.get? l = some b) :
    (m.putNew k a).get? l = some b := by
  rw [get?_putNew]
  split
  · rename_i hk
    subst hk
    simp [h]
  · exact h

/-- Of entries that come in one after the other the first one for a key stays. -/
theorem get?_foldl_putNew (es : List (κ × α)) (m : OrderedMap κ α) (k : κ) :
    (es.foldl (fun m e => m.putNew e.1 e.2) m).get? k = (m.get? k).or (find k es) := by
  induction es generalizing m with
  | nil => simp [find]
  | cons e es ih =>
    rw [List.foldl_cons, ih, get?_putNew, find]
    by_cases hk : e.1 = k
    · subst hk
      cases m.get? e.1 <;> simp
    · rw [if_neg hk, if_neg hk]

/-- Putting a value trades what the key's old value is mapped to for what the new one is. -/
theorem count_flatMap_place {β : Type} [BEq β] (f : κ × α → List β) (k : κ) (a : α) (x : β)
    (es : List (κ × α)) :
    ((place k a es).flatMap f).count x +
        (((find k es).map (fun b => f (k, b))).getD []).count x =
      (es.flatMap f).count x + (f (k, a)).count x := by
  induction es with
  | nil => simp [place, find]
  | cons e r ih =>
    by_cases h : e.1 = k
    · have he : (k, e.2) = e := by rw [← h]
      simp only [place, find, h, if_true, List.flatMap_cons, List.count_append, Option.map_some,
        Option.getD_some, he]
      omega
    · simp only [place, find, h, if_false, List.flatMap_cons, List.count_append]
      omega

theorem count_flatMap_put {β : Type} [BEq β] (m : OrderedMap κ α) (f : κ × α → List β) (k : κ)
    (a : α) (x : β) :
    ((m.put k a).entries.flatMap f).count x +
        (((m.get? k).map (fun b => f (k, b))).getD []).count x =
      (m.entries.flatMap f).count x + (f (k, a)).count x :=
  count_flatMap_place f k a x m.entries

theorem get?_empty (k : κ) : (∅ : OrderedMap κ α).get? k = none := rfl

/-- The map holds an answer for each key that is done, or there is none for it; `P` tells which
answers a key may have. -/
structure Answered (P : κ → Option α → Prop) (done : List κ) (m : OrderedMap κ α) : Prop where
  found : ∀ k a, m.get? k = some a → P k (some a)
  missed : ∀ k ∈ done, m.get? k = none → P k none

namespace Answered

variable {P Q : κ → Option α → Prop} {done : List κ} {m : OrderedMap κ α} {k : κ} {a : α}

theorem empty : Answered P [] OrderedMap.empty := ⟨fun _ _ h => (by cases h), by simp⟩

theorem get (h : Answered P done m) (hk : k ∈ done) : P k (m.get? k) := by
  cases hm : m.get? k with
  | some a => exact h.found k a hm
  | none => exact h.missed k hk hm

theorem imp (h : Answered P done m) (hPQ : ∀ k answer, P k answer → Q k answer) :
    Answered Q done m :=
  ⟨fun k a hk => hPQ k _ (h.found k a hk), fun k hdone hk => hPQ k _ (h.missed k hdone hk)⟩

theorem put (h : Answered P done m) (hk : P k (some a)) :
    Answered P (done ++ [k]) (m.put k a) := by
  refine ⟨fun l b hl => ?_, fun l hdone hl => ?_⟩
  · rw [get?_put] at hl
    split at hl
    · rename_i he
      subst he
      exact Option.some.inj hl ▸ hk
    · exact h.found l b hl
  · rw [get?_put] at hl
    split at hl
    · cases hl
    · rename_i hne
      refine h.missed l ((List.mem_append.1 hdone).resolve_right (fun hlast => ?_)) hl
      exact hne (List.mem_singleton.1 hlast).symm

theorem miss (h : Answered P done m) (hk : P k none) : Answered P (done ++ [k]) m := by
  refine ⟨h.found, fun l hdone hl => ?_⟩
  rcases List.mem_append.1 hdone with hdone | hlast
  · exact h.missed l hdone hl
  · exact List.mem_singleton.1 hlast ▸ hk

end Answered

end AmbientBundle.OrderedMap
