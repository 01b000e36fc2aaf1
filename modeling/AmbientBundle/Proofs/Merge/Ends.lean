import AmbientBundle.Proofs.Merge.Step
/-!
Steps of merging that end: from some depth on they succeed, and what they do no longer depends on
the depth. Chains and loops of such steps are such steps.
-/
namespace AmbientBundle.Merge.Step

variable {α β : Type}

/-- With every depth from `b` on the step does the same from `s`, and `Q` holds of what it hands
back and of the state behind it. -/
def Ends (b : Nat) (x : Nat → Step α) (s : State) (Q : α → State → Prop) : Prop :=
  ∃ a t, (∀ n, b ≤ n → x n s = some (a, t)) ∧ Q a t

namespace Ends

variable {b c : Nat} {x : Nat → Step α} {s : State} {Q P : α → State → Prop}

theorem of_eq {y : Step α} {a : α} {t : State} (h : y s = some (a, t)) (hq : Q a t) :
    Ends b (fun _ => y) s Q :=
  ⟨a, t, fun _ _ => h, hq⟩

protected theorem pure {a : α} (hq : Q a s) : Ends b (fun _ => pure a) s Q := of_eq rfl hq

protected theorem modify {f : State → State} {Q : PUnit → State → Prop} (hq : Q ⟨⟩ (f s)) :
    Ends b (fun _ => (modify f : Step PUnit)) s Q :=
  of_eq rfl hq

theorem mono (h : Ends b x s P) (hb : b ≤ c) (hq : ∀ a t, P a t → Q a t) : Ends c x s Q := by
  obtain ⟨a, t, hx, hp⟩ := h
  exact ⟨a, t, fun n hn => hx n (Nat.le_trans hb hn), hq a t hp⟩

theorem imp (h : Ends b x s P) (hq : ∀ a t, P a t → Q a t) : Ends b x s Q := h.mono (Nat.le_refl b) hq

/-- A call that hands its callees one level of depth less. -/
theorem succ {y : Nat → Step α} (h : Ends b y s Q) (hy : ∀ n, x (n + 1) = y n) :
    Ends (b + 1) x s Q := by
  obtain ⟨a, t, hx, hq⟩ := h
  refine ⟨a, t, fun n hn => ?_, hq⟩
  obtain ⟨m, rfl⟩ := Nat.exists_eq_add_of_le' hn
  rw [show m + (b + 1) = (m + b) + 1 from rfl, hy]
  exact hx _ (Nat.le_add_left b m)

protected theorem bind {f : Nat → α → Step β} {Q : β → State → Prop} (hx : Ends b x s P)
    (hf : ∀ a t, P a t → Ends b (fun n => f n a) t Q) : Ends b (fun n => x n >>= f n) s Q := by
  obtain ⟨a, t, hx, hp⟩ := hx
  obtain ⟨a', t', hf, hq⟩ := hf a t hp
  exact ⟨a', t', fun n hn => (bind_eq (hx n hn)).trans (hf n hn), hq⟩

protected theorem map {f : α → β} {Q : β → State → Prop} (hx : Ends b x s P)
    (hf : ∀ a t, P a t → Q (f a) t) : Ends b (fun n => f <$> x n) s Q := by
  simp only [map_eq_pure_bind]
  exact hx.bind (fun a t hp => .pure (hf a t hp))

/-- A step that looks at the state first. -/
protected theorem get {f : Nat → State → Step α} (hf : Ends b (fun n => f n s) s Q) :
    Ends b (fun n => get >>= f n) s Q := by
  obtain ⟨a, t, hx, hq⟩ := hf
  exact ⟨a, t, fun n hn => hx n hn, hq⟩

section Conditions

variable {p : Prop} [Decidable p] {y : Nat → Step α}

protected theorem ite (hx : p → Ends b x s Q) (hy : ¬ p → Ends b y s Q) :
    Ends b (fun n => if p then x n else y n) s Q := by
  by_cases h : p
  · simpa only [if_pos h] using hx h
  · simpa only [if_neg h] using hy h

/-- A step that is chosen by a condition, with the same steps behind it. -/
theorem ite_bind {f : Nat → α → Step β} {Q : β → State → Prop}
    (h : Ends b (fun n => if p then x n else y n) s P)
    (hf : ∀ a t, P a t → Ends b (fun n => f n a) t Q) :
    Ends b (fun n => if p then x n >>= f n else y n >>= f n) s Q := by
  by_cases hp : p
  · simp only [if_pos hp] at h ⊢
    exact h.bind hf
  · simp only [if_neg hp] at h ⊢
    exact h.bind hf

/-- A step that is only taken under a condition. -/
theorem ite_then {y : Step PUnit} {f : Nat → PUnit → Step α} (P : State → Prop) (h0 : P s)
    (hy : Ends b (fun _ => y) s (fun _ => P)) (hf : ∀ t, P t → Ends b (fun n => f n ⟨⟩) t Q) :
    Ends b (fun n => if p then y >>= f n else f n ⟨⟩) s Q :=
  .ite (fun _ => hy.bind (fun _ t ht => hf t ht)) (fun _ => hf s h0)

end Conditions

protected theorem forM {l : List β} {f : Nat → β → Step PUnit} (P : State → Prop) (h0 : P s)
    (step : ∀ a ∈ l, ∀ t, P t → Ends b (fun n => f n a) t (fun _ => P)) :
    Ends b (fun n => l.forM (f n)) s (fun _ => P) := by
  induction l generalizing s with
  | nil => exact .pure h0
  | cons a l ih =>
    refine (step a List.mem_cons_self s h0).bind (fun _ t ht => ?_)
    exact ih ht (fun a' ha => step a' (List.mem_cons_of_mem a ha))

protected theorem foldlM {l : List β} {f : Nat → α → β → Step α} {a : α} (P : α → State → Prop) (h0 : P a s)
    (step : ∀ i ∈ l, ∀ a t, P a t → Ends b (fun n => f n a i) t P) :
    Ends b (fun n => l.foldlM (f n) a) s P := by
  induction l generalizing a s with
  | nil => exact .pure h0
  | cons i l ih =>
    simp only [List.foldlM_cons]
    refine (step i List.mem_cons_self a s h0).bind (fun a' t ht => ?_)
    exact ih ht (fun j hj => step j (List.mem_cons_of_mem i hj))

protected theorem mapM {l : List β} {f : Nat → β → Step α} (P : State → Prop) (h0 : P s)
    (step : ∀ i ∈ l, ∀ t, P t → Ends b (fun n => f n i) t (fun _ => P)) :
    Ends b (fun n => l.mapM (f n)) s (fun _ => P) := by
  induction l generalizing s with
  | nil =>
    simp only [List.mapM_nil]
    exact .pure h0
  | cons i l ih =>
    simp only [List.mapM_cons]
    refine (step i List.mem_cons_self s h0).bind (fun a t ht => ?_)
    exact (ih ht (fun j hj => step j (List.mem_cons_of_mem i hj))).bind (fun _ _ hu => .pure hu)

protected theorem filterMapM {l : List β} {f : Nat → β → Step (Option α)} (P : State → Prop) (h0 : P s)
    (step : ∀ i ∈ l, ∀ t, P t → Ends b (fun n => f n i) t (fun _ => P)) :
    Ends b (fun n => l.filterMapM (f n)) s (fun _ => P) := by
  induction l generalizing s with
  | nil =>
    simp only [List.filterMapM_nil]
    exact .pure h0
  | cons i l ih =>
    simp only [List.filterMapM_cons]
    refine (step i List.mem_cons_self s h0).bind (fun a t ht => ?_)
    have hrest := ih ht (fun j hj => step j (List.mem_cons_of_mem i hj))
    cases a with
    | none => exact hrest
    | some a => exact hrest.bind (fun _ _ hu => .pure hu)

end Ends

end AmbientBundle.Merge.Step
