import AmbientBundle.Merge.State
import Mathlib.Data.List.Basic
/-!
Taking steps of merging apart: a step that succeeds is a chain of steps that succeed.
-/
namespace AmbientBundle.Merge.Step

variable {α β : Type}

theorem bind_inv {x : Step α} {f : α → Step β} {s t : State} {b : β}
    (h : (x >>= f) s = some (b, t)) : ∃ a s₁, x s = some (a, s₁) ∧ f a s₁ = some (b, t) := by
  change (x s).bind (fun p => f p.1 p.2) = some (b, t) at h
  obtain ⟨⟨a, s₁⟩, hx, hf⟩ := Option.bind_eq_some_iff.1 h
  exact ⟨a, s₁, hx, hf⟩

theorem bind_eq {x : Step α} {f : α → Step β} {s t : State} {a : α} (h : x s = some (a, t)) :
    (x >>= f) s = f a t := by
  change (x s).bind (fun p => f p.1 p.2) = _
  rw [h]
  rfl

/-- A step that is chosen by a condition, with the same steps behind it. -/
theorem ite_bind_inv {c : Prop} [Decidable c] {x y : Step α} {f : α → Step β} {s t : State} {b : β}
    (h : (if c then x >>= f else y >>= f) s = some (b, t)) :
    ∃ a s₁, (if c then x else y) s = some (a, s₁) ∧ f a s₁ = some (b, t) := by
  by_cases hc : c
  · simp only [if_pos hc] at h ⊢
    exact bind_inv h
  · simp only [if_neg hc] at h ⊢
    exact bind_inv h

theorem pure_inv {a b : α} {s t : State} (h : (pure a : Step α) s = some (b, t)) :
    a = b ∧ s = t := by
  have h' : (a, s) = (b, t) := Option.some.inj h
  exact ⟨congrArg Prod.fst h', congrArg Prod.snd h'⟩

theorem map_inv {x : Step α} {f : α → β} {s t : State} {b : β}
    (h : (f <$> x) s = some (b, t)) : ∃ a, x s = some (a, t) ∧ f a = b := by
  rw [map_eq_pure_bind] at h
  obtain ⟨a, s₁, hx, hb⟩ := bind_inv h
  obtain ⟨rfl, rfl⟩ := pure_inv hb
  exact ⟨a, hx, rfl⟩

theorem get_inv {s t u : State} (h : (get : Step State) s = some (u, t)) : s = u ∧ s = t := by
  have h' : (s, s) = (u, t) := Option.some.inj h
  exact ⟨congrArg Prod.fst h', congrArg Prod.snd h'⟩

theorem set_inv {s t u : State} {x : PUnit} (h : (set u : Step PUnit) s = some (x, t)) : u = t := by
  have h' : (PUnit.unit, u) = (x, t) := Option.some.inj h
  exact congrArg Prod.snd h'

theorem modify_inv {f : State → State} {s t : State} {x : PUnit}
    (h : (modify f : Step PUnit) s = some (x, t)) : f s = t := by
  have h' : (PUnit.unit, f s) = (x, t) := Option.some.inj h
  exact congrArg Prod.snd h'

theorem modifyGet_inv {f : State → α × State} {s t : State} {a : α}
    (h : (modifyGet f : Step α) s = some (a, t)) : (f s).1 = a ∧ (f s).2 = t := by
  have h' : f s = (a, t) := Option.some.inj h
  exact ⟨congrArg Prod.fst h', congrArg Prod.snd h'⟩

/-- A change of the state that is only made under a condition. -/
theorem ite_modify_inv {c : Prop} [Decidable c] {g : State → State} {f : PUnit → Step α}
    {s t : State} {a : α}
    (h : (if c then modify g >>= f else f ⟨⟩) s = some (a, t)) :
    ∃ s₁, (s₁ = s ∨ s₁ = g s) ∧ f ⟨⟩ s₁ = some (a, t) := by
  split at h
  · obtain ⟨_, s₁, hg, h⟩ := bind_inv h
    obtain rfl := modify_inv hg
    exact ⟨_, .inr rfl, h⟩
  · exact ⟨_, .inl rfl, h⟩

theorem failure_inv {s t : State} {a : α} (h : (failure : Step α) s = some (a, t)) : False := by
  cases h

/-- What holds after a loop over a list, by induction on the part that is done. -/
theorem forM_inv {f : α → Step PUnit} (P : List α → State → Prop) {l : List α} {s t : State}
    {u : PUnit} (h : l.forM f s = some (u, t)) (h0 : P [] s)
    (step : ∀ done a s₁ s₂ v, a ∈ l → P done s₁ → f a s₁ = some (v, s₂) → P (done ++ [a]) s₂) :
    P l t := by
  suffices H : ∀ done rest s, (∀ a ∈ rest, a ∈ l) → rest.forM f s = some (u, t) → P done s →
      P (done ++ rest) t by
    simpa using H [] l s (fun _ h => h) h h0
  intro done rest
  induction rest generalizing done with
  | nil =>
    intro s _ h hp
    obtain ⟨_, rfl⟩ := pure_inv h
    simpa using hp
  | cons a rest ih =>
    intro s hl h hp
    change (f a >>= fun _ => rest.forM f) s = some (u, t) at h
    obtain ⟨v, s₁, ha, hr⟩ := bind_inv h
    have h1 := step done a s s₁ v (hl a (by simp)) hp ha
    simpa using ih (done ++ [a]) s₁ (fun b hb => hl b (by simp [hb])) hr h1

/-- A fold over a list by steps of the given kind. -/
inductive Folds (R : α → β → State → β → State → Prop) :
    List α → β → State → β → State → Prop where
  | nil {b : β} {s : State} : Folds R [] b s b s
  | cons {a : α} {l : List α} {b b₁ c : β} {s s₁ t : State} (head : R a b s b₁ s₁)
      (tail : Folds R l b₁ s₁ c t) : Folds R (a :: l) b s c t

theorem foldlM_folds {R : α → β → State → β → State → Prop} {f : β → α → Step β} {l : List α}
    {b c : β} {s t : State} (h : l.foldlM f b s = some (c, t))
    (hf : ∀ a b₁ b₂ s₁ s₂, f b₁ a s₁ = some (b₂, s₂) → R a b₁ s₁ b₂ s₂) : Folds R l b s c t := by
  induction l generalizing b s with
  | nil =>
    obtain ⟨rfl, rfl⟩ := pure_inv h
    exact .nil
  | cons a l ih =>
    rw [List.foldlM_cons] at h
    obtain ⟨b₁, s₁, ha, hr⟩ := bind_inv h
    exact .cons (hf a b b₁ s s₁ ha) (ih hr)

/-- What holds after a fold over a list, by induction on the part that is done. -/
theorem Folds.inv {R : α → β → State → β → State → Prop} (P : List α → β → State → Prop)
    {l : List α} {b c : β} {s t : State} (h : Folds R l b s c t) (h0 : P [] b s)
    (step : ∀ done a b₁ b₂ s₁ s₂, a ∈ l → P done b₁ s₁ → R a b₁ s₁ b₂ s₂ →
      P (done ++ [a]) b₂ s₂) : P l c t := by
  suffices H : ∀ done rest b s, (∀ a ∈ rest, a ∈ l) → Folds R rest b s c t →
      P done b s → P (done ++ rest) c t by
    simpa using H [] l b s (fun _ h => h) h h0
  intro done rest
  induction rest generalizing done with
  | nil =>
    intro b s _ h hp
    cases h
    simpa using hp
  | cons a rest ih =>
    intro b s hl h hp
    cases h with
    | cons head tail =>
      have h1 := step done a b _ s _ (hl a (by simp)) hp head
      simpa using ih (done ++ [a]) _ _ (fun b hb => hl b (by simp [hb])) tail h1

/-- What holds after mapping a list, by induction on the part that is done. -/
theorem mapM_inv {f : α → Step β} (P : List α → List β → State → Prop) {l : List α} {r : List β}
    {s t : State} (h : l.mapM f s = some (r, t)) (h0 : P [] [] s)
    (step : ∀ done outs a b s₁ s₂, a ∈ l → P done outs s₁ → f a s₁ = some (b, s₂) →
      P (done ++ [a]) (outs ++ [b]) s₂) : P l r t := by
  suffices H : ∀ done outs rest r s, (∀ a ∈ rest, a ∈ l) → rest.mapM f s = some (r, t) →
      P done outs s → P (done ++ rest) (outs ++ r) t by
    simpa using H [] [] l r s (fun _ h => h) h h0
  intro done outs rest
  induction rest generalizing done outs with
  | nil =>
    intro r s _ h hp
    rw [List.mapM_nil] at h
    obtain ⟨rfl, rfl⟩ := pure_inv h
    simpa using hp
  | cons a rest ih =>
    intro r s hl h hp
    rw [List.mapM_cons] at h
    obtain ⟨b, s₁, ha, h⟩ := bind_inv h
    obtain ⟨bs, s₂, hr, h⟩ := bind_inv h
    obtain ⟨rfl, rfl⟩ := pure_inv h
    have h1 := step done outs a b s s₁ (hl a (by simp)) hp ha
    simpa using ih (done ++ [a]) (outs ++ [b]) bs s₁ (fun b hb => hl b (by simp [hb])) hr h1

/-- A filtering map is a fold that appends what each step gives. -/
theorem filterMapM_folds {R : α → List β → State → List β → State → Prop} {f : α → Step (Option β)}
    {l : List α} {outs bs : List β} {s t : State} (h : l.filterMapM f s = some (bs, t))
    (hf : ∀ a outs b s₁ s₂, f a s₁ = some (b, s₂) → R a outs s₁ (outs ++ b.toList) s₂) :
    Folds R l outs s (outs ++ bs) t := by
  induction l generalizing outs bs s with
  | nil =>
    rw [List.filterMapM_nil] at h
    obtain ⟨rfl, rfl⟩ := pure_inv h
    rw [List.append_nil]
    exact .nil
  | cons a l ih =>
    rw [List.filterMapM_cons] at h
    obtain ⟨b, s₁, ha, h⟩ := bind_inv h
    refine .cons (hf a outs b s s₁ ha) ?_
    cases b with
    | none => simpa using ih h
    | some b =>
      obtain ⟨bs, s₂, hr, h⟩ := bind_inv h
      obtain ⟨rfl, rfl⟩ := pure_inv h
      simpa using @ih (outs ++ [b]) _ _ hr

/-- Steps over a list that leave the state as it is. -/
theorem mapM_eq {l : List α} {f : α → Step β} {g : α → β} {s : State}
    (h : ∀ a ∈ l, f a s = some (g a, s)) : l.mapM f s = some (l.map g, s) := by
  induction l with
  | nil => rfl
  | cons a l ih =>
    rw [List.mapM_cons]
    refine (bind_eq (h a List.mem_cons_self)).trans ?_
    exact (bind_eq (ih (fun a' ha => h a' (List.mem_cons_of_mem a ha)))).trans rfl

end AmbientBundle.Merge.Step
