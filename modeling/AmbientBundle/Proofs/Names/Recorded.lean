import AmbientBundle.Proofs.Names.Frames
/-!
The record of final names that binding a file's declarations keeps: under the place where a
declaration's name starts stands the name that the innermost frame has for it.
-/
namespace AmbientBundle.Names

open Environment Syntax

/-- Names that start at one place are equal. -/
def StartsApart (ids : List Ident) : Prop :=
  ∀ a ∈ ids, ∀ b ∈ ids, a.start = b.start → a.name = b.name

instance (ids : List Ident) : Decidable (StartsApart ids) :=
  inferInstanceAs (Decidable (∀ a ∈ ids, ∀ b ∈ ids, _))

/-- For each of the identifiers the name that the innermost frame has is on record. -/
def Recorded (origin : Url) (ids : List Ident) (p : Environment × Bindings) : Prop :=
  ∀ id ∈ ids, ∃ v, p.1.lookupInner origin id.name = some v ∧
    p.2.get? ⟨origin, id.start⟩ = some v

namespace Recorded

variable {origin : Url} {ids done : List Ident} {p : Environment × Bindings}

theorem bindIdent (h : Recorded origin done p) {id : Ident}
    (hone : ∀ a ∈ done, a.start = id.start → a.name = id.name) :
    Recorded origin (id :: done) (bindIdent origin p id) := by
  have hinner (n : String) : (Names.bindIdent origin p id).1.lookupInner origin n =
      if id.name = n then some (finalName p.1 origin id.name) else p.1.lookupInner origin n := by
    simp [Names.bindIdent, Environment.bind, lookupInner, OrderedMap.get?_put]
  have hrecord (start : Nat) : (Names.bindIdent origin p id).2.get? ⟨origin, start⟩ =
      if id.start = start then some (finalName p.1 origin id.name)
      else p.2.get? ⟨origin, start⟩ := by
    simp [Names.bindIdent, OrderedMap.get?_put]
  intro a ha
  rw [hinner, hrecord]
  rcases List.mem_cons.1 ha with rfl | ha
  · exact ⟨_, if_pos rfl, if_pos rfl⟩
  · obtain ⟨v, hv, hget⟩ := h a ha
    refine ⟨v, ?_, ?_⟩
    · split
      · rename_i hname
        simp [finalName, hname, hv]
      · exact hv
    · split
      · rename_i hstart
        simp [finalName, ← hone a ha hstart.symm, hv]
      · exact hget

theorem bindIdents (h : Recorded origin done p) (hone : StartsApart (ids ++ done)) :
    Recorded origin (ids ++ done) (ids.foldl (Names.bindIdent origin) p) := by
  induction ids generalizing done p with
  | nil => exact h
  | cons id ids ih =>
    have hmove (a : Ident) : a ∈ ids ++ id :: done ↔ a ∈ id :: ids ++ done := by
      simp only [List.mem_append, List.mem_cons]
      tauto
    have hnext := ih (h.bindIdent (fun a ha => hone a (by simp [ha]) id (by simp)))
      (fun a ha b hb => hone a ((hmove a).1 ha) b ((hmove b).1 hb))
    exact fun a ha => hnext a ((hmove a).2 ha)

end Recorded

/-- Binding the declarations of a file records nothing of other files. -/
theorem get?_bindIdents_of_ne {origin : Url} {ids : List Ident} {p : Environment × Bindings}
    {d : DeclId} (hd : d.file ≠ origin) :
    (ids.foldl (bindIdent origin) p).2.get? d = p.2.get? d := by
  induction ids generalizing p with
  | nil => rfl
  | cons id ids ih =>
    rw [List.foldl_cons, ih, bindIdent, OrderedMap.get?_put, if_neg]
    rintro rfl
    exact hd rfl

/-- Each declaration of a file is put on record. -/
theorem isSome_get?_bindIdents {origin : Url} {ids : List Ident} {p : Environment × Bindings}
    {d : DeclId} (h : (p.2.get? d).isSome ∨ ∃ id ∈ ids, d = ⟨origin, id.start⟩) :
    ((ids.foldl (bindIdent origin) p).2.get? d).isSome := by
  induction ids generalizing p with
  | nil => exact h.resolve_right (fun ⟨_, hid, _⟩ => by cases hid)
  | cons id ids ih =>
    refine ih ?_
    have hget : (bindIdent origin p id).2.get? d =
        if (⟨origin, id.start⟩ : DeclId) = d then some (finalName p.1 origin id.name)
        else p.2.get? d := OrderedMap.get?_put _ _ _ _
    rw [hget]
    split
    · exact Or.inl rfl
    · rename_i hne
      rcases h with h | ⟨id', hid', hd⟩
      · exact Or.inl h
      · rcases List.mem_cons.1 hid' with rfl | hid'
        · exact absurd hd.symm hne
        · exact Or.inr ⟨id', hid', hd⟩

/-- Where a file is alone each declaration that is put on record keeps its name. -/
theorem Alone.get?_bindIdents {origin : Url} {ids : List Ident} {p : Environment × Bindings}
    (h : Alone origin p.1) {d : DeclId} {v : String}
    (hget : (ids.foldl (bindIdent origin) p).2.get? d = some v) :
    p.2.get? d = some v ∨ ∃ id ∈ ids, d = ⟨origin, id.start⟩ ∧ v = id.name := by
  induction ids generalizing p with
  | nil => exact Or.inl hget
  | cons id ids ih =>
    have hnext : Alone origin ([id].foldl (bindIdent origin) p).1 := h.bindIdents
    rcases ih hnext hget with hold | ⟨id', hid', hd, hv⟩
    · change (p.2.put ⟨origin, id.start⟩ (finalName p.1 origin id.name)).get? d = some v at hold
      rw [OrderedMap.get?_put, h.finalName_eq] at hold
      split at hold
      · rename_i hd
        exact Or.inr ⟨id, List.mem_cons_self, hd.symm, (Option.some.inj hold).symm⟩
      · exact Or.inl hold
    · exact Or.inr ⟨id', List.mem_cons_of_mem id hid', hd, hv⟩

end AmbientBundle.Names
