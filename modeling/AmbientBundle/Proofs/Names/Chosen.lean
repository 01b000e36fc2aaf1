import AmbientBundle.Proofs.Names.Frames
/-!
How the names of one file are chosen in an environment of any number of frames. A declaration keeps
its name where that is free for the file, and gets a numbered form of it otherwise. Main statement:
two names of the file stand for the same final name if and only if one of them is the form that was
chosen for the other.
-/
namespace AmbientBundle.Environment

open Names

variable {env : Environment} {origin : Url} {n v x : String}

theorem lookupInner_bind (env : Environment) (origin file : Url) (n v m : String) :
    (env.bind origin n v).lookupInner file m =
      if (origin, n) = (file, m) then some v else env.lookupInner file m :=
  OrderedMap.get?_put _ _ _ _

theorem isFree_of_not_taken (h : ¬env.Taken x) : env.isFree x origin = true :=
  isFree_iff.2 (fun o ho => absurd ⟨o, ho⟩ h)

/-- What a file binds stays free for the file. -/
@[simp] theorem isFree_bind (env : Environment) (origin : Url) (n v x : String) :
    (env.bind origin n v).isFree x origin = env.isFree x origin := by
  rw [Bool.eq_iff_iff, isFree_iff, isFree_iff]
  refine ⟨fun h o ho => h o (ho.bind origin n v), fun h o ho => ?_⟩
  exact (owns_of_bind ho).elim (h o) And.left

/-- In an environment of one frame owners decide on what is free. -/
theorem isFree_eq_of_owner? {env' : Environment} (hflat : env.outer = []) (hflat' : env'.outer = [])
    (ho : env'.owner? x = env.owner? x) : env'.isFree x origin = env.isFree x origin := by
  rw [Bool.eq_iff_iff, isFree_iff, isFree_iff]
  simp only [owns_iff_owner? hflat, owns_iff_owner? hflat', ho]

/-- A new declaration is placed under its own name, if that is free for its file, or under a
numbered form that is not taken. -/
theorem placeName_cases (env : Environment) (n : String) (origin : Url) :
    (env.placeName n origin = n ∧ env.isFree n origin = true) ∨
      ¬env.Taken (env.placeName n origin) ∧
        (∃ k, env.placeName n origin = numbered (unreserved n) k) ∧ env.isFree n origin = false := by
  cases hfree : env.isFree n origin with
  | true => exact Or.inl ⟨by rw [placeName, if_pos hfree], rfl⟩
  | false =>
    have hplace : env.placeName n origin = fresh env.takenNames n := by
      rw [placeName, if_neg (by simp [hfree])]
      rfl
    rw [hplace, taken_iff_mem]
    exact Or.inr ⟨fresh_not_mem env.takenNames n, fresh_eq_numbered env.takenNames n, rfl⟩

end AmbientBundle.Environment

namespace AmbientBundle.Names

open Environment Syntax

/-- What holds of the names of a file in the innermost frame when they are chosen one after the
other. -/
structure Chosen (origin : Url) (env : Environment) : Prop where
  taken : ∀ n v, env.lookupInner origin n = some v → env.Taken v
  free : ∀ n v, env.lookupInner origin n = some v → env.isFree v origin = true
  form : ∀ n v, env.lookupInner origin n = some v → v = n ∨
    (∃ k, v = numbered (unreserved n) k) ∧ env.isFree n origin = false
  shared : ∀ m n v, m ≠ n → env.lookupInner origin m = some v → env.lookupInner origin n = some v →
    v = m ∨ v = n
  kept : ∀ m n v, env.lookupInner origin m = some n → env.lookupInner origin n = some v → v = n

namespace Chosen

variable {origin : Url} {env env' : Environment} {n : String}

theorem of_none (h : ∀ n, env.lookupInner origin n = none) : Chosen origin env := by
  constructor <;> simp [h]

/-- The file's names stay, and for names that are taken it stays whether they are free for the
file. -/
theorem congr (h : Chosen origin env)
    (hl : ∀ n, env'.lookupInner origin n = env.lookupInner origin n)
    (htaken : ∀ x, env.Taken x → env'.Taken x)
    (hfree : ∀ x, env.Taken x → env'.isFree x origin = env.isFree x origin) :
    Chosen origin env' where
  taken n v hv := htaken v (h.taken n v (hl n ▸ hv))
  free n v hv := by
    rw [hl] at hv
    rw [hfree v (h.taken n v hv), h.free n v hv]
  form n v hv := by
    refine (h.form n v (hl n ▸ hv)).imp_right (And.imp_right (fun hn => ?_))
    rw [hfree n, hn]
    by_contra hnot
    simp [isFree_of_not_taken hnot] at hn
  shared m n v hne hm hn := h.shared m n v hne (hl m ▸ hm) (hl n ▸ hn)
  kept m n v hm hn := h.kept m n v (hl m ▸ hm) (hl n ▸ hn)

/-- A name that has no final name yet gets one. -/
theorem place (h : Chosen origin env) (hnew : env.lookupInner origin n = none) :
    Chosen origin (env.bind origin n (env.placeName n origin)) := by
  have hcases := placeName_cases env n origin
  generalize env.placeName n origin = v₀ at hcases ⊢
  have hlookup : ∀ m v, (env.bind origin n v₀).lookupInner origin m = some v →
      m = n ∧ v = v₀ ∨ m ≠ n ∧ env.lookupInner origin m = some v := by
    intro m v hv
    rw [lookupInner_bind] at hv
    split at hv
    · rename_i he
      exact Or.inl ⟨(congrArg Prod.snd he).symm, (Option.some.inj hv).symm⟩
    · rename_i he
      exact Or.inr ⟨fun hm => he (hm ▸ rfl), hv⟩
  -- the new final name is shared only if it is the declaration's own name
  have hshared : ∀ m, env.lookupInner origin m = some v₀ → v₀ = n := by
    intro m hm
    rcases hcases with ⟨he, _⟩ | ⟨hfresh, _⟩
    · exact he
    · exact absurd (h.taken m v₀ hm) hfresh
  refine ⟨fun m v hv => ?_, fun m v hv => ?_, fun m v hv => ?_, fun m k v hne hm hk => ?_,
    fun m k v hm hk => ?_⟩
  · rcases hlookup m v hv with ⟨rfl, rfl⟩ | ⟨_, hv⟩
    · exact taken_bind env origin m v
    · exact (h.taken m v hv).bind origin n v₀
  · rw [isFree_bind]
    rcases hlookup m v hv with ⟨rfl, rfl⟩ | ⟨_, hv⟩
    · exact hcases.elim (fun ⟨he, hfree⟩ => he ▸ hfree) (fun ⟨hfresh, _⟩ => isFree_of_not_taken hfresh)
    · exact h.free m v hv
  · rw [isFree_bind]
    rcases hlookup m v hv with ⟨rfl, rfl⟩ | ⟨_, hv⟩
    · exact hcases.imp And.left And.right
    · exact h.form m v hv
  · rcases hlookup m v hm with ⟨rfl, rfl⟩ | ⟨_, hm'⟩
    · rcases hlookup k v hk with ⟨rfl, _⟩ | ⟨_, hk'⟩
      · exact absurd rfl hne
      · exact Or.inl (hshared k hk')
    · rcases hlookup k v hk with ⟨rfl, rfl⟩ | ⟨_, hk'⟩
      · exact Or.inr (hshared m hm')
      · exact h.shared m k v hne hm' hk'
  · rcases hlookup k v hk with ⟨rfl, rfl⟩ | ⟨hkn, hk'⟩
    · rcases hlookup m k hm with ⟨_, he⟩ | ⟨_, hm'⟩
      · exact he.symm
      · -- the file owns its name already, so the declaration keeps it
        rcases hcases with ⟨he, _⟩ | ⟨_, _, hfree⟩
        · exact he
        · simp [h.free m k hm'] at hfree
    · rcases hlookup m k hm with ⟨rfl, rfl⟩ | ⟨_, hm'⟩
      · -- a name that has a final name is taken or not free, so it was not made up now
        rcases hcases with ⟨he, _⟩ | ⟨hfresh, _⟩
        · exact absurd he hkn
        · rcases h.form k v hk' with rfl | ⟨_, hfree⟩
          · exact absurd (h.taken v v hk') hfresh
          · simp [isFree_of_not_taken hfresh] at hfree
      · exact h.kept m k v hm' hk'

/-- Binding a declared name once more changes nothing. -/
theorem bindIdent {p : Environment × Bindings} (h : Chosen origin p.1) (id : Ident) :
    Chosen origin (bindIdent origin p id).1 := by
  rw [bindIdent_fst]
  cases hl : p.1.lookupInner origin id.name with
  | none =>
    rw [finalName, hl, Option.getD_none]
    exact h.place hl
  | some v =>
    rw [finalName, hl, Option.getD_some]
    refine h.congr (fun n => ?_) (fun x hx => hx.bind origin id.name v) (fun x _ => isFree_bind ..)
    rw [lookupInner_bind]
    split
    · rename_i he
      obtain rfl : id.name = n := congrArg Prod.snd he
      exact hl.symm
    · rfl

theorem bindIdents {p : Environment × Bindings} (h : Chosen origin p.1) (ids : List Ident) :
    Chosen origin (ids.foldl (Names.bindIdent origin) p).1 := by
  induction ids generalizing p with
  | nil => exact h
  | cons id ids ih => exact ih (h.bindIdent id)

end Chosen

/-- The final name `n` is a numbered form that was made up for the name `k`. -/
structure Renumbered (named : String → Option String) (k n : String) : Prop where
  final : named k = some n
  ne : n ≠ k
  form : ∃ i, n = numbered (unreserved k) i

/-- Names are told apart: two of them have the same final name if and only if one of them is the
form that was made up for the other. -/
def ToldApart (named : String → Option String) : Prop :=
  ∀ x y v w, x ≠ y → named x = some v → named y = some w →
    (v = w ↔ Renumbered named x y ∨ Renumbered named y x)

theorem Chosen.toldApart {origin : Url} {env : Environment} (h : Chosen origin env) :
    ToldApart (env.lookupInner origin) := by
  intro x y v w hne hv hw
  constructor
  · rintro rfl
    have hform : ∀ {m n : String}, m ≠ n → env.lookupInner origin m = some n →
        Renumbered (env.lookupInner origin) m n := fun hmn hl =>
      ⟨hl, hmn.symm, ((h.form _ _ hl).resolve_left hmn.symm).1⟩
    rcases h.shared x y v hne hv hw with rfl | rfl
    · exact Or.inr (hform hne.symm hw)
    · exact Or.inl (hform hne hv)
  · rintro (hr | hr)
    · rw [Option.some.inj (hv.symm.trans hr.final)]
      exact (h.kept x y w hr.final hw).symm
    · rw [Option.some.inj (hw.symm.trans hr.final)]
      exact h.kept y x v hr.final hv

end AmbientBundle.Names
