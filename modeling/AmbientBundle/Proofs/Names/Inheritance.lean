import AmbientBundle.Proofs.Names.Frames
/-!
What an environment takes over from another one, both of any number of frames. Main statement: the
names of the given files stand as the other environment has them and no other file's do; nothing
that had an owner gets another one, and an owner that is new in a frame comes from the other one.
-/
namespace AmbientBundle.Environment

open Names

/-- `e` is `env` with the names that `other` has for the given files and with its claims. -/
structure Inherits (env other : Environment) (origins : List Url) (e : Environment) : Prop where
  visible : ∀ g ∈ origins, ∀ k, e.lookup g k = (other.lookup g k).or (env.lookup g k)
  hidden : ∀ g ∉ origins, ∀ k, e.lookup g k = env.lookup g k
  /-- Every frame keeps its owners, those behind the innermost one altogether. -/
  outer : e.outer = env.outer
  kept : ∀ x o, env.inner.owners.get? x = some o → e.inner.owners.get? x = some o
  claimed : ∀ f ∈ other.frames, ∀ x, f.owners.get? x = some .chunk → e.isTaken x = true
  owned : ∀ x o, env.inner.owners.get? x = none → e.inner.owners.get? x = some o →
    ∃ f ∈ other.frames, f.owners.get? x = some o

section Owners

variable {env other : Environment} {origins : List Url} {x : String} {o : Owner}

theorem isTaken_iff : env.isTaken x = true ↔ env.Taken x := by
  rw [isTaken, List.any_eq_true]
  constructor
  · rintro ⟨f, hf, hx⟩
    obtain ⟨o, ho⟩ := Option.isSome_iff_exists.1 hx
    exact ⟨o, f, hf, ho⟩
  · rintro ⟨o, f, hf, ho⟩
    exact ⟨f, hf, Option.isSome_of_eq_some ho⟩

theorem outer_inherit (env other : Environment) (origins : List Url) :
    (env.inherit other origins).outer = env.outer :=
  inherit_induction_frames (P := fun e => e.outer = env.outer) rfl
    (fun _ _ _ _ _ _ he _ _ => he) (fun _ _ _ _ _ _ he _ _ => he) (fun _ _ _ _ he _ => he)

theorem owner?_bind_of_some {g : Url} {k v : String} (h : env.owner? x = some o) :
    (env.bind g k v).owner? x = some o :=
  OrderedMap.get?_putNew_of_some h

theorem owner?_claim_of_some {n : String} (h : env.owner? x = some o) :
    (env.claim n).owner? x = some o :=
  OrderedMap.get?_putNew_of_some h

theorem owner?_inherit_of_some (h : env.owner? x = some o) :
    (env.inherit other origins).owner? x = some o :=
  inherit_induction_frames (P := fun e => e.owner? x = some o) h
    (fun _ _ _ _ _ _ he _ _ => owner?_bind_of_some he) (fun _ _ _ _ _ _ he _ _ => he)
    (fun _ _ _ _ he _ => owner?_claim_of_some he)

/-- A final name gets an owner by a binding only with the file that owns it in the binding's frame,
and by a claim only with the chunk. -/
theorem owner?_of_inherit (h : (env.inherit other origins).owner? x = some o) :
    env.owner? x = some o ∨ other.Owns o x := by
  revert o
  refine inherit_induction_frames
    (P := fun e => ∀ {o}, e.owner? x = some o → env.owner? x = some o ∨ other.Owns o x)
    Or.inl (fun e f hf g k v he _ hv o ho => ?_) (fun e _ _ _ _ _ he _ _ o ho => he ho)
    (fun e f hf y he hy o ho => ?_)
  · rw [owner?_bind] at ho
    split at ho
    · rename_i hx
      rcases eq_of_getD ho with ho | rfl
      · exact he ho
      · exact Or.inr ⟨f, hf, hx ▸ hv⟩
    · exact he ho
  · rw [owner?_claim] at ho
    split at ho
    · rename_i hx
      rcases eq_of_getD ho with ho | rfl
      · exact he ho
      · exact Or.inr ⟨f, hf, hx ▸ hy⟩
    · exact he ho

end Owners

section Claims

variable {env other : Environment} {origins : List Url} {x : String}

theorem Taken.inheritClaim (h : env.Taken x) (o : String × Owner) : (env.inheritClaim o).Taken x :=
  inheritClaim_cases (P := fun e => e.Taken x) (fun _ => h) (fun _ => h.claim o.1)

theorem Taken.inheritBinding (h : env.Taken x) (owners : OrderedMap String Owner)
    (b : (Url × String) × String) : (env.inheritBinding owners origins b).Taken x :=
  inheritBinding_cases (P := fun e => e.Taken x) (fun _ => h) (fun _ => h.bind b.1.1 b.1.2 b.2)
    (fun _ => h.imp fun _ => owns_link.2)

theorem taken_inheritClaim (env : Environment) (x : String) :
    (env.inheritClaim (x, .chunk)).Taken x :=
  inheritClaim_cases (P := fun e => e.Taken x) (fun hskip => isTaken_iff.1 (hskip rfl))
    (fun _ => taken_claim env x)

theorem Taken.inheritClaims (h : env.Taken x) (os : List (String × Owner)) :
    (os.foldl Environment.inheritClaim env).Taken x :=
  List.foldlRecOn (motive := fun e : Environment => e.Taken x) _ _ h
    (fun _ he o _ => he.inheritClaim o)

theorem taken_inheritClaims {os : List (String × Owner)} (h : (x, Owner.chunk) ∈ os)
    (env : Environment) : (os.foldl inheritClaim env).Taken x := by
  obtain ⟨before, behind, rfl⟩ := List.append_of_mem h
  rw [List.foldl_append, List.foldl_cons]
  exact (taken_inheritClaim _ x).inheritClaims behind

theorem Taken.inheritFrame (h : env.Taken x) (f : Frame) : (env.inheritFrame origins f).Taken x :=
  Taken.inheritClaims (List.foldlRecOn (motive := fun e : Environment => e.Taken x) _ _ h
    (fun _ he b _ => he.inheritBinding f.owners b)) _

/-- What a frame claims is taken behind that frame, and the frames that come later keep it. -/
theorem taken_inherit {f : Frame} (hf : f ∈ other.frames) (hx : f.owners.get? x = some .chunk) :
    (env.inherit other origins).Taken x := by
  obtain ⟨before, behind, hframes⟩ := List.append_of_mem (List.mem_reverse.2 hf)
  rw [inherit, hframes, List.foldl_append, List.foldl_cons]
  have hclaimed (e : Environment) : (e.inheritFrame origins f).Taken x :=
    taken_inheritClaims (OrderedMap.mem_entries_of_get? hx) _
  exact List.foldlRecOn (motive := fun e : Environment => e.Taken x) _ _ (hclaimed _)
    (fun _ he f' _ => he.inheritFrame f')

end Claims

/-- Taking over names makes exactly those of the given files visible and takes no name from its
owner. -/
theorem inherits_inherit (env other : Environment) (origins : List Url) :
    Inherits env other origins (env.inherit other origins) where
  visible _ hg _ := lookup_inherit_or hg
  hidden _ hg k := lookup_inherit_of_not_mem hg k
  outer := outer_inherit env other origins
  kept _ _ h := owner?_inherit_of_some h
  claimed _ hf _ hx := isTaken_iff.2 (taken_inherit hf hx)
  owned x o hnone ho := by
    rcases owner?_of_inherit ho with h | h
    · exact absurd (hnone.symm.trans h) (by simp)
    · exact h

end AmbientBundle.Environment
