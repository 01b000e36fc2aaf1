import AmbientBundle.Proofs.Names.Environment
/-!
Environments of several frames: who owns a final name in any of them, how the declarations of a
file get names in a new innermost frame, and what an environment takes over from the root's.
-/
namespace AmbientBundle.Environment

open Names

/-- The final name has the owner in one of the frames. -/
def Owns (env : Environment) (o : Owner) (x : String) : Prop :=
  ∃ f ∈ env.frames, f.owners.get? x = some o

/-- A final name that has an owner in one of the frames. -/
def Taken (env : Environment) (x : String) : Prop := ∃ o, env.Owns o x

section Owns

variable {env : Environment} {o : Owner} {x n k v : String} {g : Url}

theorem owns_iff : env.Owns o x ↔
    env.owner? x = some o ∨ ∃ f ∈ env.outer, f.owners.get? x = some o := by
  simp [Owns, frames, owner?]

theorem owns_iff_owner? (h : env.outer = []) : env.Owns o x ↔ env.owner? x = some o := by
  simp [owns_iff, h]

theorem taken_of_owner? (h : env.owner? x = some o) : env.Taken x := ⟨o, owns_iff.2 (Or.inl h)⟩

@[simp] theorem owns_child : env.child.Owns o x ↔ env.Owns o x := by
  rw [owns_iff]
  simp [child, owner?, Frame.empty, OrderedMap.get?_empty, Owns]

@[simp] theorem owns_link : (env.link g k v).Owns o x ↔ env.Owns o x := by
  rw [owns_iff, owns_iff]
  rfl

theorem Owns.claim (h : env.Owns o x) (n : String) : (env.claim n).Owns o x := by
  rw [owns_iff] at h ⊢
  exact h.imp_left OrderedMap.get?_putNew_of_some

theorem Owns.bind (h : env.Owns o x) (g : Url) (k v : String) : (env.bind g k v).Owns o x := by
  rw [owns_iff] at h ⊢
  exact h.imp_left OrderedMap.get?_putNew_of_some

/-- A name that gets an owner had none before. -/
theorem eq_of_getD {a b : Owner} (h : some ((env.owner? x).getD a) = some b) :
    env.owner? x = some b ∨ b = a := by
  cases ho : env.owner? x with
  | none => exact Or.inr (by simpa [ho, eq_comm] using h)
  | some c => exact Or.inl (by simpa [ho] using h)

theorem owns_of_claim (h : (env.claim n).Owns o x) : env.Owns o x ∨ o = .chunk ∧ x = n := by
  rw [owns_iff, owner?_claim] at h
  rw [owns_iff]
  rcases h with h | h
  · split at h
    · rename_i hn
      exact (eq_of_getD h).imp Or.inl (fun ho => ⟨ho, hn.symm⟩)
    · exact Or.inl (Or.inl h)
  · exact Or.inl (Or.inr h)

theorem owns_of_bind (h : (env.bind g k v).Owns o x) : env.Owns o x ∨ o = .file g ∧ x = v := by
  rw [owns_iff, owner?_bind] at h
  rw [owns_iff]
  rcases h with h | h
  · split at h
    · rename_i hv
      exact (eq_of_getD h).imp Or.inl (fun ho => ⟨ho, hv.symm⟩)
    · exact Or.inl (Or.inl h)
  · exact Or.inl (Or.inr h)

theorem taken_claim (env : Environment) (n : String) : (env.claim n).Taken n :=
  taken_of_owner? ((owner?_claim env n n).trans (if_pos rfl))

theorem taken_bind (env : Environment) (g : Url) (k v : String) : (env.bind g k v).Taken v :=
  taken_of_owner? ((owner?_bind env g k v v).trans (if_pos rfl))

theorem Taken.claim (h : env.Taken x) (n : String) : (env.claim n).Taken x :=
  h.imp fun _ ho => ho.claim n

theorem Taken.bind (h : env.Taken x) (g : Url) (k v : String) : (env.bind g k v).Taken x :=
  h.imp fun _ ho => ho.bind g k v

theorem taken_iff_mem : env.Taken x ↔ x ∈ env.takenNames := by
  rw [takenNames, List.mem_flatMap]
  constructor
  · rintro ⟨o, f, hf, ho⟩
    exact ⟨f, hf, OrderedMap.mem_keys_iff.2 ⟨o, ho⟩⟩
  · rintro ⟨f, hf, hx⟩
    obtain ⟨o, ho⟩ := OrderedMap.mem_keys_iff.1 hx
    exact ⟨o, f, hf, ho⟩

theorem isFree_iff : env.isFree x g = true ↔ ∀ o, env.Owns o x → o = .file g := by
  rw [isFree, List.all_eq_true]
  constructor
  · rintro h o ⟨f, hf, ho⟩
    simpa [Frame.isFree, ho] using h f hf
  · intro h f hf
    unfold Frame.isFree
    split
    · rename_i o ho
      simpa using h o ⟨f, hf, ho⟩
    · rfl

/-- Where a declaration is placed no other file and not the chunk owns the name. -/
theorem eq_of_owns_placeName (h : env.Owns o (env.placeName n g)) : o = .file g := by
  unfold placeName at h
  split at h
  · rename_i hfree
    exact isFree_iff.1 hfree o h
  · exact absurd (taken_iff_mem.1 ⟨o, h⟩) (fresh_not_mem env.takenNames n)

end Owns

/-- `x` got an owner in the innermost frame before `y` did. -/
def TakenBefore (env : Environment) (x y : String) : Prop :=
  ∃ l, l <+: env.inner.owners.keys ∧ x ∈ l ∧ y ∉ l

section Keys

variable {env env' : Environment} {x y : String}

theorem TakenBefore.mono (h : env.TakenBefore x y)
    (hk : env.inner.owners.keys <+: env'.inner.owners.keys) : env'.TakenBefore x y := by
  obtain ⟨l, hl, hx⟩ := h
  exact ⟨l, hl.trans hk, hx⟩

theorem takenBefore_of_owner? {o : Owner} (hx : env.owner? x = some o) (hy : env.owner? y = none) :
    env.TakenBefore x y := by
  refine ⟨_, List.prefix_refl _, OrderedMap.mem_keys_iff.2 ⟨o, hx⟩, fun hmem => ?_⟩
  obtain ⟨a, ha⟩ := OrderedMap.mem_keys_iff.1 hmem
  rw [owner?] at hy
  simp [ha] at hy

theorem keys_claim (env : Environment) (n : String) :
    env.inner.owners.keys <+: (env.claim n).inner.owners.keys :=
  OrderedMap.keys_prefix_putNew _ _ _

theorem keys_bind (env : Environment) (g : Url) (k v : String) :
    env.inner.owners.keys <+: (env.bind g k v).inner.owners.keys :=
  OrderedMap.keys_prefix_putNew _ _ _

end Keys

section Inherit

variable {env other : Environment} {origins : List Url} {g : Url} {k v : String}

/-- What binding, linking and claiming keep of an environment holds after it takes over names. A
name is bound only where its file owns the final name in the frame the name comes from. -/
theorem inherit_induction_frames {P : Environment → Prop} (h : P env)
    (hbind : ∀ e, ∀ f ∈ other.frames, ∀ g k v, P e → f.bindings.get? (g, k) = some v →
      f.owners.get? v = some (.file g) → P (e.bind g k v))
    (hlink : ∀ e, ∀ f ∈ other.frames, ∀ g k v, P e → f.bindings.get? (g, k) = some v →
      (f.owners.get? v = some (.file g) → e.Taken v) → P (e.link g k v))
    (hclaim : ∀ e, ∀ f ∈ other.frames, ∀ x, P e → f.owners.get? x = some .chunk → P (e.claim x)) :
    P (env.inherit other origins) := by
  have hbinding : ∀ e, ∀ f ∈ other.frames, ∀ b ∈ f.bindings.entries, P e →
      P (e.inheritBinding f.owners origins b) := by
    rintro e f hf ⟨⟨g, k⟩, v⟩ hb he
    have hget : f.bindings.get? (g, k) = some v := OrderedMap.get?_eq_some_iff.2 hb
    refine inheritBinding_cases (fun _ => he) (hbind e f hf g k v he hget) (fun hnot => ?_)
    refine hlink e f hf g k v he hget (fun howner => ?_)
    by_contra hnone
    exact hnot howner (isFree_iff.2 (fun o ho => absurd ⟨o, ho⟩ hnone))
  have hclaims : ∀ e, ∀ f ∈ other.frames, ∀ o ∈ f.owners.entries, P e → P (e.inheritClaim o) := by
    rintro e f hf ⟨x, o⟩ ho he
    refine inheritClaim_cases (fun _ => he) (fun hc => ?_)
    obtain rfl : o = .chunk := hc
    exact hclaim e f hf x he (OrderedMap.get?_eq_some_iff.2 ho)
  refine List.foldlRecOn (motive := P) _ _ h (fun e he f hf => ?_)
  have hf := List.mem_reverse.1 hf
  exact List.foldlRecOn (motive := P) _ _
    (List.foldlRecOn (motive := P) _ _ he (fun e he b hb => hbinding e f hf b hb he))
    (fun e he o ho => hclaims e f hf o ho he)

/-- What holds after an environment takes over names from one of a single frame. -/
theorem inherit_induction {P : Environment → Prop} (hother : other.outer = []) (h : P env)
    (hbind : ∀ e g k v, P e → other.lookup g k = some v → other.owner? v = some (.file g) →
      P (e.bind g k v))
    (hlink : ∀ e g k v, P e → other.lookup g k = some v →
      (other.owner? v = some (.file g) → e.Taken v) → P (e.link g k v))
    (hclaim : ∀ e x, P e → other.owner? x = some .chunk → P (e.claim x)) :
    P (env.inherit other origins) := by
  have hinner : ∀ f ∈ other.frames, f = other.inner := by simp [frames, hother]
  refine inherit_induction_frames h (fun e f hf g k v he hl hv => ?_)
    (fun e f hf g k v he hl hv => ?_) (fun e f hf x he hx => ?_)
  all_goals obtain rfl := hinner f hf
  · exact hbind e g k v he ((lookup_eq_lookupInner hother g k).trans hl) hv
  · exact hlink e g k v he ((lookup_eq_lookupInner hother g k).trans hl) hv
  · exact hclaim e x he hx

/-- What each name and each claim that is taken over keeps holds behind all of them. -/
theorem inherit_keeps {P : Environment → Prop} (h : P env)
    (hbinding : ∀ owners e b, P e → P (e.inheritBinding owners origins b))
    (hclaim : ∀ e o, P e → P (e.inheritClaim o)) : P (env.inherit other origins) := by
  unfold inherit
  refine List.foldlRecOn (motive := P) _ _ h (fun e he frame _ => ?_)
  exact List.foldlRecOn (motive := P) _ _
    (List.foldlRecOn (motive := P) _ _ he (fun e he b _ => hbinding _ e b he))
    (fun e he o _ => hclaim e o he)

theorem lookup_inheritClaim (e : Environment) (o : String × Owner) (g : Url) (k : String) :
    (e.inheritClaim o).lookup g k = e.lookup g k :=
  inheritClaim_cases (P := fun e' => e'.lookup g k = e.lookup g k) (fun _ => rfl) (fun _ => rfl)

theorem lookup_inheritBinding_of_ne (owners : OrderedMap String Owner) (origins : List Url)
    (env : Environment) {b : (Url × String) × String} {g : Url} {k : String} (h : b.1 ≠ (g, k)) :
    (env.inheritBinding owners origins b).lookup g k = env.lookup g k :=
  inheritBinding_cases (P := fun e => e.lookup g k = env.lookup g k) (fun _ => rfl)
    (fun _ => lookup_bind_eq_link.trans (lookup_link_of_ne h)) (fun _ => lookup_link_of_ne h)

theorem lookup_inheritBinding (owners : OrderedMap String Owner) (env : Environment)
    {b : (Url × String) × String} (h : b.1.1 ∈ origins) :
    (env.inheritBinding owners origins b).lookup b.1.1 b.1.2 = some b.2 := by
  refine inheritBinding_cases (P := fun e => e.lookup b.1.1 b.1.2 = some b.2) (fun hskip => hskip h)
    (fun _ => ?_) (fun _ => ?_)
  · rw [lookup_bind, if_pos rfl]
  · rw [lookup_link, if_pos rfl]

/-- Names that are known stay known when others are taken over. -/
theorem lookup_inherit_isSome {f : Url} {x : String} (h : (env.lookup f x).isSome) :
    ((env.inherit other origins).lookup f x).isSome := by
  refine inherit_keeps (P := fun e => (e.lookup f x).isSome) h (fun owners e b he => ?_)
    (fun e o he => by rwa [lookup_inheritClaim])
  refine inheritBinding_cases (P := fun e => (e.lookup f x).isSome) (fun _ => he) (fun _ => ?_)
    (fun _ => isSome_lookup_link he)
  rw [lookup_bind_eq_link]
  exact isSome_lookup_link he

/-- Of the bindings of one frame a name has one at most, so that no later one replaces it. -/
theorem lookup_inheritBindings (owners : OrderedMap String Owner) (hg : g ∈ origins)
    (bs : List ((Url × String) × String)) (hn : (bs.map Prod.fst).Nodup) (env : Environment) :
    (bs.foldl (inheritBinding owners origins) env).lookup g k =
      (OrderedMap.find (g, k) bs).or (env.lookup g k) := by
  induction bs generalizing env with
  | nil => rfl
  | cons b bs ih =>
    rw [List.map_cons, List.nodup_cons] at hn
    rw [List.foldl_cons, ih hn.2, OrderedMap.find]
    by_cases hb : b.1 = (g, k)
    · have hnone : OrderedMap.find (g, k) bs = none :=
        Option.not_isSome_iff_eq_none.1 (fun h => hn.1 (hb ▸ (OrderedMap.find_isSome_iff _ _).1 h))
      have hlookup := lookup_inheritBinding owners env (b := b) (by rwa [hb])
      rw [hb] at hlookup
      rw [if_pos hb, hnone, hlookup]
      rfl
    · rw [if_neg hb, lookup_inheritBinding_of_ne owners origins env hb]

theorem lookup_inheritFrame (hg : g ∈ origins) (env : Environment) (f : Frame) :
    (env.inheritFrame origins f).lookup g k = (f.bindings.get? (g, k)).or (env.lookup g k) := by
  rw [inheritFrame]
  refine (List.foldlRecOn (motive := fun e : Environment => e.lookup g k = _) _ _ rfl
    (fun e he o _ => (lookup_inheritClaim e o g k).trans he)).trans ?_
  exact lookup_inheritBindings f.owners hg _ f.bindings.keys_nodup env

/-- The names of the given files are taken over, from the innermost frame that has one: the frames
come outermost first, so that what an inner one binds replaces what an outer one does. -/
theorem lookup_inherit_or (hg : g ∈ origins) :
    (env.inherit other origins).lookup g k = (other.lookup g k).or (env.lookup g k) := by
  have hother : other.lookup g k = other.frames.findSome? (fun f => f.bindings.get? (g, k)) := rfl
  rw [inherit, List.foldl_reverse, hother]
  induction other.frames with
  | nil => rfl
  | cons f fs ih =>
    rw [List.foldr_cons, lookup_inheritFrame hg, ih, List.findSome?_cons]
    cases f.bindings.get? (g, k) <;> rfl

theorem lookup_inherit (hg : g ∈ origins) (h : other.lookup g k = some v) :
    (env.inherit other origins).lookup g k = some v := by
  rw [lookup_inherit_or hg, h, Option.some_or]

/-- The names of other files than the given ones stay as they are. -/
theorem lookup_inherit_of_not_mem (hg : g ∉ origins) (k : String) :
    (env.inherit other origins).lookup g k = env.lookup g k := by
  refine inherit_keeps (P := fun e => e.lookup g k = env.lookup g k) rfl (fun owners e b he => ?_)
    (fun e o he => (lookup_inheritClaim e o g k).trans he)
  by_cases hb : b.1 = (g, k)
  · simpa [inheritBinding, hb, hg] using he
  · exact (lookup_inheritBinding_of_ne owners origins e hb).trans he

/-- A name stays as it is, or is taken over if it is one of the given files. -/
theorem lookup_inherit_cases (g : Url) (k : String) :
    (env.inherit other origins).lookup g k = env.lookup g k ∨
      g ∈ origins ∧ (env.inherit other origins).lookup g k = other.lookup g k := by
  by_cases hg : g ∈ origins
  · rw [lookup_inherit_or hg]
    cases other.lookup g k with
    | none => exact Or.inl rfl
    | some v => exact Or.inr ⟨hg, rfl⟩
  · exact Or.inl (lookup_inherit_of_not_mem hg k)

end Inherit

end AmbientBundle.Environment

namespace AmbientBundle.Names

open Environment Syntax

/-- `e` is `env` with a new innermost frame in which only declarations of the file have names,
which nothing else owned. -/
structure Places (origin : Url) (env e : Environment) : Prop where
  outer : e.outer = env.frames
  bound : ∀ f k v, e.lookupInner f k = some v → f = origin ∧ e.owner? v = some (.file origin)
  owner : ∀ x o, e.owner? x = some o → o = .file origin ∧ ∀ a, env.Owns a x → a = .file origin

namespace Places

variable {origin : Url} {env e : Environment}

theorem child (origin : Url) (env : Environment) : Places origin env env.child :=
  ⟨rfl, fun _ _ _ h => (by cases h), fun _ _ h => (by cases h)⟩

theorem owns (h : Places origin env e) {x : String} {o : Owner} :
    e.Owns o x ↔ e.owner? x = some o ∨ env.Owns o x := by
  rw [owns_iff, h.outer]
  rfl

theorem lookup (h : Places origin env e) (f : Url) (k : String) :
    e.lookup f k = (e.lookupInner f k).or (env.lookup f k) := by
  rw [lookup_eq_or, h.outer]
  rfl

theorem bindIdent {p : Environment × Bindings} (h : Places origin env p.1) (id : Ident) :
    Places origin env (bindIdent origin p id).1 := by
  have hfree : ∀ o, p.1.Owns o (finalName p.1 origin id.name) → o = .file origin := by
    intro o ho
    unfold finalName at ho
    cases hl : p.1.lookupInner origin id.name with
    | none => exact eq_of_owns_placeName (by rwa [hl, Option.getD_none] at ho)
    | some v =>
      rw [hl, Option.getD_some] at ho
      have hv := (h.bound _ _ _ hl).2
      rcases h.owns.1 ho with ho | ho
      · exact (h.owner _ _ ho).1
      · exact (h.owner _ _ hv).2 o ho
  have hown {x : String} (hx : p.1.owner? x = some (.file origin)) :
      (Names.bindIdent origin p id).1.owner? x = some (.file origin) := by
    rw [bindIdent_fst, owner?_bind]
    split <;> simp [hx]
  refine ⟨h.outer, fun f k v hv => ?_, fun x o ho => ?_⟩
  · rw [bindIdent_fst, lookupInner, Environment.bind, OrderedMap.get?_put] at hv
    split at hv
    · rename_i hk
      obtain rfl := Option.some.inj hv
      refine ⟨(congrArg Prod.fst hk).symm, ?_⟩
      rw [bindIdent_fst, owner?_bind, if_pos rfl]
      cases ho : p.1.owner? (finalName p.1 origin id.name) with
      | none => rfl
      | some o => rw [Option.getD_some, hfree o (owns_iff.2 (Or.inl ho))]
    · exact (h.bound f k v hv).imp_right hown
  · rw [bindIdent_fst, owner?_bind] at ho
    split at ho
    · rename_i hx
      subst hx
      refine ⟨?_, fun a ha => hfree a (h.owns.2 (Or.inr ha))⟩
      exact (eq_of_getD ho).elim (fun ho => (h.owner _ _ ho).1) (fun ho => ho)
    · exact h.owner x o ho

theorem bindIdents {p : Environment × Bindings} (h : Places origin env p.1) (ids : List Ident) :
    Places origin env (ids.foldl (Names.bindIdent origin) p).1 := by
  induction ids generalizing p with
  | nil => exact h
  | cons id ids ih => exact ih (h.bindIdent id)

end Places

theorem keys_bindIdents {origin : Url} (ids : List Ident) (p : Environment × Bindings) :
    p.1.inner.owners.keys <+: (ids.foldl (bindIdent origin) p).1.inner.owners.keys := by
  induction ids generalizing p with
  | nil => exact List.prefix_refl _
  | cons id ids ih => exact (keys_bind _ _ _ _).trans (ih (bindIdent origin p id))

/-- Every bound identifier has a name in the innermost frame. -/
theorem lookupInner_bindIdents {origin : Url} {ids : List Ident} {p : Environment × Bindings}
    {id : Ident} (h : id ∈ ids ∨ (p.1.lookupInner origin id.name).isSome) :
    ((ids.foldl (bindIdent origin) p).1.lookupInner origin id.name).isSome := by
  induction ids generalizing p with
  | nil => exact h.resolve_left (by simp)
  | cons d ids ih =>
    refine ih ?_
    rw [bindIdent_fst, lookupInner, Environment.bind, OrderedMap.get?_put]
    rcases h with h | h
    · rcases List.mem_cons.1 h with rfl | h
      · exact Or.inr (by simp)
      · exact Or.inl h
    · refine Or.inr ?_
      split
      · rfl
      · exact h

end AmbientBundle.Names
