import AmbientBundle.Names.Declared
import AmbientBundle.Proofs.Names.Fresh
import AmbientBundle.Proofs.OrderedMap
/-!
Who owns a final name in the innermost frame, and what binding, claiming and linking do to owners
and look-ups. Main statement: after a file's declarations are bound in an environment of one frame
that knew nothing of the file, each declared name stands under a final name that the file owns.
-/
namespace AmbientBundle.Environment

open Names

/-- The owner of a final name in the innermost frame. -/
def owner? (env : Environment) (name : String) : Option Owner := env.inner.owners.get? name

section Steps

variable (env : Environment) (origin file : Url) (name final n : String)

theorem lookup_eq_or : env.lookup origin name =
    (env.lookupInner origin name).or (env.outer.findSome? (fun f => f.bindings.get? (origin, name))) := by
  simp [lookup, lookupInner, frames, List.findSome?_cons]
  cases env.inner.bindings.get? (origin, name) <;> rfl

theorem lookup_link : (env.link origin name final).lookup file n =
    if (origin, name) = (file, n) then some final else env.lookup file n := by
  simp only [lookup_eq_or, lookupInner, link, OrderedMap.get?_put]
  split <;> simp

theorem lookup_bind : (env.bind origin name final).lookup file n =
    if (origin, name) = (file, n) then some final else env.lookup file n := by
  simp only [lookup_eq_or, lookupInner, bind, OrderedMap.get?_put]
  split <;> simp

theorem owner?_bind : (env.bind origin name final).owner? n =
    if final = n then some ((env.owner? n).getD (.file origin)) else env.owner? n := by
  unfold owner? bind
  rw [OrderedMap.get?_putNew]
  split
  · rename_i h
    subst h
    rfl
  · rfl

theorem owner?_claim : (env.claim name).owner? n =
    if name = n then some ((env.owner? n).getD .chunk) else env.owner? n := by
  unfold owner? claim
  rw [OrderedMap.get?_putNew]
  split
  · rename_i h
    subst h
    rfl
  · rfl

end Steps

section Changed

variable {env : Environment} {origin file : Url} {name final n v : String}

/-- Binding a name answers for it as linking it does. -/
theorem lookup_bind_eq_link : (env.bind origin name final).lookup file n =
    (env.link origin name final).lookup file n := by
  rw [lookup_bind, lookup_link]

theorem lookup_link_of_ne (h : (origin, name) ≠ (file, n)) :
    (env.link origin name final).lookup file n = env.lookup file n := by
  rw [lookup_link, if_neg h]

/-- What a name stands for behind a link is what was linked, or what it stood for before. -/
theorem lookup_link_cases (h : (env.link origin name final).lookup file n = some v) :
    (origin = file ∧ name = n ∧ final = v) ∨ env.lookup file n = some v := by
  rw [lookup_link] at h
  split at h
  · rename_i he
    exact Or.inl ⟨congrArg Prod.fst he, congrArg Prod.snd he, Option.some.inj h⟩
  · exact Or.inr h

theorem lookup_bind_cases (h : (env.bind origin name final).lookup file n = some v) :
    (origin = file ∧ name = n ∧ final = v) ∨ env.lookup file n = some v :=
  lookup_link_cases (lookup_bind_eq_link ▸ h)

theorem isSome_lookup_link (h : (env.lookup file n).isSome) :
    ((env.link origin name final).lookup file n).isSome := by
  rw [lookup_link]
  split
  · rfl
  · exact h

end Changed

section Inherited

variable {P : Environment → Prop} {env : Environment} {owners : OrderedMap String Owner}
  {origins : List Url} {b : (Url × String) × String} {o : String × Owner}

/-- A binding that is taken over stands already, or is bound again where its file owns the final
name, or is linked to a final name that its file does not own or may not own here. -/
theorem inheritBinding_cases
    (hskip : (b.1.1 ∈ origins → env.lookup b.1.1 b.1.2 = some b.2) → P env)
    (hbind : owners.get? b.2 = some (.file b.1.1) → P (env.bind b.1.1 b.1.2 b.2))
    (hlink : (owners.get? b.2 = some (.file b.1.1) → ¬env.isFree b.2 b.1.1) →
      P (env.link b.1.1 b.1.2 b.2)) : P (env.inheritBinding owners origins b) := by
  unfold inheritBinding
  dsimp only
  split
  · rename_i h
    exact hskip (fun hmem => by simpa [hmem] using h)
  · split
    · rename_i h
      simp only [Bool.and_eq_true, beq_iff_eq] at h
      exact hbind h.1
    · rename_i h
      exact hlink (fun howner hfree => h (by simp [howner, hfree]))

/-- A claim of the chunk that is taken over is claimed again unless the name is taken. -/
theorem inheritClaim_cases (hskip : (o.2 = .chunk → env.isTaken o.1) → P env)
    (hclaim : o.2 = .chunk → P (env.claim o.1)) : P (env.inheritClaim o) := by
  unfold inheritClaim
  split
  · rename_i h
    simp only [Bool.and_eq_true, beq_iff_eq] at h
    exact hclaim h.1
  · rename_i h
    exact hskip (fun ho => by simpa [ho] using h)

end Inherited

theorem mem_takenNames_of_owner? {env : Environment} {n : String} {o : Owner}
    (h : env.owner? n = some o) : n ∈ env.takenNames := by
  rw [takenNames, frames, List.flatMap_cons]
  exact List.mem_append_left _ (OrderedMap.mem_keys_iff.2 ⟨o, h⟩)

theorem owner?_eq_none_of_not_mem {env : Environment} {n : String} (h : n ∉ env.takenNames) :
    env.owner? n = none := by
  cases ho : env.owner? n with
  | none => rfl
  | some o => exact absurd (mem_takenNames_of_owner? ho) h

/-- The name for a declaration is free in every frame or belongs to the declaration's file. -/
theorem owner?_placeName (env : Environment) (name : String) (origin : Url) :
    env.owner? (env.placeName name origin) = none ∨
      env.owner? (env.placeName name origin) = some (.file origin) := by
  rw [placeName]
  split
  · rename_i h
    have hf : env.inner.isFree name origin = true := List.all_eq_true.1 h env.inner (by simp [frames])
    rw [owner?]
    cases ho : env.inner.owners.get? name with
    | none => exact Or.inl rfl
    | some o =>
      simp only [Frame.isFree, ho, decide_eq_true_eq] at hf
      exact Or.inr (by rw [hf])
  · exact Or.inl (owner?_eq_none_of_not_mem (fresh_not_mem env.takenNames name))

/-- All names of files have final names for them with the property. -/
def AllFinal (P : Url × String → String → Prop) (env : Environment) : Prop :=
  ∀ f ∈ env.frames, ∀ b ∈ f.bindings.entries, P b.1 b.2

section AllFinal

variable {P : Url × String → String → Prop} {env other : Environment} {origin : Url}
  {name final : String}

theorem allFinal_empty : empty.AllFinal P := by
  intro f hf b hb
  rw [frames, empty, List.mem_singleton] at hf
  subst hf
  cases hb

theorem AllFinal.lookup (h : env.AllFinal P) (hl : env.lookup origin name = some final) :
    P (origin, name) final := by
  obtain ⟨f, hf, hb⟩ := List.exists_of_findSome?_eq_some hl
  exact h f hf _ (OrderedMap.mem_entries_of_get? hb)

theorem AllFinal.put (h : env.AllFinal P) (hp : P (origin, name) final) (owners : OrderedMap String Owner) :
    ({ env with inner := ⟨env.inner.bindings.put (origin, name) final, owners⟩ } :
      Environment).AllFinal P := by
  intro f hf b hb
  rcases List.mem_cons.1 hf with rfl | hf
  · rcases OrderedMap.mem_entries_put hb with rfl | hb
    · exact hp
    · exact h env.inner (by simp [frames]) b hb
  · exact h f (by simp [frames, hf]) b hb

theorem AllFinal.link (h : env.AllFinal P) (hp : P (origin, name) final) :
    (env.link origin name final).AllFinal P :=
  h.put hp _

theorem AllFinal.bind (h : env.AllFinal P) (hp : P (origin, name) final) :
    (env.bind origin name final).AllFinal P :=
  h.put hp _

theorem AllFinal.claim (h : env.AllFinal P) : (env.claim name).AllFinal P := by
  intro f hf b hb
  rcases List.mem_cons.1 hf with rfl | hf
  · exact h env.inner (by simp [frames]) b hb
  · exact h f (List.mem_cons_of_mem _ hf) b hb

theorem AllFinal.child (h : env.AllFinal P) : env.child.AllFinal P := by
  intro f hf b hb
  rcases List.mem_cons.1 hf with rfl | hf
  · cases hb
  · exact h f hf b hb

theorem AllFinal.inheritBinding (h : env.AllFinal P) {owners : OrderedMap String Owner}
    {origins : List Url} {b : (Url × String) × String} (hb : P b.1 b.2) :
    (env.inheritBinding owners origins b).AllFinal P :=
  inheritBinding_cases (fun _ => h) (fun _ => h.bind hb) (fun _ => h.link hb)

theorem AllFinal.inheritClaim (h : env.AllFinal P) (o : String × Owner) :
    (env.inheritClaim o).AllFinal P :=
  inheritClaim_cases (fun _ => h) (fun _ => h.claim)

theorem AllFinal.inheritFrame (h : env.AllFinal P) {origins : List Url} {f : Frame}
    (hf : ∀ b ∈ f.bindings.entries, P b.1 b.2) : (env.inheritFrame origins f).AllFinal P := by
  have hbind : (f.bindings.entries.foldl (Environment.inheritBinding f.owners origins) env).AllFinal
      P := by
    generalize f.bindings.entries = bs at hf
    induction bs generalizing env with
    | nil => exact h
    | cons b bs ih =>
      exact ih (h.inheritBinding (hf b (by simp))) (fun c hc => hf c (by simp [hc]))
  unfold Environment.inheritFrame
  generalize f.owners.entries = os
  generalize f.bindings.entries.foldl _ env = e at hbind
  induction os generalizing e with
  | nil => exact hbind
  | cons o os ih => exact ih _ (hbind.inheritClaim o)

theorem AllFinal.inherit (h : env.AllFinal P) (ho : other.AllFinal P) (origins : List Url) :
    (env.inherit other origins).AllFinal P := by
  have hfs : ∀ f ∈ other.frames.reverse, ∀ b ∈ f.bindings.entries, P b.1 b.2 :=
    fun f hf => ho f (List.mem_reverse.1 hf)
  unfold Environment.inherit
  generalize other.frames.reverse = fs at hfs
  induction fs generalizing env with
  | nil => exact h
  | cons f fs ih =>
    exact ih (h.inheritFrame (hfs f (by simp))) (fun g hg => hfs g (by simp [hg]))

end AllFinal

end AmbientBundle.Environment

namespace AmbientBundle.Names

open Environment Syntax

/-- An environment of one frame whose final names for a file are the file's own. -/
structure OwnNames (origin : Url) (env : Environment) : Prop where
  flat : env.outer = []
  own : ∀ n f, env.lookup origin n = some f → env.owner? f = some (.file origin)

section BindIdent

variable {origin : Url} {env : Environment} {p : Environment × Bindings} {id : Ident}

theorem bindIdent_fst : (bindIdent origin p id).1 =
    p.1.bind origin id.name (finalName p.1 origin id.name) := rfl

theorem lookup_eq_lookupInner (h : env.outer = []) (file : Url) (n : String) :
    env.lookup file n = env.lookupInner file n := by
  simp [lookup_eq_or, h]

/-- The final name of a declared name has no owner yet or is the file's own. -/
theorem owner?_finalName (h : OwnNames origin env) (n : String) :
    env.owner? (finalName env origin n) = none ∨
      env.owner? (finalName env origin n) = some (.file origin) := by
  unfold finalName
  cases hl : env.lookupInner origin n with
  | none => exact owner?_placeName env n origin
  | some f =>
    rw [← lookup_eq_lookupInner h.flat] at hl
    exact Or.inr (h.own n f hl)

theorem ownNames_bindIdent (h : OwnNames origin p.1) :
    OwnNames origin (bindIdent origin p id).1 := by
  refine ⟨h.flat, fun n f hl => ?_⟩
  rw [bindIdent_fst] at hl ⊢
  rw [lookup_bind] at hl
  rw [owner?_bind]
  split at hl
  · obtain rfl := Option.some.inj hl
    rw [if_pos rfl]
    rcases owner?_finalName h id.name with ho | ho <;> simp [ho]
  · have ho := h.own n f hl
    split <;> simp [ho]

theorem lookup_bindIdent (h : OwnNames origin p.1) {n f : String}
    (hl : p.1.lookup origin n = some f) :
    (bindIdent origin p id).1.lookup origin n = some f := by
  rw [bindIdent_fst, lookup_bind]
  split
  · rename_i he
    obtain rfl : id.name = n := congrArg Prod.snd he
    rw [lookup_eq_lookupInner h.flat] at hl
    simp [finalName, hl]
  · exact hl

end BindIdent

section BindIdents

variable {origin : Url} {ids : List Ident} {p : Environment × Bindings}

theorem ownNames_bindIdents (h : OwnNames origin p.1) :
    OwnNames origin (ids.foldl (bindIdent origin) p).1 := by
  induction ids generalizing p with
  | nil => exact h
  | cons id ids ih => exact ih (ownNames_bindIdent h)

theorem lookup_bindIdents (h : OwnNames origin p.1) {n f : String}
    (hl : p.1.lookup origin n = some f) :
    (ids.foldl (bindIdent origin) p).1.lookup origin n = some f := by
  induction ids generalizing p with
  | nil => exact hl
  | cons id ids ih => exact ih (ownNames_bindIdent h) (lookup_bindIdent h hl)

/-- Every bound identifier has a final name. -/
theorem exists_lookup_bindIdents (h : OwnNames origin p.1) {id : Ident} (hid : id ∈ ids) :
    ∃ f, (ids.foldl (bindIdent origin) p).1.lookup origin id.name = some f := by
  induction ids generalizing p with
  | nil => simp at hid
  | cons d ids ih =>
    rcases List.mem_cons.1 hid with rfl | hid
    · refine ⟨finalName p.1 origin id.name, lookup_bindIdents (ownNames_bindIdent h) ?_⟩
      rw [bindIdent_fst, lookup_bind, if_pos rfl]
    · exact ih (ownNames_bindIdent h) hid

/-- A name that has a final name keeps one. -/
theorem lookup_bindIdents_isSome {file : Url} {n : String} (hl : (p.1.lookup file n).isSome) :
    ((ids.foldl (bindIdent origin) p).1.lookup file n).isSome := by
  induction ids generalizing p with
  | nil => exact hl
  | cons id ids ih =>
    refine ih ?_
    rw [bindIdent_fst, lookup_bind]
    split
    · rfl
    · exact hl

theorem lookup_bindIdents_of_ne {file : Url} (h : origin ≠ file) (n : String) :
    (ids.foldl (bindIdent origin) p).1.lookup file n = p.1.lookup file n := by
  induction ids generalizing p with
  | nil => rfl
  | cons id ids ih =>
    rw [List.foldl_cons, ih, bindIdent_fst, lookup_bind, if_neg]
    intro he
    exact h (congrArg Prod.fst he)

theorem lookup_bindIdents_of_not_mem {n : String} (h : n ∉ ids.map Ident.name) :
    (ids.foldl (bindIdent origin) p).1.lookup origin n = p.1.lookup origin n := by
  induction ids generalizing p with
  | nil => rfl
  | cons id ids ih =>
    rw [List.map_cons, List.mem_cons, not_or] at h
    rw [List.foldl_cons, ih h.2, bindIdent_fst, lookup_bind, if_neg]
    intro he
    exact h.1 (congrArg Prod.snd he).symm

theorem owner?_bindIdents {n : String} {o : Owner} (h : p.1.owner? n = some o) :
    (ids.foldl (bindIdent origin) p).1.owner? n = some o := by
  induction ids generalizing p with
  | nil => exact h
  | cons id ids ih =>
    apply ih
    rw [bindIdent_fst, owner?_bind]
    split <;> simp [h]

/-- A final name that binding gives an owner belongs to the file. -/
theorem owner?_of_bindIdents {n : String} {o : Owner}
    (h : (ids.foldl (bindIdent origin) p).1.owner? n = some o) :
    p.1.owner? n = some o ∨ o = .file origin := by
  induction ids generalizing p with
  | nil => exact Or.inl h
  | cons id ids ih =>
    rcases ih h with h | h
    · rw [bindIdent_fst, owner?_bind] at h
      split at h
      · cases ho : p.1.owner? n with
        | none => exact Or.inr (by simpa [ho, eq_comm] using h)
        | some o' => exact Or.inl (by simpa [ho] using h)
      · exact Or.inl h
    · exact Or.inr h

/-- A final name that binding gives to the file is that of a bound identifier. -/
theorem exists_lookup_of_owner? (h : OwnNames origin p.1) {x : String}
    (hx : (ids.foldl (bindIdent origin) p).1.owner? x = some (.file origin)) :
    p.1.owner? x = some (.file origin) ∨
      ∃ id ∈ ids, (ids.foldl (bindIdent origin) p).1.lookup origin id.name = some x := by
  induction ids generalizing p with
  | nil => exact Or.inl hx
  | cons id ids ih =>
    rcases ih (ownNames_bindIdent h) hx with ho | ⟨d, hd, hl⟩
    · rw [bindIdent_fst, owner?_bind] at ho
      split at ho
      · rename_i hfinal
        refine Or.inr ⟨id, by simp, lookup_bindIdents (ownNames_bindIdent h) ?_⟩
        rw [bindIdent_fst, lookup_bind, if_pos rfl, hfinal]
      · exact Or.inl ho
    · exact Or.inr ⟨d, by simp [hd], hl⟩

theorem allFinal_bindIdents {P : Url × String → String → Prop} (h : p.1.AllFinal P)
    (hname : ∀ id ∈ ids, P (origin, id.name) id.name)
    (hfresh : ∀ id ∈ ids, ∀ taken, P (origin, id.name) (fresh taken id.name)) :
    (ids.foldl (bindIdent origin) p).1.AllFinal P := by
  induction ids generalizing p with
  | nil => exact h
  | cons id ids ih =>
    refine ih ?_ (fun d hd => hname d (by simp [hd])) (fun d hd => hfresh d (by simp [hd]))
    rw [bindIdent_fst]
    refine h.bind ?_
    unfold finalName
    cases hl : p.1.lookupInner origin id.name with
    | some f => exact h p.1.inner (by simp [frames]) _ (OrderedMap.mem_entries_of_get? hl)
    | none =>
      rw [Option.getD_none, placeName]
      split
      · exact hname id (by simp)
      · exact hfresh id (by simp) _

theorem outer_bindIdents : (ids.foldl (bindIdent origin) p).1.outer = p.1.outer := by
  induction ids generalizing p with
  | nil => rfl
  | cons id ids ih => exact ih

/-- A reserved word is the final name of itself only. -/
theorem lookup_bindIdents_reserved (hflat : p.1.outer = [])
    (h : ∀ n x, p.1.lookup origin n = some x → isReserved x = true → n = x) {n x : String}
    (hl : (ids.foldl (bindIdent origin) p).1.lookup origin n = some x) (hx : isReserved x = true) :
    n = x := by
  induction ids generalizing p with
  | nil => exact h n x hl hx
  | cons id ids ih =>
    refine ih (p := bindIdent origin p id) hflat (fun m y hm hy => ?_) hl
    rw [bindIdent_fst, lookup_bind] at hm
    split at hm
    · rename_i he
      obtain rfl : id.name = m := congrArg Prod.snd he
      obtain rfl := Option.some.inj hm
      unfold finalName at hy ⊢
      cases hold : p.1.lookupInner origin id.name with
      | some z =>
        rw [hold, Option.getD_some] at hy
        rw [← lookup_eq_lookupInner hflat] at hold
        exact h id.name z hold hy
      | none =>
        rw [hold, Option.getD_none, Environment.placeName] at hy
        rw [Option.getD_none, Environment.placeName]
        split at hy
        · rename_i hfree
          rw [if_pos hfree]
        · rw [Environment.freshName, isReserved_fresh] at hy
          cases hy
    · exact h m y hm hy

/-- An environment of one frame that only the file itself has used, each name as it is. -/
structure Alone (origin : Url) (env : Environment) : Prop where
  flat : env.outer = []
  owner : ∀ n o, env.owner? n = some o → o = .file origin
  same : ∀ n f, env.lookup origin n = some f → f = n

theorem alone_empty (origin : Url) : Alone origin Environment.empty :=
  ⟨rfl, fun _ _ h => (by cases h), fun _ _ h => (by cases h)⟩

theorem Alone.getD_lookup {env : Environment} (h : Alone origin env) (n : String) :
    (env.lookup origin n).getD n = n := by
  cases hl : env.lookup origin n with
  | none => rfl
  | some f => exact h.same n f hl

theorem Alone.finalName_eq {env : Environment} (h : Alone origin env) (n : String) :
    finalName env origin n = n := by
  unfold finalName
  cases hl : env.lookupInner origin n with
  | some f =>
    rw [← lookup_eq_lookupInner h.flat] at hl
    exact h.same n f hl
  | none =>
    have hfree : env.isFree n origin = true := by
      simp only [Environment.isFree, frames, h.flat, List.all_cons, List.all_nil, Bool.and_true,
        Frame.isFree]
      cases ho : env.inner.owners.get? n with
      | none => rfl
      | some o => simpa using h.owner n o ho
    simp [placeName, hfree]

/-- Where a file is alone its declarations keep their names. -/
theorem Alone.bindIdents (h : Alone origin p.1) :
    Alone origin (ids.foldl (bindIdent origin) p).1 := by
  induction ids generalizing p with
  | nil => exact h
  | cons id ids ih =>
    refine ih ⟨h.flat, fun n o ho => ?_, fun n f hf => ?_⟩
    · rw [bindIdent_fst, owner?_bind] at ho
      split at ho
      · cases hn : p.1.owner? n with
        | none => exact (Option.some.inj (by simpa [hn] using ho)).symm
        | some o' => exact h.owner n o (by simpa [hn] using ho)
      · exact h.owner n o ho
    · rw [bindIdent_fst, lookup_bind, h.finalName_eq] at hf
      split at hf
      · rename_i he
        rw [← Option.some.inj hf]
        exact congrArg Prod.snd he
      · exact h.same n f hf

end BindIdents

end AmbientBundle.Names
