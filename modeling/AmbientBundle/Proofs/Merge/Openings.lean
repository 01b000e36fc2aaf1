import AmbientBundle.Proofs.Merge.Linking
import AmbientBundle.Proofs.Merge.Owners
import AmbientBundle.Proofs.Names.Chosen
/-!
What the environment of an open namespace block knows. The declarations of the block's file get
names that nothing around the block owns. The root may give such a name away later, so it is kept
which of two names got its owner first.
-/
namespace AmbientBundle.Merge

open Names Syntax

/-- A block that was opened: its name, its file, and the names that the declarations of the file
got then. -/
structure Opening where
  name : String
  target : Url
  named : String → Option String

/-- One of the declarations of the block's file got the name. -/
def Opening.Has (o : Opening) (x : String) : Prop := ∃ k, o.named k = some x

/-- Inside of the blocks, the innermost first, `v` is the name of the declaration of `k` in `g`: the
name that it has at the root, or that it got in a block of its file. -/
def KnownAs (root : Environment) (os : List Opening) (g : Url) (k v : String) : Prop :=
  (∃ o ∈ os, o.target = g ∧ o.named k = some v) ∨ root.lookup g k = some v

/-- Inside of the blocks `v` is the name of a declaration or one that the chunk made up, which then
is no name of the blocks' files. -/
def Given (cx : Context) (root : Environment) (os : List Opening) (v : String) : Prop :=
  (root.owner? v = some .chunk ∧ ∀ o ∈ os, ¬o.Has v) ∨
    ∃ g k, cx.Declares g k ∧ KnownAs root os g k v

/-- The final name fits what the name leads to inside of the blocks. -/
structure FitsIn (cx : Context) (root : Environment) (os : List Opening) (a : Reference)
    (final : String) : Prop where
  leads : ∃ τ, cx.Leads a τ
  fits : ∀ g k, cx.Means a g k → KnownAs root os g k final
  given : Given cx root os final

/-- The root gives more names away, and keeps those of declarations. -/
structure Widens (cx : Context) (root root' : Environment) : Prop where
  keys : root.inner.owners.keys <+: root'.inner.owners.keys
  owner : ∀ x a, root.owner? x = some a → root'.owner? x = some a
  named : ∀ g k v, cx.Declares g k → root.lookup g k = some v → root'.lookup g k = some v

/-- At the root a file owns the names of its declarations, and no others. What a name stands for has
an owner. -/
structure NamesOwned (cx : Context) (root : Environment) : Prop where
  flat : root.outer = []
  given : ∀ g k x, root.lookup g k = some x → (root.owner? x).isSome
  owned : ∀ g k x, cx.Declares g k → root.lookup g k = some x → root.owner? x = some (.file g)
  declared : ∀ g x, root.owner? x = some (.file g) → ∃ k, cx.Declares g k ∧ root.lookup g k = some x

variable {cx : Context} {root root' env : Environment} {known known' : SeenSet Url}
  {o : Opening} {os : List Opening} {a b : Reference} {g : Url} {k v x : String}

theorem Context.Leads.declares {τ : Denoted} (h : cx.Leads a τ) (hτ : τ = .decl g k) :
    cx.Declares g k := by
  induction h with
  | @here a τ h =>
    subst hτ
    obtain rfl := Context.eq_own_of_mem_follow h
    by_contra hd
    rcases List.mem_append.1 h with h | h
    · simp [hd] at h
    · obtain ⟨e, _, he⟩ := List.mem_map.1 h
      exact Context.imported_ne_decl _ _ he
  | next _ _ ih => exact ih hτ

theorem Context.Means.declares (h : cx.Means a g k) : cx.Declares g k := h.leads.declares rfl

namespace Widens

theorem refl (cx : Context) (root : Environment) : Widens cx root root :=
  ⟨List.prefix_refl _, fun _ _ h => h, fun _ _ _ _ h => h⟩

theorem trans {root'' : Environment} (h : Widens cx root root') (h' : Widens cx root' root'') :
    Widens cx root root'' :=
  ⟨h.keys.trans h'.keys, fun x a hx => h'.owner x a (h.owner x a hx),
    fun g k v hd hx => h'.named g k v hd (h.named g k v hd hx)⟩

theorem isSome (h : Widens cx root root') (hx : (root.owner? x).isSome) :
    (root'.owner? x).isSome := by
  obtain ⟨a, ha⟩ := Option.isSome_iff_exists.1 hx
  simp [h.owner x a ha]

theorem claim (cx : Context) (root : Environment) (n : String) : Widens cx root (root.claim n) := by
  refine ⟨Environment.keys_claim root n, fun x a h => ?_, fun _ _ _ _ h => h⟩
  rw [Environment.owner?_claim]
  split <;> simp [h]

/-- A local is linked that its file does not declare. -/
theorem link (root : Environment) (v : String) (hk : ¬cx.Declares g k) :
    Widens cx root (root.link g k v) := by
  refine ⟨List.prefix_refl _, fun _ _ h => h, fun f x w hx h => ?_⟩
  rw [Environment.lookup_link_of_ne]
  · exact h
  · rintro he
    obtain ⟨rfl, rfl⟩ := Prod.mk.inj he
    exact hk hx

/-- A file that the root does not know begins there. -/
theorem begin (hnew : ∀ k, root.lookup g k = none) (ids : List Ident) :
    Widens cx root (ids.foldl (bindIdent g) (root, OrderedMap.empty)).1 := by
  refine ⟨keys_bindIdents ids (root, OrderedMap.empty), fun x a h => owner?_bindIdents h,
    fun f k v _ h => ?_⟩
  rw [lookup_bindIdents_of_ne]
  · exact h
  · rintro rfl
    simp [hnew] at h

end Widens

namespace NamesOwned

theorem empty (cx : Context) : NamesOwned cx Environment.empty :=
  ⟨rfl, fun _ _ _ h => (by cases h), fun _ _ _ _ h => (by cases h), fun _ _ h => (by cases h)⟩

theorem claim (h : NamesOwned cx root) (n : String) : NamesOwned cx (root.claim n) := by
  refine ⟨h.flat, fun g k x hl => (Widens.claim cx root n).isSome (h.given g k x hl),
    fun g k x hd hl => (Widens.claim cx root n).owner x _ (h.owned g k x hd hl),
    fun g x hx => h.declared g x ?_⟩
  rw [Environment.owner?_claim] at hx
  split at hx
  · exact (Environment.eq_of_getD hx).resolve_right (by simp)
  · exact hx

theorem link (h : NamesOwned cx root) (hk : ¬cx.Declares g k) (hv : (root.owner? v).isSome) :
    NamesOwned cx (root.link g k v) := by
  refine ⟨h.flat, fun f x w hl => ?_, fun f x w hd hl => h.owned f x w hd ?_, fun f x hx => ?_⟩
  · rcases Environment.lookup_link_cases hl with ⟨_, _, rfl⟩ | hl
    · exact hv
    · exact h.given f x w hl
  · rcases Environment.lookup_link_cases hl with ⟨rfl, rfl, _⟩ | hl
    · exact absurd hd hk
    · exact hl
  · obtain ⟨x', hd, hl⟩ := h.declared f x hx
    exact ⟨x', hd, (Widens.link root v hk).named f x' x hd hl⟩

theorem begin (h : NamesOwned cx root) (hnew : ∀ k, root.lookup g k = none) :
    NamesOwned cx (((cx.statements g).flatMap Item.declared).foldl (bindIdent g)
      (root, OrderedMap.empty)).1 := by
  have hw : Widens cx root _ := .begin hnew ((cx.statements g).flatMap Item.declared)
  have hown : OwnNames g root := ⟨h.flat, fun n f hl => by simp [hnew] at hl⟩
  have hown' : OwnNames g (((cx.statements g).flatMap Item.declared).foldl (bindIdent g)
      (root, OrderedMap.empty)).1 := ownNames_bindIdents (p := (root, OrderedMap.empty)) hown
  refine ⟨hown'.flat, fun f k x hl => ?_, fun f k x hd hl => ?_, fun f x hx => ?_⟩
  · by_cases hf : g = f
    · subst hf
      simp [hown'.own k x hl]
    · rw [lookup_bindIdents_of_ne hf] at hl
      exact hw.isSome (h.given f k x hl)
  · by_cases hf : g = f
    · subst hf
      exact hown'.own k x hl
    · rw [lookup_bindIdents_of_ne hf] at hl
      exact hw.owner x _ (h.owned f k x hd hl)
  · rcases owner?_of_bindIdents hx with ho | ho
    · obtain ⟨k, hd, hl⟩ := h.declared f x ho
      exact ⟨k, hd, hw.named f k x hd hl⟩
    · obtain rfl := Owner.file.inj ho
      rcases exists_lookup_of_owner? (p := (root, OrderedMap.empty)) hown hx with ho | ⟨id, hid, hl⟩
      · obtain ⟨k, hd, hl⟩ := h.declared f x ho
        exact ⟨k, hd, hw.named f k x hd hl⟩
      · exact ⟨id.name, List.mem_map.2 ⟨id, hid, rfl⟩, hl⟩

end NamesOwned

theorem KnownAs.widen (h : KnownAs root os g k v) (hw : Widens cx root root')
    (hd : cx.Declares g k) : KnownAs root' os g k v :=
  h.imp_right (hw.named g k v hd)

theorem KnownAs.cons (h : KnownAs root os g k v) (o : Opening) : KnownAs root (o :: os) g k v :=
  h.imp_left (fun ⟨p, hp, h⟩ => ⟨p, List.mem_cons_of_mem _ hp, h⟩)

namespace Given

theorem widen (h : Given cx root os v) (hw : Widens cx root root') : Given cx root' os v := by
  rcases h with ⟨hc, hos⟩ | ⟨g, k, hd, hk⟩
  · exact Or.inl ⟨hw.owner _ _ hc, hos⟩
  · exact Or.inr ⟨g, k, hd, hk.widen hw hd⟩

theorem cons (h : Given cx root os v) (ho : root.owner? v = some .chunk → ¬o.Has v) :
    Given cx root (o :: os) v := by
  rcases h with ⟨hc, hos⟩ | ⟨g, k, hd, hk⟩
  · refine Or.inl ⟨hc, fun p hp => ?_⟩
    rcases List.mem_cons.1 hp with rfl | hp
    · exact ho hc
    · exact hos p hp
  · exact Or.inr ⟨g, k, hd, hk.cons o⟩

/-- At the root names that are given have owners. -/
theorem isSome (h : Given cx root [] v) (hn : NamesOwned cx root) : (root.owner? v).isSome := by
  rcases h with ⟨hc, _⟩ | ⟨g, k, hd, hk⟩
  · simp [hc]
  · exact hn.given g k v (hk.resolve_left (by simp))

end Given

theorem NamesOwned.given_of_owner? (h : NamesOwned cx root)
    (hos : ∀ o ∈ os, ∀ x, o.Has x → root.owner? x ≠ some .chunk) {a : Owner}
    (ha : root.owner? v = some a) : Given cx root os v := by
  cases a with
  | chunk => exact Or.inl ⟨ha, fun o ho hx => hos o ho v hx ha⟩
  | file f =>
    obtain ⟨k, hd, hl⟩ := h.declared f v ha
    exact Or.inr ⟨f, k, hd, Or.inr hl⟩

namespace FitsIn

theorem widen (h : FitsIn cx root os a v) (hw : Widens cx root root') : FitsIn cx root' os a v :=
  ⟨h.leads, fun g k hm => (h.fits g k hm).widen hw hm.declares, h.given.widen hw⟩

/-- What the root knows fits inside of the blocks. -/
theorem of_lookup (hn : NamesOwned cx root)
    (hos : ∀ o ∈ os, ∀ x, o.Has x → root.owner? x ≠ some .chunk) (h : Fits cx root a v)
    (hl : root.lookup g k = some v) : FitsIn cx root os a v := by
  obtain ⟨o, ho⟩ := Option.isSome_iff_exists.1 (hn.given g k v hl)
  exact ⟨h.leads, fun g k hm => Or.inr (h.fits g k hm), hn.given_of_owner? hos ho⟩

theorem cons (h : FitsIn cx root os a v) (ho : root.owner? v = some .chunk → ¬o.Has v) :
    FitsIn cx root (o :: os) a v :=
  ⟨h.leads, fun g k hm => (h.fits g k hm).cons o, h.given.cons ho⟩

theorem of_other (h : cx.Leads a .other) (hv : Given cx root os v) : FitsIn cx root os a v :=
  ⟨⟨_, h⟩, fun _ _ hm => (by cases hm.only _ h), hv⟩

theorem next (h : FitsIn cx root os b v) (hb : .go b ∈ cx.follow a) : FitsIn cx root os a v := by
  obtain ⟨τ, hτ⟩ := h.leads
  refine ⟨⟨τ, .next hb hτ⟩, fun g k hm => h.fits g k ⟨?_, fun σ hσ => hm.only σ (.next hb hσ)⟩,
    h.given⟩
  exact hm.only τ (.next hb hτ) ▸ hτ

/-- A declared name stands for the declaration. -/
theorem of_declares (hd : cx.Declares g k) (h : KnownAs root os g k v) :
    FitsIn cx root os (.own g k) v := by
  have hleads : cx.Leads (.own g k) (.decl g k) := .here (by simp [Context.follow, hd])
  refine ⟨⟨_, hleads⟩, fun g' k' hm => ?_, Or.inr ⟨g, k, hd, h⟩⟩
  cases hm.only _ hleads
  exact h

end FitsIn

/-- What the environment inside of the blocks knows: all names that the root gave away, as far as
the known files go, and for each name what it stands for. -/
structure Sees (cx : Context) (root : Environment) (known : SeenSet Url) (os : List Opening)
    (env : Environment) : Prop where
  taken : ∀ x a, root.owner? x = some a → (∀ f, a = .file f → known.contains f = true) → env.Taken x
  owner : ∀ x f, env.Owns (.file f) x → root.owner? x = some (.file f) ∨ ∃ p ∈ os, p.target = f
  owned : ∀ f k x, cx.Declares f k → env.lookup f k = some x → env.Taken x
  own : ∀ p ∈ os, ∀ x, p.Has x → env.Owns (.file p.target) x
  unclaimed : ∀ p ∈ os, ∀ x, p.Has x → root.owner? x ≠ some .chunk
  sound : ∀ f x v, env.lookup f x = some v → FitsIn cx root os (.own f x) v

/-- What the environment of an open block knows: the declarations of the block's file have names,
namely those of the opening and those that the file has at the root. -/
structure Inside (cx : Context) (root : Environment) (known : SeenSet Url) (o : Opening)
    (os : List Opening) (env : Environment) : Prop extends Sees cx root known (o :: os) env where
  bound : ∀ k, cx.Declares o.target k → (env.lookup o.target k).isSome
  names : ∀ k x, cx.Declares o.target k → env.lookup o.target k = some x →
    o.named k = some x ∨ root.lookup o.target k = some x

/-- How a block was opened: for a new file, under a name of the chunk's, with names for the file's
declarations that are told apart, that no block around it has and that nothing else had at the
root. -/
structure Opened (root : Environment) (o : Opening) (os : List Opening) : Prop where
  name : root.owner? o.name = some .chunk
  told : ToldApart o.named
  new : ∀ p ∈ os, p.target ≠ o.target
  apart : ∀ x, o.Has x → ∀ p ∈ os, ¬p.Has x
  late : ∀ x, o.Has x → ∀ a, root.owner? x = some a →
    a = .file o.target ∨ root.TakenBefore o.name x

theorem Opened.widen (h : Opened root o os) (hw : Widens cx root root') : Opened root' o os := by
  refine ⟨hw.owner _ _ h.name, h.told, h.new, h.apart, fun x hx a ha => ?_⟩
  cases hr : root.owner? x with
  | some b =>
    obtain rfl : b = a := Option.some.inj ((hw.owner x b hr).symm.trans ha)
    exact (h.late x hx b hr).imp_right (fun hb => hb.mono hw.keys)
  | none => exact Or.inr ((Environment.takenBefore_of_owner? h.name hr).mono hw.keys)

/-- The root sees itself. -/
theorem Sees.of_root (hn : NamesOwned cx root) (hs : ∀ f x v, root.lookup f x = some v →
    Fits cx root (.own f x) v) : Sees cx root known [] root where
  taken _ a h _ := Environment.taken_of_owner? h
  owner _ _ h := Or.inl ((Environment.owns_iff_owner? hn.flat).1 h)
  owned f k x hd h := Environment.taken_of_owner? (hn.owned f k x hd h)
  own := by simp
  unclaimed := by simp
  sound f x v h := .of_lookup hn (by simp) (hs f x v h) h

/-- `e` is `env` with a new innermost frame, in which the declarations of the file have names. -/
structure Begins (cx : Context) (target : Url) (env e : Environment) : Prop
    extends Places target env e where
  chosen : Chosen target e
  declared : ∀ k, cx.Declares target k → (e.lookupInner target k).isSome
  others : ∀ f k, ¬(f = target ∧ cx.Declares f k) → e.lookup f k = env.lookup f k

namespace Begins

variable {target : Url} {name : String} {e : Environment}

theorem bindIdents (cx : Context) (target : Url) (env : Environment) :
    Begins cx target env (((cx.statements target).flatMap Item.declared).foldl (bindIdent target)
      (env.child, OrderedMap.empty)).1 where
  toPlaces := Places.bindIdents (p := (env.child, OrderedMap.empty)) (.child target env) _
  chosen := Chosen.bindIdents (p := (env.child, OrderedMap.empty)) (.of_none (fun _ => rfl)) _
  declared k hk := by
    obtain ⟨id, hid, rfl⟩ := List.mem_map.1 hk
    exact lookupInner_bindIdents (Or.inl hid)
  others f k hk := by
    by_cases hf : f = target
    · subst hf
      exact lookup_bindIdents_of_not_mem (fun hx => hk ⟨rfl, hx⟩)
    · exact lookup_bindIdents_of_ne (Ne.symm hf) k

theorem named (h : Begins cx target env e) (hk : cx.Declares target k)
    (hl : e.lookup target k = some x) : e.lookupInner target k = some x := by
  obtain ⟨y, hy⟩ := Option.isSome_iff_exists.1 (h.declared k hk)
  rw [h.lookup, hy] at hl
  rw [hy, ← hl, Option.some_or]

theorem has (h : Begins cx target env e) (hx : (Opening.mk name target (e.lookupInner target)).Has x) :
    e.owner? x = some (.file target) := by
  obtain ⟨k, hk⟩ := hx
  exact (h.bound target k x hk).2

/-- Nothing else had a name at the root that a declaration of the file gets. -/
theorem eq_of_has (h : Begins cx target env e) (hs : Sees cx root known os env)
    (hknown : ∀ x f, root.owner? x = some (.file f) → known.contains f = true)
    (hnew : ∀ p ∈ os, p.target ≠ target)
    (hx : (Opening.mk name target (e.lookupInner target)).Has x) {a : Owner}
    (ha : root.owner? x = some a) : a = .file target := by
  obtain ⟨b, hb⟩ := hs.taken x a ha (fun f hf => hknown x f (hf ▸ ha))
  obtain rfl := (h.owner x _ (h.has hx)).2 b hb
  rcases hs.owner x target hb with hr | ⟨p, hp, ht⟩
  · exact Option.some.inj (ha.symm.trans hr)
  · exact absurd ht (hnew p hp)

theorem sees (h : Begins cx target env e) (hs : Sees cx root known os env)
    (hknown : ∀ x f, root.owner? x = some (.file f) → known.contains f = true)
    (hnew : ∀ p ∈ os, p.target ≠ target) (name : String) :
    Sees cx root known (⟨name, target, e.lookupInner target⟩ :: os) e where
  taken x a ha hf := (hs.taken x a ha hf).imp (fun o ho => h.owns.2 (Or.inr ho))
  owner x f hx := by
    rcases h.owns.1 hx with hx | hx
    · have hf := (h.owner x _ hx).1
      exact Or.inr ⟨_, List.mem_cons_self, (Owner.file.inj hf).symm⟩
    · exact (hs.owner x f hx).imp_right (fun ⟨p, hp, ht⟩ => ⟨p, List.mem_cons_of_mem _ hp, ht⟩)
  owned f k x hd hl := by
    rw [h.lookup] at hl
    cases hi : e.lookupInner f k with
    | some y =>
      rw [hi] at hl
      obtain rfl := Option.some.inj hl
      exact Environment.taken_of_owner? (h.bound f k y hi).2
    | none =>
      rw [hi] at hl
      exact (hs.owned f k x hd hl).imp (fun o ho => h.owns.2 (Or.inr ho))
  own p hp x hx := by
    rcases List.mem_cons.1 hp with rfl | hp
    · exact h.owns.2 (Or.inl (h.has hx))
    · exact h.owns.2 (Or.inr (hs.own p hp x hx))
  unclaimed p hp x hx hc := by
    rcases List.mem_cons.1 hp with rfl | hp
    · cases h.eq_of_has hs hknown hnew hx hc
    · exact hs.unclaimed p hp x hx hc
  sound f x v hl := by
    by_cases hd : f = target ∧ cx.Declares f x
    · obtain ⟨rfl, hd⟩ := hd
      exact .of_declares hd (Or.inl ⟨_, List.mem_cons_self, rfl, h.named hd hl⟩)
    · exact (hs.sound f x v (h.others f x hd ▸ hl)).cons
        (fun hc hx => by cases h.eq_of_has hs hknown hnew hx hc)

/-- A block is opened in an environment that knows all that the root gave away. -/
theorem inside (h : Begins cx target env e) (hs : Sees cx root known os env)
    (hknown : ∀ x f, root.owner? x = some (.file f) → known.contains f = true)
    (hnew : ∀ p ∈ os, p.target ≠ target) (name : String) :
    Inside cx root known ⟨name, target, e.lookupInner target⟩ os e :=
  { h.sees hs hknown hnew name with
    bound := fun k hk => by
      rw [h.lookup]
      obtain ⟨y, hy⟩ := Option.isSome_iff_exists.1 (h.declared k hk)
      simp [hy]
    names := fun k x hk hl => Or.inl (h.named hk hl) }

theorem opened (h : Begins cx target env e) (hs : Sees cx root known os env)
    (hknown : ∀ x f, root.owner? x = some (.file f) → known.contains f = true)
    (hnew : ∀ p ∈ os, p.target ≠ target) (hname : root.owner? name = some .chunk) :
    Opened root ⟨name, target, e.lookupInner target⟩ os := by
  refine ⟨hname, h.chosen.toldApart, hnew, fun x hx p hp hpx => ?_,
    fun x hx a ha => Or.inl (h.eq_of_has hs hknown hnew hx ha)⟩
  have ht := (h.owner x _ (h.has hx)).2 _ (hs.own p hp x hpx)
  exact hnew p hp (Owner.file.inj ht)

end Begins

namespace Inside

/-- More names at the root change nothing if they are of files that the block does not know. -/
theorem widen (h : Inside cx root known o os env) (hw : Widens cx root root')
    (hnew : ∀ x a, root'.owner? x = some a → root.owner? x = some a ∨
      ∃ f, a = .file f ∧ known.contains f = false) : Inside cx root' known o os env where
  taken x a ha hf := by
    rcases hnew x a ha with hr | ⟨f, rfl, hk⟩
    · exact h.taken x a hr hf
    · simp [hf f rfl] at hk
  owner x f hx := (h.owner x f hx).imp_left (hw.owner x _)
  owned := h.owned
  own := h.own
  sound f x v hl := (h.sound f x v hl).widen hw
  bound := h.bound
  names k x hd hl := (h.names k x hd hl).imp_right (hw.named _ k x hd)
  unclaimed p hp x hx hc := by
    rcases hnew x _ hc with hr | ⟨f, hf, _⟩
    · exact h.unclaimed p hp x hx hr
    · cases hf

theorem subset (h : Inside cx root known o os env)
    (hknown : ∀ f, known'.contains f = true → known.contains f = true) :
    Inside cx root known' o os env :=
  { h with taken := fun x a ha hf => h.taken x a ha (fun f he => hknown f (hf f he)) }

/-- The chunk claims a name that the block does not use. -/
theorem claim (h : Inside cx root known o os env) {n : String} (hn : ¬env.Taken n) :
    Inside cx (root.claim n) known o os (env.claim n) where
  taken x a ha hf := by
    rw [Environment.owner?_claim] at ha
    split at ha
    · rename_i hx
      exact hx ▸ Environment.taken_claim env n
    · exact (h.taken x a ha hf).claim n
  owner x f hx := by
    rcases Environment.owns_of_claim hx with hx | ⟨hc, _⟩
    · exact (h.owner x f hx).imp_left ((Widens.claim cx root n).owner x _)
    · cases hc
  owned f k x hd hl := (h.owned f k x hd hl).claim n
  own p hp x hx := (h.own p hp x hx).claim n
  sound f x v hl := (h.sound f x v hl).widen (.claim cx root n)
  bound := h.bound
  names k x hd hl := h.names k x hd hl
  unclaimed p hp x hx hc := by
    rw [Environment.owner?_claim] at hc
    split at hc
    · rename_i he
      exact hn ⟨_, he ▸ h.own p hp x hx⟩
    · exact h.unclaimed p hp x hx hc

/-- A local is linked in the block that its file does not declare. -/
theorem link (h : Inside cx root known o os env) (hk : ¬cx.Declares g k)
    (hf : FitsIn cx root (o :: os) (.own g k) v) : Inside cx root known o os (env.link g k v) := by
  have hother {f : Url} {x w : String} (hd : cx.Declares f x)
      (hl : (env.link g k v).lookup f x = some w) : env.lookup f x = some w := by
    rcases Environment.lookup_link_cases hl with ⟨rfl, rfl, _⟩ | hl
    · exact absurd hd hk
    · exact hl
  refine ⟨⟨fun x a ha hf => ?_, fun x f hx => h.owner x f (Environment.owns_link.1 hx),
    fun f x w hd hl => ?_, fun p hp x hx => Environment.owns_link.2 (h.own p hp x hx),
    h.unclaimed, fun f x w hl => ?_⟩, fun x hd => ?_, fun x w hd hl => h.names x w hd (hother hd hl)⟩
  · exact (h.taken x a ha hf).imp (fun _ => Environment.owns_link.2)
  · exact (h.owned f x w hd (hother hd hl)).imp (fun _ => Environment.owns_link.2)
  · rcases Environment.lookup_link_cases hl with ⟨rfl, rfl, rfl⟩ | hl
    · exact hf
    · exact h.sound f x w hl
  · exact Environment.isSome_lookup_link (h.bound x hd)

section Inherit

variable {origins : List Url}

theorem inheritBind (h : Inside cx root known o os env)
    (hs : FitsIn cx root (o :: os) (.own g k) v)
    (hl : root.lookup g k = some v) (hv : root.owner? v = some (.file g)) :
    Inside cx root known o os (env.bind g k v) where
  taken x a ha hf := (h.taken x a ha hf).bind g k v
  owner x f hx := by
    rcases Environment.owns_of_bind hx with hx | ⟨hf, rfl⟩
    · exact h.owner x f hx
    · exact Or.inl (hf ▸ hv)
  owned f x w hd hl' := by
    rcases Environment.lookup_bind_cases hl' with ⟨_, _, rfl⟩ | hl'
    · exact Environment.taken_bind env g k v
    · exact (h.owned f x w hd hl').bind g k v
  own p hp x hx := (h.own p hp x hx).bind g k v
  sound f x w hl' := by
    rcases Environment.lookup_bind_cases hl' with ⟨rfl, rfl, rfl⟩ | hl'
    · exact hs
    · exact h.sound f x w hl'
  bound x hd := by
    rw [Environment.lookup_bind_eq_link]
    exact Environment.isSome_lookup_link (h.bound x hd)
  names x w hd hl' := by
    rcases Environment.lookup_bind_cases hl' with ⟨rfl, rfl, rfl⟩ | hl'
    · exact Or.inr hl
    · exact h.names x w hd hl'
  unclaimed := h.unclaimed

theorem inheritLink (h : Inside cx root known o os env) (hn : NamesOwned cx root)
    (hs : FitsIn cx root (o :: os) (.own g k) v) (hl : root.lookup g k = some v)
    (ht : root.owner? v = some (.file g) → env.Taken v) :
    Inside cx root known o os (env.link g k v) where
  taken x a ha hf := (h.taken x a ha hf).imp (fun _ => Environment.owns_link.2)
  owner x f hx := h.owner x f (Environment.owns_link.1 hx)
  owned f x w hd hl' := by
    refine Exists.imp (fun _ => Environment.owns_link.2) (?_ : env.Taken w)
    rcases Environment.lookup_link_cases hl' with ⟨rfl, rfl, rfl⟩ | hl'
    · exact ht (hn.owned _ _ _ hd hl)
    · exact h.owned f x w hd hl'
  own p hp x hx := Environment.owns_link.2 (h.own p hp x hx)
  sound f x w hl' := by
    rcases Environment.lookup_link_cases hl' with ⟨rfl, rfl, rfl⟩ | hl'
    · exact hs
    · exact h.sound f x w hl'
  bound x hd := Environment.isSome_lookup_link (h.bound x hd)
  names x w hd hl' := by
    rcases Environment.lookup_link_cases hl' with ⟨rfl, rfl, rfl⟩ | hl'
    · exact Or.inr hl
    · exact h.names x w hd hl'
  unclaimed := h.unclaimed

theorem inheritClaim (h : Inside cx root known o os env) :
    Inside cx root known o os (env.claim x) where
  taken y a ha hf := (h.taken y a ha hf).claim x
  owner y f hy := by
    rcases Environment.owns_of_claim hy with hy | ⟨hc, _⟩
    · exact h.owner y f hy
    · cases hc
  owned f y w hd hl := (h.owned f y w hd hl).claim x
  own p hp y hy := (h.own p hp y hy).claim x
  sound := h.sound
  bound := h.bound
  names := h.names
  unclaimed := h.unclaimed

/-- Behind what the block takes over from the root it knows the given files, too. -/
theorem inherit (h : Inside cx root known o os env) (hn : NamesOwned cx root)
    (hs : ∀ f x v, root.lookup f x = some v → Fits cx root (.own f x) v)
    (hknown : ∀ f, known'.contains f = true → known.contains f = true ∨ f ∈ origins) :
    Inside cx root known' o os (env.inherit root origins) := by
  have hfits (g : Url) (k v : String) (hl : root.lookup g k = some v) :
      FitsIn cx root (o :: os) (.own g k) v := .of_lookup hn h.unclaimed (hs g k v hl) hl
  have hwithin : Inside cx root known o os (env.inherit root origins) :=
    Environment.inherit_induction hn.flat h
      (fun e g k v he hl hv => he.inheritBind (hfits g k v hl) hl hv)
      (fun e g k v he hl ht => he.inheritLink hn (hfits g k v hl) hl ht)
      (fun e x he _ => he.inheritClaim)
  refine { hwithin with taken := fun x a ha hf => ?_ }
  cases a with
  | chunk => exact hwithin.taken x .chunk ha (by simp)
  | file f =>
    rcases hknown f (hf f rfl) with hf | hf
    · exact hwithin.taken x (.file f) ha (fun g hg => Owner.file.inj hg ▸ hf)
    · obtain ⟨k, hd, hl⟩ := hn.declared f x ha
      exact hwithin.owned f k x hd (Environment.lookup_inherit hf hl)

end Inherit

end Inside

end AmbientBundle.Merge
