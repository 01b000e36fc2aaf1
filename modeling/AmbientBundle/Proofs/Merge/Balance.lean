import AmbientBundle.Proofs.Merge.Onward
import AmbientBundle.Proofs.Names.Inheritance
/-!
The stacks of scopes are balanced. Whatever the state is in which merging calls one of its
functions, behind the call the same blocks are open and the same blocks wait, and scopes and
imports only have more at their ends. So where a list is cut at a length that it had before, the
cut is in range, and what is cut off is what came in since.
-/
namespace AmbientBundle.Merge

open Step Syntax

/-- The same block at a later time: its file and what its names are nested in are the same, and
statements are only added. -/
structure Block.Continues (b b' : Block) : Prop where
  target : b'.target = b.target
  outer : b'.scope.env.outer = b.scope.env.outer
  items : b.scope.items <+: b'.scope.items

/-- The same blocks in the same places at a later time. -/
abbrev Continue (bs bs' : List Block) : Prop := List.Forall₂ Block.Continues bs bs'

namespace Continue

theorem refl (bs : List Block) : Continue bs bs :=
  List.forall₂_same.2 (fun _ _ => ⟨rfl, rfl, List.prefix_refl _⟩)

theorem trans {bs bs' bs'' : List Block} (h : Continue bs bs') (h' : Continue bs' bs'') :
    Continue bs bs'' :=
  forall₂_trans (R := Block.Continues) (fun h h' =>
    ⟨h'.target.trans h.target, h'.outer.trans h.outer, h.items.trans h'.items⟩) h h'

theorem map {f : Block → Block} (hf : ∀ b : Block, b.Continues (f b)) (bs : List Block) :
    Continue bs (bs.map f) :=
  List.forall₂_map_right_iff.2 (List.forall₂_same.2 (fun b _ => hf b))

end Continue

/-- From `s` to `t` each open and each waiting block goes on in its place, statements are added at
the root, and imports that stay get further locals behind those that they have. -/
structure Balanced (s t : State) : Prop where
  nested : Continue s.nested t.nested
  suspended : Continue s.suspended t.suspended
  root : s.root.items <+: t.root.items
  locals : ∀ key p, s.preserved.get? key = some p →
    ∃ q, t.preserved.get? key = some q ∧ p.locals <+: q.locals

namespace Balanced

variable {s t u : State}

theorem of_preserved (hn : Continue s.nested t.nested) (hs : Continue s.suspended t.suspended)
    (hr : s.root.items <+: t.root.items) (hp : t.preserved = s.preserved) : Balanced s t :=
  ⟨hn, hs, hr, fun _ p hkey => ⟨p, hp ▸ hkey, List.prefix_refl _⟩⟩

theorem refl (s : State) : Balanced s s :=
  of_preserved (.refl _) (.refl _) (List.prefix_refl _) rfl

theorem trans (h : Balanced s t) (h' : Balanced t u) : Balanced s u := by
  refine ⟨h.nested.trans h'.nested, h.suspended.trans h'.suspended, h.root.trans h'.root,
    fun key p hp => ?_⟩
  obtain ⟨q, hq, hpq⟩ := h.locals key p hp
  obtain ⟨q', hq', hqq⟩ := h'.locals key q hq
  exact ⟨q', hq', hpq.trans hqq⟩

theorem warn (s : State) (w : Warning) : Balanced s (s.warn w) :=
  of_preserved (.refl _) (.refl _) (List.prefix_refl _) rfl

theorem keepRun (s : State) (module : String) : Balanced s (s.keepRun module) :=
  of_preserved (.refl _) (.refl _) (List.prefix_refl _) rfl

theorem addFile (s : State) (file : Url) : Balanced s (s.addFile file) :=
  of_preserved (.refl _) (.refl _) (List.prefix_refl _) rfl

/-- Behind `t` the current scope changes, and holds all that it held in `s`. -/
theorem onScope (h : Balanced s t) {f : Scope → Scope} (hi : s.scope.items <+: (f t.scope).items)
    (ho : (f t.scope).env.outer = t.scope.env.outer) : Balanced s (t.onScope f) := by
  cases ht : t.nested with
  | nil =>
    have hempty := List.forall₂_nil_right_iff.1 (ht ▸ h.nested)
    have hs : s.inBlock = false := by simp [State.inBlock, hempty]
    have htroot : t.inBlock = false := by simp [State.inBlock, ht]
    rw [State.scope_of_root hs, State.scope_of_root htroot] at hi
    rw [State.onScope_of_root htroot]
    exact ⟨h.nested, h.suspended, hi, h.locals⟩
  | cons b' bs' =>
    obtain ⟨b, bs, hb, hbs, hs⟩ := List.forall₂_cons_right_iff.1 (ht ▸ h.nested)
    have hsscope : s.scope = b.scope := by simp [State.scope, hs]
    have htscope : t.scope = b'.scope := by simp [State.scope, ht]
    have hf : t.onScope f = { t with nested := { b' with scope := f b'.scope } :: bs' } := by
      simp [State.onScope, ht]
    rw [hsscope, htscope] at hi
    rw [htscope] at ho
    rw [hf]
    refine ⟨?_, h.suspended, h.root, h.locals⟩
    rw [hs]
    exact .cons ⟨hb.target, ho.trans hb.outer, hi⟩ hbs

theorem addItems (s : State) (ps : List Piece) : Balanced s (s.addItems ps) :=
  (refl s).onScope (List.prefix_append _ _) rfl

theorem link (s : State) (origin : Url) (name final : String) :
    Balanced s (s.link origin name final) :=
  (refl s).onScope (f := fun c => { c with env := c.env.link origin name final })
    (List.prefix_refl _) rfl

theorem bindFile (s : State) (is : List Item) (file : Url) : Balanced s (s.bindFile is file) := by
  have h := (refl s).onScope (f := fun c => { c with
    env := (Names.bindDeclarations is file s.scope.env OrderedMap.empty).1 })
    (List.prefix_refl _) Names.outer_bindIdents
  exact ⟨h.nested, h.suspended, h.root, h.locals⟩

theorem claim (s : State) (name : String) : Balanced s (s.claim name) := by
  have hclaim (b : Block) : b.Continues (State.claimInBlock name b) :=
    ⟨rfl, rfl, List.prefix_refl _⟩
  exact of_preserved (.map hclaim _) (.map hclaim _) (List.prefix_refl _) rfl

theorem keep {key : String × ImportedName} {q : Preserved}
    (hq : ∀ p, s.preserved.get? key = some p → p.locals <+: q.locals) :
    Balanced s (s.keep key q) := by
  refine ⟨.refl _, .refl _, List.prefix_refl _, fun key' p hp => ?_⟩
  rw [State.keep, OrderedMap.get?_put]
  split
  · rename_i he
    subst he
    exact ⟨q, rfl, hq p hp⟩
  · exact ⟨p, hp, List.prefix_refl _⟩

theorem inheritFromRoot (s : State) (files : List Url) : Balanced s (s.inheritFromRoot files) := by
  have hinherit (b : Block) : b.Continues (State.inheritInBlock s.root.env files b) :=
    ⟨rfl, Environment.outer_inherit _ _ _, List.prefix_refl _⟩
  unfold State.inheritFromRoot
  split
  · exact refl s
  · exact of_preserved (.map hinherit _) (.refl _) (List.prefix_refl _) rfl

theorem scope_items (h : Balanced s t) : s.scope.items <+: t.scope.items := by
  cases ht : t.nested with
  | nil =>
    have hs := List.forall₂_nil_right_iff.1 (ht ▸ h.nested)
    simpa [State.scope, hs, ht] using h.root
  | cons b' bs' =>
    obtain ⟨b, bs, hb, -, hs⟩ := List.forall₂_cons_right_iff.1 (ht ▸ h.nested)
    simpa [State.scope, hs, ht] using hb.items

/-- The cut at the length that the current scope had is in range: it takes out what came in since,
and leaves what was there. -/
theorem takeItems_cut (h : Balanced s t) : ∃ added, t.scope.items = s.scope.items ++ added ∧
    (t.takeItems s.scope.items.length).1 = added ∧
      (t.takeItems s.scope.items.length).2.scope.items = s.scope.items := by
  obtain ⟨added, hadded⟩ := h.scope_items
  refine ⟨added, hadded.symm, ?_, ?_⟩
  · simp [State.takeItems, ← hadded]
  · simp [State.takeItems, ← hadded]

theorem takeItems (h : Balanced s t) : Balanced s (t.takeItems s.scope.items.length).2 := by
  refine h.onScope (f := fun c => { c with items := c.items.take s.scope.items.length }) ?_ rfl
  exact List.prefix_take_iff.2 ⟨h.scope_items, Nat.le_refl _⟩

/-- The cut at the number of blocks that waited is in range: it opens the blocks again that were
set aside, and leaves those that waited before. -/
theorem resume (h : Balanced s.suspend t) : s.suspended.length ≤ t.suspended.length ∧
    Balanced s (t.resume s.suspended.length) := by
  have hblocks : Continue (s.nested ++ s.suspended) t.suspended := h.suspended
  have hlength : t.suspended.length = s.nested.length + s.suspended.length := by
    rw [← hblocks.length_eq, List.length_append]
  have hcut : t.suspended.length - s.suspended.length = s.nested.length := by omega
  have hnested := List.forall₂_take s.nested.length hblocks
  have hsuspended := List.forall₂_drop s.nested.length hblocks
  rw [List.take_left] at hnested
  rw [List.drop_left] at hsuspended
  refine ⟨by omega, ⟨?_, ?_, h.root, h.locals⟩⟩
  · rwa [State.resume, hcut]
  · rwa [State.resume, hcut]

theorem atRoot (h : Balanced s.suspend t) (files : List Url) :
    Balanced s ((t.resume s.suspended.length).inheritFromRoot files) :=
  h.resume.2.trans (.inheritFromRoot _ _)

/-- The block that is closed is the one that was opened. -/
theorem closeBlock {target : Url} {name : String} (h : Balanced (s.openBlock target name) t) :
    Balanced s t.closeBlock.2 := by
  have hspace := (refl s).onScope (f := fun c => { c with spaces := c.spaces.put target name })
    (List.prefix_refl _) rfl
  obtain ⟨b', bs', -, hbs, ht⟩ := List.forall₂_cons_left_iff.1 h.nested
  refine hspace.trans ?_
  rw [State.closeBlock, ht]
  exact ⟨hbs, h.suspended, h.root, h.locals⟩

end Balanced

end AmbientBundle.Merge
