import AmbientBundle.Proofs.Merge.Answers
import AmbientBundle.Proofs.Merge.Openings
import AmbientBundle.Proofs.Merge.SpaceNames
/-!
The stacks of blocks while a chunk is merged: the open blocks, and those that wait while files are
inlined at the root. A waiting block knows the names of the files that were included when it was set
aside; when it is opened again it takes over the names of the others.
-/
namespace AmbientBundle.Merge

open Names Syntax

/-- The file has a namespace at the root or in one of the blocks. -/
def SpaceIn (root : Scope) (bs : List Block) (f : Url) : Prop :=
  (root.spaces.get? f).isSome ∨ ∃ b ∈ bs, (b.scope.spaces.get? f).isSome

/-- The blocks stand in each other as they were opened, the innermost first. -/
inductive Stacked (cx : Context) (root : Scope) (known : SeenSet Url) :
    List Opening → List Block → Prop where
  | nil : Stacked cx root known [] []
  | cons {o : Opening} {os : List Opening} {b : Block} {bs : List Block}
      (target : b.target = o.target) (within : Inside cx root.env known o os b.scope.env)
      (opened : Opened root.env o os) (space : SpaceIn root bs o.target)
      (outer : Stacked cx root known os bs) : Stacked cx root known (o :: os) (b :: bs)

/-- Stacks of blocks that wait, each with the files that it knows. -/
inductive Waiting (cx : Context) (root : Scope) :
    List (SeenSet Url × List Opening) → List Block → Prop where
  | nil : Waiting cx root [] []
  | cons {known : SeenSet Url} {os : List Opening} {ws : List (SeenSet Url × List Opening)}
      {bs bs' : List Block} (stack : Stacked cx root known os bs) (rest : Waiting cx root ws bs') :
      Waiting cx root ((known, os) :: ws) (bs ++ bs')

section Stack

variable {cx : Context} {root root' : Scope} {known known' : SeenSet Url} {o : Opening}
  {os : List Opening} {ws : List (SeenSet Url × List Opening)} {b : Block} {bs : List Block}

theorem SpaceIn.mono {f : Url} (h : SpaceIn root bs f)
    (hroot : ∀ g, (root.spaces.get? g).isSome → (root'.spaces.get? g).isSome) :
    SpaceIn root' bs f :=
  h.imp_left (hroot f)

theorem SpaceIn.cons {f : Url} (h : SpaceIn root bs f) (b : Block) : SpaceIn root (b :: bs) f :=
  h.imp_right (fun ⟨c, hc, hf⟩ => ⟨c, List.mem_cons_of_mem _ hc, hf⟩)

theorem SpaceIn.map {f : Url} {t : Block → Block} (h : SpaceIn root bs f)
    (hs : ∀ b, (t b).scope.spaces = b.scope.spaces) : SpaceIn root (bs.map t) f := by
  refine h.imp_right (fun ⟨b, hb, hf⟩ => ⟨t b, List.mem_map_of_mem hb, ?_⟩)
  rwa [hs]

namespace Stacked

theorem length_eq (h : Stacked cx root known os bs) : os.length = bs.length := by
  induction h with
  | nil => rfl
  | cons _ _ _ _ _ ih => simp [ih]

/-- The root and the blocks change, but no block is opened or closed. -/
theorem map {t : Block → Block} (h : Stacked cx root known os bs)
    (hw : Widens cx root.env root'.env)
    (hspaces : ∀ g, (root.spaces.get? g).isSome → (root'.spaces.get? g).isSome)
    (ht : ∀ b, (t b).target = b.target) (hs : ∀ b, (t b).scope.spaces = b.scope.spaces)
    (hwithin : ∀ o os, ∀ b ∈ bs, Inside cx root.env known o os b.scope.env →
      Inside cx root'.env known' o os (t b).scope.env) :
    Stacked cx root' known' os (bs.map t) := by
  induction h with
  | nil => exact .nil
  | @cons o os b bs target within opened space _ ih =>
    exact .cons ((ht b).trans target) (hwithin o os b (by simp) within) (opened.widen hw)
      ((space.map hs).mono hspaces) (ih (fun o os c hc => hwithin o os c (by simp [hc])))

/-- The files of open blocks have namespaces around them. -/
theorem spaceIn (h : Stacked cx root known os bs) : ∀ o ∈ os, SpaceIn root bs o.target := by
  induction h with
  | nil => simp
  | cons _ _ _ space _ ih =>
    intro p hp
    rcases List.mem_cons.1 hp with rfl | hp
    · exact space.cons _
    · exact (ih p hp).cons _

/-- No name of the files of open blocks is one that the chunk made up. -/
theorem unclaimed (h : Stacked cx root known os bs) :
    ∀ o ∈ os, ∀ x, o.Has x → root.env.owner? x ≠ some .chunk := by
  cases h with
  | nil => simp
  | cons _ within _ _ _ => exact within.unclaimed

/-- Another block in the place of the innermost one. -/
theorem replace {b' : Block} (h : Stacked cx root known (o :: os) (b :: bs))
    (ht : b'.target = b.target)
    (hw : Inside cx root.env known o os b.scope.env → Inside cx root.env known o os b'.scope.env) :
    Stacked cx root known (o :: os) (b' :: bs) := by
  cases h with
  | cons target within opened space outer =>
    exact .cons (ht.trans target) (hw within) opened space outer

end Stacked

namespace Waiting

theorem map {t : Block → Block} (h : Waiting cx root ws bs) (hw : Widens cx root.env root'.env)
    (hspaces : ∀ g, (root.spaces.get? g).isSome → (root'.spaces.get? g).isSome)
    (ht : ∀ b, (t b).target = b.target) (hs : ∀ b, (t b).scope.spaces = b.scope.spaces)
    (hwithin : ∀ w ∈ ws, ∀ o os, ∀ b ∈ bs, Inside cx root.env w.1 o os b.scope.env →
      Inside cx root'.env w.1 o os (t b).scope.env) : Waiting cx root' ws (bs.map t) := by
  induction h with
  | nil => exact .nil
  | @cons known os ws bs bs' stack _ ih =>
    rw [List.map_append]
    refine .cons (stack.map hw hspaces ht hs (fun o os b hb => ?_)) (ih (fun w hm o os b hb => ?_))
    · exact hwithin _ List.mem_cons_self o os b (by simp [hb])
    · exact hwithin w (by simp [hm]) o os b (by simp [hb])

theorem length_eq (h : Waiting cx root ws bs) :
    bs.length = (ws.flatMap Prod.snd).length := by
  induction h with
  | nil => rfl
  | cons stack _ ih => simp [ih, stack.length_eq]

/-- The root gives names to files that none of the blocks knows. -/
theorem widen (h : Waiting cx root ws bs) (hw : Widens cx root.env root'.env)
    (hspaces : ∀ g, (root.spaces.get? g).isSome → (root'.spaces.get? g).isSome)
    (hnew : ∀ w ∈ ws, ∀ x a, root'.env.owner? x = some a → root.env.owner? x = some a ∨
      ∃ f, a = .file f ∧ w.1.contains f = false) : Waiting cx root' ws bs := by
  have hmap : Waiting cx root' ws (bs.map id) :=
    h.map hw hspaces (fun _ => rfl) (fun _ => rfl)
      (fun w hm o os b _ hwithin => hwithin.widen hw (hnew w hm))
  rwa [List.map_id] at hmap

end Waiting

end Stack

/-- The names at the root, and the stacks of open and of waiting blocks. -/
structure Stacks (cx : Context) (os : List Opening) (ws : List (SeenSet Url × List Opening))
    (s : State) : Prop where
  names : NamesOwned cx s.root.env
  locals : ∀ e ∈ s.preserved.entries, ∀ x ∈ e.2.locals, s.root.env.owner? x = some .chunk
  nested : Stacked cx s.root s.included os s.nested
  waiting : Waiting cx s.root ws s.suspended
  known : ∀ w ∈ ws, ∀ f, w.1.contains f = true → s.included.contains f = true

/-- What is known of the root where files are merged. -/
structure Grounded (cx : Context) (earlier : SeenSet Url) (files : List Url) (s : State) :
    Prop where
  formed : FormedState cx s
  rooted : Rooted files s
  linked : Linked cx earlier files s
  spaces : SpacesOwned s

variable {cx : Context} {earlier : SeenSet Url} {n : Nat} {r : Role} {files : List Url}
  {s t : State} {y : Yield} {o : Opening} {os : List Opening}
  {ws : List (SeenSet Url × List Opening)}

theorem Grounded.run (h : Grounded cx earlier files s) (run : Run cx n r files s y t) :
    Grounded cx earlier files t :=
  ⟨(run.formed h.formed).1, run.rooted h.rooted,
    (run.linked (fun k _ => answers cx earlier k) h.formed h.rooted (List.Subset.refl _)
      h.linked).1, run.spacesOwned h.spaces⟩

namespace Stacks

/-- Neither the names nor the blocks change. -/
theorem congr (h : Stacks cx os ws s) (hr : t.root.env = s.root.env)
    (hspaces : t.root.spaces = s.root.spaces) (hi : t.included = s.included)
    (hn : t.nested = s.nested) (hs : t.suspended = s.suspended) (hp : t.preserved = s.preserved) :
    Stacks cx os ws t := by
  have hstack {known : SeenSet Url} {os : List Opening} {bs : List Block}
      (hb : Stacked cx s.root known os bs) : Stacked cx t.root known os bs := by
    have hmap := hb.map (t := id) (hr ▸ Widens.refl cx s.root.env) (hspaces ▸ fun _ h => h)
      (fun _ => rfl) (fun _ => rfl) (fun _ _ _ _ hw => (hr ▸ hw : Inside cx t.root.env _ _ _ _))
    rwa [List.map_id] at hmap
  refine ⟨hr ▸ h.names, hr ▸ hp ▸ h.locals, hi ▸ hn ▸ hstack h.nested, hs ▸ ?_, hi ▸ h.known⟩
  exact h.waiting.widen (hr ▸ Widens.refl cx s.root.env) (hspaces ▸ fun _ h => h)
    (fun _ _ x a ha => Or.inl (hr ▸ ha))

/-- The statements of the current scope change. -/
theorem onItems (h : Stacks cx os ws s) {f : Scope → Scope} (he : ∀ c, (f c).env = c.env)
    (hspaces : ∀ c, (f c).spaces = c.spaces) : Stacks cx os ws (s.onScope f) := by
  cases hn : s.nested with
  | nil =>
    rw [State.onScope_of_root (by simp [State.inBlock, hn])]
    exact h.congr (he _) (hspaces _) rfl rfl rfl rfl
  | cons b bs =>
    have hs : s.onScope f = { s with nested := { b with scope := f b.scope } :: bs } := by
      simp [State.onScope, hn]
    have hnested := h.nested
    rw [hn] at hnested
    cases hos : os with
    | nil =>
      subst hos
      cases hnested
    | cons o os =>
      subst hos
      rw [hs]
      exact ⟨h.names, h.locals, hnested.replace rfl (fun hw => by rw [he]; exact hw), h.waiting,
        h.known⟩

theorem addItems (h : Stacks cx os ws s) (ps : List Piece) : Stacks cx os ws (s.addItems ps) :=
  h.onItems (fun _ => rfl) (fun _ => rfl)

theorem takeItems (h : Stacks cx os ws s) (k : Nat) : Stacks cx os ws (s.takeItems k).2 :=
  h.onItems (f := fun c => { c with items := c.items.take k }) (fun _ => rfl) (fun _ => rfl)

theorem keep (h : Stacks cx os ws s) {key : String × ImportedName} {p : Preserved}
    (hp : ∀ x ∈ p.locals, s.root.env.owner? x = some .chunk) : Stacks cx os ws (s.keep key p) := by
  refine ⟨h.names, fun e he => ?_, h.nested, h.waiting, h.known⟩
  rcases OrderedMap.mem_entries_put he with rfl | he
  · exact hp
  · exact h.locals e he

/-- The chunk claims a name that no block uses. -/
theorem claim (h : Stacks cx os ws s) (wanted : String) :
    Stacks cx os ws (s.claim (s.freshName wanted)) := by
  have hfresh {b : Block} (hb : b ∈ s.blocks) : ¬b.scope.env.Taken (s.freshName wanted) := by
    intro ht
    refine fresh_not_mem s.takenNames wanted (List.mem_append_right _ ?_)
    exact List.mem_flatMap.2 ⟨b, hb, Environment.taken_iff_mem.1 ht⟩
  have hw := Widens.claim cx s.root.env (s.freshName wanted)
  refine ⟨h.names.claim _, fun e he x hx => hw.owner x _ (h.locals e he x hx), ?_, ?_, h.known⟩
  · exact h.nested.map hw (fun _ h => h) (fun _ => rfl) (fun _ => rfl)
      (fun o os b hb hwithin => hwithin.claim (hfresh (List.mem_append_left _ hb)))
  · exact h.waiting.map hw (fun _ h => h) (fun _ => rfl) (fun _ => rfl)
      (fun w _ o os b hb hwithin => hwithin.claim (hfresh (List.mem_append_right _ hb)))

theorem given (h : Stacks cx os ws s) {v : String} (hv : s.root.env.owner? v = some .chunk) :
    Given cx s.root.env os v :=
  Or.inl ⟨hv, fun o ho hx => h.nested.unclaimed o ho v hx hv⟩

theorem nil_of_root (h : Stacks cx os ws s) (hb : s.inBlock = false) : os = [] ∧ s.nested = [] := by
  have hn : s.nested = [] := by simpa [State.inBlock] using hb
  have hnested := h.nested
  rw [hn] at hnested
  cases hnested
  exact ⟨rfl, hn⟩

theorem cons_of_inBlock (h : Stacks cx os ws s) (hb : s.inBlock = true) :
    ∃ o os' b bs, os = o :: os' ∧ s.nested = b :: bs := by
  have hnested := h.nested
  cases hn : s.nested with
  | nil => simp [State.inBlock, hn] at hb
  | cons b bs =>
    rw [hn] at hnested
    cases hnested
    exact ⟨_, _, _, _, rfl, rfl⟩

/-- The local of an import is linked. -/
theorem link (h : Stacks cx os ws s) {origin : Url} {x f : String} (hx : ¬cx.Declares origin x)
    (hf : FitsIn cx s.root.env os (.own origin x) f) : Stacks cx os ws (s.link origin x f) := by
  cases hb : s.inBlock with
  | false =>
    obtain ⟨rfl, hn⟩ := h.nil_of_root hb
    have hs : s.link origin x f =
        { s with root := { s.root with env := s.root.env.link origin x f } } := by
      rw [State.link, State.onEnv, State.onScope_of_root hb]
    have hw : Widens cx s.root.env (s.root.env.link origin x f) := .link _ f hx
    rw [hs]
    refine ⟨h.names.link hx (hf.given.isSome h.names), h.locals, ?_, ?_, h.known⟩
    · rw [hn]
      exact .nil
    · exact h.waiting.widen hw (fun _ h => h) (fun _ _ _ _ ha => Or.inl ha)
  | true =>
    obtain ⟨o, os', b, bs, rfl, hn⟩ := h.cons_of_inBlock hb
    have hs : s.link origin x f = { s with
        nested :=
          { b with scope := { b.scope with env := b.scope.env.link origin x f } } :: bs } := by
      simp [State.link, State.onEnv, State.onScope, hn]
    have hnested := h.nested
    rw [hn] at hnested
    rw [hs]
    exact ⟨h.names, h.locals, hnested.replace rfl (fun hw => hw.link hx hf), h.waiting, h.known⟩

/-- A file begins at the root. -/
theorem beginFile (h : Stacks cx os ws s) (hr : Rooted files s) (hb : s.inBlock = false)
    {file : Url} (hnew : s.included.contains file = false) :
    Stacks cx os ws ((s.addFile file).bindFile (cx.statements file) file) := by
  obtain ⟨rfl, hn⟩ := h.nil_of_root hb
  have hnone := hr.lookup_of_new hnew
  have hw : Widens cx s.root.env _ := .begin hnone ((cx.statements file).flatMap Item.declared)
  have hadd : (s.addFile file).inBlock = false := hb
  have hs : (s.addFile file).bindFile (cx.statements file) file =
      { s with
        included := s.included.insert file
        root := { s.root with env := (((cx.statements file).flatMap Item.declared).foldl
          (bindIdent file) (s.root.env, OrderedMap.empty)).1 }
        bindings := ((s.addFile file).bindFile (cx.statements file) file).bindings } := by
    simp only [State.bindFile, State.onEnv, State.onScope_of_root hadd, State.scope_of_root hadd]
    rfl
  rw [hs]
  refine ⟨h.names.begin hnone, fun e he x hx => hw.owner x _ (h.locals e he x hx), ?_, ?_, ?_⟩
  · rw [hn]
    exact .nil
  · refine h.waiting.widen hw (fun _ h => h) (fun w hm x a ha => ?_)
    rcases owner?_of_bindIdents ha with ha | rfl
    · exact Or.inl ha
    · refine Or.inr ⟨file, rfl, ?_⟩
      by_contra hc
      have := h.known w hm file (by simpa using hc)
      simp [this] at hnew
  · intro w hm f hf
    simp [SeenSet.contains_insert, h.known w hm f hf]

/-- The current scope's environment knows all names that the root gave away. -/
theorem sees (h : Stacks cx os ws s) (hs : ∀ f x v, s.root.env.lookup f x = some v →
    Fits cx s.root.env (.own f x) v) : Sees cx s.root.env s.included os s.scope.env := by
  cases hb : s.inBlock with
  | false =>
    obtain ⟨rfl, _⟩ := h.nil_of_root hb
    rw [State.scope_of_root hb]
    exact .of_root h.names hs
  | true =>
    obtain ⟨o, os', b, bs, rfl, hn⟩ := h.cons_of_inBlock hb
    have hscope : s.scope = b.scope := by simp [State.scope, hn]
    have hnested := h.nested
    rw [hn] at hnested
    rw [hscope]
    cases hnested with
    | cons _ within _ _ _ => exact within.toSees

/-- A file without a namespace has no open block. -/
theorem target_ne (h : Stacks cx os ws s) {target : Url} (hnew : s.space? target = none) :
    ∀ o ∈ os, o.target ≠ target := by
  rintro o ho rfl
  rw [State.space?, Option.or_eq_none_iff] at hnew
  rcases h.nested.spaceIn o ho with hr | ⟨b, hb, hs⟩
  · simp [hnew.2] at hr
  · have hnone := List.findSome?_eq_none_iff.1 hnew.1 b hb
    simp [hnone] at hs

/-- The current scope gets a namespace. -/
theorem putSpace (h : Stacks cx os ws s) (target : Url) (name : String) :
    Stacks cx os ws (s.onScope (fun c => { c with spaces := c.spaces.put target name })) := by
  cases hb : s.inBlock with
  | false =>
    obtain ⟨rfl, hn⟩ := h.nil_of_root hb
    rw [State.onScope_of_root hb]
    refine ⟨h.names, h.locals, ?_, ?_, h.known⟩
    · change Stacked cx _ s.included [] s.nested
      rw [hn]
      exact .nil
    · refine h.waiting.widen (.refl cx s.root.env) (fun g hg => ?_) (fun _ _ _ _ ha => Or.inl ha)
      rw [OrderedMap.get?_put]
      split
      · rfl
      · exact hg
  | true =>
    obtain ⟨o, os', b, bs, rfl, hn⟩ := h.cons_of_inBlock hb
    have hnested := h.nested
    rw [hn] at hnested
    have hs : s.onScope (fun c => { c with spaces := c.spaces.put target name }) = { s with
        nested := { b with
          scope := { b.scope with spaces := b.scope.spaces.put target name } } :: bs } := by
      simp [State.onScope, hn]
    rw [hs]
    exact ⟨h.names, h.locals, hnested.replace rfl (fun hw => hw), h.waiting, h.known⟩

theorem spaceIn_putSpace (s : State) (target : Url) (name : String) :
    SpaceIn (s.onScope (fun c => { c with spaces := c.spaces.put target name })).root
      (s.onScope (fun c => { c with spaces := c.spaces.put target name })).nested target := by
  unfold State.onScope
  cases s.nested with
  | nil => exact Or.inl (by simp [OrderedMap.get?_put])
  | cons b bs => exact Or.inr ⟨_, List.mem_cons_self, by simp [OrderedMap.get?_put]⟩

/-- A new block, in which its file begins. -/
theorem push (h : Stacks cx os ws s) (hr : Rooted files s)
    (hs : ∀ f x v, s.root.env.lookup f x = some v → Fits cx s.root.env (.own f x) v)
    {target : Url} {name : String} (hname : s.root.env.owner? name = some .chunk)
    (hnew : ∀ o ∈ os, o.target ≠ target) (hspace : SpaceIn s.root s.nested target) :
    ∃ named, Stacks cx (⟨name, target, named⟩ :: os) ws
      (State.bindFile (cx.statements target) target
        { s with nested := ⟨target, ⟨s.scope.env.child, [], ∅⟩⟩ :: s.nested }) := by
  have hknown (x : String) (f : Url) (ho : s.root.env.owner? x = some (.file f)) :
      s.included.contains f = true := by
    obtain ⟨k, _, hl⟩ := h.names.declared f x ho
    exact hr.included f k x hl
  have hbegins := Begins.bindIdents cx target s.scope.env
  have hnested := Stacked.cons (b := ⟨target, ⟨_, [], ∅⟩⟩) rfl
    (hbegins.inside (h.sees hs) hknown hnew name) (hbegins.opened (h.sees hs) hknown hnew hname)
    hspace h.nested
  exact ⟨_, h.names, h.locals, hnested, h.waiting, h.known⟩

/-- A block is opened and its file begins there. -/
theorem beginBlock (h : Stacks cx os ws s) (hs : Grounded cx earlier files s) {target : Url}
    (hnew : s.space? target = none) (wanted : String) :
    ∃ named, Stacks cx (⟨s.freshName wanted, target, named⟩ :: os) ws
      (((s.claim (s.freshName wanted)).openBlock target (s.freshName wanted)).bindFile
        (cx.statements target) target) := by
  have hroot : ((s.claim (s.freshName wanted)).onScope (fun c =>
      { c with spaces := c.spaces.put target (s.freshName wanted) })).root.env =
        (s.claim (s.freshName wanted)).root.env := by
    unfold State.onScope
    split <;> rfl
  have hrooted := (hs.rooted.claim (s.freshName wanted)).congr (by simp) hroot
  have hlinked : Linked cx earlier files (s.claim (s.freshName wanted)) :=
    hs.linked.congr rfl (fun _ _ => rfl)
  refine ((h.claim wanted).putSpace target (s.freshName wanted)).push hrooted ?_ ?_
    (h.target_ne hnew) (spaceIn_putSpace _ _ _)
  · rw [hroot]
    exact hlinked.sound
  · rw [hroot]
    exact State.owner?_claim_freshName s wanted

/-- The innermost block is closed. -/
theorem closeBlock (h : Stacks cx (o :: os) ws s) : Stacks cx os ws s.closeBlock.2 := by
  have hnested := h.nested
  cases hn : s.nested with
  | nil =>
    rw [hn] at hnested
    cases hnested
  | cons b bs =>
    rw [hn] at hnested
    have hs : s.closeBlock.2 = { s with nested := bs } := by simp [State.closeBlock, hn]
    rw [hs]
    cases hnested with
    | cons _ _ _ _ outer => exact ⟨h.names, h.locals, outer, h.waiting, h.known⟩

/-- The open blocks are set aside. -/
theorem suspend (h : Stacks cx os ws s) : Stacks cx [] ((s.included, os) :: ws) s.suspend := by
  refine ⟨h.names, h.locals, .nil, .cons h.nested h.waiting, fun w hm f hf => ?_⟩
  rcases List.mem_cons.1 hm with rfl | hm
  · exact hf
  · exact h.known w hm f hf

/-- Blocks that were set aside are opened again, and take over what was inlined since. -/
theorem resume {known : SeenSet Url} {depth : Nat} (h : Stacks cx [] ((known, os) :: ws) t)
    (hdepth : depth = (ws.flatMap Prod.snd).length) (hknown : known.items <+: t.included.items)
    (hs : ∀ f x v, t.root.env.lookup f x = some v → Fits cx t.root.env (.own f x) v) :
    Stacks cx os ws ((t.resume depth).inheritFromRoot (t.included.addedSince known.size)) := by
  have hwaiting := h.waiting
  generalize hb : t.suspended = blocks at hwaiting
  cases hwaiting with
  | @cons _ _ _ bs bs' stack rest =>
    have hcut : (bs ++ bs').length - depth = bs.length := by
      rw [List.length_append, rest.length_eq, hdepth]
      omega
    have hresume : t.resume depth = { t with nested := bs, suspended := bs' } := by
      simp only [State.resume, hb]
      rw [hcut, List.take_left, List.drop_left]
    have hadded (f : Url) (hf : t.included.contains f = true) :
        known.contains f = true ∨ f ∈ t.included.addedSince known.size := by
      obtain ⟨l, hl⟩ := hknown
      simp only [SeenSet.contains, decide_eq_true_eq, SeenSet.addedSince, SeenSet.size] at hf ⊢
      rw [← hl, List.drop_left]
      rwa [← hl, List.mem_append] at hf
    have hkept : ∀ w ∈ ws, ∀ f, w.1.contains f = true → t.included.contains f = true :=
      fun w hm => h.known w (List.mem_cons_of_mem _ hm)
    rw [hresume]
    unfold State.inheritFromRoot
    split
    · rename_i hempty
      have hsame : ∀ f, t.included.contains f = true → known.contains f = true := fun f hf =>
        (hadded f hf).resolve_right (by simp [List.isEmpty_iff.1 hempty])
      have hstack : Stacked cx t.root t.included os (bs.map id) :=
        stack.map (.refl cx t.root.env) (fun _ h => h) (fun _ => rfl) (fun _ => rfl)
          (fun _ _ _ _ hw => hw.subset hsame)
      rw [List.map_id] at hstack
      exact ⟨h.names, h.locals, hstack, rest, hkept⟩
    · have hstack : Stacked cx t.root t.included os
          (bs.map (State.inheritInBlock t.root.env (t.included.addedSince known.size))) :=
        stack.map (.refl cx t.root.env) (fun _ h => h) (fun _ => rfl) (fun _ => rfl)
          (fun _ _ _ _ hw => hw.inherit h.names hs hadded)
      exact ⟨h.names, h.locals, hstack, rest, hkept⟩

end Stacks

end AmbientBundle.Merge
