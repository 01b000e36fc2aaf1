import AmbientBundle.Proofs.Merge.BlockSurface
import AmbientBundle.Proofs.Merge.Moves
/-!
The names of a block's own declarations while the block is built. They are chosen when the block is
opened. What a file is called at the root is taken over by the blocks that were open meanwhile; that
is the one way in which they change, and it takes that the block's file is inlined at the root while
the block is open.
-/
namespace AmbientBundle.Merge

open Names Syntax

section Blocks

variable {R : Block → Block → Prop} {s : State}

/-- The block that was opened inside of `d` others. -/
def State.block? (s : State) (d : Nat) : Option Block := s.blocks.reverse[d]?

theorem getElem?_reverse_of_forall₂ {l l' : List Block} (h : List.Forall₂ R l l') {d : Nat}
    {b : Block} (hb : l.reverse[d]? = some b) : ∃ b', l'.reverse[d]? = some b' ∧ R b b' := by
  have hrev := List.forall₂_reverse_iff.2 h
  generalize l.reverse = bs, l'.reverse = bs' at hrev hb
  induction hrev generalizing d with
  | nil => simp at hb
  | cons hr _ ih =>
    cases d with
    | zero =>
      obtain rfl := Option.some.inj hb
      exact ⟨_, rfl, hr⟩
    | succ d => exact ih hb

/-- A block on top of the others leaves them in their places. -/
theorem getElem?_reverse_cons {l : List Block} {d : Nat} (hd : d < l.length) (b : Block) :
    (b :: l).reverse[d]? = l.reverse[d]? := by
  rw [List.reverse_cons, List.getElem?_append_left (by simpa using hd)]

/-- The block is still for its file, and knows the same names. -/
structure SameNames (b b' : Block) : Prop where
  target : b'.target = b.target
  lookup : ∀ f k, b'.scope.env.lookup f k = b.scope.env.lookup f k

theorem SameNames.refl (b : Block) : SameNames b b := ⟨rfl, fun _ _ => rfl⟩

theorem SameNames.trans {b b' b'' : Block} (h : SameNames b b') (h' : SameNames b' b'') :
    SameNames b b'' :=
  ⟨h'.target.trans h.target, fun f k => (h'.lookup f k).trans (h.lookup f k)⟩

namespace State

theorem blocks_onScope (hrefl : ∀ b, R b b) {f : Scope → Scope}
    (hf : ∀ b ∈ s.nested.head?, R b { b with scope := f b.scope }) :
    List.Forall₂ R s.blocks (s.onScope f).blocks := by
  unfold onScope blocks
  cases hn : s.nested with
  | nil => exact List.forall₂_same.2 (fun b _ => hrefl b)
  | cons b bs => exact .cons (hf b (by simp [hn])) (List.forall₂_same.2 (fun b _ => hrefl b))

theorem sameNames_onScope {f : Scope → Scope} (hf : ∀ c, (f c).env = c.env) :
    List.Forall₂ SameNames s.blocks (s.onScope f).blocks :=
  blocks_onScope .refl (fun b _ => ⟨rfl, fun g k => by rw [hf]⟩)

theorem sameNames_claim (s : State) (name : String) :
    List.Forall₂ SameNames s.blocks (s.claim name).blocks := by
  have hblocks : (s.claim name).blocks = s.blocks.map (claimInBlock name) := by
    simp [claim, blocks]
  rw [hblocks, List.forall₂_map_right_iff]
  exact List.forall₂_same.2 (fun b _ => ⟨rfl, fun _ _ => rfl⟩)

/-- Behind the opening of a block the others are below it. -/
theorem blocks_beginBlock (cx : Context) (target : Url) (wanted : String) (s : State) :
    ∃ bs bs', (s.beginBlock cx target wanted).blocks =
      ⟨target, (s.beginBlock cx target wanted).scope⟩ :: bs' ∧
        List.Forall₂ SameNames s.blocks bs ∧ List.Forall₂ SameNames bs bs' :=
  ⟨_, _, rfl, s.sameNames_claim (s.freshName wanted), sameNames_onScope
    (f := fun c => { c with spaces := c.spaces.put target (s.freshName wanted) }) (fun _ => rfl)⟩

theorem length_beginBlock (cx : Context) (target : Url) (wanted : String) (s : State) :
    (s.beginBlock cx target wanted).blocks.length = s.blocks.length + 1 := by
  obtain ⟨bs, bs', hblocks, hall, hall'⟩ := s.blocks_beginBlock cx target wanted
  rw [hblocks, List.length_cons, ← hall'.length_eq, ← hall.length_eq]

theorem block?_beginBlock (cx : Context) (target : Url) (wanted : String) {d : Nat} {b : Block}
    (hb : s.block? d = some b) :
    ∃ b', (s.beginBlock cx target wanted).block? d = some b' ∧ SameNames b b' := by
  obtain ⟨bs, bs', hblocks, hall, hall'⟩ := s.blocks_beginBlock cx target wanted
  obtain ⟨b₁, hb₁, h₁⟩ := getElem?_reverse_of_forall₂ hall hb
  obtain ⟨b₂, hb₂, h₂⟩ := getElem?_reverse_of_forall₂ hall' hb₁
  obtain ⟨hd, -⟩ := List.getElem?_eq_some_iff.1 hb₂
  rw [List.length_reverse] at hd
  refine ⟨b₂, ?_, h₁.trans h₂⟩
  rwa [block?, hblocks, getElem?_reverse_cons hd]

theorem exists_nested_beginBlock (cx : Context) (target : Url) (wanted : String) (s : State) :
    ∃ bs, (s.beginBlock cx target wanted).nested =
      ⟨target, (s.beginBlock cx target wanted).scope⟩ :: bs :=
  ⟨_, rfl⟩

theorem blocks_closeBlock (h : s.inBlock = true) : s.closeBlock.2.blocks = s.blocks.tail := by
  cases hn : s.nested with
  | nil => simp [inBlock, hn] at h
  | cons b bs => simp [closeBlock, blocks, hn]

/-- Blocks that are opened again stay in their order. -/
theorem blocks_resume (h : s.inBlock = false) (n : Nat) : (s.resume n).blocks = s.blocks := by
  have hn : s.nested = [] := by simpa [inBlock] using h
  simp only [resume, blocks, hn, List.nil_append, List.take_append_drop]

/-- Of the open blocks each takes over names of the root's. -/
theorem blocks_inheritFromRoot (hrefl : ∀ b, R b b) {files : List Url}
    (h : ∀ b, R b (inheritInBlock s.root.env files b)) :
    List.Forall₂ R s.blocks (s.inheritFromRoot files).blocks := by
  have hall (bs : List Block) : List.Forall₂ R bs bs := List.forall₂_same.2 (fun b _ => hrefl b)
  unfold inheritFromRoot
  split
  · exact hall _
  · refine List.rel_append ?_ (hall _)
    rw [List.forall₂_map_right_iff]
    exact List.forall₂_same.2 (fun b _ => h b)

end State

/-- What a move does to a block that it does not close: the block keeps its file, and what the file's
names stand for, unless it imports them or the file was inlined at the root during a pause that is
over with the move. -/
structure KeepsNames (cx : Context) (c c' : Moment) (b b' : Block) : Prop where
  target : b'.target = b.target
  lookup : ∀ k, ¬cx.Imports b.target k →
    b'.scope.env.lookup b.target k = b.scope.env.lookup b.target k ∨
      (∃ p, c.pauses = p :: c'.pauses ∧ b.target ∈ c'.state.included.addedSince p.included) ∧
        b'.scope.env.lookup b.target k = c'.state.root.env.lookup b.target k

variable {cx : Context} {c c' : Moment}

theorem SameNames.keeps {b b' : Block} (h : SameNames b b') (cx : Context) (c c' : Moment) :
    KeepsNames cx c c' b b' :=
  ⟨h.target, fun k _ => Or.inl (h.lookup b.target k)⟩

theorem Move.keepsNames (h : Move cx c c') {d : Nat}
    {b : Block} (hb : c.state.block? d = some b) (hd : d < c'.state.blocks.length) :
    ∃ b', c'.state.block? d = some b' ∧ KeepsNames cx c c' b b' := by
  have same {t : State} (hall : List.Forall₂ SameNames c.state.blocks t.blocks) (ps : List Pause) :
      ∃ b', t.block? d = some b' ∧ KeepsNames cx c ⟨t, ps⟩ b b' := by
    obtain ⟨b', hb', hsame⟩ := getElem?_reverse_of_forall₂ hall hb
    exact ⟨b', hb', hsame.keeps cx c _⟩
  have all : List.Forall₂ SameNames c.state.blocks c.state.blocks :=
    List.forall₂_same.2 (fun b _ => .refl b)
  cases h with
  | warn w => exact same (t := State.warn w _) all _
  | keepRun module => exact same (t := State.keepRun module _) all _
  | keep key p => exact same (t := State.keep key p _) all _
  | claim wanted => exact same (State.sameNames_claim _ _) _
  | addItems items =>
    exact same (State.sameNames_onScope (f := fun c => { c with items := c.items ++ items })
      (fun _ => rfl)) _
  | takeItems n =>
    exact same (State.sameNames_onScope (f := fun c => { c with items := c.items.take n })
      (fun _ => rfl)) _
  | @link s ps origin e v hcur he =>
    have hkeeps : List.Forall₂ (KeepsNames cx ⟨s, ps⟩ ⟨s.link origin e.2.loc v, ps⟩) s.blocks
        (s.link origin e.2.loc v).blocks := by
      refine State.blocks_onScope (fun b => (SameNames.refl b).keeps cx _ _) (fun b hbs => ?_)
      refine ⟨rfl, fun k hk => Or.inl ?_⟩
      obtain ⟨bs, hn⟩ : ∃ bs, s.nested = b :: bs := ⟨_, (List.cons_head?_tail hbs).symm⟩
      have ho : b.target = origin :=
        Option.some.inj (by simpa [State.inBlock, State.targets, hn] using hcur)
      refine Environment.lookup_link_of_ne (fun heq => ?_)
      cases heq
      exact hk ⟨e, ho ▸ he, rfl⟩
    exact getElem?_reverse_of_forall₂ hkeeps hb
  | @beginFile s ps file hroot hnew _ =>
    have hn : s.nested = [] := by simpa [State.inBlock] using hroot
    have hblocks : (s.beginFile cx file).blocks = s.blocks := by
      simp [State.beginFile, State.bindFile, State.onEnv, State.onScope, State.addFile,
        State.blocks, hn]
    exact same (t := s.beginFile cx file) (hblocks ▸ all) _
  | @beginBlock s ps target wanted _ =>
    obtain ⟨b', hb', hsame⟩ := State.block?_beginBlock cx target wanted hb
    exact ⟨b', hb', hsame.keeps cx _ _⟩
  | @closeBlock s ps hblock =>
    obtain ⟨top, rest, hblocks⟩ : ∃ top rest, s.blocks = top :: rest := by
      cases hn : s.nested with
      | nil => simp [State.inBlock, hn] at hblock
      | cons b bs => exact ⟨b, bs ++ s.suspended, by simp [State.blocks, hn]⟩
    have hrest : s.closeBlock.2.blocks = rest := by
      rw [State.blocks_closeBlock hblock, hblocks, List.tail_cons]
    rw [State.block?, hblocks, getElem?_reverse_cons (by rwa [← hrest])] at hb
    exact ⟨b, by rw [State.block?, hrest]; exact hb, (SameNames.refl b).keeps cx _ _⟩
  | suspend _ => exact same (t := State.suspend _) all _
  | @proceed s ps p hroot =>
    have hresumed : (s.resume p.waiting).blocks = s.blocks := State.blocks_resume hroot _
    have hkeeps : List.Forall₂ (KeepsNames cx ⟨s, p :: ps⟩ ⟨s.proceed p, ps⟩)
        (s.resume p.waiting).blocks (s.proceed p).blocks := by
      refine State.blocks_inheritFromRoot (fun b => (SameNames.refl b).keeps cx _ _) (fun b => ?_)
      refine ⟨rfl, fun k _ => ?_⟩
      rw [State.proceed, State.root_inheritFromRoot, State.included_inheritFromRoot]
      exact (Environment.lookup_inherit_cases b.target k).imp_right
        (fun h => ⟨⟨p, rfl, h.1⟩, h.2⟩)
    exact getElem?_reverse_of_forall₂ hkeeps (hresumed ▸ hb)

end Blocks

section Unclosed

variable {cx : Context} {c₁ c c' : Moment}

/-- The blocks that are there at `c₁` are not closed before `c`. -/
def Unclosed (cx : Context) (c₁ c : Moment) : Prop :=
  Relation.ReflTransGen (fun a b => Move cx a b ∧ c₁.state.blocks.length ≤ b.state.blocks.length)
    c₁ c

theorem Unclosed.moves (h : Unclosed cx c₁ c) : Moves cx c₁ c :=
  Relation.ReflTransGen.mono (fun _ _ hab => hab.1) _ _ h

/-- The pauses at `c` are those at `c₁` behind later ones. When the first of the later ones began, or
now if there is none, the innermost block of `c₁` was open. -/
def PausedSince (c₁ c : Moment) : Prop :=
  ∃ ps, c.pauses = ps ++ c₁.pauses ∧ (∀ p ∈ ps, c₁.state.included.size ≤ p.included) ∧
    (ps.map Pause.waiting).getLastD c.state.suspended.length < c₁.state.blocks.length

namespace PausedSince

theorem congr (h : PausedSince c₁ c) (hp : c'.pauses = c.pauses)
    (hw : c'.state.waiting = c.state.waiting) : PausedSince c₁ c' := by
  have hlength : c'.state.suspended.length = c.state.suspended.length := by
    simpa [State.waiting] using congrArg List.length hw
  unfold PausedSince
  rw [hp, hlength]
  exact h

theorem suspend {s : State} {ps : List Pause} (h : PausedSince c₁ ⟨s, ps⟩)
    (hg : Grows c₁.state s) : PausedSince c₁ ⟨s.suspend, s.pause :: ps⟩ := by
  obtain ⟨later, hp, hsize, hw⟩ := h
  obtain rfl : ps = later ++ c₁.pauses := hp
  refine ⟨s.pause :: later, rfl, fun p hm => ?_, ?_⟩
  · rcases List.mem_cons.1 hm with rfl | hm
    · exact hg.included.length_le
    · exact hsize p hm
  · rwa [List.map_cons, List.getLastD_cons]

theorem proceed {s : State} {p : Pause} {ps : List Pause} (h : PausedSince c₁ ⟨s, p :: ps⟩)
    (hroot : s.inBlock = false) (hopen : c₁.state.blocks.length ≤ s.blocks.length) :
    PausedSince c₁ ⟨s.proceed p, ps⟩ := by
  obtain ⟨later, hp, hsize, hw⟩ := h
  cases later with
  | nil =>
    -- No later pause is there, so the innermost block of `c₁` is open.
    have hn : s.nested = [] := by simpa [State.inBlock] using hroot
    simp only [List.map_nil, List.getLastD_nil] at hw
    have hblocks : s.blocks = s.suspended := by simp [State.blocks, hn]
    rw [hblocks] at hopen
    exact absurd hw (Nat.not_lt.2 hopen)
  | cons q later =>
    obtain ⟨rfl, rfl⟩ : p = q ∧ ps = later ++ c₁.pauses := List.cons.inj hp
    refine ⟨later, rfl, fun q hm => hsize q (List.mem_cons_of_mem _ hm), ?_⟩
    have hwaiting : (s.proceed p).suspended.length ≤ p.waiting := by
      have hsame : (s.proceed p).suspended = (s.resume p.waiting).suspended := by
        unfold State.proceed State.inheritFromRoot
        split <;> rfl
      rw [hsame, State.resume, List.length_drop]
      omega
    rw [List.map_cons, List.getLastD_cons] at hw
    cases later with
    | nil => exact lt_of_le_of_lt hwaiting hw
    | cons q' later => exact hw

theorem move (h : PausedSince c₁ c) (hg : Grows c₁.state c.state) (hmove : Move cx c c')
    (hopen : c₁.state.blocks.length ≤ c'.state.blocks.length) : PausedSince c₁ c' := by
  cases hmove with
  | warn w => exact h.congr rfl rfl
  | keepRun module => exact h.congr rfl rfl
  | keep key p => exact h.congr rfl rfl
  | claim wanted => exact h.congr rfl (State.waiting_claim _ _)
  | addItems items => exact h.congr rfl (State.waiting_addItems _ _)
  | takeItems n => exact h.congr rfl (State.waiting_takeItems _ _)
  | link f _ _ => exact h.congr rfl (State.waiting_link _ _ _ _)
  | beginFile _ _ _ => exact h.congr rfl (State.waiting_bindFile _ _ _)
  | beginBlock wanted _ => exact h.congr rfl (by simp [State.beginBlock])
  | closeBlock _ => exact h.congr rfl (State.waiting_closeBlock _)
  | suspend _ => exact h.suspend hg
  | @proceed s ps p hroot =>
    refine h.proceed hroot (hopen.trans (le_of_eq ?_))
    have hlength : (s.proceed p).blocks.length = (s.resume p.waiting).blocks.length := by
      unfold State.proceed State.inheritFromRoot
      split <;> simp [State.blocks]
    rw [hlength, State.blocks_resume hroot]

/-- A pause that is over with a move behind `c₁` began behind `c₁`. -/
theorem size_le (h : PausedSince c₁ c) (h' : PausedSince c₁ c') {p : Pause}
    (hp : c.pauses = p :: c'.pauses) : c₁.state.included.size ≤ p.included := by
  obtain ⟨later, hlater, hsize, -⟩ := h
  obtain ⟨later', hlater', -, -⟩ := h'
  rw [hlater, hlater', ← List.cons_append] at hp
  exact hsize p (List.append_cancel_right hp ▸ List.mem_cons_self)

end PausedSince

theorem Unclosed.pausedSince (h : Unclosed cx c₁ c) (hb : c₁.state.inBlock = true) :
    PausedSince c₁ c := by
  induction h with
  | refl =>
    obtain ⟨b, bs, hn⟩ := List.ne_nil_iff_exists_cons.1 (by simpa [State.inBlock] using hb)
    refine ⟨[], rfl, List.forall_mem_nil _, ?_⟩
    change c₁.state.suspended.length < (c₁.state.nested ++ c₁.state.suspended).length
    rw [hn, List.length_append, List.length_cons]
    omega
  | tail h hmove ih => exact ih.move (Unclosed.moves h).grows hmove.1 hmove.2

/-- The final name of a name of the block's file: as it was when the file had begun in the block or,
if the file was inlined at the root since, as it is there. -/
def NamedAsBefore (c₁ c : Moment) (target : Url) (b : Block) (k : String) : Prop :=
  b.scope.env.lookup target k = c₁.state.lookup target k ∨
    c₁.state.included.contains target = false ∧ c.state.included.contains target = true ∧
      b.scope.env.lookup target k = c.state.root.env.lookup target k

/-- Files that came in behind a state were not there before. -/
theorem contains_of_mem_addedSince {s t : State} (h : Grows s t) {n : Nat} (hn : s.included.size ≤ n)
    {f : Url} (hf : f ∈ t.included.addedSince n) :
    s.included.contains f = false ∧ t.included.contains f = true := by
  obtain ⟨l, hl⟩ := h.included
  have hnodup := t.included.nodup
  rw [← hl, List.nodup_append] at hnodup
  have hmem : f ∈ l := by
    rw [SeenSet.addedSince, ← hl, List.drop_append, List.drop_of_length_le hn] at hf
    exact List.mem_of_mem_drop hf
  have hold : f ∉ s.included.items := fun hs => hnodup.2.2 f hs f hmem rfl
  exact ⟨by simpa [SeenSet.contains] using hold, by simp [SeenSet.contains, ← hl, hmem]⟩

theorem NamedAsBefore.move {b b' : Block} {target : Url} {k : String}
    (h : NamedAsBefore c₁ c target b k) (hg : Grows c₁.state c.state) (hmove : Move cx c c')
    (hp : PausedSince c₁ c) (hp' : PausedSince c₁ c') (hb : KeepsNames cx c c' b b')
    (htarget : b.target = target) (hk : ¬cx.Imports target k) :
    NamedAsBefore c₁ c' target b' k := by
  subst htarget
  rcases hb.lookup k hk with hsame | ⟨⟨p, hpause, hadded⟩, hroot⟩
  · rcases h with hbefore | ⟨hold, hnew, hroot⟩
    · exact Or.inl (hsame.trans hbefore)
    · exact Or.inr ⟨hold, hmove.grows.contains hnew,
        (hsame.trans hroot).trans (hmove.lookup_root hnew hk).symm⟩
  · obtain ⟨hold, hnew⟩ := contains_of_mem_addedSince (hg.trans hmove.grows)
      (hp.size_le hp' hpause) hadded
    exact Or.inr ⟨hold, hnew, hroot⟩

/-- While the innermost block of `c₁` is not closed it is in its place, and its file's names are as
before, or as at the root. -/
theorem Unclosed.names (h : Unclosed cx c₁ c) {b₁ : Block}
    (hb : c₁.state.nested.head? = some b₁) :
    ∃ b, c.state.block? (c₁.state.blocks.length - 1) = some b ∧ b.target = b₁.target ∧
      ∀ k, ¬cx.Imports b₁.target k → NamedAsBefore c₁ c b₁.target b k := by
  obtain ⟨bs, hn⟩ : ∃ bs, c₁.state.nested = b₁ :: bs := ⟨_, (List.cons_head?_tail hb).symm⟩
  have hopen : c₁.state.inBlock = true := by simp [State.inBlock, hn]
  have hlength : c₁.state.blocks.length ≠ 0 := by simp [State.blocks, hn]
  induction h with
  | refl =>
    have hblocks : c₁.state.blocks = b₁ :: (bs ++ c₁.state.suspended) := by
      simp [State.blocks, hn]
    refine ⟨b₁, ?_, rfl, fun k _ => Or.inl ?_⟩
    · rw [State.block?, hblocks, List.reverse_cons, List.length_cons, Nat.add_sub_cancel,
        ← List.length_reverse]
      exact List.getElem?_concat_length
    · simp [State.lookup, State.scope, hn]
  | @tail c c' h hmove ih =>
    obtain ⟨b, hblock, htarget, hnames⟩ := ih
    have hunclosed : Unclosed cx c₁ c := h
    have hg := hunclosed.moves.grows
    obtain ⟨b', hblock', hkeeps⟩ := hmove.1.keepsNames hblock
      (lt_of_lt_of_le (Nat.sub_one_lt hlength) hmove.2)
    have hpaused := hunclosed.pausedSince hopen
    exact ⟨b', hblock', hkeeps.target.trans htarget, fun k hk => (hnames k hk).move hg hmove.1
      hpaused (hpaused.move hg hmove.1 hmove.2) hkeeps htarget hk⟩

end Unclosed

section OneName

variable {cx : Context} {fin : State} {os : List Opening} {ps : List Piece} {b : Space}

/-- In the block each declaration of the block's file has the name that it got when the block was
opened: the file's statements stand in the block under these names, and exports of its declarations
stand for them. -/
structure OneName (cx : Context) (b : Space) : Prop where
  statements : ∀ p ∈ b.pieces, ∀ f, p.owner = .file f → f = b.file ∧
    ∃ i ∈ cx.statements b.file, ∃ env env' τ,
      (∀ k, cx.Declares b.file k →
        ∃ v, b.opening.named k = some v ∧ env.lookup b.file k = some v) ∧
      p.item ∈ linkItems τ (renameItems (Rename.ofEnvironment env b.file)
        (shown cx b.file true false env' i))
  exports : ∀ x v k, (x, v) ∈ b.exports → cx.Means (.exported b.file x) b.file k →
    b.opening.named k = some v

theorem SpaceOf.oneName (h : SpaceOf cx fin os ps b)
    (hroot : ∀ k, cx.Declares b.file k → fin.root.env.lookup b.file k = none) : OneName cx b := by
  refine ⟨fun p hp f hf => ?_, fun x v k hx hm => ?_⟩
  · obtain ⟨rfl, i, hi, is, ⟨env, env', τ, hfit, -, rfl⟩, hmem⟩ :=
      (h.pieces p hp).ofFile b.opening rfl f hf
    refine ⟨rfl, i, hi, env, env', τ, fun k hk => ?_, hmem⟩
    obtain ⟨v, hv, hknown⟩ := hfit.declared k hk
    exact ⟨v, h.named_of_knownAs hknown (hroot k hk), hv⟩
  · obtain ⟨c, hc⟩ := h.exports
    obtain ⟨w, hfits, hw⟩ := hc.fits_or_another hx
    have hknown := hfits.fits _ k hm
    rcases hw with ⟨rfl, -⟩ | ⟨-, hother, -⟩
    · exact h.named_of_knownAs hknown (hroot k hm.declares)
    · obtain ⟨p, hp, -, -, hmember⟩ := h.member_of_knownAs hm.declares hknown (hroot k hm.declares)
      exact absurd (List.mem_flatMap.2 ⟨p.item, List.mem_map_of_mem hp, hmember⟩) hother.out

/-- The root has no names for the declarations of a file that is inlined earlier or not at all, if
imports and declarations are apart. -/
theorem Moves.lookup_declared {included : SeenSet Url} {f : Url} {k : String}
    (h : Moves cx (.start included) ⟨fin, []⟩) (hd : cx.ImportsApart) (hr : Rooted [] fin)
    (hf : included.contains f = true ∨ fin.included.contains f = false) (hk : cx.Declares f k) :
    fin.root.env.lookup f k = none := by
  rcases hf with hf | hf
  · refine h.lookup_root hf ?_
    rintro ⟨e, he, rfl⟩
    obtain ⟨id, hid, hname⟩ := List.mem_map.1 hk
    exact hd f id hid e he hname.symm
  · exact hr.lookup_of_new hf k

end OneName

/-- At every moment of merging and in every block, from when the block's file has begun there until
the block is closed: a name that the file does not import stands for what it stood for in the
beginning, unless the file was inlined at the root since; then it may stand for what it stands for
there. If no file imports a name that it declares, all of a block uses the names from the beginning
where the file is not inlined at the root. -/
theorem block_names_kept (cx : Context) (included : SeenSet Url) : ∃ s,
    mergeChunk? cx included = some (finish cx.chunk s, s.included, s.warnings) ∧
    Moves cx (.start included) ⟨s, []⟩ ∧
    (∀ s₀ ps target wanted c, Moves cx (.start included) ⟨s₀, ps⟩ →
      Unclosed cx ⟨s₀.beginBlock cx target wanted, ps⟩ c →
      ∃ b, c.state.block? s₀.blocks.length = some b ∧ b.target = target ∧
        ∀ k, ¬cx.Imports target k →
          NamedAsBefore ⟨s₀.beginBlock cx target wanted, ps⟩ c target b k) ∧
    (cx.ImportsApart → ∀ p ∈ (finish cx.chunk s).pieces,
      Part (fun _ _ b => included.contains b.file = true ∨ s.included.contains b.file = false →
        OneName cx b) [] (finish cx.chunk s).pieces p) := by
  obtain ⟨s, hs, hentries, hrooted, hmoves⟩ := mergeChunk_moves cx included
  refine ⟨s, hs, hmoves, fun s₀ ps target wanted c _ hunclosed => ?_, fun hd p hp => ?_⟩
  · obtain ⟨bs, hbs⟩ := State.exists_nested_beginBlock cx target wanted s₀
    obtain ⟨b, hb, htarget, hnames⟩ := hunclosed.names (congrArg List.head? hbs)
    refine ⟨b, ?_, htarget, hnames⟩
    rwa [State.length_beginBlock, Nat.add_sub_cancel] at hb
  · obtain ⟨u, hu, hfinish, -, -, hparts⟩ := parts_of_mergeChunk? hd hs
    obtain rfl : u = s := congrArg Prod.snd (Option.some.inj (hu.symm.trans hentries))
    exact (hparts p hp).imp (fun os ps b hb _ hout =>
      hb.oneName (fun k hk => hmoves.lookup_declared hd hrooted hout hk))

/-- `/i.d.ts`, the entry, exports all of `/t.d.ts` as a namespace. That file takes the class of
`/b.d.ts` by an import type behind its own class, and `/b.d.ts` imports from it. -/
def inlinedMeanwhile : Context := .ofFiles
  [("/t.d.ts", [.exportDecl (emptyClass "X"),
      .exportDecl (.typeAlias (.made "W") false []
        (.imported (StrLit.made "/b.d.ts") none (some ⟨"Z", []⟩) [])), aliasOfX]),
    ("/b.d.ts", [.importDecl (oneImport "X" "T" "/t.d.ts").1, .exportDecl (emptyClass "X"),
      .exportDecl (emptyClass "Z")]),
    ("/i.d.ts", [.exportList ⟨[.all (.word "NS")], some (StrLit.made "/t.d.ts"), false, none⟩])]

/-- What the alias `Y` stands for. -/
def aliasedByY? : Item → Option String
  | .exportDecl (.typeAlias id _ _ (.ref name _)) => if id.name = "Y" then some name.head else none
  | _ => none

set_option maxRecDepth 100000 in
/-- In the block for `/t.d.ts` its class stands under one name and is referred to under another. -/
theorem class_renamed_meanwhile :
    ¬∀ m included' warnings,
      mergeChunk? inlinedMeanwhile ∅ = some (m, included', warnings) →
        inlinedMeanwhile.Declares (.ofPath "/t.d.ts") "X" →
        ¬inlinedMeanwhile.Imports (.ofPath "/t.d.ts") "X" →
          ∀ p ∈ m.pieces, ∀ body ∈ spaceBody? p.item, ∀ j ∈ body, ∀ v ∈ aliasedByY? j,
            v ∈ body.flatMap Item.binds := by
  intro hkept
  have hcheck : (mergeChunk? inlinedMeanwhile ∅).any (fun r => r.1.pieces.any (fun p =>
      (spaceBody? p.item).any (fun body => body.any (fun j => (aliasedByY? j).any (fun v =>
        !(body.flatMap Item.binds).contains v))))) := by decide +kernel
  obtain ⟨⟨m, included', warnings⟩, hm, hr⟩ := (Option.any_eq_true _ _).1 hcheck
  simp only [List.any_eq_true, Option.any_eq_true, Bool.not_eq_true', ← Bool.not_eq_true,
    List.contains_iff_mem] at hr
  obtain ⟨p, hp, body, hbody, j, hj, v, hv, hfree⟩ := hr
  exact hfree (hkept m included' warnings hm (by decide +kernel) (by decide +kernel) p hp body hbody
    j hj v hv)

end AmbientBundle.Merge
