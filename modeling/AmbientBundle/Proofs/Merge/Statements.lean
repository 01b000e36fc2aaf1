import AmbientBundle.Proofs.Merge.Provenance
/-!
Merging puts only statements of the known kinds into a chunk: by induction on runs, at every moment
all statements that are placed come from somewhere, at the root and in every block.
-/
namespace AmbientBundle.Merge

open ImportTypes Names Step Syntax

variable {cx : Context} {included : SeenSet Url}

namespace State

variable (s : State)

/-- The statements that are placed so far, at the root or in the block for a file. -/
def placed : List (Option Url × Piece) :=
  s.root.items.map (none, ·) ++
    s.blocks.flatMap (fun b => b.scope.items.map (some b.target, ·))

variable {s} {e : Option Url × Piece} {f : Scope → Scope} {p : Piece}

theorem mem_placed : e ∈ s.placed ↔ (e.1 = none ∧ e.2 ∈ s.root.items) ∨
    ∃ b ∈ s.blocks, e.1 = some b.target ∧ e.2 ∈ b.scope.items := by
  obtain ⟨scope, p⟩ := e
  simp only [placed, List.mem_append, List.mem_map, List.mem_flatMap, Prod.mk.injEq]
  refine or_congr ⟨?_, ?_⟩ ⟨?_, ?_⟩
  · rintro ⟨_, hp, rfl, rfl⟩
    exact ⟨rfl, hp⟩
  · rintro ⟨rfl, hp⟩
    exact ⟨p, hp, rfl, rfl⟩
  · rintro ⟨b, hb, _, hp, rfl, rfl⟩
    exact ⟨b, hb, rfl, hp⟩
  · rintro ⟨b, hb, rfl, hp⟩
    exact ⟨b, hb, p, hp, rfl, rfl⟩

/-- The statements of the current scope. -/
theorem mem_placed_scope (h : p ∈ s.scope.items) : (s.targets.head?, p) ∈ s.placed := by
  rw [mem_placed]
  unfold scope at h
  unfold targets blocks
  cases hn : s.nested with
  | nil =>
    rw [hn] at h
    exact Or.inl ⟨rfl, h⟩
  | cons b bs =>
    rw [hn] at h
    exact Or.inr ⟨b, by simp, rfl, h⟩

/-- A change of the current scope changes nothing elsewhere. -/
theorem mem_placed_onScope (h : e ∈ (s.onScope f).placed) :
    e ∈ s.placed ∨ e.1 = s.targets.head? ∧ e.2 ∈ (f s.scope).items := by
  rw [mem_placed] at h ⊢
  unfold onScope at h
  unfold scope targets
  cases hn : s.nested with
  | nil =>
    rw [hn] at h
    rcases h with h | ⟨b, hb, h⟩
    · exact Or.inr h
    · exact Or.inl (Or.inr ⟨b, by simpa [blocks, hn] using hb, h⟩)
  | cons b bs =>
    rw [hn] at h
    rcases h with h | ⟨b', hb, h⟩
    · exact Or.inl (Or.inl h)
    · rcases List.mem_cons.1 (show b' ∈ _ :: (bs ++ s.suspended) from hb) with rfl | hb
      · exact Or.inr h
      · exact Or.inl (Or.inr ⟨b', by simpa [blocks, hn] using Or.inr (List.mem_append.1 hb), h⟩)

theorem placed_onScope (h : (f s.scope).items ⊆ s.scope.items) : (s.onScope f).placed ⊆ s.placed := by
  intro e he
  rcases mem_placed_onScope he with he | ⟨hscope, he⟩
  · exact he
  · obtain ⟨scope, p⟩ := e
    obtain rfl : scope = s.targets.head? := hscope
    exact mem_placed_scope (h he)

theorem mem_placed_addItems {ps : List Piece} (h : e ∈ (s.addItems ps).placed) :
    e ∈ s.placed ∨ e.1 = s.targets.head? ∧ e.2 ∈ ps := by
  rcases mem_placed_onScope h with h | ⟨hscope, h⟩
  · exact Or.inl h
  · refine (List.mem_append.1 h).imp (fun h => ?_) (fun h => ⟨hscope, h⟩)
    obtain ⟨scope, p⟩ := e
    obtain rfl : scope = s.targets.head? := hscope
    exact mem_placed_scope h

/-- A change of blocks that leaves their files and statements alone. -/
theorem placed_of_blocks {t : State} (hroot : t.root.items = s.root.items)
    (hblocks : ∀ b ∈ t.blocks, ∃ b' ∈ s.blocks, b.target = b'.target ∧
      b.scope.items = b'.scope.items) : t.placed ⊆ s.placed := by
  intro e he
  rw [mem_placed] at he ⊢
  rcases he with ⟨hnone, he⟩ | ⟨b, hb, hsome, he⟩
  · exact Or.inl ⟨hnone, hroot ▸ he⟩
  · obtain ⟨b', hb', htarget, hitems⟩ := hblocks b hb
    exact Or.inr ⟨b', hb', htarget ▸ hsome, hitems ▸ he⟩

theorem placed_claim (name : String) : (s.claim name).placed ⊆ s.placed := by
  refine placed_of_blocks rfl (fun b hb => ?_)
  simp only [blocks, claim, List.mem_append, List.mem_map] at hb ⊢
  rcases hb with ⟨b, hb, rfl⟩ | ⟨b, hb, rfl⟩
  · exact ⟨b, Or.inl hb, rfl, rfl⟩
  · exact ⟨b, Or.inr hb, rfl, rfl⟩

theorem placed_inheritFromRoot (files : List Url) : (s.inheritFromRoot files).placed ⊆ s.placed := by
  unfold inheritFromRoot
  split
  · exact List.Subset.refl _
  · refine placed_of_blocks rfl (fun b hb => ?_)
    simp only [blocks, List.mem_append, List.mem_map] at hb ⊢
    rcases hb with ⟨b, hb, rfl⟩ | hb
    · exact ⟨b, Or.inl hb, rfl, rfl⟩
    · exact ⟨b, Or.inr hb, rfl, rfl⟩

theorem placed_resume (depth : Nat) : (s.resume depth).placed ⊆ s.placed := by
  refine placed_of_blocks rfl (fun b hb => ⟨b, ?_, rfl, rfl⟩)
  simp only [blocks, resume, List.take_append_drop] at hb
  exact List.mem_append_right _ hb

theorem placed_bindFile (is : List Item) (file : Url) : (s.bindFile is file).placed ⊆ s.placed :=
  placed_onScope (List.Subset.refl _)

theorem placed_openBlock (target : Url) (name : String) :
    (s.openBlock target name).placed ⊆ s.placed := by
  intro e he
  have hsub := @placed_onScope s (fun c => { c with spaces := c.spaces.put target name })
    (List.Subset.refl _)
  rw [mem_placed] at he
  rcases he with ⟨hnone, he⟩ | ⟨b, hb, hsome, he⟩
  · exact hsub (mem_placed.2 (Or.inl ⟨hnone, he⟩))
  · rcases List.mem_cons.1 (show b ∈ _ :: (_ ++ _) from hb) with rfl | hb
    · cases he
    · exact hsub (mem_placed.2 (Or.inr ⟨b, hb, hsome, he⟩))

theorem placed_closeBlock : s.closeBlock.2.placed ⊆ s.placed := by
  refine placed_of_blocks (by simp) (fun b hb => ⟨b, ?_, rfl, rfl⟩)
  unfold closeBlock at hb
  cases hn : s.nested with
  | nil => simpa [hn] using hb
  | cons b' bs =>
    simp only [hn] at hb
    exact show b ∈ s.nested ++ s.suspended from hn ▸ List.mem_cons_of_mem b' hb

theorem mem_placed_closed (h : p ∈ s.closeBlock.1) : (s.targets.head?, p) ∈ s.placed := by
  refine mem_placed_scope ?_
  unfold closeBlock at h
  unfold scope
  cases hn : s.nested with
  | nil => simp [hn] at h
  | cons b bs => simpa [hn] using h

end State

/-- All statements that are placed so far come from somewhere, and what stays of imports is taken from
outside. -/
structure DerivedState (cx : Context) (included : SeenSet Url) (s : State) : Prop where
  placed : ∀ e ∈ s.placed, Derived cx included e.1 e.2
  preserved : ∀ e ∈ s.preserved.entries, cx.TakesOut e.1 e.2.typeOnly ∧
    ∀ x ∈ e.2.locals, cx.Coined x
  runs : ∀ module ∈ s.sideEffects.items, cx.RunsOut module

namespace DerivedState

variable {s t : State}

theorem start : DerivedState cx included (.start included) where
  placed e he := by cases he
  preserved e he := by cases he
  runs module hm := by cases hm

theorem mono (h : DerivedState cx included s) (hplaced : t.placed ⊆ s.placed)
    (hpreserved : t.preserved = s.preserved) (hruns : t.sideEffects = s.sideEffects) :
    DerivedState cx included t :=
  ⟨fun e he => h.placed e (hplaced he), hpreserved ▸ h.preserved, hruns ▸ h.runs⟩

theorem keep (h : DerivedState cx included s) {key : String × ImportedName} {p : Preserved}
    (hkey : cx.TakesOut key p.typeOnly) (hlocals : ∀ x ∈ p.locals, cx.Coined x) :
    DerivedState cx included (s.keep key p) := by
  refine ⟨h.placed, fun e he => ?_, h.runs⟩
  rcases OrderedMap.mem_entries_put he with rfl | he
  · exact ⟨hkey, hlocals⟩
  · exact h.preserved e he

theorem sideEffects_onScope (s : State) (f : Scope → Scope) :
    (s.onScope f).sideEffects = s.sideEffects := by
  unfold State.onScope
  cases s.nested <;> rfl

theorem onScope (h : DerivedState cx included s) (f : Scope → Scope)
    (hf : (f s.scope).items ⊆ s.scope.items) : DerivedState cx included (s.onScope f) :=
  h.mono (State.placed_onScope hf) (by simp) (sideEffects_onScope s f)

theorem addItems (h : DerivedState cx included s) {ps : List Piece}
    (hps : ∀ p ∈ ps, Derived cx included s.targets.head? p) :
    DerivedState cx included (s.addItems ps) := by
  refine ⟨fun e he => ?_, by simpa using h.preserved, sideEffects_onScope s _ ▸ h.runs⟩
  rcases State.mem_placed_addItems he with he | ⟨hscope, he⟩
  · exact h.placed e he
  · exact hscope ▸ hps e.2 he

theorem link (h : DerivedState cx included s) (origin : Url) (name final : String) :
    DerivedState cx included (s.link origin name final) :=
  h.onScope (fun c => { c with env := c.env.link origin name final }) (List.Subset.refl _)

theorem claim (h : DerivedState cx included s) (name : String) :
    DerivedState cx included (s.claim name) :=
  h.mono (State.placed_claim name) rfl rfl

theorem taken (h : DerivedState cx included s) (n : Nat) :
    ∀ p ∈ (s.takeItems n).1, Derived cx included s.targets.head? p :=
  fun _ hp => h.placed _ (State.mem_placed_scope (List.mem_of_mem_drop hp))

theorem takeItems (h : DerivedState cx included s) (n : Nat) :
    DerivedState cx included (s.takeItems n).2 :=
  h.onScope (fun c => { c with items := c.items.take n }) (List.take_subset _ _)

theorem beginBlock (h : DerivedState cx included s) (is : List Item) (target : Url) (name : String) :
    DerivedState cx included (((s.claim name).openBlock target name).bindFile is target) := by
  refine (h.claim name).mono ?_ (by simp) ?_
  · exact List.Subset.trans (State.placed_bindFile is target) (State.placed_openBlock target name)
  · exact (sideEffects_onScope _ _).trans (sideEffects_onScope _ _)

theorem closeBlock (h : DerivedState cx included s) : DerivedState cx included s.closeBlock.2 := by
  refine h.mono State.placed_closeBlock (by simp) ?_
  unfold State.closeBlock
  cases s.nested <;> rfl

theorem inheritFromRoot (h : DerivedState cx included s) (files : List Url) :
    DerivedState cx included (s.inheritFromRoot files) := by
  refine h.mono (State.placed_inheritFromRoot files) (by simp) ?_
  unfold State.inheritFromRoot
  split <;> rfl

end DerivedState

section Run

variable {n : Nat} {r : Role} {files : List Url} {s t u : State} {y : Yield} {origin : Url}
  {i : Item} {τ : Targets}

/-- What stands for a statement of the current file in its scope. -/
theorem derived_shown {keep : Bool} {env : Environment} (hcur : Current cx files origin s)
    (hi : i ∈ cx.statements origin) (ht : FormedState cx t) (hkeep : s.inBlock = true → keep = false)
    (hτ : ∀ key ∈ collectItems pickKey (renameItems (Rename.ofEnvironment t.scope.env origin)
      (shown cx origin s.inBlock keep env i)), LinkOf cx included origin key (τ key))
    (hbind : ∀ key x, τ key = some (.binding x) → cx.Formed x) :
    ∀ j ∈ linkItems τ (renameItems (Rename.ofEnvironment t.scope.env origin)
      (shown cx origin s.inBlock keep env i)),
      Derived cx included s.targets.head? (.ofFile origin j) := by
  rw [renameItems_eq_map] at hτ ⊢
  rw [linkItems_eq_map, List.map_map]
  intro j hj
  obtain ⟨k, hk, rfl⟩ := List.mem_map.1 hj
  have hblock : s.inBlock = s.targets.head?.isSome := by
    rw [State.inBlock_eq]
    cases s.targets <;> rfl
  refine .shown hcur.file hi (fun T hT => ?_) (hblock ▸ hk) (fun x => ?_)
    (fun key hkey => hτ key ?_) hbind
  · have hb : s.inBlock = true := by rw [hblock, Option.isSome_of_mem hT]
    exact ⟨Option.some.inj (hT.symm.trans (hcur.block hb)), hkeep hb⟩
  · unfold Rename.ofEnvironment
    cases hl : t.scope.env.lookup origin x with
    | none => exact Or.inl rfl
    | some f => exact Or.inr (ht.scope.names.lookup hl)
  · exact mem_collectItems.2 ⟨_, List.mem_map_of_mem hk, hkey⟩

/-- The exports of a block have names that a file writes, and bindings with final names. -/
theorem formed_spaceExports {target : Url} {exports : List (String × String)}
    (h : SpaceExports cx n target s t u exports) (hs : Ready cx files target s)
    (hu : FormedState cx u) : ∀ e ∈ exports, cx.Writes e.1 ∧ cx.Formed e.2 := by
  obtain ⟨ws, c, t', k, hk, hcollect, -, -, hexports, -⟩ := h
  have hready : Ready cx files target { s with warnings := ws } :=
    ⟨hs.formed.congr (List.Subset.refl _) rfl, hs.lead, hs.has⟩
  have hformed := ((calls cx k).collect (r := .dependency) hready (by simp [Collected.empty])
    hcollect).2
  have hwrites := writes_of_collect hs.has (by simp [Collected.empty]) hcollect
  intro e he
  obtain ⟨a, ha, hof⟩ := forall₂_mem_right hexports he
  cases hof with
  | same heq => exact heq ▸ ⟨hwrites a ha, hformed a ha⟩
  | renamed _ _ hname again =>
    refine ⟨hname ▸ hwrites a ha, ?_⟩
    rcases again.bound with ⟨ps, hps, hmem⟩ | ⟨entry, hentry, -, hlocal⟩
    · refine hu.scope.pieces (.made (aliasOf e.2 a.2 false)) ?_ e.2 (List.mem_singleton_self e.2)
      rw [hps]
      exact List.mem_append_right _ hmem
    · exact hu.locals entry hentry e.2 hlocal

/-- What is printed for a statement of the current file. -/
theorem derived_printed {exports : List Item} {ps : List Pause} (hcur : Current cx files origin s)
    (hi : i ∈ cx.statements origin)
    (hx : (keepsExports r s = true ∧ ∃ k < n, reexport cx k origin i s = some (exports, t)) ∨
      (keepsExports r s = false ∧ exports = [] ∧ t = s))
    (hlink : ∃ k < n, TypeLinks cx k origin (renameItems (Rename.ofEnvironment t.scope.env origin)
      (shown cx origin s.inBlock (keepsExports r s) s.scope.env i))
      (t.takeItems s.scope.items.length).2 τ u)
    (hs : FormedState cx s) (ht : FormedState cx t)
    (hmoves : Moves cx (.start included) ⟨(t.takeItems s.scope.items.length).2, ps⟩) :
    ∀ j ∈ linkItems τ (renameItems (Rename.ofEnvironment t.scope.env origin)
        (shown cx origin s.inBlock (keepsExports r s) s.scope.env i)) ++ exports,
      Derived cx included s.targets.head? (.ofFile origin j) := by
  intro j hj
  rcases List.mem_append.1 hj with hj | hj
  · obtain ⟨k, -, hlinks⟩ := hlink
    obtain ⟨htargets, hbind⟩ := hlinks.linkOf ⟨ht.takeItems _, hcur.lead, hcur.file⟩ hmoves
      (fun key hkey =>
        mem_collectItems.2 ⟨i, hi, keys_rename_shown cx origin s.inBlock _ _ _ i hkey⟩)
    exact derived_shown hcur hi ht (fun hb => by simp [keepsExports, hb]) htargets hbind j hj
  · -- Only outside of blocks are a file's exports stated.
    rcases hx with ⟨hkeep, k, -, hx⟩ | ⟨-, rfl, -⟩
    · have hroot : r = .entry ∧ s.targets = [] := by
        simpa [keepsExports, State.inBlock_eq] using hkeep
      rw [hroot.2]
      exact derived_reexport (hcur.ready hs) hi hx j hj
    · cases hj

/-- What is placed in a block makes up its namespace. -/
theorem DerivedState.block {v w : State} {target : Url} {name : String}
    {exports : List (String × String)} (hv : DerivedState cx included v)
    (htargets : v.targets = target :: w.targets) (hfile : cx.HasFile target)
    (hname : cx.Coined name) (hexports : ∀ e ∈ exports, cx.Writes e.1 ∧ cx.Formed e.2) :
    Derived cx included w.targets.head?
      (.made (spaceOf (!w.inBlock) name (exportMembers (v.closeBlock.1.map Piece.item) exports))) := by
  have hnone : (!w.inBlock) = w.targets.head?.isNone := by
    rw [State.inBlock_eq]
    cases w.targets <;> rfl
  rw [hnone]
  refine .block hfile hname (fun p hp => ?_) hexports
  have hplaced := hv.placed _ (State.mem_placed_closed hp)
  rwa [htargets] at hplaced

/-- A run places only what is derived, and hands back only that. -/
theorem Run.derived {ps : List Pause} (h : Run cx n r files s y t)
    (hmoves : Moves cx (.start included) ⟨s, ps⟩) (hf : FormedState cx s)
    (hs : DerivedState cx included s) :
    DerivedState cx included t ∧ ∀ p ∈ y.pieces, Derived cx included s.targets.head? p := by
  induction h generalizing ps with
  | nothing => exact ⟨hs, by simp⟩
  | andThen first _ ih₁ ih₂ =>
    obtain ⟨ht, hy⟩ := ih₁ hmoves hf hs
    obtain ⟨hu, hz⟩ := ih₂ (hmoves.trans (first.moves ps)) (first.formed hf).1 ht
    refine ⟨hu, fun p hp => (List.mem_append.1 hp).elim (hy p) (fun hp => ?_)⟩
    exact first.stacks.1 ▸ hz p hp
  | warn w => exact ⟨hs.mono (List.Subset.refl _) rfl rfl, by simp⟩
  | keepRun module hout =>
    refine ⟨⟨hs.placed, hs.preserved, fun m hm => ?_⟩, by simp⟩
    rw [State.keepRun, SeenSet.items_insert] at hm
    split at hm
    · exact hs.runs m hm
    · rcases List.mem_append.1 hm with hm | hm
      · exact hs.runs m hm
      · exact List.mem_singleton.1 hm ▸ hout
  | preserve typeOnly hkey hw hout =>
    refine ⟨(hs.claim _).keep hout (fun x hx => ?_), by simp⟩
    rw [List.mem_singleton.1 hx]
    exact Context.coined_freshName hw _
  | @preserveAgain r files s key p typeOnly hkey hout =>
    obtain ⟨hkeep, hlocals⟩ := hs.preserved _ (OrderedMap.mem_entries_of_get? hkey)
    refine ⟨hs.keep ?_ hlocals, by simp⟩
    rcases hout with rfl | hout
    · exact hkeep
    · exact hout
  | @aliasImport r files s f key p hx hkey =>
    obtain ⟨hkeep, hlocals⟩ := hs.preserved _ (List.mem_of_find?_eq_some hkey)
    refine ⟨(hs.claim _).keep hkeep (fun x hmem => ?_), by simp⟩
    rcases List.mem_append.1 (show x ∈ p.locals ++ [s.freshName f] from hmem) with hmem | hmem
    · exact hlocals x hmem
    · rw [List.mem_singleton.1 hmem]
      exact Context.coined_freshName hx _
  | aliasBinding hx =>
    refine ⟨(hs.claim _).addItems (fun p hp => ?_), by simp⟩
    rw [List.mem_singleton.1 hp]
    exact .aliased (Context.coined_freshName hx _) hx
  | link _ _ _ _ _ ih => exact ⟨(ih hmoves hf hs).1.link _ _ _, by simp⟩
  | unlinked w _ _ _ _ ih =>
    exact ⟨(ih hmoves hf hs).1.mono (List.Subset.refl _) rfl rfl, by simp⟩
  | @print r files s t u origin i exports τ hcur hi _ hx _ hlink run _ ih₁ ih₂ =>
    have ht := (ih₁ hmoves hf hs).1
    have hft := (run.formed hf).1
    have hmoves' : Moves cx (.start included) ⟨(t.takeItems s.scope.items.length).2, ps⟩ :=
      (hmoves.trans (run.moves ps)).tail (.takeItems _)
    refine ⟨(ih₂ hmoves' (hft.takeItems _) (ht.takeItems _)).1, fun p hp => ?_⟩
    rcases List.mem_append.1 hp with hp | hp
    · exact run.stacks.1 ▸ ht.taken _ p hp
    · obtain ⟨j, hj, rfl⟩ := List.mem_map.1 hp
      exact derived_printed hcur hi hx hlink hf hft hmoves' j hj
  | @inlined r q files s t u file qs hroot hnew hfile hlead hq imports prints ih₁ ih₂ =>
    have hbegin : DerivedState cx included (s.beginFile cx file) :=
      hs.mono (State.placed_bindFile _ _) (by simp [State.beginFile, State.addFile])
        (DerivedState.sideEffects_onScope _ _)
    have hmoves₁ : Moves cx (.start included) ⟨s.beginFile cx file, ps⟩ :=
      hmoves.tail (.beginFile hroot hnew hfile)
    have hf₁ : FormedState cx (s.beginFile cx file) := hf.beginFile hfile
    have ht := (ih₁ hmoves₁ hf₁ hbegin).1
    obtain ⟨hu, hqs⟩ := ih₂ (hmoves₁.trans (imports.moves ps)) (imports.formed hf₁).1 ht
    exact ⟨hu.addItems (fun p hp => prints.stacks.1 ▸ hqs p hp), by simp⟩
  | @atRoot r files s t hblock run ih =>
    have hsuspend : DerivedState cx included s.suspend :=
      hs.mono (State.placed_of_blocks rfl (fun b hb => ⟨b, hb, rfl, rfl⟩)) rfl rfl
    have ht := (ih (hmoves.tail (.suspend hblock)) hf.suspend hsuspend).1
    exact ⟨(ht.mono (State.placed_resume _) rfl rfl).inheritFromRoot _, by simp⟩
  | @block r files s t u v w target wanted qs exports hnew hfile hlead hw hexports imports prints
      collects aliases ih₁ ih₂ ih₃ ih₄ =>
    have hf₁ := hf.beginBlock hfile hw
    have hmoves₁ : Moves cx (.start included) ⟨s.beginBlock cx target wanted, ps⟩ :=
      hmoves.tail (.beginBlock wanted hnew)
    have ht := (ih₁ hmoves₁ hf₁ (hs.beginBlock _ _ _)).1
    have hmoves₂ := hmoves₁.trans (imports.moves ps)
    obtain ⟨hf₂, hf₃, hf₄⟩ := hf.throughBlock hfile hw imports prints collects
    obtain ⟨hu, hqs⟩ := ih₂ hmoves₂ hf₂ ht
    have hmoves₃ := (hmoves₂.trans (prints.moves ps)).tail (.addItems qs)
    have hv := (ih₃ hmoves₃ hf₃
      (hu.addItems (fun p hp => prints.stacks.1 ▸ hqs p hp))).1
    have htargets : v.targets = target :: s.targets := by
      rw [collects.stacks.1, State.targets_addItems, prints.stacks.1, imports.stacks.1]
      simp
    have hclose : v.inBlock = true := by simp [State.inBlock_eq, htargets]
    have hmoves₄ := (hmoves₃.trans (collects.moves ps)).tail (.closeBlock hclose)
    have hw' := (ih₄ hmoves₄ hf₄ hv.closeBlock).1
    have houter : w.targets = s.targets := by
      rw [aliases.stacks.1, State.targets_closeBlock, htargets, List.tail_cons]
    refine ⟨hw'.addItems (fun p hp => ?_), by simp⟩
    rw [List.mem_singleton.1 hp]
    exact hv.block (houter ▸ htargets) hfile (Context.coined_freshName hw s)
      (formed_spaceExports hexports ⟨hf₃, hlead, hfile⟩ (aliases.formed hf₄).1)
  | @exportAgain s t file c k hroot hold hfile hk h run ih =>
    refine ⟨(ih hmoves hf hs).1.addItems (fun p hp => ?_), by simp⟩
    obtain ⟨i, hi, rfl⟩ := List.mem_map.1 hp
    have hnone : t.targets.head? = none := by
      rw [run.stacks.1]
      simpa [State.inBlock_eq] using hroot
    have hready : Ready cx [] file s := ⟨hf, fun _ hg => (by cases hg), hfile⟩
    exact hnone ▸ derived_surface file hready h i hi

/-- All statements of a chunk come from its files, or are made up. -/
theorem derived_of_mergeChunk? {included' : SeenSet Url} {m : Merged} {warnings : List Warning}
    (h : mergeChunk? cx included = some (m, included', warnings)) :
    ∀ p ∈ m.pieces, Derived cx included none p := by
  obtain ⟨s, run, rfl, -, -⟩ := mergeChunk_run h
  have hmoves : Moves cx (.start included) ⟨.start included, []⟩ := .refl
  have hs := (run.derived hmoves (.start included) .start).1
  intro p hp
  rcases List.mem_append.1 hp with hp | hp
  · obtain ⟨i, hi, rfl⟩ := List.mem_map.1 hp
    obtain ⟨sps, module, isType, rfl, htakes, hruns, htypes⟩ := mem_hoistedImports hi
    refine .imported (fun sp hsp => ?_) (fun hnil => hs.runs module (hruns hnil))
      (fun htaken => htypes (fun e he hmodule => ?_))
    · obtain ⟨e, he, rfl, hof, hloc⟩ := htakes sp hsp
      exact ⟨(hs.preserved e he).2 _ hloc, _, _, (hs.preserved e he).1, hof⟩
    · exact htaken e.1.2 _ (hmodule ▸ (hs.preserved e he).1)
  · obtain ⟨q, hq, howner, hleft⟩ := leftOf_keepNewAll hp
    have hderived : Derived cx included none q :=
      hs.placed (none, q) (State.mem_placed.2 (Or.inl ⟨rfl, hq⟩))
    obtain ⟨o, i⟩ := p
    obtain ⟨o', j⟩ := q
    obtain rfl : o' = o := howner
    cases hleft with
    | all => exact hderived
    | fewer hsub =>
      obtain ⟨g, rfl⟩ := hderived.file_of_exportList
      exact .narrowed hderived hsub

end Run

/-- Every chunk can be merged, and its statements are derived. -/
theorem mergeChunk_derived (cx : Context) (included : SeenSet Url) : ∃ s,
    mergeChunk? cx included = some (finish cx.chunk s, s.included, s.warnings) ∧
      ∀ p ∈ (finish cx.chunk s).pieces, Derived cx included none p := by
  obtain ⟨s, hs⟩ := includeEntries_ends cx included
  have hmerge := mergeChunk_of_includeEntries (hs _ le_rfl)
  exact ⟨s, hmerge, derived_of_mergeChunk? hmerge⟩

end AmbientBundle.Merge
