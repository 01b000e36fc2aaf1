import AmbientBundle.Proofs.Merge.Growth
/-!
Where a run adds statements: to the scope in which it stands and, while blocks are open, to the
root. It leaves the other scopes as they are, names of one import stay that, and no warning is taken
back.
-/
namespace AmbientBundle.Merge

open Names Syntax

theorem forall₂_trans {α : Type} {R : α → α → Prop} (hR : ∀ {a b c}, R a b → R b c → R a c)
    {l l' l'' : List α} (h : List.Forall₂ R l l') (h' : List.Forall₂ R l' l'') :
    List.Forall₂ R l l'' := by
  induction h generalizing l'' with
  | nil => exact h'
  | cons ha _ ih =>
    cases h' with
    | cons ha' h' => exact .cons (hR ha ha') (ih h')

theorem forall₂_mem_left {α β : Type} {R : α → β → Prop} {as : List α} {bs : List β} {a : α}
    (h : List.Forall₂ R as bs) (ha : a ∈ as) : ∃ b ∈ bs, R a b := by
  induction h with
  | nil => cases ha
  | @cons a' b as bs hab _ ih =>
    rcases List.mem_cons.1 ha with rfl | ha
    · exact ⟨b, List.mem_cons_self, hab⟩
    · obtain ⟨b', hmem, hab'⟩ := ih ha
      exact ⟨b', List.mem_cons_of_mem _ hmem, hab'⟩

theorem forall₂_mem_right {α β : Type} {R : α → β → Prop} {as : List α} {bs : List β} {b : β}
    (h : List.Forall₂ R as bs) (hb : b ∈ bs) : ∃ a ∈ as, R a b :=
  forall₂_mem_left (R := fun b a => R a b) h.flip hb

namespace State

variable (s : State) (f : Scope → Scope) (origin file : Url) (name final wanted : String)
  (items : List Piece) (n : Nat)

/-- The statements of the blocks that are open or wait, the innermost first. -/
def heaps : List (List Piece) := s.blocks.map (fun b => b.scope.items)

/-- The statements of the blocks behind the current scope. -/
def behind : List (List Piece) := if s.inBlock then s.heaps.tail else s.heaps

theorem heaps_of_inBlock {s : State} (h : s.inBlock = true) :
    s.heaps = s.scope.items :: s.behind := by
  cases hn : s.nested with
  | nil => simp [inBlock, hn] at h
  | cons b bs => simp [behind, heaps, blocks, inBlock, scope, hn]

theorem behind_of_root {s : State} (h : s.inBlock = false) : s.behind = s.heaps := by
  simp [behind, h]

@[simp] theorem behind_onScope : (s.onScope f).behind = s.behind := by
  unfold onScope behind heaps blocks inBlock
  cases hn : s.nested <;> simp

@[simp] theorem heaps_claim : (s.claim name).heaps = s.heaps := by
  simp [claim, heaps, blocks, claimInBlock, Function.comp_def]

@[simp] theorem behind_claim : (s.claim name).behind = s.behind := by
  have hb : (s.claim name).inBlock = s.inBlock := inBlock_congr (targets_claim s name)
  rw [behind, behind, hb, heaps_claim]

@[simp] theorem behind_link : (s.link origin name final).behind = s.behind := behind_onScope s _

@[simp] theorem behind_addItems : (s.addItems items).behind = s.behind := behind_onScope s _

@[simp] theorem behind_takeItems : (s.takeItems n).2.behind = s.behind := behind_onScope s _

@[simp] theorem behind_bindFile (is : List Item) : (s.bindFile is origin).behind = s.behind :=
  behind_onScope s _

@[simp] theorem behind_openBlock : (s.openBlock file name).behind = s.heaps := by
  unfold openBlock onScope behind heaps blocks inBlock
  cases hn : s.nested <;> simp

theorem heaps_closeBlock {s : State} (h : s.inBlock = true) : s.closeBlock.2.heaps = s.behind := by
  cases hn : s.nested with
  | nil => simp [inBlock, hn] at h
  | cons b bs => simp [closeBlock, behind, heaps, blocks, inBlock, hn]

theorem closeBlock_fst {s : State} (h : s.inBlock = true) : s.closeBlock.1 = s.scope.items := by
  cases hn : s.nested with
  | nil => simp [inBlock, hn] at h
  | cons b bs => simp [closeBlock, scope, hn]

@[simp] theorem heaps_suspend : s.suspend.heaps = s.heaps := rfl

theorem heaps_resume {s : State} (h : s.inBlock = false) : (s.resume n).heaps = s.heaps := by
  have hn : s.nested = [] := by simpa [inBlock] using h
  simp only [resume, heaps, blocks, hn, List.nil_append, List.take_append_drop]

@[simp] theorem heaps_inheritFromRoot (files : List Url) :
    (s.inheritFromRoot files).heaps = s.heaps := by
  unfold inheritFromRoot
  split
  · rfl
  · simp [heaps, blocks, inheritInBlock, Function.comp_def]

@[simp] theorem behind_inheritFromRoot (files : List Url) :
    (s.inheritFromRoot files).behind = s.behind := by
  have hb : (s.inheritFromRoot files).inBlock = s.inBlock :=
    inBlock_congr (targets_inheritFromRoot s files)
  rw [behind, behind, hb, heaps_inheritFromRoot]

/-- The current scope holds what the blocks' statements begin with. -/
theorem scope_items_congr {s t : State} (hs : s.inBlock = true) (ht : t.inBlock = true)
    (h : t.heaps = s.heaps) : t.scope.items = s.scope.items := by
  rw [heaps_of_inBlock hs, heaps_of_inBlock ht] at h
  exact (List.cons.inj h).1

@[simp] theorem scope_items_link : (s.link origin name final).scope.items = s.scope.items := by
  simp [link, onEnv]

@[simp] theorem scope_items_bindFile (is : List Item) :
    (s.bindFile is origin).scope.items = s.scope.items := by
  change (s.onEnv _).scope.items = _
  simp [onEnv]

@[simp] theorem scope_items_openBlock : (s.openBlock file name).scope.items = [] := rfl

theorem scope_items_begunBlock (is : List Item) :
    ((s.openBlock file name).bindFile is origin).scope.items = [] := by
  rw [scope_items_bindFile, scope_items_openBlock]

theorem root_items_begunBlock (is : List Item) :
    ((s.openBlock file name).bindFile is origin).root.items = s.root.items := by
  rw [root_bindFile_items, root_openBlock_items]

theorem scope_items_takeItems : (s.takeItems n).2.scope.items = s.scope.items.take n := by
  simp [takeItems]

end State

variable {cx : Context} {n : Nat} {r : Role} {files : List Url} {s t u : State} {y : Yield}

/-- The block that is closed is the one that was opened. -/
theorem Run.closes {q : Role} {v : State} {is : List Item} {name : String} {file target : Url}
    {ps : List Piece} {y z : Yield}
    (imports : Run cx n q files ((s.openBlock target name).bindFile is file) y t)
    (prints : Run cx n q files t z u) (collects : Run cx n q files (u.addItems ps) ∅ v) :
    v.inBlock = true ∧ v.closeBlock.2.targets = s.targets := by
  refine ⟨?_, by simp [collects.stacks.1, prints.stacks.1, imports.stacks.1]⟩
  rw [collects.inBlock_eq, State.inBlock_congr (State.targets_addItems u ps),
    prints.inBlock_eq, imports.inBlock_eq, State.inBlock_congr (State.targets_bindFile _ _ _)]
  exact State.inBlock_openBlock _ _ _

/-- Blocks behind the current scope stay as they are. -/
theorem Run.behind (h : Run cx n r files s y t) : t.behind = s.behind := by
  induction h with
  | nothing => rfl
  | andThen _ _ ih₁ ih₂ => exact ih₂.trans ih₁
  | warn w => rfl
  | keepRun module => rfl
  | preserve typeOnly hkey hw => exact State.behind_claim _ _
  | preserveAgain typeOnly hkey => rfl
  | aliasImport hf hkey => exact State.behind_claim _ _
  | aliasBinding hf => simp
  | link _ _ _ _ _ ih => simpa using ih
  | unlinked w _ _ _ _ ih => exact ih
  | print _ _ _ _ _ _ _ _ ih₁ ih₂ => simpa [ih₁] using ih₂
  | inlined _ _ _ _ _ _ _ ih₁ ih₂ =>
    rw [State.behind_bindFile] at ih₁
    rw [State.behind_addItems, ih₂, ih₁]
    rfl
  | @atRoot r files s t hblock run ih =>
    have ht : t.inBlock = false := run.inBlock_eq
    have hheaps : (t.resume s.suspended.length).heaps = s.heaps := by
      rw [State.heaps_resume _ ht, ← State.behind_of_root ht, ih, State.behind_of_root rfl,
        State.heaps_suspend]
    have htargets := (Run.atRoot hblock run (r := r)).stacks.1
    rw [State.targets_inheritFromRoot] at htargets
    rw [State.behind_inheritFromRoot, State.behind, State.behind,
      State.inBlock_congr htargets, hheaps]
  | @block r files s t u v w target wanted ps exports _ _ _ _ _ imports prints collects
      aliases ih₁ ih₂ ih₃ ih₄ =>
    have hv : v.behind = s.heaps := by
      rw [ih₃, State.behind_addItems, ih₂, ih₁, State.behind_bindFile, State.behind_openBlock,
        State.heaps_claim]
    obtain ⟨hin, htargets⟩ := Run.closes imports prints collects
    rw [State.behind_addItems, ih₄, State.behind, State.behind,
      State.inBlock_congr (htargets.trans (State.targets_claim s _)), State.heaps_closeBlock hin, hv]
  | exportAgain _ _ _ _ _ _ ih => simpa using ih

/-- When a block is closed, the scope around it holds what it held before. -/
theorem Run.scope_items_closeBlock {q : Role} {v : State} {is : List Item} {name : String}
    {file target : Url} {ps : List Piece} {y z : Yield} (hb : s.inBlock = true)
    (imports : Run cx n q files ((s.openBlock target name).bindFile is file) y t)
    (prints : Run cx n q files t z u) (collects : Run cx n q files (u.addItems ps) ∅ v) :
    v.closeBlock.2.scope.items = s.scope.items := by
  obtain ⟨hin, htargets⟩ := Run.closes imports prints collects
  refine State.scope_items_congr hb ((State.inBlock_congr htargets).trans hb) ?_
  rw [State.heaps_closeBlock hin, collects.behind, State.behind_addItems, prints.behind,
    imports.behind, State.behind_bindFile, State.behind_openBlock]

/-- While files are inlined at the root, the blocks that wait hold what they held before. -/
theorem Run.scope_items_resume (hb : s.inBlock = true)
    (run : Run cx n .dependency files s.suspend ∅ t) :
    ((t.resume s.suspended.length).inheritFromRoot
      (t.included.addedSince s.included.size)).scope.items = s.scope.items := by
  have hin := (Run.atRoot hb run (r := .dependency)).inBlock_eq.trans hb
  refine State.scope_items_congr hb hin ?_
  rw [State.heaps_inheritFromRoot, State.heaps_resume _ run.inBlock_eq,
    ← State.behind_of_root run.inBlock_eq, run.behind, State.behind_of_root rfl,
    State.heaps_suspend]

theorem State.owner?_freshName (s : State) (wanted : String) :
    s.root.env.owner? (s.freshName wanted) = none := by
  refine Environment.owner?_eq_none_of_not_mem (fun h => ?_)
  exact fresh_not_mem s.takenNames wanted (List.mem_append_left _ h)

/-- A fresh name that is claimed belongs to the chunk. -/
theorem State.owner?_claim_freshName (s : State) (wanted : String) :
    (s.claim (s.freshName wanted)).root.env.owner? (s.freshName wanted) = some .chunk := by
  change (s.root.env.claim (s.freshName wanted)).owner? (s.freshName wanted) = some .chunk
  rw [Environment.owner?_claim, if_pos rfl, s.owner?_freshName]
  rfl

/-- From `s` to `t` statements are added to the current scope and to the root, imports get further
locals, and there are more warnings. -/
structure Onward (s t : State) : Prop where
  items : s.scope.items <+: t.scope.items
  root : s.root.items <+: t.root.items
  imports : ∀ x y, SameImport s x y → SameImport t x y
  warnings : s.warnings <+: t.warnings

namespace Onward

theorem refl (s : State) : Onward s s :=
  ⟨List.prefix_refl _, List.prefix_refl _, fun _ _ h => h, List.prefix_refl _⟩

theorem trans (h : Onward s t) (h' : Onward t u) : Onward s u :=
  ⟨h.items.trans h'.items, h.root.trans h'.root,
    fun x y hxy => h'.imports x y (h.imports x y hxy), h.warnings.trans h'.warnings⟩

/-- Neither statements nor imports change. -/
theorem of_eq (hi : t.scope.items = s.scope.items) (hr : t.root.items = s.root.items)
    (hp : t.preserved = s.preserved) (hw : s.warnings <+: t.warnings) : Onward s t := by
  refine ⟨?_, ?_, fun x y h => ?_, hw⟩
  · simp [hi]
  · simp [hr]
  · unfold SameImport at *
    rwa [hp]

theorem claim (s : State) (name : String) : Onward s (s.claim name) :=
  of_eq (State.items_claim s name) rfl rfl (List.prefix_refl _)

theorem addItems (s : State) (ps : List Piece) : Onward s (s.addItems ps) := by
  refine ⟨?_, ?_, fun x y h => ?_, by simp⟩
  · rw [State.items_addItems]
    exact List.prefix_append _ _
  · rw [State.root_addItems_items]
    split
    · exact List.prefix_refl _
    · exact List.prefix_append _ _
  · unfold SameImport at *
    rwa [State.preserved_addItems]

/-- Another import stays, or one that stays gets further locals. -/
theorem keep {key : String × ImportedName} {q : Preserved}
    (hq : ∀ p, s.preserved.get? key = some p → p.locals ⊆ q.locals) : Onward s (s.keep key q) := by
  refine ⟨List.prefix_refl _, List.prefix_refl _, ?_, List.prefix_refl _⟩
  rintro x y ⟨⟨key', p⟩, he, hx, hy⟩
  have hget := OrderedMap.get?_eq_some_iff.2 he
  by_cases hk : key = key'
  · subst hk
    refine ⟨(key, q), OrderedMap.mem_entries_of_get? ?_, hq p hget hx, hq p hget hy⟩
    rw [State.keep, OrderedMap.get?_put, if_pos rfl]
  · refine ⟨(key', p), OrderedMap.mem_entries_of_get? ?_, hx, hy⟩
    rw [State.keep, OrderedMap.get?_put, if_neg hk]
    exact hget

/-- The statements are taken out again that came behind those of `s`. -/
theorem takeItems (h : Onward s t) (hb : t.inBlock = s.inBlock) :
    Onward s (t.takeItems s.scope.items.length).2 := by
  obtain ⟨ps, hps⟩ := h.items
  refine ⟨?_, ?_, fun x y hxy => ?_, by simpa using h.warnings⟩
  · simp [State.scope_items_takeItems, ← hps]
  · rw [State.root_takeItems_items]
    split
    · exact h.root
    · rename_i hbt
      have hs : s.inBlock = false := by simpa [hb] using hbt
      have ht : t.inBlock = false := hb.trans hs
      rw [State.scope_of_root hs, State.scope_of_root ht] at hps
      simp [State.scope_of_root hs, ← hps]
  · have := h.imports x y hxy
    unfold SameImport at *
    rwa [State.preserved_takeItems]

end Onward

theorem Run.onward (h : Run cx n r files s y t) : Onward s t := by
  induction h with
  | nothing => exact .refl _
  | andThen _ _ ih₁ ih₂ => exact ih₁.trans ih₂
  | warn w => exact .of_eq rfl rfl rfl (List.prefix_append _ _)
  | keepRun module => exact .of_eq rfl rfl rfl (List.prefix_refl _)
  | preserve typeOnly hkey hw =>
    exact (Onward.claim _ _).trans (.keep (fun p hp => by cases hkey.symm.trans hp))
  | preserveAgain typeOnly hkey =>
    refine .keep (fun p hp => ?_)
    obtain rfl := Option.some.inj (hkey.symm.trans hp)
    exact List.Subset.refl _
  | @aliasImport r files s f key p hf hkey =>
    refine (Onward.claim s _).trans (.keep (fun q hq => ?_))
    have hp := OrderedMap.get?_eq_some_iff.2 (List.mem_of_find?_eq_some hkey)
    obtain rfl := Option.some.inj (hp.symm.trans hq)
    simp [Preserved.locals]
  | aliasBinding hf => exact (Onward.claim _ _).trans (.addItems _ _)
  | link _ _ _ _ _ ih => exact ih.trans (.of_eq (by simp) (by simp) (by simp) (by simp))
  | unlinked w _ _ _ _ ih => exact ih.trans (.of_eq rfl rfl rfl (List.prefix_append _ _))
  | print _ _ _ _ _ _ run _ ih₁ ih₂ => exact (ih₁.takeItems run.inBlock_eq).trans ih₂
  | @inlined r q files s t u file ps hroot _ _ _ _ _ _ ih₁ ih₂ =>
    have hbegin : Onward s ((s.addFile file).bindFile (cx.statements file) file) :=
      .of_eq (State.scope_items_bindFile _ _ _) (State.root_bindFile_items _ _ _)
        (State.preserved_bindFile _ _ _) (by simp [State.addFile])
    exact hbegin.trans (ih₁.trans (ih₂.trans (.addItems _ _)))
  | @atRoot r files s t hblock run ih =>
    refine ⟨?_, ?_, ?_, by rw [State.warnings_inheritFromRoot]; exact ih.warnings⟩
    · simp [run.scope_items_resume hblock]
    · rw [State.root_inheritFromRoot]
      exact ih.root
    · have himports := ih.imports
      unfold SameImport at *
      rw [State.preserved_inheritFromRoot]
      exact himports
  | @block r files s t u v w target wanted ps exports _ _ _ _ _ imports prints collects
      aliases ih₁ ih₂ ih₃ ih₄ =>
    have hbegin := (Onward.refl (((s.claim (s.freshName wanted)).openBlock target
      (s.freshName wanted)).bindFile (cx.statements target) target)).trans
      (ih₁.trans (ih₂.trans ((Onward.addItems u ps).trans ih₃)))
    have hclosed : Onward s v.closeBlock.2 := by
      have hroot : s.root.items <+: v.closeBlock.2.root.items := by
        have h := hbegin.root
        rw [State.root_bindFile_items, State.root_openBlock_items] at h
        rw [State.root_closeBlock]
        exact h
      obtain ⟨hin, htargets⟩ := Run.closes imports prints collects
      have hinBlock : v.closeBlock.2.inBlock = s.inBlock :=
        (State.inBlock_congr htargets).trans (State.inBlock_congr (State.targets_claim s _))
      have hwarnings := hbegin.warnings
      rw [State.warnings_bindFile, State.warnings_openBlock] at hwarnings
      refine ⟨?_, hroot, ?_, by rw [State.warnings_closeBlock]; exact hwarnings⟩
      · cases hs : s.inBlock with
        | false =>
          rwa [State.scope_of_root hs, State.scope_of_root (hinBlock.trans hs)]
        | true =>
          have hitems := Run.scope_items_closeBlock
            ((State.inBlock_congr (State.targets_claim s _)).trans hs) imports prints collects
          simp [hitems]
      · have himports := hbegin.imports
        unfold SameImport at *
        rw [State.preserved_closeBlock]
        rw [State.preserved_bindFile, State.preserved_openBlock] at himports
        exact himports
    exact hclosed.trans (ih₄.trans (.addItems _ _))
  | exportAgain _ _ _ _ _ _ ih => exact ih.trans (.addItems _ _)

end AmbientBundle.Merge
