import AmbientBundle.Proofs.Merge.BlockNames
import AmbientBundle.Proofs.Merge.BlockStability
/-!
The states to which merging comes before it is done, at the root and in blocks. By then the current
scope knows what the files at hand declare, and what they import as well unless they are at work.
-/
namespace AmbientBundle.Merge

open Names Step Syntax

/-- Names of a file that the root knows once the file is inlined there: the declared ones and, if
the file is none of the given ones, the locals of live imports. -/
def Due (cx : Context) (earlier : SeenSet Url) (files : List Url) (f : Url) (x : String) : Prop :=
  earlier.contains f = false ∧ (cx.Declares f x ∨
    f ∉ files ∧ ∃ e ∈ cx.specifiers f, e.2.loc = x ∧ LiveSpecifier cx earlier f e)

/-- What is due of the files that were inlined at the root from `s` to `t` is known in all blocks
that are open. -/
def Shares (cx : Context) (earlier : SeenSet Url) (files : List Url) (s t : State) : Prop :=
  ∀ b ∈ t.nested, ∀ f x, s.included.contains f = false → t.included.contains f = true →
    Due cx earlier files f x → (b.scope.env.lookup f x).isSome

/-- Each open block knows the names that it knew. -/
def BlocksKnow (s t : State) : Prop :=
  List.Forall₂ (fun b b' => Knows b.scope.env b'.scope.env) s.nested t.nested

variable {cx : Context} {earlier : SeenSet Url} {n : Nat} {r : Role} {files : List Url}
  {s t u : State} {y : Yield} {f : Url} {x : String}

theorem Linked.lookup_due (h : Linked cx earlier files s) (hf : s.included.contains f = true)
    (hx : Due cx earlier files f x) : (s.root.env.lookup f x).isSome := by
  obtain ⟨hnew, hd | ⟨hdone, e, he, rfl, hl⟩⟩ := hx
  · exact h.bound f x hf hnew hd
  · exact h.done f hf hnew hdone e he hl

theorem blocksKnow_of_envs (h : List.Forall₂ Knows s.envs t.envs) (ht : t.targets = s.targets) :
    BlocksKnow s t := by
  have hlength : s.nested.length = t.nested.length := by
    simpa [State.targets] using congrArg List.length ht.symm
  have htake := List.forall₂_take s.nested.length h
  simp only [State.envs, State.blocks, ← List.map_take, List.take_left] at htake
  rw [hlength, List.take_left, List.forall₂_map_left_iff, List.forall₂_map_right_iff] at htake
  exact htake

theorem Run.blocksKnow (h : Run cx n r files s y t) : BlocksKnow s t :=
  blocksKnow_of_envs h.knows h.stacks.1

namespace Shares

theorem of_included (h : t.included = s.included) : Shares cx earlier files s t := by
  intro _ _ f _ hnew hf
  rw [h, hnew] at hf
  cases hf

theorem of_root (h : t.inBlock = false) : Shares cx earlier files s t := by
  intro b hb
  have hn : t.nested = [] := by simpa [State.inBlock] using h
  rw [hn] at hb
  cases hb

theorem trans (h : Shares cx earlier files s t) (h' : Shares cx earlier files t u)
    (hk : BlocksKnow t u) : Shares cx earlier files s u := by
  intro b hb f x hnew hf hx
  cases ht : t.included.contains f with
  | false => exact h' b hb f x ht hf hx
  | true =>
    obtain ⟨b₀, hb₀, hknows⟩ := forall₂_mem_right hk hb
    exact hknows f x (h b₀ hb₀ f x hnew ht hx)

theorem addItems (h : Shares cx earlier files s t) (ps : List Piece) :
    Shares cx earlier files s (t.addItems ps) :=
  h.trans (.of_included (by simp)) (blocksKnow_of_envs (t.knows_addItems ps) (by simp))

theorem closeBlock (h : Shares cx earlier files s t) :
    Shares cx earlier files s t.closeBlock.2 := by
  intro b hb f x hnew hf hx
  rw [State.included_closeBlock] at hf
  refine h b ?_ f x hnew hf hx
  unfold State.closeBlock at hb
  split at hb
  · rename_i hn
    rw [hn]
    exact List.mem_cons_of_mem _ hb
  · exact hb

/-- Blocks that were set aside take over what was inlined meanwhile. -/
theorem proceed (ht : Linked cx earlier files t) (hg : s.included.items <+: t.included.items) :
    Shares cx earlier files s
      ((t.resume s.suspended.length).inheritFromRoot (t.included.addedSince s.included.size)) := by
  intro b hb f x hnew hf hx
  rw [State.included_inheritFromRoot] at hf
  have hf : t.included.contains f = true := hf
  have hadded : f ∈ t.included.addedSince s.included.size := by
    obtain ⟨l, hl⟩ := hg
    have hmem : f ∈ t.included.items := by simpa [SeenSet.contains] using hf
    have hold : f ∉ s.included.items := by simpa [SeenSet.contains] using hnew
    rw [SeenSet.addedSince, SeenSet.size, ← hl, List.drop_left]
    rw [← hl] at hmem
    exact (List.mem_append.1 hmem).resolve_left hold
  obtain ⟨v, hv⟩ := Option.isSome_iff_exists.1 (ht.lookup_due hf hx)
  rw [State.inheritFromRoot, if_neg (by
    rw [Bool.not_eq_true, List.isEmpty_eq_false_iff]
    exact List.ne_nil_of_mem hadded)] at hb
  obtain ⟨b₀, -, rfl⟩ := List.mem_map.1 hb
  exact Option.isSome_of_eq_some (Environment.lookup_inherit hadded hv)

end Shares

/-- What a run inlines at the root is known in the blocks that are open behind it. -/
theorem Run.shares (h : Run cx n r files s y t) (hs : Grounded cx earlier files s) :
    Shares cx earlier files s t := by
  induction h with
  | nothing => exact .of_included rfl
  | andThen first second ih₁ ih₂ => exact (ih₁ hs).trans (ih₂ (hs.run first)) second.blocksKnow
  | warn w => exact .of_included rfl
  | keepRun module => exact .of_included rfl
  | preserve typeOnly hkey hw => exact .of_included rfl
  | preserveAgain typeOnly hkey => exact .of_included rfl
  | aliasImport hf hkey => exact .of_included rfl
  | aliasBinding hf => exact .of_included (by simp)
  | link _ _ _ _ _ ih =>
    exact (ih hs).trans (.of_included (by simp))
      (blocksKnow_of_envs (State.knows_link _ _ _ _) (by simp))
  | unlinked target _ _ _ _ ih => exact ih hs
  | print _ _ _ _ _ _ run links ih₁ ih₂ =>
    refine ((ih₁ hs).trans (.of_included (by simp))
      (blocksKnow_of_envs (State.knows_takeItems _ _) (by simp))).trans ?_ links.blocksKnow
    exact ih₂ ((hs.run run).takeItems _)
  | inlined hroot _ _ _ _ imports prints =>
    refine .of_root (((State.inBlock_congr (by simp)).trans prints.inBlock_eq).trans ?_)
    exact imports.inBlock_begunFile hroot
  | atRoot hblock run =>
    have ht := hs.suspend.run run
    exact .proceed ht.linked run.grows.included
  | @block _ _ _ _ _ _ _ _ _ ps _ _ hfile _ hw _ imports prints collects aliases ih₁ ih₂ ih₃ ih₄ =>
    have hs₁ := hs.beginBlock hfile hw
    have hs₂ := hs₁.run imports
    have hs₃ := (hs₂.run prints).addItems (prints.formed hs₂.formed).2
    have hbody := (((ih₁ hs₁).trans (ih₂ hs₂) prints.blocksKnow).addItems ps).trans (ih₃ hs₃)
      collects.blocksKnow
    have hinside := hbody.closeBlock.trans (ih₄ (hs₃.run collects).closeBlock) aliases.blocksKnow
    intro b hb f x hold
    refine hinside.addItems _ b hb f x ?_
    rw [State.included_bindFile, State.included_openBlock, State.included_claim]
    exact hold
  | exportAgain hroot _ _ _ _ run =>
    exact .of_root ((State.inBlock_congr (by simp)).trans (run.inBlock_eq.trans hroot))

/-- `Underway cx earlier files s`: on its way merging comes to the state `s`, with the given files
begun at the root and not finished there. Whole runs lead on, and so does going into a file, into a
block, or out of all blocks to inline a file at the root. -/
inductive Underway (cx : Context) (earlier : SeenSet Url) : List Url → State → Prop where
  | start : Underway cx earlier [] (State.start earlier)
  | run {n : Nat} {r : Role} {files : List Url} {s t : State} {y : Yield}
      (before : Underway cx earlier files s) (run : Run cx n r files s y t) :
      Underway cx earlier files t
  | addItems {files : List Url} {s : State} {ps : List Piece} (before : Underway cx earlier files s)
      (hps : FormedPieces cx ps) : Underway cx earlier files (s.addItems ps)
  | takeItems {files : List Url} {s : State} (k : Nat) (before : Underway cx earlier files s) :
      Underway cx earlier files (s.takeItems k).2
  | beginFile {files : List Url} {s : State} {file : Url} (before : Underway cx earlier files s)
      (hroot : s.inBlock = false) (hnew : s.included.contains file = false)
      (hfile : cx.HasFile file) (hlead : cx.LeadTo files file) :
      Underway cx earlier (file :: files) (s.beginFile cx file)
  | beginBlock {files : List Url} {s : State} {target : Url} {wanted : String}
      (before : Underway cx earlier files s) (hnew : s.space? target = none)
      (hfile : cx.HasFile target) (hlead : cx.LeadTo files target) (hw : cx.Formed wanted) :
      Underway cx earlier files (s.beginBlock cx target wanted)
  | suspend {files : List Url} {s : State} (before : Underway cx earlier files s)
      (hblock : s.inBlock = true) : Underway cx earlier files s.suspend

theorem begins_beginBlock (cx : Context) (target : Url) (wanted : String) (s : State) :
    Begins cx target (s.claim (s.freshName wanted)).scope.env
      (s.beginBlock cx target wanted).scope.env := by
  have henvs := (s.claim (s.freshName wanted)).envs_openBlock target (s.freshName wanted)
  have henv : ((s.claim (s.freshName wanted)).openBlock target (s.freshName wanted)).scope.env =
      (s.claim (s.freshName wanted)).scope.env.child :=
    (List.cons.inj henvs).1
  rw [State.beginBlock, State.scope_bindFile_env, henv]
  exact .bindIdents cx target _

theorem lookup_claim (s : State) (name : String) (f : Url) (x : String) :
    (s.claim name).lookup f x = s.lookup f x := by
  unfold State.lookup State.scope State.claim
  cases s.nested <;> rfl

namespace Underway

theorem grounded (h : Underway cx earlier files s) : Grounded cx earlier files s := by
  induction h with
  | start => exact .start earlier
  | run _ run ih => exact ih.run run
  | addItems _ hps ih => exact ih.addItems hps
  | takeItems k _ ih => exact ih.takeItems k
  | beginFile _ hroot hnew hfile _ ih => exact ih.beginFile hroot hnew hfile
  | beginBlock _ _ hfile _ hw ih => exact ih.beginBlock hfile hw
  | suspend _ _ ih => exact ih.suspend

theorem stacked (h : Underway cx earlier files s) (hd : cx.ImportsApart) :
    ∃ os ws, Stacks cx os ws s := by
  induction h with
  | start => exact ⟨[], [], .empty cx, fun _ he => (by cases he), .nil, .nil, by simp⟩
  | run before run ih =>
    obtain ⟨os, ws, hk⟩ := ih
    exact ⟨os, ws, run.stacked hd (fun k _ => findsIn hd earlier k) before.grounded hk⟩
  | addItems _ _ ih => exact ih.imp (fun os => Exists.imp (fun ws hk => hk.addItems _))
  | takeItems k _ ih => exact ih.imp (fun os => Exists.imp (fun ws hk => hk.takeItems k))
  | beginFile before hroot hnew _ _ ih =>
    exact ih.imp (fun os => Exists.imp (fun ws hk =>
      hk.beginFile before.grounded.rooted hroot hnew))
  | @beginBlock _ _ _ wanted before hnew _ _ _ ih =>
    obtain ⟨os, ws, hk⟩ := ih
    obtain ⟨named, hk'⟩ := hk.beginBlock before.grounded hnew wanted
    exact ⟨_, ws, hk'⟩
  | suspend _ _ ih =>
    obtain ⟨os, ws, hk⟩ := ih
    exact ⟨[], _, hk.suspend⟩

theorem atRoot (h : Underway cx earlier files s) (hroot : s.inBlock = false) :
    AtRoot cx earlier files files s :=
  ⟨hroot, h.grounded.formed, h.grounded.rooted, List.Subset.refl _, h.grounded.linked⟩

/-- What is due of the files that are inlined at the root is known in the current scope. -/
theorem lookup_due (h : Underway cx earlier files s) (hf : s.included.contains f = true)
    (hx : Due cx earlier files f x) : (s.lookup f x).isSome := by
  have hatRoot {s' : State} {files' : List Url} (h' : Underway cx earlier files' s')
      (hroot : s'.inBlock = false) (hf' : s'.included.contains f = true)
      (hx' : Due cx earlier files' f x) : (s'.lookup f x).isSome := by
    rw [State.lookup, State.scope_of_root hroot]
    exact h'.grounded.linked.lookup_due hf' hx'
  induction h with
  | start => exact hatRoot .start rfl hf hx
  | @run _ _ _ s t _ before run ih =>
    cases hb : s.inBlock with
    | false => exact hatRoot (before.run run) (run.inBlock_eq.trans hb) hf hx
    | true =>
      cases hold : s.included.contains f with
      | true => exact run.knows_scope hb f x (ih hold hx)
      | false =>
        cases hn : t.nested with
        | nil =>
          have hroot : t.inBlock = false := by simp [State.inBlock, hn]
          cases hb.symm.trans (run.inBlock_eq.symm.trans hroot)
        | cons b bs =>
          have hknown := run.shares before.grounded b (hn ▸ List.mem_cons_self) f x hold hf hx
          simpa [State.lookup, State.scope, hn] using hknown
  | addItems _ _ ih =>
    have hknown := ih (by simpa using hf) hx
    rwa [State.lookup, State.addItems, State.scope_onScope]
  | takeItems k _ ih =>
    have hknown := ih (by simpa using hf) hx
    rwa [State.lookup, State.takeItems, State.scope_onScope]
  | beginFile before hroot hnew hfile hlead =>
    exact hatRoot (before.beginFile hroot hnew hfile hlead)
      ((State.inBlock_begunFile _ _ _).trans hroot) hf hx
  | @beginBlock _ s target wanted before _ _ _ _ ih =>
    have hold : s.included.contains f = true := by
      simpa [State.beginBlock, State.included_bindFile, State.included_openBlock] using hf
    have hknown := ih hold hx
    rw [← lookup_claim s (s.freshName wanted), State.lookup] at hknown
    rw [State.lookup, (begins_beginBlock cx target wanted s).lookup, Option.isSome_or, hknown,
      Bool.or_true]
  | suspend before hblock => exact hatRoot (before.suspend hblock) rfl hf hx

/-- What the files of the open blocks declare is known in the current scope. -/
theorem lookup_target (h : Underway cx earlier files s) (hf : f ∈ s.targets)
    (hd : cx.Declares f x) : (s.lookup f x).isSome := by
  induction h with
  | start => cases hf
  | @run _ _ _ s t _ before run ih =>
    rw [run.stacks.1] at hf
    have hb : s.inBlock = true := by
      rw [State.inBlock_eq, Bool.not_eq_true', List.isEmpty_eq_false_iff]
      exact List.ne_nil_of_mem hf
    exact run.knows_scope hb f x (ih hf)
  | addItems _ _ ih =>
    have hknown := ih (by simpa using hf)
    rwa [State.lookup, State.addItems, State.scope_onScope]
  | takeItems k _ ih =>
    have hknown := ih (by simpa using hf)
    rwa [State.lookup, State.takeItems, State.scope_onScope]
  | @beginFile _ s file before hroot _ _ _ =>
    have hb : (s.beginFile cx file).inBlock = false :=
      (State.inBlock_begunFile _ _ _).trans hroot
    rw [State.inBlock_eq, Bool.not_eq_false', List.isEmpty_iff] at hb
    rw [hb] at hf
    cases hf
  | @beginBlock _ s target wanted before _ _ _ _ ih =>
    have hbegins := begins_beginBlock cx target wanted s
    rw [State.lookup, hbegins.lookup, Option.isSome_or]
    have htargets : (s.beginBlock cx target wanted).targets = target :: s.targets := by
      simp [State.beginBlock]
    rw [htargets] at hf
    rcases List.mem_cons.1 hf with rfl | hf
    · rw [hbegins.declared x hd, Bool.true_or]
    · have hknown := ih hf
      rw [← lookup_claim s (s.freshName wanted), State.lookup] at hknown
      rw [hknown, Bool.or_true]
  | suspend => cases hf

end Underway

end AmbientBundle.Merge
