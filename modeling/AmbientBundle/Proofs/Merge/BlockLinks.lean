import AmbientBundle.Proofs.Merge.Onward
import AmbientBundle.Proofs.Names.Frames
/-!
The imports of a block's file. A name that an open block knows stays known there; so, once a run has
dealt with imports in a block, their locals are linked in it or it was warned about them.
-/
namespace AmbientBundle.Merge

open Names Syntax

/-- The second environment has a final name for whatever the first has one for. -/
def Knows (e e' : Environment) : Prop := ∀ f x, (e.lookup f x).isSome → (e'.lookup f x).isSome

namespace Knows

variable {e e' e'' : Environment}

theorem refl (e : Environment) : Knows e e := fun _ _ h => h

theorem trans (h : Knows e e') (h' : Knows e' e'') : Knows e e'' :=
  fun f x hx => h' f x (h f x hx)

theorem link (e : Environment) (origin : Url) (name final : String) :
    Knows e (e.link origin name final) := by
  exact fun _ _ => Environment.isSome_lookup_link

theorem all_refl (es : List Environment) : List.Forall₂ Knows es es :=
  List.forall₂_same.2 (fun e _ => .refl e)

theorem all_trans {es es' es'' : List Environment} (h : List.Forall₂ Knows es es')
    (h' : List.Forall₂ Knows es' es'') : List.Forall₂ Knows es es'' :=
  forall₂_trans (R := Knows) trans h h'

theorem all_tail {es es' : List Environment} (h : List.Forall₂ Knows es es') :
    List.Forall₂ Knows es.tail es'.tail := by
  cases h with
  | nil => exact .nil
  | cons _ h => exact h

end Knows

namespace State

variable (s : State) (f : Scope → Scope) (origin file : Url) (name final : String)
  (items : List Piece) (n : Nat)

/-- The environments of the blocks that are open or wait, the innermost first. -/
def envs : List Environment := s.blocks.map (fun b => b.scope.env)

theorem envs_of_inBlock {s : State} (h : s.inBlock = true) : ∃ es, s.envs = s.scope.env :: es := by
  cases hn : s.nested with
  | nil => simp [inBlock, hn] at h
  | cons b bs => exact ⟨_, by simp [envs, blocks, scope, hn]; rfl⟩

/-- Where the current scope changes, its block learns names at most. -/
theorem knows_onScope (hf : ∀ c : Scope, Knows c.env (f c).env) :
    List.Forall₂ Knows s.envs (s.onScope f).envs := by
  unfold onScope envs blocks
  cases hn : s.nested with
  | nil => exact Knows.all_refl _
  | cons b bs => exact .cons (hf b.scope) (Knows.all_refl _)

theorem knows_addItems : List.Forall₂ Knows s.envs (s.addItems items).envs :=
  knows_onScope s _ (fun c => .refl c.env)

theorem knows_takeItems : List.Forall₂ Knows s.envs (s.takeItems n).2.envs :=
  knows_onScope s _ (fun c => .refl c.env)

theorem knows_link : List.Forall₂ Knows s.envs (s.link origin name final).envs :=
  knows_onScope s _ (fun c => .link c.env origin name final)

theorem knows_claim : List.Forall₂ Knows s.envs (s.claim name).envs := by
  have henvs : (s.claim name).envs = s.envs.map (fun e => e.claim name) := by
    simp [claim, envs, blocks, claimInBlock, Function.comp_def]
  rw [henvs, List.forall₂_map_right_iff]
  exact Knows.all_refl _

theorem knows_inheritFromRoot (files : List Url) :
    List.Forall₂ Knows s.envs (s.inheritFromRoot files).envs := by
  unfold inheritFromRoot
  split
  · exact Knows.all_refl _
  · simp only [envs, blocks, List.map_append, List.map_map]
    refine List.rel_append ?_ (Knows.all_refl _)
    rw [List.forall₂_map_right_iff, List.forall₂_map_left_iff, List.forall₂_same]
    exact fun b _ f x hx => Environment.lookup_inherit_isSome hx

theorem envs_openBlock : (s.openBlock file name).envs = s.scope.env.child :: s.envs := by
  unfold openBlock onScope envs blocks scope
  cases s.nested <;> simp

theorem envs_begunBlock (is : List Item) :
    ((s.openBlock file name).bindFile is origin).envs.tail = s.envs := by
  have honEnv (t : State) (g : Environment → Environment) (ht : t.inBlock = true) :
      (t.onEnv g).envs.tail = t.envs.tail := by
    cases hn : t.nested with
    | nil => simp [inBlock, hn] at ht
    | cons b bs => simp [onEnv, onScope, envs, blocks, hn]
  have hopen := honEnv (s.openBlock file name)
    (fun _ => (bindDeclarations is origin (s.openBlock file name).scope.env ∅).1)
    (inBlock_openBlock s file name)
  rw [envs_openBlock, List.tail_cons] at hopen
  exact hopen

theorem envs_closeBlock {s : State} (h : s.inBlock = true) : s.closeBlock.2.envs = s.envs.tail := by
  cases hn : s.nested with
  | nil => simp [inBlock, hn] at h
  | cons b bs => simp [closeBlock, envs, blocks, hn]

theorem envs_resume {s : State} (h : s.inBlock = false) : (s.resume n).envs = s.envs := by
  have hn : s.nested = [] := by simpa [inBlock] using h
  simp only [resume, envs, blocks, hn, List.nil_append, List.take_append_drop]

end State

variable {cx : Context} {n : Nat} {r : Role} {files : List Url} {s t u : State} {y : Yield}

/-- What the open blocks have names for they have names for behind a run, too. -/
theorem Run.knows (h : Run cx n r files s y t) : List.Forall₂ Knows s.envs t.envs := by
  induction h with
  | nothing => exact Knows.all_refl _
  | andThen _ _ ih₁ ih₂ => exact Knows.all_trans ih₁ ih₂
  | warn w => exact Knows.all_refl _
  | keepRun module => exact Knows.all_refl _
  | preserve typeOnly hkey hw => exact State.knows_claim _ _
  | preserveAgain typeOnly hkey => exact Knows.all_refl _
  | aliasImport hf hkey => exact State.knows_claim _ _
  | aliasBinding hf =>
    exact Knows.all_trans (State.knows_claim _ _) (State.knows_addItems _ _)
  | link _ _ _ _ _ ih =>
    exact Knows.all_trans ih (State.knows_link _ _ _ _)
  | unlinked w _ _ _ _ ih => exact ih
  | print _ _ _ _ _ _ _ _ ih₁ ih₂ =>
    exact Knows.all_trans ih₁ (Knows.all_trans (State.knows_takeItems _ _) ih₂)
  | @inlined r q files s t u file ps hroot _ _ _ _ _ _ ih₁ ih₂ =>
    have hbegin : ((s.addFile file).bindFile (cx.statements file) file).envs = s.envs := by
      have hn : s.nested = [] := by simpa [State.inBlock] using hroot
      simp [State.bindFile, State.onEnv, State.onScope, State.addFile, State.envs, State.blocks, hn]
    rw [hbegin] at ih₁
    exact Knows.all_trans ih₁ (Knows.all_trans ih₂ (State.knows_addItems _ _))
  | @atRoot r files s t hblock run ih =>
    have hresume : (t.resume s.suspended.length).envs = t.envs :=
      State.envs_resume _ run.inBlock_eq
    exact Knows.all_trans (hresume ▸ ih) (State.knows_inheritFromRoot _ _)
  | @block r files s t u v w target wanted ps exports _ _ _ _ _ imports prints collects
      aliases ih₁ ih₂ ih₃ ih₄ =>
    obtain ⟨hin, _⟩ := Run.closes imports prints collects
    have hbody := Knows.all_trans ih₁ (Knows.all_trans ih₂
      (Knows.all_trans (State.knows_addItems _ _) ih₃))
    have hclosed : List.Forall₂ Knows (s.claim (s.freshName wanted)).envs v.closeBlock.2.envs := by
      rw [State.envs_closeBlock hin, ← State.envs_begunBlock _ target target (s.freshName wanted)
        (cx.statements target)]
      exact Knows.all_tail hbody
    exact Knows.all_trans (State.knows_claim _ _) (Knows.all_trans hclosed (Knows.all_trans ih₄
      (State.knows_addItems _ _)))
  | exportAgain _ _ _ _ _ _ ih =>
    exact Knows.all_trans ih (State.knows_addItems _ _)

/-- In a block what the current scope has names for it has names for behind a run, too. -/
theorem Run.knows_scope (h : Run cx n r files s y t) (hb : s.inBlock = true) :
    Knows s.scope.env t.scope.env := by
  obtain ⟨es, hes⟩ := State.envs_of_inBlock hb
  obtain ⟨es', hes'⟩ := State.envs_of_inBlock (h.inBlock_eq.trans hb)
  have hk := h.knows
  rw [hes, hes'] at hk
  cases hk with
  | cons hk _ => exact hk

/-- The local is linked in the environment, or it was warned that nothing is found for it. -/
def Tried (warnings : List Warning) (env : Environment) (file : Url) (x : String) : Prop :=
  (env.lookup file x).isSome ∨ ∃ g, .unknownImport g file x ∈ warnings

theorem Tried.mono {ws ws' : List Warning} {e e' : Environment} {file : Url} {x : String}
    (h : Tried ws e file x) (hw : ws ⊆ ws') (he : Knows e e') : Tried ws' e' file x :=
  h.imp (he file x) (fun ⟨g, hg⟩ => ⟨g, hw hg⟩)

theorem Tried.run {origin : Url} {x : String} (h : Tried s.warnings s.scope.env origin x)
    (run : Run cx n r files s y t) (hb : s.inBlock = true) :
    Tried t.warnings t.scope.env origin x :=
  h.mono run.onward.warnings.subset (run.knows_scope hb)

/-- The imports that a run in a block deals with are linked, or it is warned about them. -/
theorem Run.tried (h : Run cx n r files s y t) (hb : s.inBlock = true) {origin : Url}
    (ho : s.targets.head? = some origin) :
    ∀ e ∈ y.tried, Tried t.warnings t.scope.env origin e.2.loc := by
  induction h with
  | @andThen r files s t u y z first second ih₁ ih₂ =>
    have hbt := first.inBlock_eq.trans hb
    intro e he
    rcases List.mem_append.1 he with he | he
    · exact (ih₁ hb ho e he).run second hbt
    · exact ih₂ hbt (first.stacks.1 ▸ ho) e he
  | @link r files s t origin' d sp f hcur _ _ run _ _ =>
    intro e he
    obtain rfl := List.mem_singleton.1 he
    obtain rfl := Option.some.inj ((hcur.block hb).symm.trans ho)
    refine Or.inl ?_
    rw [State.link, State.onEnv, State.scope_onScope, Environment.lookup_link, if_pos rfl]
    rfl
  | @unlinked r files s t origin' d sp target hcur _ _ _ _ =>
    intro e he
    obtain rfl := List.mem_singleton.1 he
    obtain rfl := Option.some.inj ((hcur.block hb).symm.trans ho)
    exact Or.inr ⟨target, List.mem_append_right _ (List.mem_singleton_self _)⟩
  | _ => simp

end AmbientBundle.Merge
