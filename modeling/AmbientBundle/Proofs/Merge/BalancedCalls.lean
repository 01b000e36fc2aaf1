import AmbientBundle.Proofs.Merge.Balance
import AmbientBundle.Proofs.Merge.OuterImports
import AmbientBundle.Proofs.Merge.StepClass
import AmbientBundle.Proofs.Merge.Termination
/-!
Every function of merging leaves the scopes balanced, in whatever state it is called. Such steps are
a class that merging stays in; where a function opens a block, sets the open ones aside or takes
statements out of the current scope, its own steps make up for that.
-/
namespace AmbientBundle.Merge

open Step Syntax

/-- Wherever the step succeeds, the scopes behind it are balanced with those before it. -/
def Balances {α : Type} (x : Step α) : Prop :=
  ∀ ⦃s t : State⦄ ⦃a : α⦄, x s = some (a, t) → Balanced s t

namespace Balances

section Rules

variable {α β : Type} {x : Step α}

protected theorem pure (a : α) : Balances (pure a : Step α) := by
  intro s t b h
  obtain ⟨-, rfl⟩ := pure_inv h
  exact .refl s

protected theorem get : Balances (get : Step State) := by
  intro s t u h
  obtain ⟨rfl, rfl⟩ := get_inv h
  exact .refl s

protected theorem modify {f : State → State} (hf : ∀ s, Balanced s (f s)) :
    Balances (modify f : Step PUnit) := by
  intro s t u h
  obtain rfl := modify_inv h
  exact hf s

protected theorem bind {f : α → Step β} (hx : Balances x) (hf : ∀ a, Balances (f a)) :
    Balances (x >>= f) := by
  intro s t b h
  obtain ⟨a, s₁, hfirst, hsecond⟩ := bind_inv h
  exact (hx hfirst).trans (hf a hsecond)

protected theorem map (hx : Balances x) (f : α → β) : Balances (f <$> x) := by
  intro s t b h
  obtain ⟨a, hfirst, -⟩ := map_inv h
  exact hx hfirst

/-- The class of the steps that leave the scopes balanced. -/
def steps : StepClass := ⟨Balances, .pure, .bind⟩

end Rules

section Primitives

/-- The first local of an import stays the first: further ones come behind it. -/
theorem preserve (module : String) (imported : ImportedName) (wanted : String) (typeOnly : Bool) :
    Balances (Merge.preserve module imported wanted typeOnly) := by
  intro s t name h
  obtain ⟨p, hkey, -, rfl⟩ | ⟨hkey, -, rfl⟩ := preserve_inv h
  · refine .keep (fun q hq => ?_)
    obtain rfl := Option.some.inj (hkey.symm.trans hq)
    exact List.prefix_refl _
  · exact (Balanced.claim s _).trans (.keep (fun q hq => by cases hkey.symm.trans hq))

theorem aliasOuter (final : String) : Balances (Merge.aliasOuter final) := by
  intro s t name h
  obtain ⟨-, ⟨key, p, hkey, rfl⟩ | rfl⟩ := aliasOuter_inv h
  · refine (Balanced.claim s _).trans (.keep (fun q hq => ?_))
    have hp := OrderedMap.get?_eq_some_iff.2 (List.mem_of_find?_eq_some hkey)
    obtain rfl := Option.some.inj (hp.symm.trans hq)
    exact List.prefix_append (p.first :: p.others) _
  · exact (Balanced.claim s _).trans (.addItems _ _)

end Primitives

end Balances

variable {cx : Context} {n : Nat}

/-- With depth `n` every function of merging leaves the scopes balanced. -/
structure Balancing (cx : Context) (n : Nat) : Prop where
  includeFile (file : Url) (role : Role) : Balances (includeFile cx n file role)
  includeAtRoot (file : Url) (role : Role) : Balances (includeAtRoot cx n file role)
  inlineFile (file : Url) (role : Role) : Balances (inlineFile cx n file role)
  mergeFile (file : Url) (role : Role) : Balances (mergeFile cx n file role)
  mergeItem (origin : Url) (role : Role) (i : Item) : Balances (mergeItem cx n origin role i)
  reexport (origin : Url) (i : Item) : Balances (reexport cx n origin i)
  mergeImport (origin : Url) (d : ImportDecl) : Balances (mergeImport cx n origin d)
  mergeReexport (origin : Url) (d : ExportList) (src : String) :
    Balances (mergeReexport cx n origin d src)
  mergeStar (origin : Url) (src : String) : Balances (mergeStar cx n origin src)
  exportAgain (file : Url) : Balances (exportAgain cx n file)
  resolveExport (target : Url) (name : String) (v : Visited) :
    Balances (resolveExport cx n target name v)
  resolveInStars (target : Url) (name : String) (v : Visited) :
    Balances (resolveInStars cx n target name v)
  collect (target : Url) (withDefault : Bool) (c : Collected) :
    Balances (collect cx n target withDefault c)
  ensureSpace (target : Url) (wanted : String) : Balances (ensureSpace cx n target wanted)
  linkTypes (origin : Url) (items : List Item) : Balances (linkTypes cx n origin items)

namespace Balancing

variable {file : Url} {role : Role}

theorem includeFile_succ (hroot : Balances (Merge.includeAtRoot cx n file role))
    (hagain : Balances (Merge.exportAgain cx n file))
    (hinline : Balances (Merge.inlineFile cx n file role)) :
    Balances (Merge.includeFile cx (n + 1) file role) := by
  intro s t u h
  cases includeFile_inv h with
  | opened => exact .refl s
  | atRoot _ h => exact hroot h
  | present => exact .refl s
  | again _ _ _ h => exact hagain h
  | inlined _ _ h => exact (Balanced.addFile s file).trans (hinline h)

/-- The blocks that are set aside are opened again. -/
theorem includeAtRoot_succ (hinclude : Balances (Merge.includeFile cx n file role)) :
    Balances (Merge.includeAtRoot cx (n + 1) file role) := by
  intro s t u h
  obtain ⟨s₁, hinc, rfl⟩ := includeAtRoot_inv h
  exact (hinclude hinc).atRoot _

/-- The exports of a statement are merged first, where they stay. -/
theorem keptExports {origin : Url} {i : Item} (h : Balances (Merge.reexport cx n origin i))
    (role : Role) (s : State) :
    Balances (if keepsExports role s then Merge.reexport cx n origin i else pure []) :=
  Balances.steps.ite (fun _ => h) (fun _ => .pure _)

/-- Only what came into the scope since is taken out of it. -/
theorem mergeItem_succ {origin : Url} {i : Item} (hexports : Balances (Merge.reexport cx n origin i))
    (htypes : ∀ is, Balances (Merge.linkTypes cx n origin is)) :
    Balances (Merge.mergeItem cx (n + 1) origin role i) := by
  intro s t ps h
  rw [Merge.mergeItem] at h
  obtain ⟨s₁, s₂, hg, h⟩ := bind_inv h
  obtain ⟨rfl, rfl⟩ := get_inv hg
  obtain ⟨exports, s₃, hx, h⟩ := ite_bind_inv h
  have hkept := keptExports hexports role s hx
  obtain ⟨synthesized, s₄, htake, h⟩ := bind_inv h
  obtain ⟨-, rfl⟩ := modifyGet_inv htake
  refine hkept.takeItems.trans (Balances.bind .get (fun u => ?_) h)
  exact .bind (htypes _) (fun _ => .pure _)

/-- The block that is opened is closed again. -/
theorem ensureSpace_succ {target : Url} {wanted : String}
    (hinline : Balances (Merge.inlineFile cx n target .dependency))
    (hcollect : ∀ c, Balances (Merge.collect cx n target false c)) :
    Balances (Merge.ensureSpace cx (n + 1) target wanted) := by
  intro s t name h
  have hwarns {α : Type} (l : List α) (w : α → Warning) :
      Balances (l.forM (fun a => modify (State.warn (w a)))) :=
    Balances.steps.forM (fun a _ => Balances.modify (fun s => .warn s _))
  cases ensureSpace_inv h with
  | old => exact .refl s
  | @built c exports s₁ s₂ s₃ s₄ s₅ s₆ _ inlined hidden collected stars renamed unbound =>
    have hwarned : Balanced s₁ s₂ := by
      rcases hidden with rfl | rfl
      · exact .refl _
      · exact .warn _ _
    have hbody := (hinline inlined).trans (hwarned.trans ((hcollect _ collected).trans
      (hwarns _ _ stars)))
    have hrenamed : Balanced s₄.closeBlock.2 s₅ := by
      refine Balances.steps.mapM (fun e _ => Balances.steps.ite (fun _ => ?_) (fun _ => .pure _))
        renamed
      exact (Balances.aliasOuter e.2).bind (fun _ => .pure _)
    have hbuilt := hbody.closeBlock.trans (hrenamed.trans (hwarns _ _ unbound))
    exact (Balanced.claim s _).trans (hbuilt.trans (.addItems s₆ _))

/-- Merging stays in the class of the steps that leave the scopes balanced, whatever it includes. -/
def mergeClass (cx : Context) : MergeClass cx where
  toStepClass := Balances.steps
  Fits _ := True
  led _ := trivial
  fail h := (failure_inv h).elim
  warn w := Balances.modify (fun s => .warn s w)
  keepRun module := Balances.modify (fun s => .keepRun s module)
  addItems ps := Balances.modify (fun s => .addItems s ps)
  bindFile is origin := Balances.modify (fun s => .bindFile s is origin)
  link origin name final := Balances.modify (fun s => .link s origin name final)
  lookup _ _ _ := Balances.bind .get (fun _ => .pure _)
  preserve := Balances.preserve
  includeFile_succ _ := includeFile_succ
  includeAtRoot_succ := includeAtRoot_succ
  mergeItem_succ := mergeItem_succ
  ensureSpace_succ := ensureSpace_succ

end Balancing

theorem balancing (cx : Context) (n : Nat) : Balancing cx n :=
  have h := (Balancing.mergeClass cx).within n
  { includeFile := fun _ role => h.includeFile role trivial
    includeAtRoot := fun _ role => h.includeAtRoot role trivial
    inlineFile := h.inlineFile
    mergeFile := h.mergeFile
    mergeItem := h.mergeItem
    reexport := h.reexport
    mergeImport := h.mergeImport
    mergeReexport := h.mergeReexport
    mergeStar := h.mergeStar
    exportAgain := h.exportAgain
    resolveExport := h.resolveExport
    resolveInStars := h.resolveInStars
    collect := h.collect
    ensureSpace := h.ensureSpace
    linkTypes := h.linkTypes }

/-- The calls by which files, statements, exports and namespaces are merged. -/
inductive Call where
  | includeFile (file : Url) (role : Role)
  | inlineFile (file : Url) (role : Role)
  | mergeItem (origin : Url) (role : Role) (i : Item)
  | resolveExport (target : Url) (name : String) (visited : Visited)
  | collect (target : Url) (withDefault : Bool) (c : Collected)
  | ensureSpace (target : Url) (wanted : String)

namespace Call

/-- Makes the call with the given depth and drops what it hands back. -/
def run (cx : Context) (n : Nat) : Call → Step Unit
  | .includeFile file role => Merge.includeFile cx n file role
  | .inlineFile file role => Merge.inlineFile cx n file role
  | .mergeItem origin role i => (fun _ => ()) <$> Merge.mergeItem cx n origin role i
  | .resolveExport target name visited =>
    (fun _ => ()) <$> Merge.resolveExport cx n target name visited
  | .collect target withDefault c => (fun _ => ()) <$> Merge.collect cx n target withDefault c
  | .ensureSpace target wanted => (fun _ => ()) <$> Merge.ensureSpace cx n target wanted

/-- The call is for a file of the chunk. The role of an entry is only given outside of blocks. -/
def AtHand (cx : Context) (s : State) : Call → Prop
  | .includeFile file role =>
    cx.files.contains file = true ∧ (role = .entry → s.inBlock = false)
  | .inlineFile _ _ => True
  | .mergeItem _ _ _ => True
  | .resolveExport target _ _ => cx.files.contains target = true
  | .collect target _ _ => cx.files.contains target = true
  | .ensureSpace target _ => cx.files.contains target = true

theorem balances (cx : Context) (n : Nat) (c : Call) : Balances (c.run cx n) := by
  cases c with
  | includeFile file role => exact (balancing cx n).includeFile file role
  | inlineFile file role => exact (balancing cx n).inlineFile file role
  | mergeItem origin role i => exact ((balancing cx n).mergeItem origin role i).map _
  | resolveExport target name visited =>
    exact ((balancing cx n).resolveExport target name visited).map _
  | collect target withDefault c => exact ((balancing cx n).collect target withDefault c).map _
  | ensureSpace target wanted => exact ((balancing cx n).ensureSpace target wanted).map _

/-- A call returns, and from the bound on the depth makes no difference. -/
theorem returns (cx : Context) (s : State) {c : Call} (h : c.AtHand cx s) :
    ∃ t, ∀ n, depthBound cx.files + 3 ≤ n → c.run cx n s = some ((), t) := by
  have hends := ending cx (depthBound cx.files + 3)
  have hbound := cx.depth_le_depthBound s
  have hroot := cx.rootDepth_le s
  suffices Ends (depthBound cx.files + 3) (fun n => c.run cx n) s (fun _ _ => True) by
    obtain ⟨_, t, hrun, -⟩ := this
    exact ⟨t, hrun⟩
  cases c with
  | includeFile file role =>
    have hf := cx.mem_fileSet.2 h.1
    cases role with
    | entry => exact (hends.includeEntry hf (h.2 rfl) (by omega)).imp (fun _ _ _ => trivial)
    | dependency => exact (hends.includeFile hf (by omega)).imp (fun _ _ _ => trivial)
  | inlineFile file role => exact (hends.inlineFile (by omega)).imp (fun _ _ _ => trivial)
  | mergeItem origin role i => exact (hends.mergeItem (by omega)).map (fun _ _ _ => trivial)
  | resolveExport target name visited =>
    have hasked := cx.unasked_le_questions name visited
    unfold Context.gathering at hbound
    exact (hends.resolveExport (cx.mem_fileSet.2 h) (by omega)).map (fun _ _ _ => trivial)
  | collect target withDefault c =>
    have hpassed := cx.unpassed_le_files c.visited
    unfold Context.gathering at hbound
    exact (hends.collect (cx.mem_fileSet.2 h) (by omega)).map (fun _ _ _ => trivial)
  | ensureSpace target wanted =>
    exact (hends.ensureSpace (cx.mem_fileSet.2 h) (by omega)).map (fun _ _ _ => trivial)

end Call

/-- The scopes are balanced: what calls leave of them, and what merging relies on where it cuts a list
or takes the first local of an import. -/
structure ScopesBalanced (cx : Context) : Prop where
  /-- Behind a call the same blocks are open and wait as before it, and every scope has the
  statements that it had, with more behind them at most. -/
  calls : ∀ (c : Call) (n : Nat) (s t : State), c.run cx n s = some ((), t) → Balanced s t
  /-- The calls that merging makes return. -/
  returns : ∀ (c : Call) (s : State), c.AtHand cx s →
    ∃ t, ∀ n, depthBound cx.files + 3 ≤ n → c.run cx n s = some ((), t)
  /-- Where a statement is merged, the scope is cut behind what it held before: that stays, and what
  was placed there for the statement is taken out. -/
  statements : ∀ (n : Nat) (origin : Url) (role : Role) (i : Item) (exports : List Item)
    (s t : State),
    (if keepsExports role s then reexport cx n origin i else pure []) s = some (exports, t) →
    ∃ added, t.scope.items = s.scope.items ++ added ∧
      (t.takeItems s.scope.items.length).1 = added ∧
        (t.takeItems s.scope.items.length).2.scope.items = s.scope.items
  /-- Where a file was inlined at the root, the waiting blocks are cut behind those that waited
  before: these go on waiting, and just those that were set aside are opened again. -/
  blocks : ∀ (n : Nat) (file : Url) (role : Role) (s t : State),
    includeFile cx n file role s.suspend = some ((), t) →
    s.suspended.length ≤ t.suspended.length ∧
      Continue s.nested (t.resume s.suspended.length).nested ∧
        Continue s.suspended (t.resume s.suspended.length).suspended
  /-- An import that stays has a first local then, the one from before if there was an entry. -/
  locals : ∀ (module : String) (imported : ImportedName) (wanted : String) (typeOnly : Bool)
    (s : State), ∃ f t p, preserve module imported wanted typeOnly s = some (f, t) ∧
      t.preserved.get? (module, imported) = some p ∧ p.locals.head? = some f ∧
        ∀ q, s.preserved.get? (module, imported) = some q → q.locals.head? = some f

/-- Merging balances the scopes, whatever the chunk is and in whatever state a call is made. -/
theorem scopes_balanced (cx : Context) : ScopesBalanced cx where
  calls c n s t h := c.balances cx n h
  returns c s h := Call.returns cx s h
  statements n origin role i exports s t h :=
    (Balancing.keptExports ((balancing cx n).reexport origin i) role s h).takeItems_cut
  blocks n file role s t h := by
    obtain ⟨hle, hresume⟩ := ((balancing cx n).includeFile file role h).resume
    exact ⟨hle, hresume.nested, hresume.suspended⟩
  locals module imported wanted typeOnly s := by
    obtain ⟨f, t, hrun, -⟩ := ends_preserve (b := 0) (s := s) module imported wanted typeOnly
    have hf := hrun 0 (Nat.le_refl 0)
    obtain ⟨p, hp, rfl⟩ := preserve_first hf
    refine ⟨p.first, t, p, hf, hp, rfl, fun q hq => ?_⟩
    have hbalanced := Balances.preserve module imported wanted typeOnly hf
    obtain ⟨p', hp', hlocals⟩ := hbalanced.locals _ q hq
    obtain rfl := Option.some.inj (hp.symm.trans hp')
    exact congrArg some (List.cons_prefix_cons.1 hlocals).1

end AmbientBundle.Merge
