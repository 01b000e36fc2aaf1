import AmbientBundle.Merge.Chunk
import AmbientBundle.Proofs.Merge.Step
import AmbientBundle.Proofs.Merge.StepClass
/-!
What merging a chunk reads of the files of earlier chunks. A file is only looked up among them where
it is to be included, and only files that belong to the chunk are. So two runs that start behind
different files, none of which belongs to the chunk, do the same at every step: merging stays in the
class of the steps that do not tell such files apart.
-/
namespace AmbientBundle.Merge

open Syntax

/-- The state with other included files. -/
def State.including (included : SeenSet Url) (s : State) : State := { s with included := included }

/-- The states of two runs, of which one started behind the files `earlier` and the other behind
`earlier'`. Since then both have included the same files, and all else is the same. -/
inductive Beside (earlier earlier' : List Url) (s : State) : State → Prop where
  | intro {included : SeenSet Url} {added : List Url} (h : s.included.items = earlier ++ added)
      (h' : included.items = earlier' ++ added) : Beside earlier earlier' s (s.including included)

/-- A change of the state that neither reads nor changes the included files. -/
def Blind (f : State → State) : Prop :=
  ∀ included s, f (s.including included) = (f s).including included

section Blind

theorem blind_onScope (f : Scope → Scope) : Blind (State.onScope f) := by
  intro included s
  unfold State.onScope State.including
  cases s.nested <;> rfl

theorem blind_warn (w : Warning) : Blind (State.warn w) := fun _ _ => rfl

theorem blind_keep (key : String × ImportedName) (p : Preserved) : Blind (State.keep key p) :=
  fun _ _ => rfl

theorem blind_keepRun (module : String) : Blind (State.keepRun module) := fun _ _ => rfl

theorem blind_claim (name : String) : Blind (State.claim name) := fun _ _ => rfl

theorem blind_suspend : Blind State.suspend := fun _ _ => rfl

theorem blind_resume (depth : Nat) : Blind (State.resume depth) := fun _ _ => rfl

theorem blind_inheritFromRoot (files : List Url) : Blind (State.inheritFromRoot files) := by
  intro included s
  unfold State.inheritFromRoot
  split <;> rfl

theorem blind_addItems (items : List Piece) : Blind (State.addItems items) := blind_onScope _

theorem blind_link (origin : Url) (name final : String) : Blind (State.link origin name final) :=
  blind_onScope (fun c => { c with env := c.env.link origin name final })

theorem blind_bindFile (items : List Item) (origin : Url) : Blind (State.bindFile items origin) := by
  rintro included ⟨_, _, nested, _, _, _, _, _⟩
  cases nested <;> rfl

theorem blind_openBlock (target : Url) (name : String) : Blind (State.openBlock target name) := by
  rintro included ⟨_, _, nested, _, _, _, _, _⟩
  cases nested <;> rfl

theorem Beside.map {f : State → State} (hf : Blind f) {earlier earlier' : List Url} {s s' : State}
    (h : Beside earlier earlier' s s') : Beside earlier earlier' (f s) (f s') := by
  obtain ⟨h, h'⟩ := h
  rw [hf]
  refine .intro ?_ h'
  rw [← h]
  exact congrArg (fun t => t.included.items) (hf s.included s)

theorem closeBlock_including (included : SeenSet Url) (s : State) :
    (s.including included).closeBlock = (s.closeBlock.1, s.closeBlock.2.including included) := by
  obtain ⟨_, _, nested, _, _, _, _, _⟩ := s
  cases nested <;> rfl

theorem takeItems_including (n : Nat) (included : SeenSet Url) (s : State) :
    (s.including included).takeItems n =
      ((s.takeItems n).1, (s.takeItems n).2.including included) := by
  obtain ⟨_, _, nested, _, _, _, _, _⟩ := s
  cases nested <;> rfl

end Blind

namespace Step

variable {α β : Type}

/-- A step that does not tell the files of earlier chunks apart: whenever it succeeds behind the
ones it succeeds behind the others, with the same answer. -/
def Unaware (earlier earlier' : List Url) (x : Step α) : Prop :=
  ∀ s s', Beside earlier earlier' s s' → ∀ a t, x s = some (a, t) →
    ∃ t', x s' = some (a, t') ∧ Beside earlier earlier' t t'

namespace Unaware

variable {earlier earlier' : List Url} {x y : Step α}

protected theorem pure (a : α) : Unaware earlier earlier' (pure a : Step α) := by
  intro s s' h b t ht
  obtain ⟨rfl, rfl⟩ := pure_inv ht
  exact ⟨s', rfl, h⟩

protected theorem failure : Unaware earlier earlier' (failure : Step α) :=
  fun _ _ _ _ _ ht => by cases ht

protected theorem bind {f : α → Step β} (hx : Unaware earlier earlier' x)
    (hf : ∀ a, Unaware earlier earlier' (f a)) : Unaware earlier earlier' (x >>= f) := by
  intro s s' h b u hu
  obtain ⟨a, t, ht, hu⟩ := bind_inv hu
  obtain ⟨t', ht', hbeside⟩ := hx s s' h a t ht
  obtain ⟨u', hu', hrest⟩ := hf a t t' hbeside b u hu
  exact ⟨u', (bind_eq ht').trans hu', hrest⟩

/-- A step that looks at the state first, but not at the included files. -/
protected theorem get {f : State → Step α} (hread : ∀ included s, f (s.including included) = f s)
    (hf : ∀ s, Unaware earlier earlier' (f s)) : Unaware earlier earlier' (get >>= f) := by
  rintro s _ ⟨h, h'⟩ a t ht
  obtain ⟨t', ht', hbeside⟩ := hf s s _ (.intro h h') a t ht
  refine ⟨t', ?_, hbeside⟩
  change f (s.including _) (s.including _) = _
  rw [hread]
  exact ht'

protected theorem modify {f : State → State} (hf : Blind f) :
    Unaware earlier earlier' (modify f : Step PUnit) := by
  intro s s' h a t ht
  obtain rfl := modify_inv ht
  exact ⟨f s', rfl, h.map hf⟩

protected theorem modifyGet {f : State → α × State} (hfst : ∀ included s,
    (f (s.including included)).1 = (f s).1) (hsnd : Blind (fun s => (f s).2)) :
    Unaware earlier earlier' (modifyGet f : Step α) := by
  intro s s' h a t ht
  obtain ⟨rfl, rfl⟩ := modifyGet_inv ht
  refine ⟨(f s').2, ?_, h.map hsnd⟩
  obtain ⟨h, h'⟩ := h
  exact congrArg some (Prod.ext (hfst _ s) rfl)

/-- The class of the steps that do not tell the files of earlier chunks apart. -/
def steps (earlier earlier' : List Url) : StepClass := ⟨Unaware earlier earlier', .pure, .bind⟩

end Unaware

end Step

open Step

section Steps

variable {earlier earlier' : List Url}

theorem unaware_claimFresh (wanted : String) : Unaware earlier earlier' (claimFresh wanted) :=
  .get (fun _ _ => rfl) (fun _ => .bind (.modify (blind_claim _)) (fun _ => .pure _))

theorem unaware_preserve (module : String) (imported : ImportedName) (wanted : String)
    (typeOnly : Bool) : Unaware earlier earlier' (preserve module imported wanted typeOnly) := by
  refine .get (fun _ _ => rfl) (fun s => ?_)
  cases s.preserved.get? (module, imported) with
  | some p => exact .bind (.modify (blind_keep _ _)) (fun _ => .pure _)
  | none =>
    exact (unaware_claimFresh wanted).bind (fun _ =>
      .bind (.modify (blind_keep _ _)) (fun _ => .pure _))

theorem unaware_aliasOuter (final : String) : Unaware earlier earlier' (aliasOuter final) := by
  refine (unaware_claimFresh final).bind (fun name => .get (fun _ _ => rfl) (fun s => ?_))
  cases s.preserved.entries.find? (fun e => e.2.locals.contains final) with
  | some e => exact .bind (.modify (blind_keep _ _)) (fun _ => .pure _)
  | none => exact .bind (.modify (blind_addItems _)) (fun _ => .pure _)

end Steps

namespace Beside

variable {earlier earlier' : List Url} {s s' t t' : State} {file : Url}

/-- A file of neither side is included in both runs or in none. -/
theorem contains_eq (h : Beside earlier earlier' s s') (hf : file ∉ earlier)
    (hf' : file ∉ earlier') : s'.included.contains file = s.included.contains file := by
  obtain ⟨h, h'⟩ := h
  simp only [SeenSet.contains, State.including, h, h', List.mem_append, hf, hf', false_or]

theorem addFile (h : Beside earlier earlier' s s') (hf : file ∉ earlier) (hf' : file ∉ earlier') :
    Beside earlier earlier' (s.addFile file) (s'.addFile file) := by
  cases h with
  | @intro included added h h' =>
    have hinsert (i : SeenSet Url) (before : List Url) (hi : i.items = before ++ added)
        (hf : file ∉ before) :
        (i.insert file).items = before ++ (if file ∈ added then added else added ++ [file]) := by
      rw [SeenSet.items_insert, hi]
      by_cases hmem : file ∈ added <;> simp [hmem, hf]
    exact @Beside.intro _ _ (s.addFile file) (included.insert file) _ (hinsert _ _ h hf)
      (hinsert _ _ h' hf')

/-- In both runs the same files came in since. -/
theorem addedSince_eq (h : Beside earlier earlier' s s') (ht : Beside earlier earlier' t t') :
    t'.included.addedSince s'.included.size = t.included.addedSince s.included.size := by
  obtain ⟨h, h'⟩ := h
  obtain ⟨ht, ht'⟩ := ht
  simp only [SeenSet.addedSince, SeenSet.size, State.including, h, h', ht, ht', List.length_append,
    List.drop_append, List.drop_eq_nil_of_le (Nat.le_add_right _ _), Nat.add_sub_cancel_left]

end Beside

/-- The files that merging can begin of the chunk are none of the earlier files. -/
structure Apart (cx : Context) (earlier : List Url) : Prop where
  entry : ∀ {m file}, m ∈ cx.chunk.entryModules → cx.files.findForModule m = some file →
    file ∉ earlier
  led : ∀ {specifier referrer file}, cx.inChunk? specifier referrer = some file → file ∉ earlier

/-- Down to the depth `n` merging does not tell the files of earlier chunks apart. -/
structure UnawareWithin (cx : Context) (earlier earlier' : List Url) (n : Nat) : Prop where
  includeFile : ∀ {file role}, file ∉ earlier → file ∉ earlier' →
    Unaware earlier earlier' (includeFile cx n file role)
  includeAtRoot : ∀ {file role}, file ∉ earlier → file ∉ earlier' →
    Unaware earlier earlier' (includeAtRoot cx n file role)
  inlineFile : ∀ {file role}, Unaware earlier earlier' (inlineFile cx n file role)
  mergeFile : ∀ {origin role}, Unaware earlier earlier' (mergeFile cx n origin role)
  mergeItem : ∀ {origin role i}, Unaware earlier earlier' (mergeItem cx n origin role i)
  reexport : ∀ {origin i}, Unaware earlier earlier' (reexport cx n origin i)
  mergeImport : ∀ {origin d}, Unaware earlier earlier' (mergeImport cx n origin d)
  mergeReexport : ∀ {origin d src}, Unaware earlier earlier' (mergeReexport cx n origin d src)
  mergeStar : ∀ {origin src}, Unaware earlier earlier' (mergeStar cx n origin src)
  exportAgain : ∀ {file}, Unaware earlier earlier' (exportAgain cx n file)
  resolveExport : ∀ {target name visited},
    Unaware earlier earlier' (resolveExport cx n target name visited)
  resolveInStars : ∀ {target name visited},
    Unaware earlier earlier' (resolveInStars cx n target name visited)
  collect : ∀ {target withDefault c}, Unaware earlier earlier' (collect cx n target withDefault c)
  ensureSpace : ∀ {target wanted}, Unaware earlier earlier' (ensureSpace cx n target wanted)
  linkTypes : ∀ {origin items}, Unaware earlier earlier' (linkTypes cx n origin items)

namespace UnawareWithin

variable {cx : Context} {earlier earlier' : List Url} {n : Nat} {file : Url} {role : Role}

theorem includeFile_succ (hf : file ∉ earlier ∧ file ∉ earlier')
    (hroot : Unaware earlier earlier' (Merge.includeAtRoot cx n file role))
    (hagain : Unaware earlier earlier' (Merge.exportAgain cx n file))
    (hinline : Unaware earlier earlier' (Merge.inlineFile cx n file role)) :
    Unaware earlier earlier' (Merge.includeFile cx (n + 1) file role) := by
  have hrun (u : State) : Merge.includeFile cx (n + 1) file role u =
      if u.inBlock then
        (if !u.nested.any (fun b => b.target == file) then Merge.includeAtRoot cx n file role
          else pure ()) u
      else if u.included.contains file then
        (if role = .entry then Merge.exportAgain cx n file else pure ()) u
      else Merge.inlineFile cx n file role (u.addFile file) := by
    rw [Merge.includeFile]
    change (if _ then _ else _ : Step Unit) u = _
    split
    · rfl
    · split <;> rfl
  intro s s' h a t ht
  have hinBlock : s'.inBlock = s.inBlock := by cases h; rfl
  have hnested : s'.nested = s.nested := by cases h; rfl
  rw [hrun] at ht ⊢
  rw [hinBlock, hnested, h.contains_eq hf.1 hf.2]
  by_cases hblock : s.inBlock = true
  · rw [if_pos hblock] at ht ⊢
    exact (Unaware.steps _ _).ite (fun _ => hroot) (fun _ => .pure ()) s s' h a t ht
  · rw [if_neg hblock] at ht ⊢
    by_cases hold : s.included.contains file = true
    · rw [if_pos hold] at ht ⊢
      exact (Unaware.steps _ _).ite (fun _ => hagain) (fun _ => .pure ()) s s' h a t ht
    · rw [if_neg hold] at ht ⊢
      exact hinline _ _ (h.addFile hf.1 hf.2) a t ht

theorem includeAtRoot_succ (hinclude : Unaware earlier earlier' (Merge.includeFile cx n file role)) :
    Unaware earlier earlier' (Merge.includeAtRoot cx (n + 1) file role) := by
  have hrun (u : State) : Merge.includeAtRoot cx (n + 1) file role u =
      (Merge.includeFile cx n file role u.suspend).map (fun r =>
        ((), (r.2.resume u.suspended.length).inheritFromRoot
          (r.2.included.addedSince u.included.size))) := by
    rw [Merge.includeAtRoot]
    change (Merge.includeFile cx n file role u.suspend).bind _ = _
    cases Merge.includeFile cx n file role u.suspend <;> rfl
  intro s s' h a t ht
  have hsuspended : s'.suspended = s.suspended := by cases h; rfl
  rw [hrun] at ht ⊢
  obtain ⟨⟨_, u⟩, hu, hback⟩ := Option.map_eq_some_iff.1 ht
  obtain ⟨rfl, rfl⟩ := Prod.mk.inj hback
  obtain ⟨u', hu', hbeside⟩ := hinclude _ _ (h.map blind_suspend) _ _ hu
  rw [hu', hsuspended, Option.map_some, h.addedSince_eq hbeside]
  exact ⟨_, rfl, (hbeside.map (blind_resume _)).map (blind_inheritFromRoot _)⟩

theorem mergeItem_succ {origin : Url} {i : Item}
    (hexports : Unaware earlier earlier' (Merge.reexport cx n origin i))
    (htypes : ∀ is, Unaware earlier earlier' (Merge.linkTypes cx n origin is)) :
    Unaware earlier earlier' (Merge.mergeItem cx (n + 1) origin role i) := by
  rw [Merge.mergeItem]
  refine .get (fun _ _ => rfl) (fun s => ?_)
  have hkept : Unaware earlier earlier'
      (if keepsExports role s then Merge.reexport cx n origin i else pure []) :=
    (Unaware.steps _ _).ite (fun _ => hexports) (fun _ => .pure _)
  refine (Unaware.steps _ _).ite_bind hkept (fun exports => ?_)
  refine .bind (.modifyGet (fun _ u => ?_) (fun _ u => ?_)) (fun synthesized => ?_)
  · rw [takeItems_including]
  · simp only [takeItems_including]
  exact .get (fun _ _ => rfl) (fun t => (htypes _).bind (fun nodes => .pure _))

theorem ensureSpace_succ {target : Url} {wanted : String}
    (hinline : Unaware earlier earlier' (Merge.inlineFile cx n target .dependency))
    (hcollect : ∀ c, Unaware earlier earlier' (Merge.collect cx n target false c)) :
    Unaware earlier earlier' (Merge.ensureSpace cx (n + 1) target wanted) := by
  have hwarns {α : Type} (l : List α) (w : α → Warning) :
      Unaware earlier earlier' (l.forM (fun a => modify (State.warn (w a)))) :=
    (Unaware.steps _ _).forM (fun a _ => Unaware.modify (blind_warn _))
  rw [Merge.ensureSpace]
  refine .get (fun _ _ => rfl) (fun s => ?_)
  cases s.space? target with
  | some name => exact .pure _
  | none =>
    refine (unaware_claimFresh wanted).bind (fun name => ?_)
    refine .bind (.modify (blind_openBlock _ _)) (fun _ => hinline.bind (fun _ => ?_))
    refine (Unaware.steps _ _).ite_then (Unaware.modify (blind_warn _)) ?_
    refine (hcollect _).bind (fun c => (hwarns _ _).bind (fun _ => ?_))
    refine .bind (.modifyGet (fun _ u => ?_) (fun _ u => ?_)) (fun body => ?_)
    · rw [closeBlock_including]
    · simp only [closeBlock_including]
    refine Unaware.bind ((Unaware.steps _ _).mapM (fun e _ => ?_)) (fun exports => ?_)
    · exact (Unaware.steps _ _).ite (fun _ => (unaware_aliasOuter e.2).bind (fun _ => .pure _))
        (fun _ => .pure _)
    refine (hwarns _ _).bind (fun _ => .get (fun _ _ => rfl) (fun t => ?_))
    exact .bind (.modify (blind_addItems _)) (fun _ => .pure _)

/-- Merging stays in the class as long as it includes none of the earlier files. -/
def mergeClass (h : Apart cx earlier) (h' : Apart cx earlier') : MergeClass cx where
  toStepClass := Unaware.steps earlier earlier'
  Fits file := file ∉ earlier ∧ file ∉ earlier'
  led hin := ⟨h.led hin, h'.led hin⟩
  fail := Unaware.failure
  warn w := Unaware.modify (blind_warn w)
  keepRun module := Unaware.modify (blind_keepRun module)
  addItems ps := Unaware.modify (blind_addItems ps)
  bindFile is origin := Unaware.modify (blind_bindFile is origin)
  link origin name final := Unaware.modify (blind_link origin name final)
  lookup _ _ _ := Unaware.get (fun _ _ => rfl) (fun _ => .pure _)
  preserve := unaware_preserve
  includeFile_succ := includeFile_succ
  includeAtRoot_succ := includeAtRoot_succ
  mergeItem_succ := mergeItem_succ
  ensureSpace_succ := ensureSpace_succ

end UnawareWithin

theorem unawareWithin {cx : Context} {earlier earlier' : List Url} (h : Apart cx earlier)
    (h' : Apart cx earlier') (n : Nat) : UnawareWithin cx earlier earlier' n :=
  have hall := (UnawareWithin.mergeClass h h').within n
  { includeFile := fun hf hf' => hall.includeFile _ ⟨hf, hf'⟩
    includeAtRoot := fun hf hf' => hall.includeAtRoot _ ⟨hf, hf'⟩
    inlineFile := hall.inlineFile _ _
    mergeFile := hall.mergeFile _ _
    mergeItem := hall.mergeItem _ _ _
    reexport := hall.reexport _ _
    mergeImport := hall.mergeImport _ _
    mergeReexport := hall.mergeReexport _ _ _
    mergeStar := hall.mergeStar _ _
    exportAgain := hall.exportAgain _
    resolveExport := hall.resolveExport _ _ _
    resolveInStars := hall.resolveInStars _ _ _
    collect := hall.collect _ _ _
    ensureSpace := hall.ensureSpace _ _
    linkTypes := hall.linkTypes _ _ }

theorem unaware_includeEntries {cx : Context} {earlier earlier' : List Url}
    (h : Apart cx earlier) (h' : Apart cx earlier') :
    Unaware earlier earlier' (includeEntries cx) := by
  refine (Unaware.steps _ _).forM (fun m hm => ?_)
  cases hf : cx.files.findForModule m with
  | none => exact Unaware.pure _
  | some file => exact (unawareWithin h h' _).includeFile (h.entry hm hf) (h'.entry hm hf)

/-- Behind other files, none of which belongs to the chunk either, the chunk is merged the same. -/
theorem mergeChunk_unaware {cx : Context} {included included' after : SeenSet Url} {m : Merged}
    {warnings : List Warning} (h : Apart cx included.items) (h' : Apart cx included'.items)
    (hm : mergeChunk? cx included = some (m, after, warnings)) :
    ∃ after', mergeChunk? cx included' = some (m, after', warnings) := by
  change (includeEntries cx (.start included)).bind _ = _ at hm
  obtain ⟨⟨_, s⟩, hs, hm⟩ := Option.bind_eq_some_iff.1 hm
  have hstart : Beside included.items included'.items (.start included) (.start included') :=
    @Beside.intro _ _ (.start included) included' [] (List.append_nil _).symm
      (List.append_nil _).symm
  obtain ⟨s', hs', hbeside⟩ := unaware_includeEntries h h' _ _ hstart _ _ hs
  refine ⟨s'.included, ?_⟩
  change (includeEntries cx (.start included')).bind _ = _
  rw [hs']
  cases hbeside
  obtain ⟨rfl, -, rfl⟩ := Prod.mk.inj (Option.some.inj hm)
  rfl

end AmbientBundle.Merge
