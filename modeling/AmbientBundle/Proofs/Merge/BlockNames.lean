import AmbientBundle.Proofs.Merge.Gathering
import AmbientBundle.Proofs.Merge.Stacks
/-!
Merging keeps the stacks of blocks as they have to be, and what it finds for an import or an export
fits what the name leads to, in blocks as well as at the root.
-/
namespace AmbientBundle.Merge

open Names Step Syntax

variable {cx : Context} {earlier : SeenSet Url} {n : Nat} {r : Role} {files : List Url}
  {s t : State} {y : Yield} {o : Opening} {os : List Opening}
  {ws : List (SeenSet Url × List Opening)} {target : Url} {name : String}

/-- A run gives more names away at the root. -/
theorem Run.widens (hd : cx.ImportsApart) (run : Run cx n r files s y t) (hr : Rooted files s) :
    Widens cx s.root.env t.root.env := by
  refine ⟨?_, run.grows.owner, fun g k v hk hv => ?_⟩
  · clear hr
    induction run with
    | nothing => exact List.prefix_refl _
    | andThen _ _ ih₁ ih₂ => exact ih₁.trans ih₂
    | warn w => exact List.prefix_refl _
    | keepRun module => exact List.prefix_refl _
    | preserve typeOnly hkey hw => exact Environment.keys_claim _ _
    | preserveAgain typeOnly hkey => exact List.prefix_refl _
    | aliasImport hf hkey => exact Environment.keys_claim _ _
    | aliasBinding hf =>
      rw [State.root_addItems_env]
      exact Environment.keys_claim _ _
    | link _ _ _ _ _ ih =>
      rw [State.root_link_env]
      split <;> exact ih
    | unlinked w _ _ _ _ ih => exact ih
    | print _ _ _ _ _ _ _ _ ih₁ ih₂ =>
      rw [State.root_takeItems_env] at ih₂
      exact ih₁.trans ih₂
    | inlined hroot _ _ _ _ _ _ ih₁ ih₂ =>
      rw [State.root_beginFile_env hroot] at ih₁
      rw [State.root_addItems_env]
      exact (keys_bindIdents _ (_, OrderedMap.empty)).trans (ih₁.trans ih₂)
    | atRoot _ _ ih =>
      rw [State.root_inheritFromRoot]
      exact ih
    | block _ _ _ _ _ _ _ _ _ ih₁ ih₂ ih₃ ih₄ =>
      rw [State.root_begunBlock_env] at ih₁
      rw [State.root_addItems_env] at ih₃ ⊢
      rw [State.root_closeBlock] at ih₄
      exact (Environment.keys_claim _ _).trans (ih₁.trans (ih₂.trans (ih₃.trans ih₄)))
    | exportAgain _ _ _ _ _ _ ih =>
      rw [State.root_addItems_env]
      exact ih
  · obtain ⟨id, hid, rfl⟩ := List.mem_map.1 hk
    rw [run.lookup_root (hr.included g _ v hv) (fun hb hh e he =>
      hd g id hid e (run.tried_subset hb hh e he)), hv]

namespace Grounded

theorem start (earlier : SeenSet Url) : Grounded cx earlier [] (State.start earlier) :=
  ⟨.start earlier, .start earlier, .start earlier, .start earlier⟩

theorem addItems (h : Grounded cx earlier files s) {ps : List Piece} (hp : FormedPieces cx ps) :
    Grounded cx earlier files (s.addItems ps) :=
  ⟨h.formed.addItems hp, h.rooted.addItems ps, h.linked.addItems ps, h.spaces.addItems ps⟩

theorem takeItems (h : Grounded cx earlier files s) (k : Nat) :
    Grounded cx earlier files (s.takeItems k).2 :=
  ⟨h.formed.takeItems k, h.rooted.takeItems k, h.linked.congr (by simp) (by simp),
    h.spaces.takeItems k⟩

theorem suspend (h : Grounded cx earlier files s) : Grounded cx earlier files s.suspend :=
  ⟨h.formed.suspend, h.rooted.suspend, h.linked.congr rfl (fun _ _ => rfl), h.spaces.suspend⟩

theorem closeBlock (h : Grounded cx earlier files s) : Grounded cx earlier files s.closeBlock.2 :=
  ⟨h.formed.closeBlock, h.rooted.closeBlock, h.linked.congr (by simp) (by simp),
    h.spaces.closeBlock⟩

theorem beginFile (h : Grounded cx earlier files s) (hroot : s.inBlock = false) {file : Url}
    (hnew : s.included.contains file = false) (hfile : cx.HasFile file) :
    Grounded cx earlier (file :: files) ((s.addFile file).bindFile (cx.statements file) file) :=
  ⟨h.formed.beginFile hfile, h.rooted.beginFile _ file, h.linked.beginFile h.rooted hroot hnew,
    h.spaces.beginFile _ file⟩

theorem beginBlock (h : Grounded cx earlier files s) (hfile : cx.HasFile target) {wanted : String}
    (hw : cx.Formed wanted) : Grounded cx earlier files (((s.claim (s.freshName wanted)).openBlock
      target (s.freshName wanted)).bindFile (cx.statements target) target) :=
  ⟨h.formed.beginBlock hfile hw, h.rooted.beginBlock _ target _, h.linked.beginBlock _ target _,
    h.spaces.beginBlock _ target wanted⟩

end Grounded

/-- The local of an import that stays is the chunk's. -/
theorem preserve_given (hk : Stacks cx os ws s) {module wanted f : String} {imported : ImportedName}
    {typeOnly : Bool} (h : preserve module imported wanted typeOnly s = some (f, t)) :
    Given cx t.root.env os f := by
  obtain ⟨p, hkey, rfl, rfl⟩ | ⟨hkey, rfl, rfl⟩ := preserve_inv h
  · exact hk.given (hk.locals _ (OrderedMap.mem_entries_of_get? hkey) _ (by simp [Preserved.locals]))
  · exact (hk.claim wanted).given (s.owner?_claim_freshName wanted)

/-- The name of a namespace is the chunk's. -/
theorem ensureSpace_given (hs : Grounded cx earlier files s) (ht : Stacks cx os ws t)
    (hready : Ready cx files target s) {wanted f : String} (hw : cx.Formed wanted)
    (h : ensureSpace cx n target wanted s = some (f, t)) : Given cx t.root.env os f := by
  obtain ⟨run, _, hf, _⟩ := (calls cx n).ensureSpace (r := .dependency) hready hw h
  exact ht.given (hf.elim (fun hf => run.grows.owner _ _ (hs.spaces.space? hf)) id)

/-- What resolving an export with depth `k` finds fits what the export leads to. -/
def FindsIn (cx : Context) (earlier : SeenSet Url) (k : Nat) : Prop :=
  ∀ ⦃files : List Url⦄ ⦃os : List Opening⦄ ⦃ws : List (SeenSet Url × List Opening)⦄ ⦃target : Url⦄
    ⦃name f : String⦄ ⦃v v' : Visited⦄ ⦃s t : State⦄, Grounded cx earlier files s →
    Stacks cx os ws s → cx.LeadTo files target → cx.HasFile target → Asked cx name →
    resolveExport cx k target name v s = some ((some f, v'), t) →
    FitsIn cx t.root.env os (.exported target name) f

/-- The final name that is found for a specifier fits its local. -/
theorem Resolved.fitsIn (hfind : ∀ k < n, FindsIn cx earlier k) {origin : Url} {d : ImportDecl}
    {sp : ImportSpecifier} {f : String} (hcur : Current cx files origin s)
    (hsp : (d, sp) ∈ cx.specifiers origin) (hs : Grounded cx earlier files s)
    (hk : Stacks cx os ws s) (ht : Stacks cx os ws t) (h : Resolved cx n origin d sp s (some f) t) :
    FitsIn cx t.root.env os (.own origin sp.loc) f := by
  have hfollow := Context.follow_imported hsp
  obtain ⟨hd, hsp'⟩ := Context.mem_specifiers.1 hsp
  cases h with
  | outer hin h =>
    rw [Context.imported_of_none (Or.inl hin)] at hfollow
    exact .of_other (.here hfollow) (preserve_given hk h)
  | space hin hall _ h =>
    rw [Context.imported_of_none (Or.inr (by simp [hall, ImportedName.text?]))] at hfollow
    refine .of_other (.here hfollow) (ensureSpace_given hs ht
      ((hcur.ready hs.formed).next (.imported hd hin)) ?_ h)
    exact ofSpecifier_loc sp ▸ (Context.Writes.loc hcur.file hd hsp').formed
  | @named target name _ v _ k hin hinc hname hlt h =>
    have hlinks : cx.Links origin target := .imported hd hin
    have hasked : Asked cx name := .of_specifier hcur.file hsp hname
    rw [Context.imported_of_inChunk? hin hname] at hfollow
    exact (hfind k hlt hs hk (hcur.lead.tail hlinks) (.linked hcur.file hlinks) hasked h).next
      hfollow

/-- A run keeps the stacks as they have to be. -/
theorem Run.stacked (hd : cx.ImportsApart) (hfind : ∀ k < n, FindsIn cx earlier k)
    (h : Run cx n r files s y t) (hs : Grounded cx earlier files s) (hk : Stacks cx os ws s) :
    Stacks cx os ws t := by
  induction h generalizing os ws with
  | nothing => exact hk
  | andThen first _ ih₁ ih₂ => exact ih₂ (hs.run first) (ih₁ hs hk)
  | warn w => exact hk.congr rfl rfl rfl rfl rfl rfl
  | keepRun module => exact hk.congr rfl rfl rfl rfl rfl rfl
  | preserve typeOnly hkey hw =>
    exact (hk.claim _).keep (Preserved.forall_locals_new (State.owner?_claim_freshName _ _) _)
  | preserveAgain typeOnly hkey =>
    exact hk.keep (hk.locals _ (OrderedMap.mem_entries_of_get? hkey))
  | @aliasImport r files s f key p hf hkey =>
    have hlocals := (hk.claim f).locals _ (List.mem_of_find?_eq_some hkey)
    exact (hk.claim f).keep
      (Preserved.forall_locals_alias hlocals (State.owner?_claim_freshName _ _))
  | aliasBinding hf => exact (hk.claim _).addItems _
  | link hcur hsp hf run hres ih =>
    refine (ih hs hk).link (fun hx => ?_) (hres.fitsIn hfind hcur hsp hs hk (ih hs hk))
    obtain ⟨id, hid, he⟩ := List.mem_map.1 hx
    exact hd _ id hid _ hsp he.symm
  | unlinked w _ _ _ _ ih => exact (ih hs hk).congr rfl rfl rfl rfl rfl rfl
  | print _ _ _ _ _ _ run _ ih₁ ih₂ =>
    exact ih₂ ((hs.run run).takeItems _) ((ih₁ hs hk).takeItems _)
  | inlined hroot hnew hfile _ _ imports prints ih₁ ih₂ =>
    have hs₁ := hs.beginFile hroot hnew hfile
    exact (ih₂ (hs₁.run imports) (ih₁ hs₁ (hk.beginFile hs.rooted hroot hnew))).addItems _
  | atRoot hblock run ih =>
    have ht := hs.suspend.run run
    exact (ih hs.suspend hk.suspend).resume hk.waiting.length_eq run.grows.included ht.linked.sound
  | @block r files s t u v w target wanted ps exports hnew hfile _ hw _ imports prints
      collects aliases ih₁ ih₂ ih₃ ih₄ =>
    obtain ⟨named, hk₁⟩ := hk.beginBlock hs hnew wanted
    have hs₁ := hs.beginBlock hfile hw
    have hs₂ := hs₁.run imports
    have hs₃ := (hs₂.run prints).addItems (prints.formed hs₂.formed).2
    have hk₃ := (ih₂ hs₂ (ih₁ hs₁ hk₁)).addItems ps
    have hk₄ := (ih₃ hs₃ hk₃).closeBlock
    exact (ih₄ (hs₃.run collects).closeBlock hk₄).addItems _
  | exportAgain _ _ _ _ _ _ ih => exact (ih hs hk).addItems _

/-- What looking for a name in the stars of a file with depth `k` finds fits what the name leads
to. -/
def StarsFindIn (cx : Context) (earlier : SeenSet Url) (k : Nat) : Prop :=
  ∀ ⦃files : List Url⦄ ⦃os : List Opening⦄ ⦃ws : List (SeenSet Url × List Opening)⦄ ⦃target : Url⦄
    ⦃name f : String⦄ ⦃v v' : Visited⦄ ⦃s t : State⦄, Grounded cx earlier files s →
    Stacks cx os ws s → cx.LeadTo files target → cx.HasFile target → cx.Writes name →
    name ≠ "default" → cx.explicit? target name = none →
    resolveInStars cx k target name v s = some ((some f, v'), t) →
    FitsIn cx t.root.env os (.exported target name) f

theorem starsFindIn_succ (hd : cx.ImportsApart) (hfind : ∀ k < n, FindsIn cx earlier k)
    (hn : FindsIn cx earlier n) : StarsFindIn cx earlier (n + 1) := by
  intro files os ws target name f v v' s t hs hk hlead hhas hname hdefault hx h
  obtain ⟨b, s₁, hfold, hend⟩ := resolveInStars_inv h
  have hstar (src : String) (hsrc : .all src ∈ cx.exports target) :=
    Context.follow_star hx hdefault hsrc
  have H : Grounded cx earlier files s₁ ∧ Stacks cx os ws s₁ ∧
      (∀ f, b.1 = some f → FitsIn cx s₁.root.env os (.exported target name) f) ∧
        (b.2.1.isSome → cx.Leads (.exported target name) .other) := by
    refine hfold.inv (fun _ b s' => Grounded cx earlier files s' ∧ Stacks cx os ws s' ∧
      (∀ f, b.1 = some f → FitsIn cx s'.root.env os (.exported target name) f) ∧
        (b.2.1.isSome → cx.Leads (.exported target name) .other))
      ⟨hs, hk, by simp, by simp⟩ ?_
    rintro done e b₁ b₂ s₂ s₃ he ⟨hs₂, hk₂, hb₂, hother⟩ hstep
    cases hstep with
    | skip => exact ⟨hs₂, hk₂, hb₂, hother⟩
    | outer hsrc hin =>
      refine ⟨hs₂, hk₂, by simp, fun _ => .here ?_⟩
      exact Context.takeFrom_of_none hin ▸ hstar _ (hsrc ▸ he)
    | @inner src _ found _ v₂ file _ s₄ _ hsrc hin hinc h =>
      subst hsrc
      have hlinks : cx.Links target file := .exported he rfl hin
      have hready : Ready cx files file s₂ :=
        ⟨hs₂.formed, hlead.tail hlinks, .linked hhas hlinks⟩
      obtain ⟨run₁, run₂, _⟩ :=
        (calls cx n).asks (r := .dependency) hready (Or.inr hname) hinc h
      have hs₄ := hs₂.run run₁
      have hk₄ := run₁.stacked hd hfind hs₂ hk₂
      refine ⟨hs₄.run run₂, run₂.stacked hd hfind hs₄ hk₄, fun f hf => ?_, hother⟩
      have hf : found = some f := hf
      subst hf
      exact (hn hs₄ hk₄ hready.lead hready.has (Or.inr hname) h).next
        (Context.takeFrom_of_inChunk? hin ▸ hstar src he)
  obtain ⟨_, hk₁, hb, hother⟩ := H
  cases hend with
  | found => exact hb f rfl
  | outer h => exact .of_other (hother rfl) (preserve_given hk₁ h)

theorem findsIn_succ (hd : cx.ImportsApart) (hfind : ∀ k < n, FindsIn cx earlier k)
    (hn : FindsIn cx earlier n) (hstars : StarsFindIn cx earlier n) :
    FindsIn cx earlier (n + 1) := by
  intro files os ws target name f v v' s t hs hk hlead hhas hname h
  have hinv := resolveExport_inv h
  generalize hfound : some f = found at hinv
  cases hinv with
  | again => cases hfound
  | noDefault => cases hfound
  | @listed k property id hx =>
    have hl : s.scope.env.lookup target property = some f := hfound.symm
    exact ((hk.sees hs.linked.sound).sound target property f hl).next (Context.follow_listed hx)
  | source hx hin hinc h =>
    subst hfound
    obtain ⟨hlinks, hasked⟩ := Calls.explicit_asks hhas hx hin
    have hready : Ready cx files _ s := ⟨hs.formed, hlead.tail hlinks, .linked hhas hlinks⟩
    obtain ⟨run, _⟩ := (calls cx n).includeFile (r := .dependency) hready (by simp) hinc
    have hfits := hn (hs.run run) (run.stacked hd hfind hs hk) hready.lead hready.has hasked h
    exact hfits.next (Context.takeFrom_of_inChunk? hin ▸ Context.follow_source hx)
  | outer hx hin h =>
    cases hfound
    exact .of_other (.here (Context.takeFrom_of_none hin ▸ Context.follow_source hx))
      (preserve_given hk h)
  | space hx hin h =>
    cases hfound
    obtain ⟨hlinks, hw⟩ := Calls.explicit_opens hhas hx hin
    have hready : Ready cx files _ s := Ready.next ⟨hs.formed, hlead, hhas⟩ hlinks
    have run := ((calls cx n).ensureSpace (r := .dependency) hready hw h).1
    exact .of_other (.here (Context.follow_space hx))
      (ensureSpace_given hs (run.stacked hd hfind hs hk) hready hw h)
  | outerSpace hx _ h =>
    cases hfound
    exact .of_other (.here (Context.follow_space hx)) (preserve_given hk h)
  | stars hx hdefault h =>
    subst hfound
    exact hstars hs hk hlead hhas (hname.resolve_left hdefault) hdefault hx h

/-- What resolving an export finds fits what the export leads to, at any depth. -/
theorem findsIn (hd : cx.ImportsApart) (earlier : SeenSet Url) (k : Nat) :
    FindsIn cx earlier k := by
  refine resolve_induction (P := FindsIn cx earlier) (Q := StarsFindIn cx earlier) ?_ ?_
    (fun n hfind hn hstars => findsIn_succ hd hfind hn hstars)
    (fun n hfind hn => starsFindIn_succ hd hfind hn) k
  · intro files os ws target name f v v' s t _ _ _ _ _ h
    exact (failure_inv h).elim
  · intro files os ws target name f v v' s t _ _ _ _ _ _ _ h
    exact (failure_inv h).elim

/-- Merging stands inside of the given blocks. -/
structure Standing (cx : Context) (earlier : SeenSet Url) (files : List Url) (os : List Opening)
    (ws : List (SeenSet Url × List Opening)) (s : State) : Prop where
  grounded : Grounded cx earlier files s
  blocks : Stacks cx os ws s

section Standing

variable {τ : ImportTypes.Targets} {origin : Url} {items : List Item}

theorem Standing.run (hd : cx.ImportsApart) (h : Standing cx earlier files os ws s)
    (run : Run cx n r files s y t) : Standing cx earlier files os ws t :=
  ⟨h.grounded.run run, run.stacked hd (fun k _ => findsIn hd earlier k) h.grounded h.blocks⟩

theorem Standing.addItems (h : Standing cx earlier files os ws s) {ps : List Piece}
    (hp : FormedPieces cx ps) : Standing cx earlier files os ws (s.addItems ps) :=
  ⟨h.grounded.addItems hp, h.blocks.addItems ps⟩

theorem Standing.takeItems (h : Standing cx earlier files os ws s) (k : Nat) :
    Standing cx earlier files os ws (s.takeItems k).2 :=
  ⟨h.grounded.takeItems k, h.blocks.takeItems k⟩

/-- A binding that takes the place of import types fits the export that they name. -/
def FitsKey (cx : Context) (os : List Opening) (origin : Url) (s : State) (key : ImportTypeKey)
    (answer : Option ImportTypes.Target) : Prop :=
  ∀ head f file, answer = some (.binding f) → key.head = some head →
    cx.inChunk? key.specifier origin = some file → FitsIn cx s.root.env os (.exported file head) f

namespace FitsKey

variable {key : ImportTypeKey} {answer : Option ImportTypes.Target} {file : Url} {head f : String}

theorem widen (h : FitsKey cx os origin s key answer) (hw : Widens cx s.root.env t.root.env) :
    FitsKey cx os origin t key answer :=
  fun head f file ha hhead hin => (h head f file ha hhead hin).widen hw

theorem found (hhead : key.head = some head) (hin : cx.inChunk? key.specifier origin = some file)
    (hf : FitsIn cx s.root.env os (.exported file head) f) :
    FitsKey cx os origin s key (some (.binding f)) := by
  intro head' f' file' ha hhead' hin'
  cases ha
  obtain rfl := Option.some.inj (hhead.symm.trans hhead')
  obtain rfl := Option.some.inj (hin.symm.trans hin')
  exact hf

/-- A key without a head names a whole file. -/
theorem of_whole (hhead : key.head = none) : FitsKey cx os origin s key answer := by
  intro head f file _ hhead'
  cases hhead.symm.trans hhead'

end FitsKey

/-- One key of an import type. -/
theorem TypeStep.fitsKey (hd : cx.ImportsApart) {key : ImportTypeKey} {done : List ImportTypeKey}
    {ts ts' : OrderedMap ImportTypeKey ImportTypes.Target} (h : TypeStep cx n origin key ts s ts' t)
    (hs : Standing cx earlier files os ws s) (hlead : cx.LeadTo files origin)
    (hhas : cx.HasFile origin) (hk : key ∈ collectItems ImportTypes.pickKey (cx.statements origin))
    (hdone : ts.Answered (FitsKey cx os origin s) done) :
    ts'.Answered (FitsKey cx os origin t) (done ++ [key]) := by
  have hready : Ready cx files origin s := ⟨hs.grounded.formed, hlead, hhas⟩
  have run := (calls cx n).typeStep_run (r := .dependency) hready hk h
  have hdone : ts.Answered (FitsKey cx os origin t) done :=
    hdone.imp (fun _ _ hfits => hfits.widen (run.widens hd hs.grounded.rooted))
  cases h with
  | outer hin => exact hdone.put (fun _ _ _ ha => by cases ha)
  | found hin hinc hhead hres =>
    obtain ⟨run₁, hready₁⟩ := (calls cx n).include_typed (r := .dependency) hready hk hin hinc
    have hs₁ := hs.run hd run₁
    exact hdone.put (.found hhead hin (findsIn hd earlier n hs₁.grounded hs₁.blocks hready₁.lead
      hready₁.has (Or.inr (.head hhas hk hhead)) hres))
  | missing => exact hdone.miss (fun _ _ _ ha => by cases ha)
  | space _ _ hhead => exact hdone.put (.of_whole hhead)

/-- What import types refer to fits what they name. -/
theorem TypeLinks.fitsIn (hd : cx.ImportsApart) (hs : Standing cx earlier files os ws s)
    (hlead : cx.LeadTo files origin) (hhas : cx.HasFile origin)
    (hkeys : ∀ key ∈ collectItems ImportTypes.pickKey items,
      key ∈ collectItems ImportTypes.pickKey (cx.statements origin))
    (h : TypeLinks cx n origin items s τ t) {key : ImportTypeKey} {head f : String} {file : Url}
    (hτ : τ key = some (.binding f)) (hhead : key.head = some head)
    (hin : cx.inChunk? key.specifier origin = some file) :
    FitsIn cx t.root.env os (.exported file head) f := by
  obtain ⟨-, ts, rfl, hall⟩ := h.answered (P := FitsKey cx os origin)
    ⟨hs.grounded.formed, hlead, hhas⟩ hkeys (fun run hk hstep hdone =>
      hstep.fitsKey hd (hs.run hd run) hlead hhas hk hdone)
  exact hall.found key _ hτ head f file rfl hhead hin

end Standing

end AmbientBundle.Merge
