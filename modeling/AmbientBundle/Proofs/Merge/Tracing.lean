import AmbientBundle.Proofs.Merge.EntryExports
import AmbientBundle.Proofs.Merge.Origins
/-!
While a chunk is merged, every final name of the root stands for an origin of its name: what
resolving an import or an export finds is traced back through the files that are asked for it.
-/
namespace AmbientBundle.Merge

open Names Step Syntax

variable {cx : Context} {earlier : SeenSet Url} {n : Nat} {r : Role} {files : List Url}
  {s t : State} {y : Yield} {target : Url} {name f : String}

/-- At the root, where merging can go on, final names are traced. -/
structure Tracing (cx : Context) (files : List Url) (s : State) : Prop where
  root : s.inBlock = false
  formed : FormedState cx s
  rooted : Rooted files s
  traced : Traced cx s

/-- A step that changes none of the root's final names. -/
theorem Traced.step (h : Traced cx s)
    (hl : ∀ file x, t.root.env.lookup file x = s.root.env.lookup file x) (hp : KeepsFirst s t)
    (hs : SpacesKept s t) : Traced cx t ∧ Lasts cx s t := by
  have hlast : Lasts cx s t := .of_kept (fun file x v hv => (hl file x).trans hv) hp hs
  exact ⟨h.lasts hlast (fun file x v hv => (hl file x).symm.trans hv), hlast⟩

theorem Traced.addItems (h : Traced cx s) (ps : List Piece) :
    Traced cx (s.addItems ps) ∧ Lasts cx s (s.addItems ps) :=
  h.step (by simp) (.same (by simp)) (.of_eq (by simp))

theorem Traced.takeItems (h : Traced cx s) (k : Nat) :
    Traced cx (s.takeItems k).2 ∧ Lasts cx s (s.takeItems k).2 :=
  h.step (by simp) (.same (by simp)) (.of_eq (by simp))

/-- A further step. -/
theorem traced_trans {u : State} (h : Traced cx t ∧ Lasts cx s t)
    (h' : Traced cx t → Traced cx u ∧ Lasts cx t u) : Traced cx u ∧ Lasts cx s u :=
  ⟨(h' h.1).1, h.2.trans (h' h.1).2⟩

/-- What resolving an export with depth `k` at the root finds stands for an origin. -/
def FindsOrigin (cx : Context) (k : Nat) : Prop :=
  ∀ ⦃files : List Url⦄ ⦃target : Url⦄ ⦃name f : String⦄ ⦃v v' : Visited⦄ ⦃s t : State⦄,
    Tracing cx files s → cx.LeadTo files target → cx.HasFile target →
    Asked cx name → resolveExport cx k target name v s = some ((some f, v'), t) →
    Came cx t (.exported target name) f

/-- The final name that is found for a specifier at the root stands for an origin of its local. -/
theorem Resolved.came (hfind : ∀ k < n, FindsOrigin cx k) {origin : Url} {d : ImportDecl}
    {sp : ImportSpecifier} (hcur : Current cx files origin s) (hsp : (d, sp) ∈ cx.specifiers origin)
    (hs : Tracing cx files s)
    (h : Resolved cx n origin d sp s (some f) t) : Came cx t (.own origin sp.loc) f := by
  obtain ⟨hd, hsp'⟩ := Context.mem_specifiers.1 hsp
  cases h with
  | outer hin h =>
    refine ⟨_, Context.from_imported hsp (Context.importOrigin?_of_none hin), Or.inl ?_⟩
    exact preserve_first h
  | space hin hall _ h =>
    refine ⟨_, Context.from_imported hsp (Context.importOrigin?_of_all hin hall), Or.inl ?_⟩
    have hw := (Context.Writes.loc hcur.file hd hsp').formed
    exact ((calls cx _).ensureSpace (r := .dependency)
      ((hcur.ready hs.formed).next (.imported hd hin)) (ofSpecifier_loc sp ▸ hw) h).2.2.2 hs.root
  | @named target name _ v _ k hin hinc hname hlt h =>
    have hlinks : cx.Links origin target := .imported hd hin
    have hasked : Asked cx name := .of_specifier hcur.file hsp hname
    have hfollow := Context.follow_imported hsp
    rw [Context.imported_of_inChunk? hin hname] at hfollow
    exact (hfind k hlt hs (hcur.lead.tail hlinks) (.linked hcur.file hlinks) hasked h).next
      hfollow

/-- A run keeps the root's final names traced, and they stand for what they stood for. -/
theorem Run.traced (hfind : ∀ k < n, FindsOrigin cx k) (h : Run cx n r files s y t)
    (hf : FormedState cx s) (hr : Rooted files s) (hs : Traced cx s) :
    Traced cx t ∧ Lasts cx s t := by
  induction h with
  | nothing => exact ⟨hs, .refl cx _⟩
  | andThen first second ih₁ ih₂ =>
    exact traced_trans (ih₁ hf hr hs) (ih₂ (first.formed hf).1 (first.rooted hr))
  | warn w => exact hs.step (fun _ _ => rfl) (.same rfl) (.of_eq rfl)
  | keepRun module => exact hs.step (fun _ _ => rfl) (.same rfl) (.of_eq rfl)
  | preserve typeOnly hkey hw =>
    exact hs.step (fun _ _ => rfl) (.keep rfl (by simp [hkey])) (.of_eq rfl)
  | preserveAgain typeOnly hkey =>
    exact hs.step (fun _ _ => rfl) (.keep rfl (by simp [hkey])) (.of_eq rfl)
  | @aliasImport r files s x key p hf' hkey =>
    have hmem : (key, p) ∈ s.preserved.entries := List.mem_of_find?_eq_some hkey
    exact hs.step (fun _ _ => rfl)
      (.keep rfl (by simp [OrderedMap.get?_eq_some_iff.2 hmem])) (.of_eq rfl)
  | aliasBinding hf' =>
    exact hs.step (fun _ _ => by rw [State.root_addItems_env]; rfl) (.same (by simp; rfl))
      (.of_eq (by simp; rfl))
  | @link r files s t origin d sp x hcur hsp _ run hres ih =>
    refine traced_trans (ih hf hr hs) (fun ht => ?_)
    have hcame (hb : t.inBlock = false) : Came cx t (.own origin sp.loc) x :=
      hres.came hfind hcur hsp ⟨run.inBlock_eq ▸ hb, hf, hr, hs⟩
    exact ⟨ht.link hcame, .link hcame⟩
  | unlinked w _ _ _ _ ih =>
    exact traced_trans (ih hf hr hs) (fun ht => ht.step (fun _ _ => rfl) (.same rfl) (.of_eq rfl))
  | @print r files s t u origin i exports τ _ _ _ _ _ _ run links ih₁ ih₂ =>
    have htaken := traced_trans (ih₁ hf hr hs) (fun ht => ht.takeItems s.scope.items.length)
    exact traced_trans htaken
      (ih₂ ((run.formed hf).1.takeItems _) ((run.rooted hr).takeItems _))
  | @inlined r q files s t u file ps hroot hnew hfile _ _ imports prints ih₁ ih₂ =>
    have hf' := hf.beginFile hfile
    have hr' := hr.beginFile (cx.statements file) file
    have hlinked := traced_trans (hs.beginFile hr hnew) (ih₁ hf' hr')
    have hprinted := traced_trans hlinked (ih₂ (imports.formed hf').1 (imports.rooted hr'))
    exact traced_trans hprinted (fun ht => ht.addItems ps)
  | atRoot _ run ih =>
    have hsuspended := hs.step (t := State.suspend _) (fun _ _ => rfl) (.same rfl) (.of_eq rfl)
    refine traced_trans (traced_trans hsuspended (ih hf.suspend hr.suspend)) (fun ht => ?_)
    exact ht.step (fun _ _ => by rw [State.root_inheritFromRoot]; rfl) (.same (by simp; rfl))
      (.of_eq (by simp; rfl))
  | @block r files s t u v w target wanted ps exports hnew hfile _ hw _ imports prints
      collects aliases ih₁ ih₂ ih₃ ih₄ =>
    have hf₁ := hf.beginBlock hfile hw
    have hr₁ := hr.beginBlock (cx.statements target) target (s.freshName wanted)
    obtain ⟨hf₂, hf₃, hf₄⟩ := hf.throughBlock hfile hw imports prints collects
    obtain ⟨hr₂, hr₃, hr₄⟩ := hr.throughBlock imports prints collects
    have hbegun := hs.step (t := ((s.claim (s.freshName wanted)).openBlock target
      (s.freshName wanted)).bindFile (cx.statements target) target) (fun f x =>
        State.lookup_root_begunBlock _ _ _ _ _ _) (.same (by simp; rfl)) (.beginBlock hnew _ _)
    have hbody := traced_trans (traced_trans hbegun (ih₁ hf₁ hr₁)) (ih₂ hf₂ hr₂)
    have hcollected := traced_trans (traced_trans hbody (fun ht => ht.addItems ps))
      (ih₃ hf₃ hr₃)
    have hclosed := traced_trans hcollected (fun ht => ht.step (t := v.closeBlock.2) (by simp)
      (.same (by simp)) (.of_eq (by simp)))
    exact traced_trans (traced_trans hclosed (ih₄ hf₄ hr₄)) (fun ht => ht.addItems _)
  | exportAgain _ _ _ _ _ _ ih => exact traced_trans (ih hf hr hs) (fun ht => ht.addItems _)

theorem Tracing.run (hfind : ∀ k < n, FindsOrigin cx k) (hs : Tracing cx files s)
    (run : Run cx n r files s y t) : Tracing cx files t :=
  ⟨run.inBlock_eq.trans hs.root, (run.formed hs.formed).1, run.rooted hs.rooted,
    (run.traced hfind hs.formed hs.rooted hs.traced).1⟩

/-- What looking for a name in the stars of a file with depth `k` at the root finds stands for an
origin. -/
def StarsFindOrigin (cx : Context) (k : Nat) : Prop :=
  ∀ ⦃files : List Url⦄ ⦃target : Url⦄ ⦃name f : String⦄ ⦃v v' : Visited⦄ ⦃s t : State⦄,
    Tracing cx files s → cx.LeadTo files target → cx.HasFile target →
    cx.Writes name → name ≠ "default" → cx.explicit? target name = none →
    resolveInStars cx k target name v s = some ((some f, v'), t) →
    Came cx t (.exported target name) f

theorem starsFindOrigin_succ (hfind : ∀ k < n, FindsOrigin cx k) (hn : FindsOrigin cx n) :
    StarsFindOrigin cx (n + 1) := by
  intro files target name f v v' s t hs hlead hhas hname hdefault hx h
  obtain ⟨b, s₁, hfold, hend⟩ := resolveInStars_inv h
  have H : Tracing cx files s₁ ∧ (∀ f, b.1 = some f → Came cx s₁ (.exported target name) f) ∧
      ∀ m, b.2.1 = some m → cx.From (.exported target name) (.outer m (.named name)) := by
    refine hfold.inv (fun _ b s' => Tracing cx files s' ∧
      (∀ f, b.1 = some f → Came cx s' (.exported target name) f) ∧
        ∀ m, b.2.1 = some m → cx.From (.exported target name) (.outer m (.named name)))
      ⟨hs, by simp, by simp⟩ ?_
    rintro done e b₁ b₂ s₂ s₃ he ⟨hs₂, hb₂, houter⟩ hstep
    cases hstep with
    | skip => exact ⟨hs₂, hb₂, houter⟩
    | @outer src first _ _ hsrc hin =>
      refine ⟨hs₂, by simp, fun m hm => ?_⟩
      cases first with
      | none =>
        obtain rfl : cx.placeSpecifier src target = m := by simpa using hm
        exact Context.from_star hx hdefault (hsrc ▸ he) hin
      | some m' =>
        obtain rfl : m' = m := by simpa using hm
        exact houter m' rfl
    | @inner src _ found _ v₂ file _ s₄ _ hsrc hin hinc h =>
      subst hsrc
      have hlinks : cx.Links target file := .exported he rfl hin
      have hready : Ready cx files file s₂ :=
        ⟨hs₂.formed, hlead.tail hlinks, .linked hhas hlinks⟩
      obtain ⟨run₁, run₂, _⟩ :=
        (calls cx n).asks (r := .dependency) hready (Or.inr hname) hinc h
      have hs₄ := hs₂.run hfind run₁
      refine ⟨hs₄.run hfind run₂, fun f hf => ?_, houter⟩
      have hf : found = some f := hf
      subst hf
      exact (hn hs₄ hready.lead hready.has (Or.inr hname) h).next
        (Context.takeFrom_of_inChunk? hin ▸ Context.follow_star hx hdefault he)
  obtain ⟨_, hb, houter⟩ := H
  cases hend with
  | found => exact hb f rfl
  | outer h => exact ⟨_, houter _ rfl, Or.inl (preserve_first h)⟩

theorem findsOrigin_succ (hfind : ∀ k < n, FindsOrigin cx k) (hn : FindsOrigin cx n)
    (hstars : StarsFindOrigin cx n) : FindsOrigin cx (n + 1) := by
  intro files target name f v v' s t hs hlead hhas hname h
  have hinv := resolveExport_inv h
  generalize hfound : some f = found at hinv
  cases hinv with
  | again => cases hfound
  | noDefault => cases hfound
  | @listed k property id hx =>
    have hl : s.scope.env.lookup target property = some f := hfound.symm
    rw [State.scope_of_root hs.root] at hl
    exact (hs.traced target property f hl).next (Context.follow_listed hx)
  | source hx hin hinc h =>
    subst hfound
    obtain ⟨hlinks, hasked⟩ := Calls.explicit_asks hhas hx hin
    have hready : Ready cx files _ s := ⟨hs.formed, hlead.tail hlinks, .linked hhas hlinks⟩
    obtain ⟨run, _⟩ := (calls cx n).includeFile (r := .dependency) hready (by simp) hinc
    have hcame := hn (hs.run hfind run) hready.lead hready.has hasked h
    exact hcame.next (Context.takeFrom_of_inChunk? hin ▸ Context.follow_source hx)
  | outer hx hin h =>
    cases hfound
    exact ⟨_, Context.from_source hx hin, Or.inl (preserve_first h)⟩
  | space hx hin h =>
    cases hfound
    obtain ⟨hlinks, hw⟩ := Calls.explicit_opens hhas hx hin
    have hready : Ready cx files _ s := Ready.next ⟨hs.formed, hlead, hhas⟩ hlinks
    refine ⟨_, Context.from_space hx, Or.inl ?_⟩
    rw [Context.spaceOrigin_of_inChunk? hin]
    exact ((calls cx n).ensureSpace (r := .dependency) hready hw h).2.2.2 hs.root
  | outerSpace hx hin h =>
    cases hfound
    refine ⟨_, Context.from_space hx, Or.inl ?_⟩
    rw [Context.spaceOrigin_of_none hin]
    exact preserve_first h
  | stars hx hdefault h =>
    subst hfound
    exact hstars hs hlead hhas (hname.resolve_left hdefault) hdefault hx h

/-- What resolving an export at the root finds stands for an origin, at any depth. -/
theorem findsOrigin (cx : Context) (k : Nat) : FindsOrigin cx k := by
  refine resolve_induction (P := FindsOrigin cx) (Q := StarsFindOrigin cx) ?_ ?_
    (fun n hfind hn hstars => findsOrigin_succ hfind hn hstars)
    (fun n hfind hn => starsFindOrigin_succ hfind hn) k
  · intro files target name f v v' s t _ _ _ _ h
    exact (failure_inv h).elim
  · intro files target name f v v' s t _ _ _ _ _ _ h
    exact (failure_inv h).elim

section Tracing

variable {withDefault : Bool} {c : Collected} {u : State}

/-- Merging goes on, and final names stand for what they stood for. -/
theorem Tracing.goesOn (hs : Tracing cx files s) (run : Run cx n r files s y t) :
    Tracing cx files t ∧ Lasts cx s t :=
  ⟨hs.run (fun k _ => findsOrigin cx k) run,
    (run.traced (fun k _ => findsOrigin cx k) hs.formed hs.rooted hs.traced).2⟩

theorem Tracing.resolved {found : Option String} {v v' : Visited} (hs : Tracing cx files s)
    (hlead : cx.LeadTo files target) (hhas : cx.HasFile target) (hasked : Asked cx name)
    (h : resolveExport cx n target name v s = some ((found, v'), t)) :
    Tracing cx files t ∧ Lasts cx s t :=
  hs.goesOn ((calls cx n).resolveExport (r := .dependency) ⟨hs.formed, hlead, hhas⟩ hasked h).1

theorem Tracing.onwards (hs : Tracing cx files s) (h : Onwards cx files s t) :
    Tracing cx files t ∧ Lasts cx s t := by
  induction h with
  | refl => exact ⟨hs, .refl cx s⟩
  | run _ run _ ih =>
    obtain ⟨hu, hlast⟩ := ih.1.goesOn run
    exact ⟨hu, ih.2.trans hlast⟩
  | @takeItems u _ k ih =>
    obtain ⟨hu, hlast⟩ := ih.1.traced.takeItems k
    have hroot := State.inBlock_congr (State.targets_takeItems u k)
    exact ⟨⟨hroot.trans ih.1.root, ih.1.formed.takeItems k, ih.1.rooted.takeItems k, hu⟩,
      ih.2.trans hlast⟩

/-- Including entry files traces all final names. -/
theorem Reached.tracing (h : Reached cx earlier files s) : Tracing cx [] s := by
  induction h with
  | start => exact ⟨rfl, .start earlier, .start earlier, .start cx earlier⟩
  | entry before hhas h ih => exact (ih.goesOn (h.run before.atRoot hhas)).1

/-- While exports are collected at the root, what is found stands for origins. -/
theorem collecting_traced (cx : Context) (files : List Url) :
    Collecting cx files (Tracing cx files) (fun t g name f => Came cx t (.exported g name) f)
      (fun _ _ _ => True) where
  formed hs := hs.formed
  carries hs run := by
    obtain ⟨ht, hlast⟩ := hs.goesOn run
    exact ⟨ht, fun _ _ _ h => h.lasts hlast, fun _ _ h => h⟩
  finds hs hlead hhas hasked _ h := findsOrigin cx _ hs hlead hhas hasked h
  misses _ _ _ _ _ _ := trivial

/-- Each name that is collected at the root stands for an origin of an export of the name: of the
file's own, if it has one. -/
theorem collect_came (hs : Tracing cx files s) (hlead : cx.LeadTo files target)
    (hhas : cx.HasFile target) (hinc : s.included.contains target = true)
    (h : collect cx n target withDefault Collected.empty s = some (c, t)) :
    Tracing cx files t ∧ ∀ name f, (name, f) ∈ c.names → ∃ g, cx.Offers target withDefault g name ∧
      (cx.Lists target name → g = target) ∧ Came cx t (.exported g name) f := by
  obtain ⟨ht, hc⟩ := (collecting_traced cx files).collects hs hlead hhas (fun _ => hinc) h
  refine ⟨ht.holds, fun name f he => ?_⟩
  rcases hc.gathers.sound name f he with he | ⟨_, g, ho, hpath, hf⟩
  · cases he
  · exact ⟨g, ho, fun hl => hpath.eq_of_lists hl, hf⟩

end Tracing

end AmbientBundle.Merge
