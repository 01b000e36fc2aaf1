import AmbientBundle.Proofs.Merge.Calls
/-!
The calls that link imports, resolve exports and build namespace blocks; then all calls are runs,
by induction on their depth.
-/
namespace AmbientBundle.Merge

open Names Syntax

variable {cx : Context} {n : Nat} {r : Role} {files : List Url} {s t : State}

namespace Calls

open Step

section Imports

variable {origin : Url} {d : ImportDecl} {sp : ImportSpecifier}

/-- Linking the local of a specifier to a final name, or warning that there is none. -/
theorem link_run (target : Url) (final : Option String) {s₁ : State} {u : Unit}
    (hcur : Current cx files origin s) (hd : d ∈ cx.imports origin) (hsp : sp ∈ d.specifiers)
    (run : Run cx n r files s ∅ s₁)
    (h : (match final with
      | some f => modify (State.link origin (ofSpecifier sp).1 f)
      | none => modify (State.warn (.unknownImport target origin (ofSpecifier sp).1)) :
        Step Unit) s₁ = some (u, t))
    (hf : ∀ f, final = some f → cx.Formed f) (hres : Resolved cx n origin d sp s final s₁) :
    Run cx n r files s ⟨[], [(d, sp)], []⟩ t := by
  cases final with
  | some f =>
    obtain rfl := modify_inv h
    rw [ofSpecifier_loc]
    exact .link hcur (Context.mem_specifiers.2 ⟨hd, hsp⟩) (hf f rfl) run hres
  | none =>
    obtain rfl := modify_inv h
    rw [ofSpecifier_loc]
    exact .unlinked target hcur (Context.mem_specifiers.2 ⟨hd, hsp⟩) run hres

theorem mergeOuterImport_run {u : Unit} (hs : FormedState cx s) (hcur : Current cx files origin s)
    (hd : d ∈ cx.imports origin) (hin : cx.inChunk? d.src.value origin = none)
    (h : mergeOuterImport cx origin d s = some (u, t)) :
    Run cx n r files s ⟨[], d.specifiers.map (d, ·), []⟩ t := by
  unfold mergeOuterImport at h
  have hstart : ∃ s₁, Run cx n r files s ∅ s₁ ∧ (d.specifiers.forM (fun sp => do
      let final ← preserve (cx.placeSpecifier d.src.value origin) (ofSpecifier sp).2.1
        (ofSpecifier sp).1 (d.typeOnly || (ofSpecifier sp).2.2)
      modify (State.link origin (ofSpecifier sp).1 final)) : Step Unit) s₁ = some (u, t) := by
    dsimp only at h
    split at h
    · obtain ⟨_, s₁, hm, h⟩ := bind_inv h
      obtain rfl := modify_inv hm
      exact ⟨_, .keepRun _ ⟨origin, hcur.file, d, hd, hin, rfl⟩, h⟩
    · exact ⟨s, .nothing, h⟩
  obtain ⟨s₁, run, h⟩ := hstart
  refine run.before ?_
  refine forM_inv (fun done s' => Run cx n r files s₁ ⟨[], done.map (d, ·), []⟩ s') h .nothing ?_
  intro done sp s₂ s₃ _ hsp run' hstep
  have hcur₂ := (hcur.mono run).mono run'
  have hs₂ := (run'.formed (run.formed hs).1).1
  obtain ⟨f, s₄, hp, hstep⟩ := bind_inv hstep
  obtain rfl := modify_inv hstep
  have hw : cx.Formed (ofSpecifier sp).1 :=
    ofSpecifier_loc sp ▸ (Context.Writes.loc hcur.file hd hsp).formed
  have hp' : Run cx n r files s₂ ∅ s₄ ∧ cx.Formed f := preserve_run hs₂ hw
    (.imported hcur.file hd hsp hin) hp
  rw [List.map_append, List.map_singleton, ofSpecifier_loc]
  exact run'.andThen (.link hcur₂ (Context.mem_specifiers.2 ⟨hd, hsp⟩) hp'.2 hp'.1 (.outer hin hp))

theorem mergeImport_succ (ih : Calls cx n) {u : Unit} (hs : FormedState cx s)
    (hcur : Current cx files origin s) (hd : d ∈ cx.imports origin)
    (h : Merge.mergeImport cx (n + 1) origin d s = some (u, t)) :
    Run cx (n + 1) r files s ⟨[], d.specifiers.map (d, ·), []⟩ t := by
  unfold Merge.mergeImport at h
  cases hin : cx.inChunk? d.src.value origin with
  | none =>
    simp only [hin] at h
    exact mergeOuterImport_run hs hcur hd hin h
  | some target =>
    simp only [hin] at h
    obtain ⟨_, s₁, hinc, h⟩ := bind_inv h
    have hready := (hcur.ready hs).next (.imported hd hin)
    obtain ⟨run, hincluded⟩ := ih.includeFile (r := r) hready (by simp) hinc
    refine (run.mono (Nat.le_succ n)).before ?_
    refine forM_inv (fun done s' => Run cx (n + 1) r files s₁ ⟨[], done.map (d, ·), []⟩ s') h
      .nothing ?_
    intro done sp s₂ s₃ _ hsp run' hstep
    have hready₂ := (hready.mono run).mono run'
    have hcur₂ := (hcur.mono run).mono run'
    have hinc₂ : s₂.inBlock = false → s₂.included.contains target = true := fun hb =>
      run'.grows.contains (hincluded (run.inBlock_eq ▸ run'.inBlock_eq ▸ hb))
    rw [List.map_append, List.map_singleton]
    refine Run.andThen (z := ⟨[], [(d, sp)], []⟩) run' ?_
    cases himp : (ofSpecifier sp).2.1 with
    | named name =>
      simp only [himp] at hstep
      obtain ⟨final, s₄, hmap, hstep⟩ := bind_inv hstep
      obtain ⟨⟨final', v⟩, hres, rfl⟩ := map_inv hmap
      have hname : Asked cx name := Or.inr (.imported hcur.file hd hsp himp)
      obtain ⟨runr, hf⟩ := ih.resolveExport (r := r) hready₂ hname hres
      exact link_run target final' hcur₂ hd hsp (runr.mono (Nat.le_succ n)) hstep hf
        (.named hin hinc₂ (by rw [himp]; rfl) (Nat.lt_succ_self n) hres)
    | default =>
      simp only [himp] at hstep
      obtain ⟨final, s₄, hmap, hstep⟩ := bind_inv hstep
      obtain ⟨⟨final', v⟩, hres, rfl⟩ := map_inv hmap
      obtain ⟨runr, hf⟩ := ih.resolveExport (r := r) hready₂ (Or.inl rfl) hres
      exact link_run target final' hcur₂ hd hsp (runr.mono (Nat.le_succ n)) hstep hf
        (.named hin hinc₂ (by rw [himp]; rfl) (Nat.lt_succ_self n) hres)
    | all =>
      simp only [himp] at hstep
      obtain ⟨final, s₄, hmap, hstep⟩ := bind_inv hstep
      obtain ⟨f, hres, rfl⟩ := map_inv hmap
      have hw : cx.Formed (ofSpecifier sp).1 :=
        ofSpecifier_loc sp ▸ (Context.Writes.loc hcur.file hd hsp).formed
      obtain ⟨runr, hf, _⟩ := ih.ensureSpace (r := r) hready₂ hw hres
      exact link_run target (some f) hcur₂ hd hsp (runr.mono (Nat.le_succ n)) hstep
        (fun g hg => Option.some.inj hg ▸ hf) (.space hin himp (Nat.lt_succ_self n) hres)

end Imports

section Exports

variable {origin target : Url} {name : String} {v v' : Visited} {found : Option String}

/-- The explicit export of a name is one of the file's exports. -/
theorem exported_of_explicit? {e : ExportedSymbol} (h : cx.explicit? target name = some e) :
    e ∈ cx.exports target ∧ e.exportedName? = some name :=
  ⟨List.mem_of_find?_eq_some h, by simpa using List.find?_some h⟩

/-- An export from another file asks that file for a name. -/
theorem explicit_asks {k property src : String} {id : Option DeclId} {file : Url}
    (hhas : cx.HasFile target)
    (hx : cx.explicit? target name = some (.named k property (some src) id))
    (hin : cx.inChunk? src target = some file) : cx.Links target file ∧ Asked cx property := by
  obtain ⟨hmem, -⟩ := exported_of_explicit? hx
  exact ⟨.exported hmem rfl hin, Or.inr (.property hhas hmem)⟩

/-- An export of another file as a whole leads to that file, which has a block of the name. -/
theorem explicit_opens {k src : String} {file : Url} (hhas : cx.HasFile target)
    (hx : cx.explicit? target name = some (.allAs k src))
    (hin : cx.inChunk? src target = some file) : cx.Links target file ∧ cx.Formed name := by
  obtain ⟨hmem, hexp⟩ := exported_of_explicit? hx
  exact ⟨.exported hmem rfl hin, (Context.Writes.exported hhas hmem hexp).formed⟩

/-- A file that is included and then asked for a name. -/
theorem asks {file : Url} {s u t : State} (h : Calls cx n) (hs : Ready cx files file s)
    (hname : Asked cx name) (hinc : Merge.includeFile cx n file .dependency s = some ((), u))
    (hres : Merge.resolveExport cx n file name v u = some ((found, v'), t)) :
    Run cx n r files s ∅ u ∧ Run cx n r files u ∅ t ∧ ∀ f, found = some f → cx.Formed f := by
  obtain ⟨run, -⟩ := h.includeFile (r := r) hs (by simp) hinc
  exact ⟨run, h.resolveExport (hs.mono run) hname hres⟩

theorem resolveExport_succ (ih : Calls cx n) (hs : Ready cx files target s) (hname : Asked cx name)
    (h : Merge.resolveExport cx (n + 1) target name v s = some ((found, v'), t)) :
    Run cx (n + 1) r files s ∅ t ∧ ∀ f, found = some f → cx.Formed f := by
  cases resolveExport_inv h with
  | again => exact ⟨.nothing, by simp⟩
  | listed => exact ⟨.nothing, fun f hf => (hs.formed.scope.names.lookup hf).formed⟩
  | source hx hin hinc h =>
    obtain ⟨hlinks, hasked⟩ := explicit_asks hs.has hx hin
    obtain ⟨run, run', hf⟩ := ih.asks (r := r) (hs.next hlinks) hasked hinc h
    exact ⟨(run.before run').mono (Nat.le_succ n), hf⟩
  | @outer k property src f id t hx hin h =>
    obtain ⟨hmem, hexp⟩ := exported_of_explicit? hx
    have hp : Run cx (n + 1) r files s ∅ t ∧ cx.Formed f :=
      preserve_run hs.formed (Context.Writes.exported hs.has hmem hexp).formed
        (.named hs.has hmem hin) h
    exact ⟨hp.1, fun g hg => Option.some.inj hg ▸ hp.2⟩
  | space hx hin h =>
    obtain ⟨hlinks, hw⟩ := explicit_opens hs.has hx hin
    obtain ⟨run, hf, _⟩ := ih.ensureSpace (r := r) (hs.next hlinks) hw h
    exact ⟨run.mono (Nat.le_succ n), fun g hg => Option.some.inj hg ▸ hf⟩
  | @outerSpace k src f t hx hin h =>
    obtain ⟨hmem, hexp⟩ := exported_of_explicit? hx
    have hp : Run cx (n + 1) r files s ∅ t ∧ cx.Formed f :=
      preserve_run hs.formed (Context.Writes.exported hs.has hmem hexp).formed
        (.space hs.has hmem hin) h
    exact ⟨hp.1, fun g hg => Option.some.inj hg ▸ hp.2⟩
  | noDefault => exact ⟨.nothing, by simp⟩
  | stars _ hn h =>
    obtain ⟨run, hf⟩ := ih.resolveInStars (r := r) hs (hname.resolve_left hn) h
    exact ⟨run.mono (Nat.le_succ n), hf⟩

/-- Looking for a name in the stars of a file. -/
theorem stars_run (ih : Calls cx n) (hs : Ready cx files target s) (hname : cx.Writes name)
    {l : List ExportedSymbol} (hl : l ⊆ cx.exports target)
    {b c : Option String × Option String × Visited}
    (h : Folds (StarStep cx n target name) l b s c t) (hb : ∀ f, b.1 = some f → cx.Formed f)
    (hb' : ∀ module, b.2.1 = some module → cx.TakesOut (module, .named name) false) :
    Run cx n r files s ∅ t ∧ (∀ f, c.1 = some f → cx.Formed f) ∧
      ∀ module, c.2.1 = some module → cx.TakesOut (module, .named name) false := by
  refine h.inv (fun _ b s' => Run cx n r files s ∅ s' ∧ (∀ f, b.1 = some f → cx.Formed f) ∧
    ∀ module, b.2.1 = some module → cx.TakesOut (module, .named name) false) ⟨.nothing, hb, hb'⟩ ?_
  intro done e b₁ b₂ s₁ s₂ he ⟨run, hb₁, hout⟩ hstep
  cases hstep with
  | skip => exact ⟨run, hb₁, hout⟩
  | @outer src outer v s hsrc hin =>
    subst hsrc
    refine ⟨run, by simp, fun module hm => ?_⟩
    cases outer with
    | some first => exact hout module hm
    | none => exact Option.some.inj hm ▸ .star hs.has (hl he) hin hname
  | inner hsrc hin hinc h =>
    subst hsrc
    have hready := (hs.mono run).next (.exported (hl he) rfl hin)
    obtain ⟨run₁, run₂, hf⟩ := ih.asks (r := r) hready (Or.inr hname) hinc h
    exact ⟨run.after (run₁.before run₂), hf, hout⟩

theorem resolveInStars_succ (ih : Calls cx n) (hs : Ready cx files target s)
    (hname : cx.Writes name)
    (h : Merge.resolveInStars cx (n + 1) target name v s = some ((found, v'), t)) :
    Run cx (n + 1) r files s ∅ t ∧ ∀ f, found = some f → cx.Formed f := by
  obtain ⟨b, s₁, hfold, hend⟩ := resolveInStars_inv h
  obtain ⟨run, hf, hout⟩ :=
    ih.stars_run (r := r) hs hname (List.Subset.refl _) hfold (by simp) (by simp)
  cases hend with
  | found => exact ⟨run.mono (Nat.le_succ n), hf⟩
  | @outer module f v s₁ t h =>
    have hp : Run cx (n + 1) r files s₁ ∅ t ∧ cx.Formed f :=
      preserve_run (run.formed hs.formed).1 hname.formed (hout module rfl) h
    exact ⟨(run.mono (Nat.le_succ n)).before hp.1, fun g hg => Option.some.inj hg ▸ hp.2⟩
  | none => exact ⟨run.mono (Nat.le_succ n), by simp⟩

/-- Collecting what a file exports by itself. -/
theorem names_run (ih : Calls cx n) {withDefault : Bool} {c c' : Collected} {l : List String}
    (hs : Ready cx files target s) (hl : ∀ name ∈ l, cx.Writes name)
    (hc : ∀ e ∈ c.names, cx.Formed e.2)
    (h : Folds (NameStep cx n target withDefault) l c s c' t) :
    Run cx n r files s ∅ t ∧ ∀ e ∈ c'.names, cx.Formed e.2 := by
  refine h.inv (fun _ b s' => Run cx n r files s ∅ s' ∧ ∀ e ∈ b.names, cx.Formed e.2)
    ⟨.nothing, hc⟩ ?_
  intro done name b₁ b₂ s₁ s₂ hname ⟨run, hb⟩ hstep
  cases hstep with
  | skip => exact ⟨run, hb⟩
  | @found f v _ _ _ h =>
    obtain ⟨run', hf⟩ := ih.resolveExport (r := r) (hs.mono run) (Or.inr (hl name hname)) h
    refine ⟨run.after run', fun e he => ?_⟩
    rcases List.mem_append.1 he with he | he
    · exact hb e he
    · rw [List.mem_singleton.1 he]
      exact hf f rfl
  | missing _ _ h =>
    obtain ⟨run', _⟩ := ih.resolveExport (r := r) (hs.mono run) (Or.inr (hl name hname)) h
    exact ⟨run.after (run'.after (.warn _)), hb⟩

/-- Collecting what the stars of a file export. -/
theorem starNames_run (ih : Calls cx n) {c c' : Collected} {l : List ExportedSymbol}
    (hs : Ready cx files target s) (hl : l ⊆ cx.exports target)
    (hc : ∀ e ∈ c.names, cx.Formed e.2)
    (h : Folds (StarCollectStep cx n target) l c s c' t) :
    Run cx n r files s ∅ t ∧ ∀ e ∈ c'.names, cx.Formed e.2 := by
  refine h.inv (fun _ b s' => Run cx n r files s ∅ s' ∧ ∀ e ∈ b.names, cx.Formed e.2)
    ⟨.nothing, hc⟩ ?_
  intro done e b₁ b₂ s₁ s₂ he ⟨run, hb⟩ hstep
  cases hstep with
  | skip => exact ⟨run, hb⟩
  | outer =>
    refine ⟨run, fun e he => hb e ?_⟩
    unfold Collected.addStar at he
    split at he <;> exact he
  | inner hsrc hin hinc h =>
    subst hsrc
    have hready := (hs.mono run).next (.exported (hl he) rfl hin)
    obtain ⟨run₂, _⟩ := ih.includeFile (r := r) hready (by simp) hinc
    obtain ⟨run₃, hb'⟩ := ih.collect (r := r) (hready.mono run₂) hb h
    exact ⟨run.after (run₂.before run₃), hb'⟩

theorem collect_succ (ih : Calls cx n) {withDefault : Bool} {c c' : Collected}
    (hs : Ready cx files target s) (hc : ∀ e ∈ c.names, cx.Formed e.2)
    (h : Merge.collect cx (n + 1) target withDefault c s = some (c', t)) :
    Run cx (n + 1) r files s ∅ t ∧ ∀ e ∈ c'.names, cx.Formed e.2 := by
  cases collect_inv h with
  | again => exact ⟨.nothing, hc⟩
  | all _ hnames hstars =>
    have hwrites : ∀ name ∈ (cx.exports target).filterMap ExportedSymbol.exportedName?,
        cx.Writes name := fun name hname => by
      obtain ⟨e, he, hexp⟩ := List.mem_filterMap.1 hname
      exact .exported hs.has he hexp
    have hown := ih.names_run (r := r) (c := { c with visited := target :: c.visited }) hs hwrites
      hc hnames
    obtain ⟨run₁, hc₁⟩ := hown
    obtain ⟨run₂, hc₂⟩ := ih.starNames_run (r := r) (hs.mono run₁) (List.Subset.refl _) hc₁ hstars
    exact ⟨(run₁.before run₂).mono (Nat.le_succ n), hc₂⟩

theorem exportAgain_succ (ih : Calls cx n) {file : Url} {u : Unit} (hs : Ready cx [] file s)
    (hroot : s.inBlock = false) (hold : s.included.contains file = true)
    (h : Merge.exportAgain cx (n + 1) file s = some (u, t)) : Run cx (n + 1) .entry [] s ∅ t := by
  obtain ⟨c, s₁, hc, rfl⟩ := exportAgain_inv h
  have run := (ih.collect (r := .dependency) hs (by simp [Collected.empty]) hc).1
  exact .exportAgain hroot hold hs.has (Nat.lt_succ_self n) hc (run.mono (Nat.le_succ n))

theorem mergeStar_succ (ih : Calls cx n) {d : ExportAll} {es : List Item}
    (hs : Ready cx files origin s) (hd : .exportAll d ∈ cx.statements origin)
    (h : Merge.mergeStar cx (n + 1) origin d.src.value s = some (es, t)) :
    Run cx (n + 1) r files s ∅ t ∧ ∀ e ∈ es, isExportStatement e = true := by
  cases mergeStar_inv h with
  | outer => exact ⟨.nothing, fun e he => by rw [List.mem_singleton.1 he]; rfl⟩
  | inner hin hc =>
    have hready := hs.next (.exported (Context.mem_exports_of_star hd) rfl hin)
    have run := (ih.collect (r := r) hready (by simp [Collected.empty]) hc).1
    exact ⟨run.mono (Nat.le_succ n), fun e he => isExportStatement_of_mem_items he⟩

theorem mergeReexport_succ (ih : Calls cx n) {d : ExportList} {src : StrLit} {es : List Item}
    (hs : Ready cx files origin s) (hd : .exportList d ∈ cx.statements origin)
    (hsrc : d.src = some src)
    (h : Merge.mergeReexport cx (n + 1) origin d src.value s = some (es, t)) :
    Run cx (n + 1) r files s ∅ t ∧ ∀ e ∈ es, isExportStatement e = true := by
  cases mergeReexport_inv h with
  | outer => exact ⟨.nothing, fun e he => by rw [List.mem_singleton.1 he]; rfl⟩
  | @inner file specifiers t hin steps =>
    refine ⟨?_, fun e he => ?_⟩
    · refine steps.inv (fun _ _ s' => Run cx (n + 1) r files s ∅ s') .nothing ?_
      intro done sp outs outs' s₂ s₃ hsp run hstep
      obtain ⟨e, he, hof⟩ := Context.mem_exports_of_specifier hd hsrc hsp
      have hready := hs.mono run
      have hresolved {orig : ExportName} {exported : Option ExportName} {typeOnly : Bool}
          {found : Option String} {v : Visited} {s₄ : State}
          (hof : Exports.ofSpecifier (some src.value) (.named orig exported typeOnly) = some e)
          (h : Merge.resolveExport cx n file orig.text [] s₂ = some ((found, v), s₄)) :
          Run cx (n + 1) r files s ∅ s₄ := by
        cases hof
        exact run.after ((ih.resolveExport (r := r) (hready.next (.exported he rfl hin))
          (Or.inr (.property hs.has he)) h).1.mono (Nat.le_succ n))
      cases hstep with
      | found h => exact hresolved hof h
      | missing h => exact (hresolved hof h).after (.warn _)
      | space h =>
        cases hof
        exact run.after ((ih.ensureSpace (r := r) (hready.next (.exported he rfl hin))
          (Context.Writes.exported hs.has he rfl).formed h).1.mono (Nat.le_succ n))
    · split at he
      · cases he
      · rw [List.mem_singleton.1 he]
        rfl

theorem reexport_succ (ih : Calls cx n) {i : Item} {es : List Item}
    (hs : Ready cx files origin s) (hi : i ∈ cx.statements origin)
    (h : Merge.reexport cx (n + 1) origin i s = some (es, t)) :
    Run cx (n + 1) r files s ∅ t ∧ ∀ e ∈ es, isExportStatement e = true := by
  cases reexport_inv h with
  | list hsrc h =>
    obtain ⟨run, he⟩ := ih.mergeReexport (r := r) hs hi hsrc h
    exact ⟨run.mono (Nat.le_succ n), he⟩
  | star h =>
    obtain ⟨run, he⟩ := ih.mergeStar (r := r) hs hi h
    exact ⟨run.mono (Nat.le_succ n), he⟩
  | nothing => exact ⟨.nothing, by simp⟩

end Exports

section Spaces

variable {origin target : Url}

/-- A warning for each of the given things. -/
theorem warns_run {α : Type} {l : List α} {w : α → Warning} {v : PUnit}
    (h : (l.forM (fun a => modify (State.warn (w a))) : Step PUnit) s = some (v, t)) :
    Run cx n r files s ∅ t ∧ t = { s with warnings := t.warnings } ∧ ∀ a ∈ l, w a ∈ t.warnings := by
  refine forM_inv (fun done s' => Run cx n r files s ∅ s' ∧
    s' = { s with warnings := s'.warnings } ∧ ∀ a ∈ done, w a ∈ s'.warnings) h
    ⟨.nothing, rfl, by simp⟩ ?_
  intro done a s₁ s₂ _ _ ⟨run, hsame, hwarned⟩ hstep
  obtain rfl := modify_inv hstep
  refine ⟨run.after (.warn _), by rw [hsame]; rfl, fun a' ha' => List.mem_append.2 ?_⟩
  exact (List.mem_append.1 ha').imp (hwarned a')
    (fun h => by rw [List.mem_singleton.1 h]; exact List.mem_singleton_self _)

/-- What is exported of a block under a name that no member of it binds gets a further name. -/
theorem exportsOf_run {members : List String} {names exports : List (String × String)}
    (hnames : ∀ e ∈ names, cx.Formed e.2)
    (h : (names.mapM (fun e => do
      if e.1 = e.2 && !members.contains e.2 then return (e.1, ← aliasOuter e.2) else return e) :
        Step (List (String × String))) s = some (exports, t)) :
    Run cx n r files s ∅ t ∧ List.Forall₂ (ExportOf members s t) names exports := by
  refine mapM_inv (fun done outs s' => Run cx n r files s ∅ s' ∧
    List.Forall₂ (ExportOf members s s') done outs) h ⟨.nothing, .nil⟩ ?_
  intro done outs e e' s₁ s₂ he ⟨run, houts⟩ hstep
  split at hstep
  · rename_i hsame
    have hsame : e.1 = e.2 ∧ e.2 ∉ members := by simpa using hsame
    obtain ⟨f, s₃, halias, hstep⟩ := bind_inv hstep
    obtain ⟨rfl, rfl⟩ := pure_inv hstep
    have run' : Run cx n r files s₁ ∅ s₃ := aliasOuter_run (hnames e he) halias
    refine ⟨run.after run', ?_⟩
    refine List.rel_append (houts.imp (fun _ _ h => h.mono run'.onward run'.grows))
      (.cons (.renamed hsame.1 hsame.2 rfl ?_) .nil)
    exact (aliasOuter_renames halias).mono run.onward run.grows (.refl _) (.refl _)
  · rename_i hsame
    obtain ⟨rfl, rfl⟩ := pure_inv hstep
    refine ⟨run, List.rel_append houts (.cons (.same rfl (fun hself => ?_)) .nil)⟩
    by_contra hm
    exact hsame (by simpa [hself] using hm)

theorem ensureSpace_succ (ih : Calls cx n) {wanted name : String} (hs : Ready cx files target s)
    (hw : cx.Formed wanted)
    (h : Merge.ensureSpace cx (n + 1) target wanted s = some (name, t)) :
    Run cx (n + 1) r files s ∅ t ∧ cx.Formed name ∧
      (s.space? target = some name ∨ t.root.env.owner? name = some .chunk) ∧
        (s.inBlock = false → t.root.spaces.get? target = some name) := by
  cases ensureSpace_inv h with
  | old hold =>
    refine ⟨.nothing, hs.formed.space? hold, Or.inl hold, fun hroot => ?_⟩
    rwa [State.space?_of_root hroot] at hold
  | @built c exports s₁ s₂ s₃ s₄ s₅ s₆ hnew inlined hidden collected stars renamed unbound =>
    have hs₁ : FormedState cx ((s.claim (s.freshName wanted)).openBlock target
        (s.freshName wanted)) := (hs.formed.claim _).openBlock _ (Context.formed_fresh hw _)
    have hcur : Current cx files target ((s.claim (s.freshName wanted)).openBlock target
        (s.freshName wanted)) :=
      ⟨fun hb => by simp [State.inBlock_openBlock] at hb, fun _ => by simp, hs.lead, hs.has⟩
    obtain ⟨t₁, t₂, ps, himports, hprints, rfl⟩ := ih.inlineFile hs₁ hcur inlined
    obtain ⟨hu, hps⟩ := hprints.formed (himports.formed (hs.formed.beginBlock hs.has hw)).1
    obtain ⟨ws, hws, run₂⟩ : ∃ ws, s₂ = { t₂.addItems ps with warnings := ws } ∧
        Run cx n .dependency files (t₂.addItems ps) ∅ s₂ := by
      rcases hidden with rfl | rfl
      · exact ⟨_, rfl, .nothing⟩
      · exact ⟨_, rfl, .warn _⟩
    have hready : Ready cx files target s₂ :=
      ⟨(run₂.formed (hu.addItems hps)).1, hs.lead, hs.has⟩
    obtain ⟨run₃, hc⟩ := ih.collect (r := .dependency) hready (by simp [Collected.empty]) collected
    obtain ⟨run₄, hs₄, -⟩ : Run cx n .dependency files s₃ ∅ s₄ ∧ _ := warns_run stars
    have collects := run₂.before (run₃.before run₄)
    obtain ⟨run₅, hnamed⟩ : Run cx n r files s₄.closeBlock.2 ∅ s₅ ∧ _ := exportsOf_run hc renamed
    obtain ⟨run₆, -, hwarned⟩ : Run cx n r files s₅ ∅ s₆ ∧ _ := warns_run unbound
    have aliases := run₅.before run₆
    have hspace : SpaceExports cx (n + 1) target (t₂.addItems ps) s₄ s₆ exports :=
      ⟨ws, c, s₃, n, Nat.lt_succ_self n, hws ▸ collected, hs₄, run₄.onward.warnings.subset,
        hnamed.imp (fun _ _ h => h.mono run₆.onward run₆.grows), hwarned⟩
    refine ⟨?_, Context.formed_fresh hw _, Or.inr ?_, fun hroot => ?_⟩
    · exact .block hnew hs.has hs.lead hw hspace (himports.mono (Nat.le_succ n))
        (hprints.mono (Nat.le_succ n)) (collects.mono (Nat.le_succ n)) (aliases.mono (Nat.le_succ n))
    · have hbuilt := (Run.grows_closeBlock himports hprints collects).trans aliases.grows
      exact (hbuilt.trans (.addItems s₆ _)).owner _ _ (s.owner?_claim_freshName wanted)
    · have hb : (s.claim (s.freshName wanted)).inBlock = false :=
        (State.inBlock_congr (State.targets_claim _ _)).trans hroot
      have hbuilt := (SpacesKept.closeBlock himports hprints collects).trans aliases.spacesKept
      rw [State.root_addItems_spaces]
      exact hbuilt _ _ (State.root_spaces_openBlock hb target (s.freshName wanted))

/-- The file that an import type leads to is included. -/
theorem include_typed (ih : Calls cx n) {key : ImportTypeKey} {file : Url}
    (hs : Ready cx files origin s)
    (hk : key ∈ collectItems ImportTypes.pickKey (cx.statements origin))
    (hin : cx.inChunk? key.specifier origin = some file)
    (hinc : Merge.includeFile cx n file .dependency s = some ((), t)) :
    Run cx n r files s ∅ t ∧ Ready cx files file t := by
  have hready := hs.next (.typed hk hin)
  have run (r : Role) : Run cx n r files s ∅ t := (ih.includeFile hready (by simp) hinc).1
  exact ⟨run r, hready.mono (run r)⟩

/-- Linking one import type of a file. -/
theorem typeStep_run (ih : Calls cx n) {key : ImportTypeKey}
    {ts ts' : OrderedMap ImportTypeKey ImportTypes.Target} (hs : Ready cx files origin s)
    (hk : key ∈ collectItems ImportTypes.pickKey (cx.statements origin))
    (h : TypeStep cx n origin key ts s ts' t) : Run cx n r files s ∅ t := by
  cases h with
  | outer => exact .nothing
  | found hin hinc hhead hres | missing hin hinc hhead hres =>
    obtain ⟨run, hready⟩ := ih.include_typed (r := r) hs hk hin hinc
    exact run.before (ih.resolveExport hready (Or.inr (.head hs.has hk hhead)) hres).1
  | space hin hinc _ hspace =>
    obtain ⟨run, hready⟩ := ih.include_typed (r := r) hs hk hin hinc
    exact run.before (ih.ensureSpace hready (Context.Writes.space hs.has hk hin).formed hspace).1

theorem linkTypes_succ (ih : Calls cx n) {items linked : List Item}
    (hs : Ready cx files origin s)
    (hkeys : ∀ key ∈ collectItems ImportTypes.pickKey items,
      key ∈ collectItems ImportTypes.pickKey (cx.statements origin))
    (h : Merge.linkTypes cx (n + 1) origin items s = some (linked, t)) :
    Run cx (n + 1) r files s ∅ t ∧
      ∃ k < n + 1, ∃ τ, TypeLinks cx k origin items s τ t ∧ linkItems τ items = linked := by
  obtain ⟨τ, hlinks, rfl⟩ := linkTypes_inv h
  refine ⟨?_, n, Nat.lt_succ_self n, τ, hlinks, rfl⟩
  obtain ⟨ts, hfold, _⟩ := hlinks
  refine hfold.inv (fun _ _ s' => Run cx (n + 1) r files s ∅ s') .nothing ?_
  intro done key ts₁ ts₂ s₁ s₂ hkey run hstep
  have hk := hkeys key ((SeenSet.mem_ofList _ _).1 hkey)
  exact run.after ((ih.typeStep_run (hs.mono run) hk hstep).mono (Nat.le_succ n))

end Spaces

theorem succ (ih : Calls cx n) : Calls cx (n + 1) where
  includeFile := ih.includeFile_succ
  includeAtRoot := ih.includeAtRoot_succ
  inlineFile := ih.inlineFile_succ
  mergeFile := ih.mergeFile_succ
  mergeItem := ih.mergeItem_succ
  reexport := ih.reexport_succ
  mergeImport := ih.mergeImport_succ
  mergeReexport := ih.mergeReexport_succ
  mergeStar := ih.mergeStar_succ
  exportAgain := ih.exportAgain_succ
  resolveExport := ih.resolveExport_succ
  resolveInStars := ih.resolveInStars_succ
  collect := ih.collect_succ
  ensureSpace := ih.ensureSpace_succ
  linkTypes := ih.linkTypes_succ

end Calls

/-- Every call of merging that succeeds is a run, at any depth. -/
theorem calls (cx : Context) (n : Nat) : Calls cx n := by
  induction n with
  | zero => exact .zero
  | succ n ih => exact ih.succ

/-- Linking import types is a run in which the keys are answered one by one. `P` tells which targets
a key may have, in each state on the way. -/
theorem TypeLinks.answered {P : State → ImportTypeKey → Option ImportTypes.Target → Prop}
    {origin : Url} {items : List Item} {τ : ImportTypes.Targets}
    (h : TypeLinks cx n origin items s τ t) (hs : Ready cx files origin s)
    (hkeys : ∀ key ∈ collectItems ImportTypes.pickKey items,
      key ∈ collectItems ImportTypes.pickKey (cx.statements origin))
    (hstep : ∀ {done key} {ts ts' : OrderedMap ImportTypeKey ImportTypes.Target} {s₁ s₂},
      Run cx (n + 1) .dependency files s ∅ s₁ →
        key ∈ collectItems ImportTypes.pickKey (cx.statements origin) →
          TypeStep cx n origin key ts s₁ ts' s₂ → ts.Answered (P s₁) done →
            ts'.Answered (P s₂) (done ++ [key])) :
    Run cx (n + 1) .dependency files s ∅ t ∧
      ∃ ts : OrderedMap ImportTypeKey ImportTypes.Target,
        τ = ts.get? ∧ ts.Answered (P t) (ImportTypes.keys items).items := by
  obtain ⟨ts, hfold, rfl⟩ := h
  suffices H : Run cx (n + 1) .dependency files s ∅ t ∧
      ts.Answered (P t) (ImportTypes.keys items).items from ⟨H.1, ts, rfl, H.2⟩
  refine hfold.inv (fun done ts s' => Run cx (n + 1) .dependency files s ∅ s' ∧
    ts.Answered (P s') done) ⟨.nothing, .empty⟩ ?_
  rintro done key ts₁ ts₂ s₁ s₂ hmem ⟨run, hdone⟩ h
  have hk := hkeys key ((SeenSet.mem_ofList _ _).1 hmem)
  have run₁ := ((calls cx n).typeStep_run (r := .dependency) (hs.mono run) hk h).mono (Nat.le_succ n)
  exact ⟨run.after run₁, hstep run hk h hdone⟩

open Step in
/-- A chunk is merged by a run from the start. -/
theorem mergeChunk_run {included included' : SeenSet Url} {m : Merged} {warnings : List Warning}
    (h : mergeChunk? cx included = some (m, included', warnings)) :
    ∃ s, Run cx (depthBound cx.files) .entry [] (State.start included) ∅ s ∧
      m = finish cx.chunk s ∧ included' = s.included ∧
      includeEntries cx (State.start included) = some ((), s) := by
  obtain ⟨⟨u, s⟩, hs, h⟩ := Option.bind_eq_some_iff.1 h
  cases h
  refine ⟨s, ?_, rfl, rfl, hs⟩
  refine forM_inv (fun _ t => Run cx (depthBound cx.files) .entry [] (State.start included) ∅ t)
    hs .nothing ?_
  intro done e s₁ s₂ _ he run hstep
  cases hfile : cx.files.findForModule e with
  | none =>
    simp only [hfile] at hstep
    obtain ⟨_, rfl⟩ := pure_inv hstep
    exact run
  | some file =>
    simp only [hfile] at hstep
    have hready : Ready cx [] file (State.start included) :=
      ⟨.start included, fun _ hg => (by cases hg), .entry he hfile⟩
    exact run.after ((calls cx _).includeFile (hready.mono run)
      (fun _ => ⟨run.inBlock_eq.trans rfl, rfl, rfl⟩) hstep).1

end AmbientBundle.Merge
