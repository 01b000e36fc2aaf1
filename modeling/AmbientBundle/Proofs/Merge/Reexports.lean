import AmbientBundle.Proofs.Merge.Gathering
import AmbientBundle.Proofs.Merge.Surface
/-!
What the statements of an entry file export. Exports of other files stand as one list behind each
statement: the names for which a final name is found, and of stars what is gathered there.
-/
namespace AmbientBundle.Merge

open Step Syntax

/-- A statement of a file exports a name that is bound so: by itself, or from another file or
module. An exported `import x = …` is exported under its final name. -/
inductive Exposes (cx : Context) (env : Environment) (f : Url) : Item → String → Bound → Prop where
  | own {i : Item} {e : String × Bound} (h : e ∈ i.ownExports) (hi : ∀ d, i ≠ .importEquals d) :
      Exposes cx env f i e.1 (e.2.rename (Rename.ofEnvironment env f))
  | aliased {d : ImportEquals} (h : d.isExport = true) :
      Exposes cx env f (.importEquals d) (Rename.ofEnvironment env f d.id.name)
        (.here (Rename.ofEnvironment env f d.id.name))
  | taken {d : ExportList} {src : StrLit} {orig : ExportName} {exported : Option ExportName}
      {typeOnly : Bool} {target : Url} {v : String} (hsrc : d.src = some src)
      (hsp : .named orig exported typeOnly ∈ d.specifiers)
      (hin : cx.inChunk? src.value f = some target)
      (hv : Fits cx env (.exported target orig.text) v) :
      Exposes cx env f (.exportList d) (exported.getD orig).text (.here v)
  | space {d : ExportList} {src : StrLit} {name : ExportName} {target : Url} {v : String}
      (hsrc : d.src = some src) (hsp : .all name ∈ d.specifiers)
      (hin : cx.inChunk? src.value f = some target) :
      Exposes cx env f (.exportList d) name.text (.here v)
  | outer {d : ExportList} {src : StrLit} {sp : ExportSpecifier} (hsrc : d.src = some src)
      (hsp : sp ∈ d.specifiers) (hout : cx.inChunk? src.value f = none) :
      Exposes cx env f (.exportList d) (exportedName sp)
        (sp.bound (some (cx.placeSpecifier src.value f)))
  | star {d : ExportAll} {target g : Url} {name v : String}
      (hin : cx.inChunk? d.src.value f = some target)
      (hg : Gathered cx env target false g name v) :
      Exposes cx env f (.exportAll d) name (.here v)

theorem Exposes.congr {cx : Context} {s t : State} {f : Url} {i : Item} {name : String} {b : Bound}
    (h : Exposes cx s.root.env f i name b) (hk : Keeps s t) (hf : s.included.contains f = true) :
    Exposes cx t.root.env f i name b := by
  cases h with
  | own he hi =>
    rw [← hk.same f hf]
    exact .own he hi
  | aliased he =>
    rw [← hk.same f hf]
    exact .aliased he
  | taken hsrc hsp hin hv => exact .taken hsrc hsp hin (hk.fits hv)
  | space hsrc hsp hin => exact .space hsrc hsp hin
  | outer hsrc hsp hout => exact .outer hsrc hsp hout
  | star hin hg => exact .star hin { hg with fits := hk.fits hg.fits }

/-- A statement of a file exports the name, and nothing on the way to it may be missing. -/
inductive Promises (cx : Context) (earlier : SeenSet Url) (f : Url) : Item → String → Prop where
  | own {i : Item} {e : String × Bound} (h : e ∈ i.ownExports) : Promises cx earlier f i e.1
  | taken {d : ExportList} {src : StrLit} {orig : ExportName} {exported : Option ExportName}
      {typeOnly : Bool} {target : Url} {τ : Denoted} (hsrc : d.src = some src)
      (hsp : .named orig exported typeOnly ∈ d.specifiers)
      (hin : cx.inChunk? src.value f = some target)
      (hl : Live cx earlier Idle target orig.text τ) :
      Promises cx earlier f (.exportList d) (exported.getD orig).text
  | space {d : ExportList} {src : StrLit} {name : ExportName} {target : Url}
      (hsrc : d.src = some src) (hsp : .all name ∈ d.specifiers)
      (hin : cx.inChunk? src.value f = some target) :
      Promises cx earlier f (.exportList d) name.text
  | outer {d : ExportList} {src : StrLit} {sp : ExportSpecifier} (hsrc : d.src = some src)
      (hsp : sp ∈ d.specifiers) (hout : cx.inChunk? src.value f = none) :
      Promises cx earlier f (.exportList d) (exportedName sp)
  | star {d : ExportAll} {target g : Url} {name : String}
      (hin : cx.inChunk? d.src.value f = some target) (hg : cx.Offers target false g name)
      (hl : ¬Dead cx earlier target false name) : Promises cx earlier f (.exportAll d) name

/-- What merging finds for a statement that exports from another file. -/
structure Handed (cx : Context) (earlier : SeenSet Url) (env : Environment) (f : Url) (i : Item)
    (es : List Item) : Prop where
  lists : ∀ e ∈ es, isExportStatement e = true
  sound : ∀ e ∈ listExportsOf es, Exposes cx env f i e.1 e.2
  complete : ∀ name, Promises cx earlier f i name →
    name ∈ i.ownExports.map Prod.fst ∨ name ∈ (listExportsOf es).map Prod.fst

theorem Handed.congr {cx : Context} {earlier : SeenSet Url} {s t : State} {f : Url} {i : Item}
    {es : List Item} (h : Handed cx earlier s.root.env f i es) (hk : Keeps s t)
    (hf : s.included.contains f = true) : Handed cx earlier t.root.env f i es :=
  ⟨h.lists, fun e he => (h.sound e he).congr hk hf, h.complete⟩

section Reexport

variable {cx : Context} {earlier : SeenSet Url} {n : Nat} {files : List Url} {f target : Url}
  {i : Item} {s t : State} {es : List Item}

/-- A statement without a source hands nothing on. -/
theorem Handed.nil (hsrc : ∀ d, i = .exportList d → d.src = none) (hstar : ∀ d, i ≠ .exportAll d)
    (env : Environment) : Handed cx earlier env f i [] := by
  refine ⟨by simp, by simp [listExportsOf], fun name hp => Or.inl ?_⟩
  cases hp with
  | own he => exact List.mem_map_of_mem he
  | taken hd => simp [hsrc _ rfl] at hd
  | space hd => simp [hsrc _ rfl] at hd
  | outer hd => simp [hsrc _ rfl] at hd
  | star => exact absurd rfl (hstar _)

theorem listExports_surface (sf : Surface) :
    listExportsOf sf.items = sf.names.map (fun e => (e.1, .here e.2)) := by
  have hstars : (sf.stars.map starOf).flatMap Item.listExports = [] := by
    rw [List.flatMap_eq_nil_iff]
    intro i hi
    obtain ⟨star, _, rfl⟩ := List.mem_map.1 hi
    rfl
  unfold listExportsOf Surface.items
  rw [List.flatMap_append, hstars, List.append_nil]
  cases hn : sf.names with
  | nil => rfl
  | cons e es => simp [Exports.list, Item.listExports]

/-- What stands for a star. -/
theorem mergeStar_handed {d : ExportAll} (hs : AtRoot cx earlier files [] s)
    (hlead : cx.LeadTo files f) (hhas : cx.HasFile f) (hi : .exportAll d ∈ cx.statements f)
    (hinc : ReexportsIncluded cx f (.exportAll d) s)
    (h : mergeStar cx n f d.src.value s = some (es, t)) :
    GoesOn cx earlier files s t ∧ Handed cx earlier t.root.env f (.exportAll d) es := by
  cases n with
  | zero => exact (failure_inv h).elim
  | succ n =>
  cases mergeStar_inv h with
  | outer hin =>
    refine ⟨.refl hs, fun e he => ?_, by simp [listExportsOf, starOf, Item.listExports],
      fun name hp => ?_⟩
    · rw [List.mem_singleton.1 he]
      rfl
    · cases hp with
      | own he => exact Or.inl (List.mem_map_of_mem he)
      | star hin' => cases hin.symm.trans hin'
  | inner hin hc =>
    have hlinks : cx.Links f _ := .exported (Context.mem_exports_of_star hi) rfl hin
    obtain ⟨hs₁, hsound, hcomplete⟩ := collect_gathered hs (hlead.tail hlinks)
      (.linked hhas hlinks) (hinc _ _ hs.root rfl hin) hc
    refine ⟨hs₁, fun e he => isExportStatement_of_mem_items he, fun e he => ?_, fun name hp => ?_⟩
    · rw [listExports_surface] at he
      obtain ⟨⟨name, v⟩, hmem, rfl⟩ := List.mem_map.1 he
      obtain ⟨g, hg⟩ := hsound name v hmem
      exact .star hin hg
    · cases hp with
      | own he => exact Or.inl (List.mem_map_of_mem he)
      | star hin' hg hl =>
        obtain rfl := Option.some.inj (hin.symm.trans hin')
        refine Or.inr ?_
        rw [listExports_surface, List.map_map]
        exact hcomplete _ name hg hl

/-- What stands for some specifiers of an export list. -/
structure Passes (cx : Context) (earlier : SeenSet Url) (env : Environment) (f target : Url)
    (d : ExportList) (done outs : List ExportSpecifier) : Prop where
  sound : ∀ out ∈ outs, Exposes cx env f (.exportList d) (exportedName out) (out.bound none)
  complete : ∀ sp ∈ done, (∀ orig exported typeOnly, sp = .named orig exported typeOnly →
    ∃ τ, Live cx earlier Idle target orig.text τ) → exportedName sp ∈ outs.map exportedName

namespace Passes

variable {d : ExportList} {done outs : List ExportSpecifier} {sp : ExportSpecifier} {v : String}

theorem nil (env : Environment) : Passes cx earlier env f target d [] [] := ⟨by simp, by simp⟩

theorem congr (h : Passes cx earlier s.root.env f target d done outs) (hk : Keeps s t)
    (hf : s.included.contains f = true) : Passes cx earlier t.root.env f target d done outs :=
  ⟨fun out hout => (h.sound out hout).congr hk hf, h.complete⟩

variable {env : Environment}

theorem found (h : Passes cx earlier env f target d done outs)
    (hv : Exposes cx env f (.exportList d) (exportedName sp) (.here v)) :
    Passes cx earlier env f target d (done ++ [sp])
      (outs ++ [Exports.specifier v (exportedName sp)]) := by
  refine ⟨fun out hout => ?_, fun sp' hsp hl => ?_⟩
  · rcases List.mem_append.1 hout with hout | hout
    · exact h.sound out hout
    · rw [List.mem_singleton.1 hout, exportedName_specifier, bound_specifier]
      exact hv
  · rw [List.map_append, List.mem_append]
    rcases List.mem_append.1 hsp with hsp | hsp
    · exact Or.inl (h.complete sp' hsp hl)
    · rw [List.mem_singleton.1 hsp]
      exact Or.inr (by simp)

theorem missing {orig : ExportName} {exported : Option ExportName} {typeOnly : Bool}
    (h : Passes cx earlier env f target d done outs)
    (hl : ¬∃ τ, Live cx earlier Idle target orig.text τ) :
    Passes cx earlier env f target d (done ++ [.named orig exported typeOnly]) outs := by
  refine ⟨h.sound, fun sp hsp hlive => ?_⟩
  rcases List.mem_append.1 hsp with hsp | hsp
  · exact h.complete sp hsp hlive
  · exact absurd (hlive _ _ _ (List.mem_singleton.1 hsp)) hl

end Passes

/-- An export list for a module outside of the chunk exports its specifiers from there. -/
theorem listExports_outer (d : ExportList) (module : String) :
    listExportsOf [.exportList { d with src := some (StrLit.made module) }] =
      d.specifiers.map (listExport (some module)) :=
  List.flatMap_singleton _ _

/-- What is put for an export list exports the specifiers that are found. -/
theorem listExports_list (outs : List ExportSpecifier) :
    listExportsOf (if outs.isEmpty then [] else [Exports.list outs]) =
      outs.map (listExport none) := by
  cases outs with
  | nil => rfl
  | cons sp sps => exact List.flatMap_singleton _ _

/-- A specifier that names an export asks the file of the source for it. -/
theorem reexport_asks {d : ExportList} {src : StrLit} {orig : ExportName}
    {exported : Option ExportName} {typeOnly : Bool} (hi : .exportList d ∈ cx.statements f)
    (hsrc : d.src = some src) (hsp : .named orig exported typeOnly ∈ d.specifiers)
    (hhas : cx.HasFile f) (hin : cx.inChunk? src.value f = some target) :
    cx.Links f target ∧ Asked cx orig.text ∧
      reexportSource? (.exportList d) = some src.value := by
  obtain ⟨e, he, hof⟩ := Context.mem_exports_of_specifier hi hsrc hsp
  cases hof
  have hall : d.specifiers.all isSpaceSpecifier = false :=
    List.all_eq_false.2 ⟨_, hsp, by simp [isSpaceSpecifier]⟩
  exact ⟨.exported he rfl hin, Or.inr (.property hhas he), by simp [reexportSource?, hall, hsrc]⟩

/-- A specifier that names a namespace leads to the file of the source, which has a block of that
name. -/
theorem reexport_opens {d : ExportList} {src : StrLit} {name : ExportName}
    (hi : .exportList d ∈ cx.statements f) (hsrc : d.src = some src)
    (hsp : .all name ∈ d.specifiers) (hhas : cx.HasFile f)
    (hin : cx.inChunk? src.value f = some target) :
    cx.Links f target ∧ cx.Formed name.text := by
  obtain ⟨e, he, hof⟩ := Context.mem_exports_of_specifier hi hsrc hsp
  cases hof
  exact ⟨.exported he rfl hin, (Context.Writes.exported hhas he rfl).formed⟩

section ExportLists

variable {d : ExportList} {src : StrLit} {outs : List ExportSpecifier}

/-- A list whose source is outside of the chunk stays. -/
theorem Handed.outer (hsrc : d.src = some src) (hin : cx.inChunk? src.value f = none)
    (env : Environment) : Handed cx earlier env f (.exportList d)
      [.exportList { d with src := some (StrLit.made (cx.placeSpecifier src.value f)) }] := by
  refine ⟨fun e he => ?_, fun e he => ?_, fun name hp => ?_⟩
  · rw [List.mem_singleton.1 he]
    rfl
  · rw [listExports_outer] at he
    obtain ⟨sp, hsp, rfl⟩ := List.mem_map.1 he
    exact .outer hsrc hsp hin
  · rw [listExports_outer, List.map_map]
    cases hp with
    | own he => exact Or.inl (List.mem_map_of_mem he)
    | taken _ hsp => exact Or.inr (List.mem_map_of_mem (f := exportedName) hsp)
    | space _ hsp => exact Or.inr (List.mem_map_of_mem (f := exportedName) hsp)
    | outer _ hsp => exact Or.inr (List.mem_map_of_mem (f := exportedName) hsp)

/-- What stands for all specifiers of a list with a source in the chunk stands for the list. -/
theorem Passes.handed {env : Environment} (h : Passes cx earlier env f target d d.specifiers outs)
    (hsrc : d.src = some src) (hin : cx.inChunk? src.value f = some target) :
    Handed cx earlier env f (.exportList d) (if outs.isEmpty then [] else [Exports.list outs]) := by
  refine ⟨fun e he => ?_, fun e he => ?_, fun name hp => ?_⟩
  · split at he
    · cases he
    · rw [List.mem_singleton.1 he]
      rfl
  · rw [listExports_list] at he
    obtain ⟨sp, hsp, rfl⟩ := List.mem_map.1 he
    exact h.sound sp hsp
  · rw [listExports_list, List.map_map]
    cases hp with
    | own he => exact Or.inl (List.mem_map_of_mem he)
    | taken hsrc' hsp hin' hl =>
      obtain rfl := Option.some.inj (hsrc.symm.trans hsrc')
      obtain rfl := Option.some.inj (hin.symm.trans hin')
      refine Or.inr (h.complete _ hsp (fun orig' _ _ he => ?_))
      cases he
      exact ⟨_, hl⟩
    | space _ hsp => exact Or.inr (h.complete _ hsp (by simp))
    | outer hsrc' _ hout =>
      obtain rfl := Option.some.inj (hsrc.symm.trans hsrc')
      cases hin.symm.trans hout

/-- What is put for the specifiers of a list with a source in the chunk, by induction on those that
are done. -/
theorem specifiers_pass (hs : AtRoot cx earlier files [] s) (hlead : cx.LeadTo files f)
    (hhas : cx.HasFile f) (hf : s.included.contains f = true)
    (hi : .exportList d ∈ cx.statements f) (hsrc : d.src = some src)
    (hin : cx.inChunk? src.value f = some target)
    (hinc : ReexportsIncluded cx f (.exportList d) s)
    (steps : Folds (SpecifierStep cx n f target) d.specifiers [] s outs t) :
    GoesOn cx earlier files s t ∧ Passes cx earlier t.root.env f target d d.specifiers outs := by
  refine steps.inv (fun done outs s' => GoesOn cx earlier files s s' ∧
    Passes cx earlier s'.root.env f target d done outs) ⟨.refl hs, .nil _⟩ ?_
  rintro done sp outs outs' s₂ s₃ hsp ⟨hs₂, hp⟩ hstep
  have hf₂ := hs₂.keeps.included f hf
  have hresolved {orig : ExportName} {exported : Option ExportName} {typeOnly : Bool}
      {found : Option String} {v : Visited} {s₄ : State}
      (hsp : .named orig exported typeOnly ∈ d.specifiers)
      (hres : resolveExport cx n target orig.text [] s₂ = some ((found, v), s₄)) :
      GoesOn cx earlier files s₂ s₄ ∧
        (∀ w, found = some w → Fits cx s₄.root.env (.exported target orig.text) w) ∧
        (found = none → ¬∃ τ, Live cx earlier Idle target orig.text τ) := by
    obtain ⟨hlinks, hasked, hsource⟩ := reexport_asks hi hsrc hsp hhas hin
    exact resolveExport_atRoot hs₂.atRoot (hlead.tail hlinks) (.linked hhas hlinks) hasked
      (hs₂.keeps.included _ (hinc _ _ hs.root hsource hin)) hres
  cases hstep with
  | found hres =>
    obtain ⟨hs₄, hfound, -⟩ := hresolved hsp hres
    exact ⟨hs₂.trans hs₄, (hp.congr hs₄.keeps hf₂).found (.taken hsrc hsp hin (hfound _ rfl))⟩
  | @missing orig exported _ _ _ _ _ hres =>
    obtain ⟨hs₄, -, hnone⟩ := hresolved hsp hres
    have hs₅ := hs₄.trans (.warn hs₄.atRoot
      (.unknownReexport target f (exported.getD orig).text))
    exact ⟨hs₂.trans hs₅, (hp.congr hs₅.keeps hf₂).missing (hnone rfl)⟩
  | space hspace =>
    obtain ⟨hlinks, hformed⟩ := reexport_opens hi hsrc hsp hhas hin
    have hready : Ready cx files f s₂ := ⟨hs₂.atRoot.formed, hlead, hhas⟩
    have run := ((calls cx n).ensureSpace (r := .dependency) (hready.next hlinks) hformed
      hspace).1
    have hs₄ : GoesOn cx earlier files s₂ s₃ := .run hs₂.atRoot run
    exact ⟨hs₂.trans hs₄, (hp.congr hs₄.keeps hf₂).found (.space hsrc hsp hin)⟩

/-- What stands for an export list with a source. -/
theorem mergeReexport_handed (hs : AtRoot cx earlier files [] s) (hlead : cx.LeadTo files f)
    (hhas : cx.HasFile f) (hf : s.included.contains f = true)
    (hi : .exportList d ∈ cx.statements f) (hsrc : d.src = some src)
    (hinc : ReexportsIncluded cx f (.exportList d) s)
    (h : mergeReexport cx n f d src.value s = some (es, t)) :
    GoesOn cx earlier files s t ∧ Handed cx earlier t.root.env f (.exportList d) es := by
  cases n with
  | zero => exact (failure_inv h).elim
  | succ n =>
  cases mergeReexport_inv h with
  | outer hin => exact ⟨.refl hs, .outer hsrc hin _⟩
  | inner hin steps =>
    obtain ⟨hs₁, hp⟩ := specifiers_pass hs hlead hhas hf hi hsrc hin hinc steps
    exact ⟨hs₁, hp.handed hsrc hin⟩

end ExportLists

/-- What stands for the exports that a statement takes from elsewhere. -/
theorem reexport_handed (hs : AtRoot cx earlier files [] s) (hlead : cx.LeadTo files f)
    (hhas : cx.HasFile f) (hf : s.included.contains f = true) (hi : i ∈ cx.statements f)
    (hinc : ReexportsIncluded cx f i s) (h : reexport cx n f i s = some (es, t)) :
    GoesOn cx earlier files s t ∧ Handed cx earlier t.root.env f i es := by
  cases n with
  | zero => exact (failure_inv h).elim
  | succ n =>
  cases reexport_inv h with
  | list hsrc h => exact mergeReexport_handed hs hlead hhas hf hi hsrc hinc h
  | star h => exact mergeStar_handed hs hlead hhas hi hinc h
  | nothing hsrc hstar => exact ⟨.refl hs, .nil hsrc hstar _⟩

end Reexport

end AmbientBundle.Merge
