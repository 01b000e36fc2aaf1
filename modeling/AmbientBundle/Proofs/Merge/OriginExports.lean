import AmbientBundle.Proofs.Merge.Tracing
/-!
What the statements of an entry file export, traced back to origins. A statement exports a name of
the file, or takes it from other files and modules; where the entry is printed, each exported name is
bound to the final name of an origin of what the statement exports, or to the symbol of the module
outside of the chunk that it is.
-/
namespace AmbientBundle.Merge

open Step Syntax

/-- A statement of a file exports the origin under the name. There is no origin of a value. -/
inductive Context.Yields (cx : Context) (f : Url) : Item → String → Option Origin → Prop where
  | own {i : Item} {name x : String} {o : Origin} (h : (name, .here x) ∈ i.ownExports)
      (ho : cx.From (.own f x) o) : Yields cx f i name (some o)
  | value {i : Item} {name : String} {b : Bound} (h : (name, b) ∈ i.ownExports)
      (hb : ∀ x, b ≠ .here x) : Yields cx f i name none
  | taken {d : ExportList} {src : StrLit} {orig : ExportName} {exported : Option ExportName}
      {typeOnly : Bool} {target : Url} {o : Origin} (hsrc : d.src = some src)
      (hsp : .named orig exported typeOnly ∈ d.specifiers)
      (hin : cx.inChunk? src.value f = some target) (ho : cx.From (.exported target orig.text) o) :
      Yields cx f (.exportList d) (exported.getD orig).text (some o)
  | outer {d : ExportList} {src : StrLit} {orig : ExportName} {exported : Option ExportName}
      {typeOnly : Bool} (hsrc : d.src = some src)
      (hsp : .named orig exported typeOnly ∈ d.specifiers) (hout : cx.inChunk? src.value f = none) :
      Yields cx f (.exportList d) (exported.getD orig).text
        (some (.outer (cx.placeSpecifier src.value f) (.ofText orig.text)))
  | space {d : ExportList} {src : StrLit} {name : ExportName} (hsrc : d.src = some src)
      (hsp : .all name ∈ d.specifiers) :
      Yields cx f (.exportList d) name.text (some (cx.spaceOrigin src.value f))
  | star {d : ExportAll} {target g : Url} {name : String} {o : Origin}
      (hin : cx.inChunk? d.src.value f = some target) (hg : cx.Offers target false g name)
      (hfirst : cx.Lists target name → g = target) (ho : cx.From (.exported g name) o) :
      Yields cx f (.exportAll d) name (some o)

/-- What is exported stands for the origin. -/
def Bound.StandsFor (cx : Context) (s : State) (o : Origin) : Bound → Prop
  | .here v => Stands cx s v o
  | .there x module => o = .outer module (.ofText x)
  | .space module => o = .outer module .all
  | .value => False

section Yields

variable {cx : Context} {earlier : SeenSet Url} {n : Nat} {files : List Url} {f g x : Url} {i : Item}
  {name k : String} {o : Origin} {b : Bound} {s t u : State} {es : List Item}

theorem Context.spaceOrigin_ne_decl (src : String) (f g : Url) (k : String) :
    cx.spaceOrigin src f ≠ .decl g k := by
  unfold spaceOrigin
  split <;> simp

/-- What a declaration's name comes from, a statement exports, too, that exports the declaration. -/
theorem Context.Yields.through (h : cx.Yields f i name (some (.decl g k)))
    (ho : cx.From (.own g k) o) : cx.Yields f i name (some o) := by
  generalize hd : some (Origin.decl g k) = o' at h
  cases h with
  | own hx hfrom =>
    cases hd
    exact .own hx (hfrom.through ho)
  | value => cases hd
  | taken hsrc hsp hin hfrom =>
    cases hd
    exact .taken hsrc hsp hin (hfrom.through ho)
  | outer => cases hd
  | @space d src =>
    exact absurd (Option.some.inj hd).symm (Context.spaceOrigin_ne_decl _ _ _ _)
  | star hin hg hfirst hfrom =>
    cases hd
    exact .star hin hg hfirst (hfrom.through ho)

theorem ownExports_subset (i : Item) : i.ownExports ⊆ i.exports := by
  intro e he
  cases i with
  | exportList d =>
    simp only [Item.ownExports] at he
    split at he
    · cases he
    · exact he
  | _ => exact List.mem_append_left _ he

/-- A statement other than a star exports names that stand in it. -/
theorem Context.Yields.mem_namesOf {o : Option Origin} (h : cx.Yields f i name o)
    (hi : ∀ d, i ≠ .exportAll d) : name ∈ namesOf i.exports := by
  have hlist {d : ExportList} {sp : ExportSpecifier} (hsp : sp ∈ d.specifiers) :
      exportedName sp ∈ namesOf (Item.exportList d).exports := by
    simp only [Item.exports_exportList, Item.listExports, namesOf, List.map_map]
    exact List.mem_map.2 ⟨sp, hsp, rfl⟩
  cases h with
  | own hx => exact List.mem_map.2 ⟨_, ownExports_subset _ hx, rfl⟩
  | value hb => exact List.mem_map.2 ⟨_, ownExports_subset _ hb, rfl⟩
  | taken _ hsp => exact hlist hsp
  | outer _ hsp => exact hlist hsp
  | space _ hsp => exact hlist hsp
  | star => exact absurd rfl (hi _)

theorem Bound.StandsFor.lasts (h : b.StandsFor cx s o) (hl : Lasts cx s t) : b.StandsFor cx t o := by
  cases b with
  | here v => exact hl v o h
  | there x module => exact h
  | space module => exact h
  | value => exact h

/-- Each name that statements hand on stands for an origin that the given one exports. -/
def HandsOrigins (cx : Context) (s : State) (f : Url) (i : Item) (es : List (String × Bound)) :
    Prop :=
  ∀ e ∈ es, ∃ o, cx.Yields f i e.1 (some o) ∧ e.2.StandsFor cx s o

theorem HandsOrigins.lasts {es : List (String × Bound)} (h : HandsOrigins cx s f i es)
    (hl : Lasts cx s t) : HandsOrigins cx t f i es := by
  intro e he
  obtain ⟨o, hy, hb⟩ := h e he
  exact ⟨o, hy, hb.lasts hl⟩

theorem HandsOrigins.found {outs : List ExportSpecifier} {v : String}
    (h : HandsOrigins cx s f i (outs.map (listExport none))) (hy : cx.Yields f i name (some o))
    (hb : Stands cx s v o) :
    HandsOrigins cx s f i ((outs ++ [Exports.specifier v name]).map (listExport none)) := by
  intro e he
  rw [List.map_append, List.mem_append] at he
  rcases he with he | he
  · exact h e he
  · rw [List.map_singleton, List.mem_singleton] at he
    subst he
    rw [listExport, exportedName_specifier, bound_specifier]
    exact ⟨o, hy, hb⟩

/-- What stands for a star. -/
theorem mergeStar_came {d : ExportAll} (hs : Tracing cx files s) (hlead : cx.LeadTo files f)
    (hhas : cx.HasFile f) (hi : .exportAll d ∈ cx.statements f)
    (hinc : ReexportsIncluded cx f (.exportAll d) s)
    (h : mergeStar cx n f d.src.value s = some (es, t)) :
    Tracing cx files t ∧ HandsOrigins cx t f (.exportAll d) (listExportsOf es) := by
  cases n with
  | zero => exact (failure_inv h).elim
  | succ n =>
  cases mergeStar_inv h with
  | outer => exact ⟨hs, fun e he => by simp [listExportsOf, starOf, Item.listExports] at he⟩
  | inner hin hc =>
    have hlinks : cx.Links f _ := .exported (Context.mem_exports_of_star hi) rfl hin
    obtain ⟨ht, hcame⟩ := collect_came hs (hlead.tail hlinks) (.linked hhas hlinks)
      (hinc _ _ hs.root rfl hin) hc
    refine ⟨ht, fun e he => ?_⟩
    rw [listExports_surface] at he
    obtain ⟨⟨name, v⟩, hmem, rfl⟩ := List.mem_map.1 he
    obtain ⟨g, hg, hfirst, o, hfrom, hstands⟩ := hcame name v hmem
    exact ⟨o, .star hin hg hfirst hfrom, hstands⟩

/-- What stands for an export list with a source. -/
theorem mergeReexport_came {d : ExportList} {src : StrLit} (hs : Tracing cx files s)
    (hlead : cx.LeadTo files f) (hhas : cx.HasFile f) (hi : .exportList d ∈ cx.statements f)
    (hsrc : d.src = some src) (h : mergeReexport cx n f d src.value s = some (es, t)) :
    Tracing cx files t ∧ HandsOrigins cx t f (.exportList d) (listExportsOf es) := by
  cases n with
  | zero => exact (failure_inv h).elim
  | succ n =>
  cases mergeReexport_inv h with
  | outer hin =>
    refine ⟨hs, fun e he => ?_⟩
    rw [listExports_outer] at he
    obtain ⟨sp, hsp, rfl⟩ := List.mem_map.1 he
    cases sp with
    | named orig exported typeOnly =>
      refine ⟨_, .outer hsrc hsp hin, ?_⟩
      cases orig <;> rfl
    | all name => exact ⟨_, .space hsrc hsp, Context.spaceOrigin_of_none hin⟩
  | @inner target outs t hin steps =>
    rw [listExports_list]
    refine steps.inv (fun _ outs s' => Tracing cx files s' ∧
      HandsOrigins cx s' f (.exportList d) (outs.map (listExport none)))
      ⟨hs, fun e he => (by cases he)⟩ ?_
    rintro done sp outs outs' s₂ s₃ hsp ⟨hs₂, hp⟩ hstep
    cases hstep with
    | found hres =>
      obtain ⟨hlinks, hasked, -⟩ := reexport_asks hi hsrc hsp hhas hin
      obtain ⟨hs₃, hlast⟩ := hs₂.resolved (hlead.tail hlinks) (.linked hhas hlinks) hasked hres
      obtain ⟨o, hfrom, hstands⟩ :=
        findsOrigin cx n hs₂ (hlead.tail hlinks) (.linked hhas hlinks) hasked hres
      exact ⟨hs₃, (hp.lasts hlast).found (.taken hsrc hsp hin hfrom) hstands⟩
    | missing hres =>
      obtain ⟨hlinks, hasked, -⟩ := reexport_asks hi hsrc hsp hhas hin
      obtain ⟨hs₄, hlast⟩ := hs₂.resolved (hlead.tail hlinks) (.linked hhas hlinks) hasked hres
      obtain ⟨hs₅, hlast'⟩ := hs₄.goesOn (.warn (n := 0) (r := .dependency) _)
      exact ⟨hs₅, (hp.lasts hlast).lasts hlast'⟩
    | space hspace =>
      obtain ⟨hlinks, hformed⟩ := reexport_opens hi hsrc hsp hhas hin
      have hready : Ready cx files target s₂ := Ready.next ⟨hs₂.formed, hlead, hhas⟩ hlinks
      obtain ⟨run, -, -, hnamed⟩ :=
        (calls cx n).ensureSpace (r := .dependency) hready hformed hspace
      obtain ⟨hs₃, hlast⟩ := hs₂.goesOn run
      refine ⟨hs₃, (hp.lasts hlast).found (.space hsrc hsp) (Or.inl ?_)⟩
      rw [Context.spaceOrigin_of_inChunk? hin]
      exact hnamed hs₂.root

/-- What stands for the exports that a statement takes from elsewhere. -/
theorem reexport_came (hs : Tracing cx files s) (hlead : cx.LeadTo files f) (hhas : cx.HasFile f)
    (hi : i ∈ cx.statements f) (hinc : ReexportsIncluded cx f i s)
    (h : reexport cx n f i s = some (es, t)) :
    Tracing cx files t ∧ HandsOrigins cx t f i (listExportsOf es) := by
  cases n with
  | zero => exact (failure_inv h).elim
  | succ n =>
  cases reexport_inv h with
  | list hsrc h => exact mergeReexport_came hs hlead hhas hi hsrc h
  | star h => exact mergeStar_came hs hlead hhas hi hinc h
  | nothing => exact ⟨hs, fun e he => (by cases he)⟩

/-- An export of a statement: of the file's own, under final names, or of an origin that the
statement takes from elsewhere. -/
inductive Sourced (cx : Context) (s : State) (f : Url) (i : Item) (e : String × Bound) : Prop where
  | own (h : OwnExport (Rename.ofEnvironment s.root.env f) i e) : Sourced cx s f i e
  | handed {o : Origin} (hy : cx.Yields f i e.1 (some o)) (hb : e.2.StandsFor cx s o) :
      Sourced cx s f i e

/-- Each export in what merging puts for a statement of an entry file has a source. -/
theorem EntryPart.sourced {part : List Item} (h : EntryPart cx earlier f s t i part)
    (hs : Tracing cx [f] s) {e : String × Bound}
    (he : e ∈ directExportsOf part ∨ e ∈ listExportsOf part) : Sourced cx t f i e := by
  cases h with
  | @mk k s₁ t₁ es τ before hroot hhas hi hinc hx after =>
    have hf := hroot.rooted.begun f (List.mem_singleton_self f)
    have hlead : cx.LeadTo [f] f := fun g hg => List.mem_singleton.1 hg ▸ .refl
    obtain ⟨hgoes, hes⟩ := reexport_handed hroot hlead hhas hf hi hinc hx
    obtain ⟨ht₁, hcame⟩ := reexport_came (hs.onwards before).1 hlead hhas hi hinc hx
    rw [directExportsOf_append, listExportsOf_append, directExportsOf_exports hes.lists,
      List.append_nil, List.mem_append, ← or_assoc, mem_exports_printed] at he
    rcases he with he | he
    · have hρ := hgoes.keeps.same f hf
      have hρ' := (after.keeps hgoes.atRoot.rooted).2.same f (hgoes.keeps.included f hf)
      rw [hρ] at he
      refine .own (hρ' ▸ hρ ▸ ownExport_of_shown (Context.isAnonymousDefault_of_mem_statements hi) he)
    · obtain ⟨o, hy, hb⟩ := hcame e he
      exact .handed hy (hb.lasts (ht₁.onwards after).2)

end Yields

end AmbientBundle.Merge
