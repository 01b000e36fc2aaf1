import AmbientBundle.Proofs.Merge.Chains
import AmbientBundle.Proofs.Merge.StarOrder
import AmbientBundle.Proofs.Merge.Termination
/-!
What a star stands for in a chunk without imports: the names that the file and, depth first, the
files to which its stars lead export by themselves, each where it comes for the first time, but for
those whose way ends nowhere.
-/
namespace AmbientBundle.Merge

open Step Syntax

/-- The entries whose names come for the first time, and were not seen before. -/
def firstNamed (seen : List String) : List (Url × String) → List (Url × String)
  | [] => []
  | e :: es => if e.2 ∈ seen then firstNamed seen es else e :: firstNamed (e.2 :: seen) es

/-- The names that are seen when those of some entries are, too. -/
def seenBehind (seen : List String) (es : List (Url × String)) : List String :=
  ((firstNamed seen es).map Prod.snd).reverse ++ seen

section FirstNamed

variable {seen : List String} {e : Url × String} {es es' : List (Url × String)}

theorem firstNamed_append : firstNamed seen (es ++ es') =
    firstNamed seen es ++ firstNamed (seenBehind seen es) es' := by
  induction es generalizing seen with
  | nil => rfl
  | cons e es ih =>
    unfold seenBehind
    simp only [List.cons_append, firstNamed]
    split
    · exact ih
    · rw [ih]
      simp [seenBehind]

theorem seenBehind_append : seenBehind seen (es ++ es') = seenBehind (seenBehind seen es) es' := by
  unfold seenBehind
  rw [firstNamed_append]
  simp [seenBehind]

theorem not_mem_seen_of_firstNamed (h : e ∈ firstNamed seen es) : e.2 ∉ seen := by
  induction es generalizing seen with
  | nil => cases h
  | cons a es ih =>
    simp only [firstNamed] at h
    split at h
    · exact ih h
    · rename_i ha
      rcases List.mem_cons.1 h with rfl | h
      · exact ha
      · exact fun hs => ih h (List.mem_cons_of_mem _ hs)

theorem nodup_firstNamed (seen : List String) (es : List (Url × String)) :
    ((firstNamed seen es).map Prod.snd).Nodup := by
  induction es generalizing seen with
  | nil => exact List.nodup_nil
  | cons a es ih =>
    simp only [firstNamed]
    split
    · exact ih seen
    · refine List.nodup_cons.2 ⟨fun hmem => ?_, ih _⟩
      obtain ⟨e, he, hname⟩ := List.mem_map.1 hmem
      exact not_mem_seen_of_firstNamed he (hname ▸ List.mem_cons_self)

end FirstNamed

namespace Context

/-- The names but `default` that a file exports by itself, in the order of its statements. -/
def listed (cx : Context) (g : Url) : List (Url × String) :=
  (((cx.exports g).filterMap ExportedSymbol.exportedName?).filter (fun x => x ≠ "default")).map
    (g, ·)

/-- The names but `default` that some files export by themselves, each for the first file that
does. -/
def offered (cx : Context) (order : List Url) : List (Url × String) :=
  firstNamed [] (order.flatMap cx.listed)

end Context

/-- Of the entries those are kept, with a final name, whose ways end somewhere. -/
inductive Expanded (cx : Context) (earlier : SeenSet Url) (env : Environment) :
    List (Url × String) → List (String × String) → Prop where
  | nil : Expanded cx earlier env [] []
  | found {g : Url} {name final : String} {τ : Denoted} {es : List (Url × String)}
      {ns : List (String × String)} (h : cx.EndsAt earlier g name (some τ))
      (hf : NamedBy env final τ) (rest : Expanded cx earlier env es ns) :
      Expanded cx earlier env ((g, name) :: es) ((name, final) :: ns)
  | missing {g : Url} {name : String} {es : List (Url × String)} {ns : List (String × String)}
      (h : cx.EndsAt earlier g name none) (rest : Expanded cx earlier env es ns) :
      Expanded cx earlier env ((g, name) :: es) ns

namespace Expanded

variable {cx : Context} {earlier : SeenSet Url} {env : Environment} {s t : State}
  {es es' : List (Url × String)} {ns ns' : List (String × String)}

theorem append (h : Expanded cx earlier env es ns) (h' : Expanded cx earlier env es' ns') :
    Expanded cx earlier env (es ++ es') (ns ++ ns') := by
  induction h with
  | nil => exact h'
  | found hend hf _ ih => exact .found hend hf ih
  | missing hend _ ih => exact .missing hend ih

theorem congr (h : Expanded cx earlier s.root.env es ns) (hk : Keeps s t) :
    Expanded cx earlier t.root.env es ns := by
  induction h with
  | nil => exact .nil
  | found hend hf _ ih => exact .found hend (fun g k hτ => hk.named g k _ (hf g k hτ)) ih
  | missing hend _ ih => exact .missing hend ih

open Classical in
/-- The names that are kept are those whose ways end somewhere, in order. -/
theorem names (h : Expanded cx earlier env es ns) : ns.map Prod.fst =
    (es.filter (fun e => ∃ τ, cx.EndsAt earlier e.1 e.2 (some τ))).map Prod.snd := by
  induction h with
  | nil => rfl
  | found hend _ _ ih =>
    rw [List.filter_cons_of_pos (by simpa using ⟨_, hend⟩), List.map_cons, List.map_cons, ih]
  | missing hend _ ih =>
    rw [List.filter_cons_of_neg, ih]
    rw [decide_eq_true_iff]
    rintro ⟨τ, v, hτ⟩
    obtain ⟨w, hw⟩ := hend
    cases hτ.unique hw

theorem final (h : Expanded cx earlier env es ns) {name final : String} (hmem : (name, final) ∈ ns) :
    ∃ g τ, (g, name) ∈ es ∧ cx.EndsAt earlier g name (some τ) ∧ NamedBy env final τ := by
  induction h with
  | nil => cases hmem
  | @found g _ _ τ _ _ hend hf _ ih =>
    rcases List.mem_cons.1 hmem with he | hmem
    · obtain ⟨rfl, rfl⟩ := Prod.mk.inj he
      exact ⟨g, τ, List.mem_cons_self, hend, hf⟩
    · obtain ⟨g', τ', hg, h⟩ := ih hmem
      exact ⟨g', τ', List.mem_cons_of_mem _ hg, h⟩
  | missing _ _ ih =>
    obtain ⟨g, τ, hg, h⟩ := ih hmem
    exact ⟨g, τ, List.mem_cons_of_mem _ hg, h⟩

end Expanded

theorem Collected.visited_addStar (c : Collected) (star : String) :
    (c.addStar star).visited = c.visited := by
  unfold Collected.addStar
  split <;> rfl

/-- From `c` to `c'` the entries are added that come for the first time, if their ways end
somewhere. -/
structure Added (cx : Context) (earlier : SeenSet Url) (env : Environment) (c c' : Collected)
    (es : List (Url × String)) : Prop where
  seen : c'.seen = seenBehind c.seen es
  names : ∃ ns, c'.names = c.names ++ ns ∧ Expanded cx earlier env (firstNamed c.seen es) ns

namespace Added

variable {cx : Context} {earlier : SeenSet Url} {env : Environment} {s t : State}
  {c c' c'' : Collected} {es es' : List (Url × String)} {g : Url} {name final : String}

theorem of_eq (hs : c'.seen = c.seen) (hn : c'.names = c.names) :
    Added cx earlier env c c' [] :=
  ⟨hs, [], by simp [hn], .nil⟩

theorem trans (h : Added cx earlier env c c' es) (h' : Added cx earlier env c' c'' es') :
    Added cx earlier env c c'' (es ++ es') := by
  obtain ⟨ns, hns, hk⟩ := h.names
  obtain ⟨ns', hns', hk'⟩ := h'.names
  rw [h.seen] at hk'
  refine ⟨by rw [h'.seen, h.seen, seenBehind_append], ns ++ ns', by simp [hns', hns], ?_⟩
  rw [firstNamed_append]
  exact hk.append hk'

theorem congr (h : Added cx earlier s.root.env c c' es) (hk : Keeps s t) :
    Added cx earlier t.root.env c c' es :=
  ⟨h.seen, h.names.imp (fun _ hns => ⟨hns.1, hns.2.congr hk⟩)⟩

theorem addStar (h : Added cx earlier env c c' es) (star : String) :
    Added cx earlier env c (c'.addStar star) es := by
  unfold Collected.addStar
  split
  · exact h
  · exact ⟨h.seen, h.names⟩

theorem again (h : name ∈ c.seen) : Added cx earlier env c c [(g, name)] := by
  have hnone : firstNamed c.seen [(g, name)] = [] := by simp [firstNamed, h]
  refine ⟨by simp [seenBehind, hnone], [], by simp, ?_⟩
  rw [hnone]
  exact .nil

theorem found {τ : Denoted} (h : name ∉ c.seen) (hend : cx.EndsAt earlier g name (some τ))
    (hf : NamedBy env final τ) : Added cx earlier env c
      { c with seen := name :: c.seen, names := c.names ++ [(name, final)] } [(g, name)] := by
  have hone : firstNamed c.seen [(g, name)] = [(g, name)] := by simp [firstNamed, h]
  refine ⟨by simp [seenBehind, hone], _, rfl, ?_⟩
  rw [hone]
  exact .found hend hf .nil

theorem missing (h : name ∉ c.seen) (hend : cx.EndsAt earlier g name none) :
    Added cx earlier env c { c with seen := name :: c.seen } [(g, name)] := by
  have hone : firstNamed c.seen [(g, name)] = [(g, name)] := by simp [firstNamed, h]
  refine ⟨by simp [seenBehind, hone], [], by simp, ?_⟩
  rw [hone]
  exact .missing hend .nil

end Added

section Collect

variable {cx : Context} {earlier : SeenSet Url} {n : Nat} {files : List Url} {target : Url}
  {c c' : Collected} {s t : State}

/-- From `s` to `t` merging goes on at the root of a chunk without imports. -/
structure PlainOn (cx : Context) (earlier : SeenSet Url) (files : List Url) (s t : State) :
    Prop where
  plain : Plain cx earlier files t
  keeps : Keeps s t

theorem PlainOn.refl (hs : Plain cx earlier files s) : PlainOn cx earlier files s s :=
  ⟨hs, .refl s⟩

theorem PlainOn.trans {u : State} (h : PlainOn cx earlier files s t)
    (h' : PlainOn cx earlier files t u) : PlainOn cx earlier files s u :=
  ⟨h'.plain, h.keeps.trans h'.keeps⟩

theorem PlainOn.run {r : Role} (hs : Plain cx earlier files s) (run : Run cx n r files s ∅ t) :
    PlainOn cx earlier files s t :=
  ⟨hs.run run, run.keeps hs.atRoot.rooted rfl⟩

/-- One name of the target. -/
theorem NameStep.added (hfree : cx.ImportFree) (hs : Plain cx earlier files s)
    (hlead : cx.LeadTo files target) (hhas : cx.HasFile target)
    (hinc : s.included.contains target = true) {name : String}
    (hname : name ∈ (cx.exports target).filterMap ExportedSymbol.exportedName?)
    (h : NameStep cx n target false name c s c' t) : PlainOn cx earlier files s t ∧
      Added cx earlier t.root.env c c' (([name].filter (fun x => x ≠ "default")).map (target, ·)) := by
  have hasked : Asked cx name :=
    Or.inr (Context.writes_of_lists hhas (Context.lists_iff.2 hname))
  have hone (hd : name = "default" → false = true) :
      ([name].filter (fun x => x ≠ "default")).map (target, ·) = [(target, name)] := by
    have hne : name ≠ "default" := fun he => by cases hd he
    simp [hne]
  have hresolve {found : Option String} {v : Visited} {t : State}
      (h : resolveExport cx n target name [] s = some ((found, v), t)) :
      PlainOn cx earlier files s t ∧ Finds cx earlier [] [.go (.exported target name)] t found v :=
    ⟨.run hs ((calls cx n).resolveExport (r := .dependency) ⟨hs.atRoot.formed, hlead, hhas⟩
      hasked h).1, findsExport hfree earlier n hs hlead hhas hasked hinc h⟩
  cases h with
  | skip hskip =>
    refine ⟨.refl hs, ?_⟩
    by_cases hd : name = "default"
    · rw [hd]
      exact .of_eq rfl rfl
    · rw [hone (fun he => absurd he hd)]
      exact .again (hskip.resolve_left (fun hdefault => hd hdefault.1))
  | found hd hnew h =>
    obtain ⟨hs', r, hr, hrel⟩ := hresolve h
    rw [hone hd]
    cases hrel with
    | some hf => exact ⟨hs', .found hnew ⟨_, hr⟩ hf⟩
  | missing hd hnew h =>
    obtain ⟨hs', r, hr, hrel⟩ := hresolve h
    rw [hone hd]
    cases hrel with
    | none =>
      exact ⟨hs'.trans (.run hs'.plain (.warn (n := 0) (r := .dependency) _)),
        .missing hnew ⟨_, hr⟩⟩

/-- The names of the target itself. -/
theorem added_of_names (hfree : cx.ImportFree) (hs : Plain cx earlier files s)
    (hlead : cx.LeadTo files target) (hhas : cx.HasFile target)
    (hinc : s.included.contains target = true)
    (h : Folds (NameStep cx n target false)
      ((cx.exports target).filterMap ExportedSymbol.exportedName?)
      { c with visited := target :: c.visited } s c' t) :
    PlainOn cx earlier files s t ∧ c'.visited = target :: c.visited ∧
      Added cx earlier t.root.env c c' (cx.listed target) := by
  refine h.inv (fun done b s' => PlainOn cx earlier files s s' ∧ b.visited = target :: c.visited ∧
    Added cx earlier s'.root.env c b ((done.filter (fun x => x ≠ "default")).map (target, ·)))
    ⟨.refl hs, rfl, .of_eq rfl rfl⟩ ?_
  rintro done name b₁ b₂ s₁ s₂ hname ⟨hs₁, hv, hb⟩ hstep
  obtain ⟨hs₂, hadded⟩ :=
    hstep.added hfree hs₁.plain hlead hhas (hs₁.keeps.included _ hinc) hname
  refine ⟨hs₁.trans hs₂, ?_, ?_⟩
  · cases hstep with
    | skip => exact hv
    | found => exact hv
    | missing => exact hv
  · rw [List.filter_append, List.map_append]
    exact (hb.congr hs₂.keeps).trans hadded

/-- Collecting adds what the files export that it passes. -/
theorem added_of_collect (hfree : cx.ImportFree) (hs : Plain cx earlier files s)
    (hlead : cx.LeadTo files target) (hhas : cx.HasFile target)
    (hinc : s.included.contains target = true)
    (h : collect cx n target false c s = some (c', t)) :
    PlainOn cx earlier files s t ∧ ∃ order : List Url, c'.visited = order.reverse ++ c.visited ∧
      Added cx earlier t.root.env c c' (order.flatMap cx.listed) := by
  induction n generalizing target c c' s t with
  | zero => exact (failure_inv h).elim
  | succ n ih =>
    cases collect_inv h with
    | again hv => exact ⟨.refl hs, [], rfl, .of_eq rfl rfl⟩
    | all hnew names stars =>
      obtain ⟨hs₁, hv₁, hadded₁⟩ := added_of_names hfree hs hlead hhas hinc names
      refine stars.inv (fun _ b s' => PlainOn cx earlier files s s' ∧
        ∃ order : List Url, b.visited = order.reverse ++ c.visited ∧
          Added cx earlier s'.root.env c b (order.flatMap cx.listed))
        ⟨hs₁, [target], by simpa using hv₁, by simpa using hadded₁⟩ ?_
      rintro _ e b₁ b₂ s₂ s₃ he ⟨hs₂, order, hv, hadded⟩ hstep
      cases hstep with
      | skip => exact ⟨hs₂, order, hv, hadded⟩
      | outer hsrc hin =>
        exact ⟨hs₂, order, (b₁.visited_addStar _).trans hv, hadded.addStar _⟩
      | @inner src file _ s₄ _ hsrc hin hinc' hcollect =>
        subst hsrc
        have hlinks : cx.Links target file := .exported he rfl hin
        obtain ⟨run, hincluded⟩ := (calls cx n).includeFile (r := .dependency)
          ⟨hs₂.plain.atRoot.formed, hlead.tail hlinks, .linked hhas hlinks⟩ (by simp) hinc'
        have hs₄ : PlainOn cx earlier files s₂ s₄ := .run hs₂.plain run
        obtain ⟨hs₅, order', hv', hadded'⟩ := ih hs₄.plain (hlead.tail hlinks)
          (.linked hhas hlinks) (hincluded hs₂.plain.atRoot.root) hcollect
        refine ⟨hs₂.trans (hs₄.trans hs₅), order ++ order', by simp [hv', hv], ?_⟩
        rw [List.flatMap_append]
        exact (hadded.congr (hs₄.keeps.trans hs₅.keeps)).trans hadded'

open Classical in
/-- In a chunk without imports, collecting for a star from a file that is inlined ends at any state
of the root. The names are those that the file and, depth first, the files to which its stars lead
export by themselves, `default` left out, in order, each once and for the first file that exports
it, if its way ends somewhere: at a declaration of this chunk or outside of it. Where it ends at a
declaration, the name is bound to what is the final name of the declaration from then on. The stars
are those of the files passed that lead out of the chunk, each specifier once. -/
theorem star_expands (hfree : cx.ImportFree) (hs : Merging cx earlier files s)
    (hlead : cx.LeadTo files target) (hhas : cx.HasFile target)
    (hinc : s.included.contains target = true) (hn : depthBound cx.files ≤ n) :
    ∃ c t order, collect cx n target false Collected.empty s = some (c, t) ∧
      DepthFirst cx.starFiles [] [target] order ∧
      c.names.map Prod.fst = ((cx.offered order).filter
        (fun e => ∃ τ, cx.EndsAt earlier e.1 e.2 (some τ))).map Prod.snd ∧
      (c.names.map Prod.fst).Nodup ∧
      (∀ name final, (name, final) ∈ c.names → ∃ g τ, (g, name) ∈ cx.offered order ∧
        cx.EndsAt earlier g name (some τ) ∧ ∀ d k u, τ = .decl d k → Keeps t u →
          u.root.env.lookup d k = some final) ∧
      c.stars.Nodup ∧ ∀ x, x ∈ c.stars ↔ ∃ g ∈ order, ∃ src, .all src ∈ cx.exports g ∧
        cx.inChunk? src g = none ∧ x = cx.placeSpecifier src g := by
  have hdepth : cx.depth s + 5 + 2 * cx.questions + cx.unpassed Collected.empty.visited ≤
      depthBound cx.files := by
    have hbound := cx.depth_le_depthBound s
    have hpassed := cx.unpassed_le_files Collected.empty.visited
    unfold Context.gathering at hbound
    omega
  obtain ⟨c, t, hends, -⟩ := @Ending.collect cx _ (ending cx _) target false Collected.empty s
    hhas.mem_fileSet hdepth
  have hc := hends n hn
  obtain ⟨hs', order, hv, hadded⟩ :=
    added_of_collect hfree (hs.plain hfree) hlead hhas hinc hc
  obtain ⟨order', outer, hd, hp, ho⟩ := passed_of_collect hc
  obtain rfl : order = order' := by
    have hsame := hv.symm.trans hp.visited
    simpa [Collected.empty] using hsame
  obtain ⟨ns, hns, hkept⟩ := hadded.names
  obtain rfl : c.names = ns := by simpa [Collected.empty] using hns
  refine ⟨c, t, order, hc, hd, hkept.names, ?_, fun name final he => ?_, hp.nodup List.nodup_nil,
    fun x => ?_⟩
  · rw [hkept.names]
    exact (nodup_firstNamed [] _).sublist (List.filter_sublist.map _)
  · obtain ⟨g, τ, hg, hend, hf⟩ := hkept.final he
    exact ⟨g, τ, hg, hend, fun d k u hτ hu => hu.named d k final (hf d k hτ)⟩
  · rw [hp.stars, ho]
    simp [Collected.empty, Context.mem_outerStars]

theorem Context.importFree_of_keys (h : ∀ f ∈ cx.files.modules.keys, cx.imports f = []) :
    cx.ImportFree := by
  intro f _
  cases hm : cx.files.get? f with
  | none => simp [Context.imports, Context.body, hm]
  | some m => exact h f (OrderedMap.mem_keys_iff.2 ⟨m, hm⟩)

/-- Two files with stars for each other, which both export `A`. -/
def starCycle : Context := .ofFiles
  [("/b.d.ts", [.exportDecl (emptyClass "A"), .exportDecl (emptyClass "B"), starOf "/a.d.ts"]),
    ("/a.d.ts", [starOf "/b.d.ts", .exportDecl (emptyClass "A")])]

open Classical in
set_option maxRecDepth 100000 in
/-- While `/a.d.ts` is in progress, `A` stands for its own class, and `B` for that of `/b.d.ts`. -/
theorem star_expands_cycle :
    ∃ s c t, Merging starCycle ∅ [.ofPath "/a.d.ts"] s ∧
      collect starCycle (depthBound starCycle.files) (.ofPath "/a.d.ts") false Collected.empty s =
        some (c, t) ∧
      c.names.map Prod.fst = ["A", "B"] ∧ c.stars = [] := by
  have hhas : starCycle.HasFile (.ofPath "/a.d.ts") :=
    .entry (m := .ofPath "/a.d.ts") (by decide +kernel) (by decide +kernel)
  have hfree : starCycle.ImportFree := Context.importFree_of_keys (by decide +kernel)
  have hmerging : Merging starCycle ∅ [.ofPath "/a.d.ts"] _ :=
    .begin .start rfl hhas (fun _ hg => by cases hg)
  obtain ⟨c, t, order, hc, hd, hnames, -, -, -, hstars⟩ := star_expands hfree hmerging
    (fun g hg => List.mem_singleton.1 hg ▸ .refl) hhas (by decide +kernel) le_rfl
  have ha : starCycle.starFiles (.ofPath "/a.d.ts") = [.ofPath "/b.d.ts"] := by decide +kernel
  have hb : starCycle.starFiles (.ofPath "/b.d.ts") = [.ofPath "/a.d.ts"] := by decide +kernel
  obtain rfl : order = [.ofPath "/a.d.ts", .ofPath "/b.d.ts"] := by
    refine hd.unique (.visit (by simp) ?_)
    rw [ha]
    refine .visit (by decide) ?_
    rw [hb]
    exact .again (by simp) .nil
  have hends (g : Url) (name : String) (h : starCycle.onward ∅ g name = [.arrive (.decl g name)]) :
      starCycle.EndsAt ∅ g name (some (.decl g name)) := by
    refine ⟨[(g, name)], .of_onward (by simp) ?_⟩
    rw [h]
    exact .arrive
  have hoffered : starCycle.offered [.ofPath "/a.d.ts", .ofPath "/b.d.ts"] =
      [(.ofPath "/a.d.ts", "A"), (.ofPath "/b.d.ts", "B")] := by decide +kernel
  refine ⟨_, c, t, hmerging, hc, ?_, List.eq_nil_iff_forall_not_mem.2 (fun x hx => ?_)⟩
  · rw [hnames, hoffered, List.filter_eq_self.2]
    · rfl
    · intro e he
      refine decide_eq_true ?_
      rcases List.mem_cons.1 he with rfl | he
      · exact ⟨_, hends _ _ (by decide +kernel)⟩
      · rw [List.mem_singleton.1 he]
        exact ⟨_, hends _ _ (by decide +kernel)⟩
  · obtain ⟨g, hg, src, hsrc, hin, -⟩ := (hstars x).1 hx
    have hnone : ∀ g ∈ [Url.ofPath "/a.d.ts", Url.ofPath "/b.d.ts"],
        starCycle.outerStars g = [] := by decide +kernel
    have hmem := Context.mem_outerStars.2 ⟨src, hsrc, hin, rfl⟩
    simp [hnone g hg] at hmem

/-- An entry with a star for a file that exports `A`. -/
def starOfA : Context := .ofFiles
  [("/a.d.ts", [.exportDecl (emptyClass "A")]), ("/i.d.ts", [starOf "/a.d.ts"])]

set_option maxRecDepth 100000 in
/-- Where an earlier chunk has inlined `/a.d.ts`, its `A` is left out. -/
theorem earlier_left_out : starOfA.ImportFree ∧
    ¬∀ earlier s c t, Merging starOfA earlier [] s →
      s.included.contains (.ofPath "/a.d.ts") = true →
      collect starOfA (depthBound starOfA.files) (.ofPath "/a.d.ts") false Collected.empty s =
        some (c, t) →
      ∀ g name d k, starOfA.Within (.ofPath "/a.d.ts") g → starOfA.Lists g name →
        name ≠ "default" → starOfA.Means (.exported g name) d k → name ∈ c.names.map Prod.fst := by
  refine ⟨Context.importFree_of_keys (by decide +kernel), fun hall => ?_⟩
  have hcheck : (collect starOfA (depthBound starOfA.files) (.ofPath "/a.d.ts") false
      Collected.empty (State.start (SeenSet.ofList [.ofPath "/a.d.ts"]))).any
      (fun r => r.1.names == []) := by decide +kernel
  obtain ⟨⟨c, t⟩, hc, hnames⟩ := (Option.any_eq_true _ _).1 hcheck
  have hmeans : starOfA.Means (.exported (.ofPath "/a.d.ts") "A") (.ofPath "/a.d.ts") "A" := by
    have hclosed : starOfA.ClosedFor [.exported (.ofPath "/a.d.ts") "A",
        .own (.ofPath "/a.d.ts") "A"] (.ofPath "/a.d.ts") "A" := by decide +kernel
    exact hclosed.means (by simp) (.next (b := .own (.ofPath "/a.d.ts") "A") (by decide +kernel)
      (.here (by decide +kernel)))
  have hlists : starOfA.Lists (.ofPath "/a.d.ts") "A" := Context.lists_iff.2 (by decide +kernel)
  have hmem := hall _ _ c t .start (by decide +kernel) hc (.ofPath "/a.d.ts") "A" _ _ .refl
    hlists (by decide) hmeans
  rw [show c.names = [] by simpa using hnames] at hmem
  cases hmem

end Collect

end AmbientBundle.Merge
