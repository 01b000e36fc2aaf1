import AmbientBundle.Proofs.Merge.Gathering
import AmbientBundle.Proofs.Merge.ImportLinks
import AmbientBundle.Proofs.Merge.Termination
import AmbientBundle.Proofs.Merge.Underway
/-!
Where an export comes from that a file has by its stars only. A file that exports the name by itself
and stands for a declaration is found, in blocks as well as at the root, and a star that leads out
of the chunk is left aside for it, as long as no file but the first has such stars.
-/
namespace AmbientBundle.Merge

open Names Step Syntax

/-- The file is inlined at the root, or it is the file of an open block. -/
def InReach (s : State) (file : Url) : Prop :=
  s.included.contains file = true ∨ file ∈ s.targets

/-- What is in `v'` besides `v` are names for which resolving finds nothing but what names in `v'`
may give. -/
structure DeadEnds (cx : Context) (earlier : SeenSet Url) (busy : Url → Prop) (v v' : Visited) :
    Prop where
  subset : v ⊆ v'
  stuck : ∀ a ∈ v', a ∈ v ∨ Stuck cx earlier busy v' a

/-- Looking for a name from the target leads from `s` to `t`, and nothing is found so far: files to
which stars lead are included, and such of them are asked for the name that export it by
themselves. -/
inductive Seeks (cx : Context) (name : String) (target : Url) : State → State → Prop where
  | refl {s : State} : Seeks cx name target s s
  | enter {n : Nat} {file : Url} {s t u : State} (before : Seeks cx name target s t)
      (hpath : cx.Inherits name target file)
      (h : includeFile cx n file .dependency t = some ((), u)) : Seeks cx name target s u
  | ask {n : Nat} {file : Url} {v v' : Visited} {s t u : State} (before : Seeks cx name target s t)
      (hpath : cx.Inherits name target file) (hlists : cx.Lists file name)
      (h : resolveExport cx n file name v t = some ((none, v'), u)) : Seeks cx name target s u

/-- Looking for a name from the target comes to a file: to the target itself in the beginning, and
to others when they are included. -/
inductive Comes (cx : Context) (name : String) (target : Url) (s : State) : Url → State → Prop where
  | start : Comes cx name target s target s
  | enter {n : Nat} {file : Url} {t u : State} (before : Seeks cx name target s t)
      (hpath : cx.Inherits name target file)
      (h : includeFile cx n file .dependency t = some ((), u)) : Comes cx name target s file u

/-- The final name is what a file that exports the name by itself answers, the first one of them
that does. -/
structure AnswersFirst (cx : Context) (name : String) (target file : Url) (f : String)
    (v' : Visited) (s t : State) : Prop where
  path : cx.Inherits name target file
  lists : cx.Lists file name
  answer : ∃ k v s₁, Comes cx name target s file s₁ ∧
    resolveExport cx k file name v s₁ = some ((some f, v'), t)

/-- Files below the first one from which it inherits the name have no stars that lead out of the
chunk. -/
def Context.StarsStay (cx : Context) (name : String) (target : Url) : Prop :=
  ∀ g, cx.Inherits name target g → g ≠ target → ¬cx.Lists g name →
    ∀ src, .all src ∈ cx.exports g → cx.inChunk? src g ≠ none

variable {cx : Context} {earlier : SeenSet Url} {n : Nat} {files : List Url} {busy : Url → Prop}
  {target file : Url} {name : String} {v v' v'' : Visited} {found : Option String} {s t u : State}

section Reach

/-- Behind its inclusion a file is in reach. -/
theorem inReach_of_includeFile (hs : Ready cx files file s)
    (h : includeFile cx n file .dependency s = some ((), t)) : InReach t file := by
  obtain ⟨run, hincluded⟩ := (calls cx n).includeFile (r := .dependency) hs (by simp) h
  cases n with
  | zero => exact (failure_inv h).elim
  | succ n =>
  cases includeFile_inv h with
  | opened _ hopen => exact Or.inr hopen
  | atRoot _ h =>
    cases n with
    | zero => exact (failure_inv h).elim
    | succ n =>
    obtain ⟨s₁, hinc, rfl⟩ := includeAtRoot_inv h
    have hready : Ready cx files file s.suspend := ⟨hs.formed.suspend, hs.lead, hs.has⟩
    refine Or.inl ?_
    rw [State.included_inheritFromRoot]
    exact ((calls cx n).includeFile (r := .dependency) hready (by simp) hinc).2 rfl
  | present hb => exact Or.inl (hincluded hb)
  | again hb => exact Or.inl (hincluded hb)
  | inlined hb => exact Or.inl (hincluded hb)

end Reach

section Visited

/-- Names that were visited stay visited. -/
theorem visited_subset (cx : Context) (n : Nat) :
    (∀ target name v v' s t found,
      resolveExport cx n target name v s = some ((found, v'), t) → v ⊆ v') ∧
    ∀ target name v v' s t found,
      resolveInStars cx n target name v s = some ((found, v'), t) → v ⊆ v' := by
  induction n with
  | zero =>
    exact ⟨fun _ _ _ _ _ _ _ h => (failure_inv h).elim, fun _ _ _ _ _ _ _ h => (failure_inv h).elim⟩
  | succ n ih =>
    refine ⟨fun target name v v' s t found h => ?_, fun target name v v' s t found h => ?_⟩
    · have hcons : v ⊆ (target, name) :: v := List.subset_cons_self _ _
      cases resolveExport_inv h with
      | again => exact List.Subset.refl _
      | source _ _ _ h => exact List.Subset.trans hcons (ih.1 _ _ _ _ _ _ _ h)
      | stars _ _ h => exact List.Subset.trans hcons (ih.2 _ _ _ _ _ _ _ h)
      | listed => exact hcons
      | outer => exact hcons
      | space => exact hcons
      | outerSpace => exact hcons
      | noDefault => exact hcons
    · obtain ⟨b, s₁, hfold, hend⟩ := resolveInStars_inv h
      have hb : v ⊆ b.2.2 := by
        refine hfold.inv (fun _ b _ => v ⊆ b.2.2) (List.Subset.refl _) ?_
        rintro done e b₁ b₂ s₂ s₃ _ hv hstep
        cases hstep with
        | skip => exact hv
        | outer => exact hv
        | inner _ _ _ h => exact List.Subset.trans hv (ih.1 _ _ _ _ _ _ _ h)
      cases hend <;> exact hb

namespace DeadEnds

theorem refl (v : Visited) : DeadEnds cx earlier busy v v :=
  ⟨List.Subset.refl _, fun _ ha => Or.inl ha⟩

theorem trans (h : DeadEnds cx earlier busy v v') (h' : DeadEnds cx earlier busy v' v'') :
    DeadEnds cx earlier busy v v'' := by
  refine ⟨List.Subset.trans h.subset h'.subset, fun a ha => ?_⟩
  rcases h'.stuck a ha with ha | ha
  · exact (h.stuck a ha).imp_right (fun hs => hs.mono h'.subset)
  · exact Or.inr ha

/-- A name is a dead end if all that it leads to is. -/
theorem of_cons {a : Url × String} (h : DeadEnds cx earlier busy (a :: v) v')
    (ha : Stuck cx earlier busy v' a) : DeadEnds cx earlier busy v v' := by
  refine ⟨List.Subset.trans (List.subset_cons_self _ _) h.subset, fun b hb => ?_⟩
  rcases h.stuck b hb with hb | hb
  · rcases List.mem_cons.1 hb with rfl | hb
    · exact Or.inr ha
    · exact Or.inl hb
  · exact Or.inr hb

end DeadEnds

/-- A name that the file has of itself is known in the current scope, unless it is none that the
file declares or imports in a way that can be told by then. -/
theorem Underway.stuck_listed {k property : String} {id : Option DeclId}
    (hs : Underway cx earlier files s) (hreach : InReach s target)
    (hbusy : ∀ g, g ∈ files ∨ g ∈ s.targets → busy g)
    (hx : cx.explicit? target name = some (.named k property none id))
    (hnone : s.lookup target property = none) : Stuck cx earlier busy v (target, name) := by
  refine ⟨fun hx' hnew => ?_, by simp [hx], by simp [hx], by simp [hx]⟩
  rw [hx] at hx'
  cases hx'
  have hunknown : ¬(s.lookup target property).isSome := by simp [hnone]
  rcases hreach with hinc | hopen
  · have hdue : ¬Due cx earlier files target property := fun hd => hunknown (hs.lookup_due hinc hd)
    refine ⟨fun hd => hdue ⟨hnew, Or.inl hd⟩, fun hidle e he hloc hl => ?_⟩
    exact hdue ⟨hnew, Or.inr ⟨fun hf => hidle (hbusy target (Or.inl hf)), e, he, hloc, hl⟩⟩
  · exact ⟨fun hd => hunknown (hs.lookup_target hopen hd),
      fun hidle => absurd (hbusy target (Or.inr hopen)) hidle⟩

/-- Where resolving an export with depth `k` finds nothing, it has come to dead ends only. -/
def Exhausts (cx : Context) (earlier : SeenSet Url) (k : Nat) : Prop :=
  ∀ ⦃files : List Url⦄ ⦃busy : Url → Prop⦄ ⦃target : Url⦄ ⦃name : String⦄ ⦃v v' : Visited⦄
    ⦃s t : State⦄, Underway cx earlier files s → cx.LeadTo files target → cx.HasFile target →
    Asked cx name → InReach s target → (∀ g, g ∈ files ∨ g ∈ s.targets → busy g) →
    resolveExport cx k target name v s = some ((none, v'), t) →
    DeadEnds cx earlier busy v v' ∧ (target, name) ∈ v'

/-- Where looking for a name in the stars of a file with depth `k` finds nothing, it has come to
dead ends only. -/
def StarsExhaust (cx : Context) (earlier : SeenSet Url) (k : Nat) : Prop :=
  ∀ ⦃files : List Url⦄ ⦃busy : Url → Prop⦄ ⦃target : Url⦄ ⦃name : String⦄ ⦃v v' : Visited⦄
    ⦃s t : State⦄, Underway cx earlier files s → cx.LeadTo files target → cx.HasFile target →
    cx.Writes name → (∀ g, g ∈ files ∨ g ∈ s.targets → busy g) →
    resolveInStars cx k target name v s = some ((none, v'), t) →
    DeadEnds cx earlier busy v v' ∧ ∀ src, .all src ∈ cx.exports target →
      ∃ file, cx.inChunk? src target = some file ∧ (file, name) ∈ v'

/-- Some stars of a file were asked for a name, and none in the chunk has it: all that was visited are
dead ends, among them the files to which the stars lead. If a star leads out of the chunk, it is kept
as a last resort. -/
structure StarsExhausted (cx : Context) (earlier : SeenSet Url) (busy : Url → Prop) (v : Visited)
    (target : Url) (name : String) (stars : List ExportedSymbol) (outer : Option String)
    (v' : Visited) : Prop where
  dead : DeadEnds cx earlier busy v v'
  asked : ∀ src, .all src ∈ stars →
    (∃ file, cx.inChunk? src target = some file ∧ (file, name) ∈ v') ∨
      cx.inChunk? src target = none ∧ outer ≠ none

namespace StarsExhausted

variable {stars : List ExportedSymbol} {e : ExportedSymbol} {src : String} {outer : Option String}

theorem skip (h : StarsExhausted cx earlier busy v target name stars outer v')
    (hskip : ∀ src, e ≠ .all src) :
    StarsExhausted cx earlier busy v target name (stars ++ [e]) outer v' := by
  refine ⟨h.dead, fun src hmem => ?_⟩
  rcases List.mem_append.1 hmem with hmem | hmem
  · exact h.asked src hmem
  · exact absurd (List.mem_singleton.1 hmem).symm (hskip src)

theorem leave (h : StarsExhausted cx earlier busy v target name stars outer v')
    (hin : cx.inChunk? src target = none) (first : String) :
    StarsExhausted cx earlier busy v target name (stars ++ [.all src]) (some first) v' := by
  refine ⟨h.dead, fun src' hmem => ?_⟩
  rcases List.mem_append.1 hmem with hmem | hmem
  · exact (h.asked src' hmem).imp_right (fun hout => ⟨hout.1, by simp⟩)
  · obtain rfl : src' = src := by simpa using hmem
    exact Or.inr ⟨hin, by simp⟩

theorem follow (h : StarsExhausted cx earlier busy v target name stars outer v')
    (hin : cx.inChunk? src target = some file) (hdead : DeadEnds cx earlier busy v' v'')
    (hfile : (file, name) ∈ v'') :
    StarsExhausted cx earlier busy v target name (stars ++ [.all src]) outer v'' := by
  refine ⟨h.dead.trans hdead, fun src' hmem => ?_⟩
  rcases List.mem_append.1 hmem with hmem | hmem
  · refine (h.asked src' hmem).imp_left ?_
    rintro ⟨file', hin', hmem'⟩
    exact ⟨file', hin', hdead.subset hmem'⟩
  · obtain rfl : src' = src := by simpa using hmem
    exact Or.inl ⟨file, hin, hfile⟩

end StarsExhausted

/-- Where looking for a name in the stars of a file finds nothing in the chunk, it has come to dead
ends only, and by then has asked all files of the chunk to which the stars lead. -/
theorem stars_exhausted (hn : Exhausts cx earlier n) (hs : Underway cx earlier files s)
    (hlead : cx.LeadTo files target) (hhas : cx.HasFile target) (hname : cx.Writes name)
    (hbusy : ∀ g, g ∈ files ∨ g ∈ s.targets → busy g)
    {b : Option String × Option String × Visited}
    (h : Folds (StarStep cx n target name) (cx.exports target) (none, none, v) s b t)
    (hb : b.1 = none) :
    StarsExhausted cx earlier busy v target name (cx.exports target) b.2.1 b.2.2 := by
  have H : Underway cx earlier files t ∧ t.targets = s.targets ∧ (b.1 = none →
      StarsExhausted cx earlier busy v target name (cx.exports target) b.2.1 b.2.2) := by
    refine h.inv (fun done b s' => Underway cx earlier files s' ∧ s'.targets = s.targets ∧
      (b.1 = none → StarsExhausted cx earlier busy v target name done b.2.1 b.2.2))
      ⟨hs, rfl, fun _ => ⟨.refl v, by simp⟩⟩ ?_
    rintro done e b₁ b₂ s₂ s₃ he ⟨hs₂, ht₂, hb₁⟩ hstep
    cases hstep with
    | skip hskip => exact ⟨hs₂, ht₂, fun hnone => (hb₁ hnone).skip (hskip hnone)⟩
    | outer hsrc hin =>
      subst hsrc
      exact ⟨hs₂, ht₂, fun _ => (hb₁ rfl).leave hin _⟩
    | @inner src outer found₂ v₁ v₂ file _ s₄ _ hsrc hin hinc h =>
      subst hsrc
      have hready : Ready cx files file s₂ :=
        Ready.next ⟨hs₂.grounded.formed, hlead, hhas⟩ (.exported he rfl hin)
      obtain ⟨run, run', _⟩ :=
        (calls cx n).asks (r := .dependency) hready (Or.inr hname) hinc h
      have ht₄ : s₄.targets = s.targets := run.stacks.1.trans ht₂
      refine ⟨(hs₂.run run).run run', run'.stacks.1.trans ht₄, fun hnone => ?_⟩
      have hnone : found₂ = none := hnone
      subst hnone
      obtain ⟨hdead, hmem⟩ := hn (hs₂.run run) hready.lead hready.has (Or.inr hname)
        (inReach_of_includeFile hready hinc) (by rwa [ht₄]) h
      exact (hb₁ rfl).follow hin hdead hmem
  exact H.2.2 hb

theorem starsExhaust_succ (hn : Exhausts cx earlier n) : StarsExhaust cx earlier (n + 1) := by
  intro files busy target name v v' s t hs hlead hhas hname hbusy h
  obtain ⟨b, s₁, hfold, hend⟩ := resolveInStars_inv h
  cases hend with
  | none =>
    obtain ⟨hdead, hall⟩ := stars_exhausted hn hs hlead hhas hname hbusy hfold rfl
    exact ⟨hdead, fun src hsrc => (hall src hsrc).resolve_right (fun hout => hout.2 rfl)⟩

theorem exhausts_succ (hn : Exhausts cx earlier n) (hstars : StarsExhaust cx earlier n) :
    Exhausts cx earlier (n + 1) := by
  intro files busy target name v v' s t hs hlead hhas hname hreach hbusy h
  have hinv := resolveExport_inv h
  have hcons : DeadEnds cx earlier busy ((target, name) :: v) ((target, name) :: v) := .refl _
  generalize hfound : (none : Option String) = found at hinv
  cases hinv with
  | again hv => exact ⟨.refl v, hv⟩
  | listed hx =>
    exact ⟨hcons.of_cons (hs.stuck_listed hreach hbusy hx hfound.symm), List.mem_cons_self⟩
  | @source k property src id file s₁ _ _ _ hx hin hinc h =>
    subst hfound
    obtain ⟨hlinks, hasked⟩ := Calls.explicit_asks hhas hx hin
    have hready : Ready cx files file s := Ready.next ⟨hs.grounded.formed, hlead, hhas⟩ hlinks
    have run := ((calls cx n).includeFile (r := .dependency) hready (by simp) hinc).1
    obtain ⟨hdead, hfile⟩ := hn (hs.run run) hready.lead hready.has hasked
      (inReach_of_includeFile hready hinc) (by rwa [run.stacks.1]) h
    refine ⟨hdead.of_cons ⟨by simp [hx], fun hx' => ?_, by simp [hx], by simp [hx]⟩,
      hdead.subset List.mem_cons_self⟩
    rw [hx] at hx'
    cases hx'
    exact ⟨file, hin, hfile⟩
  | outer => cases hfound
  | space => cases hfound
  | outerSpace => cases hfound
  | noDefault hx hd =>
    exact ⟨hcons.of_cons ⟨by simp [hx], by simp [hx], by simp [hx], fun _ hd' => absurd hd hd'⟩,
      List.mem_cons_self⟩
  | stars hx hd h =>
    subst hfound
    obtain ⟨hdead, hall⟩ := hstars hs hlead hhas (hname.resolve_left hd) hbusy h
    exact ⟨hdead.of_cons ⟨by simp [hx], by simp [hx], by simp [hx], fun _ _ => hall _⟩,
      hdead.subset List.mem_cons_self⟩

/-- Where resolving an export finds nothing, it has come to dead ends only, at any depth. -/
theorem exhausts (cx : Context) (earlier : SeenSet Url) (k : Nat) : Exhausts cx earlier k := by
  suffices H : Exhausts cx earlier k ∧ StarsExhaust cx earlier k from H.1
  induction k with
  | zero =>
    exact ⟨fun _ _ _ _ _ _ _ _ _ _ _ _ _ _ h => (failure_inv h).elim,
      fun _ _ _ _ _ _ _ _ _ _ _ _ _ h => (failure_inv h).elim⟩
  | succ n ih => exact ⟨exhausts_succ ih.1 ih.2, starsExhaust_succ ih.1⟩

end Visited

section Search

/-- What is looked for below a star of the target is looked for from the target. -/
theorem Seeks.from_star (h : Seeks cx name file s t) (hstar : cx.Stars target file)
    (hl : ¬cx.Lists target name) : Seeks cx name target s t := by
  induction h with
  | refl => exact .refl
  | enter _ hpath h ih => exact .enter ih (.head ⟨hstar, hl⟩ hpath) h
  | ask _ hpath hlists h ih => exact .ask ih (.head ⟨hstar, hl⟩ hpath) hlists h

theorem Seeks.trans (h : Seeks cx name target s t) (h' : Seeks cx name target t u) :
    Seeks cx name target s u := by
  induction h' with
  | refl => exact h
  | enter _ hpath h' ih => exact .enter (ih h) hpath h'
  | ask _ hpath hlists h' ih => exact .ask (ih h) hpath hlists h'

/-- The outcome of looking for a name from the target. -/
structure Sought (cx : Context) (name : String) (target : Url) (found : Option String)
    (v' : Visited) (s t : State) : Prop where
  inVain : found = none → Seeks cx name target s t
  first : ∀ f, found = some f → ∃ file, AnswersFirst cx name target file f v' s t

/-- The outcome of looking further from a file to which a star of the target leads. -/
theorem Sought.from_star {s₁ : State} (h : Sought cx name file found v' s₁ t)
    (hs : Seeks cx name target s u) (hinc : includeFile cx n file .dependency u = some ((), s₁))
    (hstar : cx.Stars target file) (hl : ¬cx.Lists target name) :
    Sought cx name target found v' s t := by
  have henter : Seeks cx name target s s₁ := .enter hs (.single ⟨hstar, hl⟩) hinc
  refine ⟨fun hnone => henter.trans ((h.inVain hnone).from_star hstar hl), fun f hf => ?_⟩
  obtain ⟨e, he⟩ := h.first f hf
  obtain ⟨k, v, s₂, hcomes, hanswer⟩ := he.answer
  refine ⟨e, .head ⟨hstar, hl⟩ he.path, he.lists, k, v, s₂, ?_, hanswer⟩
  cases hcomes with
  | start => exact .enter hs (.single ⟨hstar, hl⟩) hinc
  | enter before hpath h =>
    exact .enter (henter.trans (before.from_star hstar hl)) (.head ⟨hstar, hl⟩ hpath) h

/-- Looking for a name in the stars of a file, whose own stars may lead out of the chunk. -/
theorem stars_sought {root : Url} (hstay : cx.StarsStay name root)
    (hpath : cx.Inherits name root target) (hl : ¬cx.Lists target name) (hv : (root, name) ∈ v)
    (hbelow : ∀ ⦃file v v' s t found⦄, cx.Inherits name root file → (root, name) ∈ v →
      resolveExport cx n file name v s = some ((found, v'), t) →
        Sought cx name file found v' s t)
    {b : Option String × Option String × Visited}
    (h : Folds (StarStep cx n target name) (cx.exports target) (none, none, v) s b t) :
    Sought cx name target b.1 b.2.2 s t ∧ (b.2.1.isSome → target = root) := by
  have H : Sought cx name target b.1 b.2.2 s t ∧ (root, name) ∈ b.2.2 ∧
      (b.2.1.isSome → target = root) := by
    refine h.inv (fun _ b s' => Sought cx name target b.1 b.2.2 s s' ∧ (root, name) ∈ b.2.2 ∧
      (b.2.1.isSome → target = root)) ⟨⟨fun _ => .refl, by simp⟩, hv, by simp⟩ ?_
    rintro done e b₁ b₂ s₁ s₂ he ⟨hb₁, hv₁, hout⟩ hstep
    cases hstep with
    | skip => exact ⟨hb₁, hv₁, hout⟩
    | @outer src _ _ _ hsrc hin =>
      subst hsrc
      refine ⟨⟨fun _ => hb₁.inVain rfl, by simp⟩, hv₁, fun _ => ?_⟩
      by_contra hne
      exact hstay target hpath hne hl src he hin
    | @inner src outer found₂ v₁ v₂ file _ s₃ _ hsrc hin hinc h =>
      subst hsrc
      have hstar : cx.Stars target file := ⟨src, he, hin⟩
      have hfile := hbelow (hpath.tail ⟨hstar, hl⟩) hv₁ h
      exact ⟨hfile.from_star (hb₁.inVain rfl) hinc hstar hl,
        (visited_subset cx n).1 _ _ _ _ _ _ _ h hv₁, hout⟩
  exact ⟨H.1, H.2.2⟩

/-- Below the file from which the search starts, a star is never taken out of the chunk. -/
theorem sought_below {root : Url} (hstay : cx.StarsStay name root) (hd : name ≠ "default") :
    ∀ ⦃k file v v' s t found⦄, cx.Inherits name root file → (root, name) ∈ v →
      resolveExport cx k file name v s = some ((found, v'), t) →
        Sought cx name file found v' s t := by
  intro k
  induction k using Nat.strongRecOn with
  | ind k ih =>
    intro file v v' s t found hpath hv h
    by_cases hl : cx.Lists file name
    · exact ⟨fun hnone => .ask .refl .refl hl (hnone ▸ h),
        fun f hf => ⟨file, .refl, hl, k, v, s, .start, hf ▸ h⟩⟩
    have hx : cx.explicit? file name = none := by simpa [Context.Lists] using hl
    cases k with
    | zero => exact (failure_inv h).elim
    | succ k =>
    by_cases hagain : (file, name) ∈ v
    · obtain ⟨rfl, -, rfl⟩ := resolveExport_again hagain h
      exact ⟨fun _ => .refl, by simp⟩
    cases resolveExport_inv h with
    | again hv' => exact absurd hv' hagain
    | noDefault _ hdefault => exact absurd hdefault hd
    | stars _ _ hstars =>
      cases k with
      | zero => exact (failure_inv hstars).elim
      | succ k =>
      obtain ⟨b, s₁, hfold, hend⟩ := resolveInStars_inv hstars
      obtain ⟨hb, hroot⟩ := stars_sought hstay hpath hl (List.mem_cons_of_mem _ hv)
        (ih k (by omega)) hfold
      cases hend with
      | found => exact hb
      | none => exact hb
      | outer =>
        obtain rfl := hroot rfl
        exact absurd hv hagain
    | listed hx' | source hx' | outer hx' | space hx' | outerSpace hx' =>
      rw [hx] at hx'
      cases hx'

end Search

/-- A name that leads to a declaration is not among visited names if all of them are dead ends, but
for one that a file has by its stars only and all whose stars were asked. -/
theorem Live.declared_not_mem {τ : Denoted} {g : Url} {k : String}
    (h : Live cx earlier busy file name τ) (hτ : τ = .decl g k) {root : Url} {x : String}
    (hx : cx.explicit? root x = none)
    (hstars : ∀ src file, .all src ∈ cx.exports root → cx.inChunk? src root = some file →
      (file, x) ∈ v)
    (hv : ∀ a ∈ v, a = (root, x) ∨ Stuck cx earlier busy v a) : (file, name) ∉ v := by
  intro hmem
  have hlisted {file : Url} {name : String} {e : ExportedSymbol} (hmem : (file, name) ∈ v)
      (he : cx.explicit? file name = some e) : Stuck cx earlier busy v (file, name) := by
    refine (hv _ hmem).resolve_left (fun hsame => ?_)
    obtain ⟨rfl, rfl⟩ := Prod.mk.inj hsame
    cases hx.symm.trans he
  induction h with
  | declared hx' hnew hd => exact ((hlisted hmem hx').listed hx' hnew).1 hd
  | linked hx' hnew hdone he hloc hin hname hl =>
    refine ((hlisted hmem hx').listed hx' hnew).2 hdone _ he hloc ?_
    intro target name hin' hname'
    obtain rfl := Option.some.inj (hin.symm.trans hin')
    obtain rfl := Option.some.inj (hname.symm.trans hname')
    exact ⟨_, hl⟩
  | source hx' hin _ ih =>
    obtain ⟨target, hin', hmem'⟩ := (hlisted hmem hx').source hx'
    obtain rfl := Option.some.inj (hin.symm.trans hin')
    exact ih hτ hv hmem' hlisted
  | star hx' hn hs hin _ ih =>
    refine ih hτ hv ?_ hlisted
    rcases hv _ hmem with hsame | hstuck
    · obtain ⟨rfl, rfl⟩ := Prod.mk.inj hsame
      exact hstars _ _ hs hin
    · obtain ⟨target, hin', hmem'⟩ := hstuck.star hx' hn hs
      obtain rfl := Option.some.inj (hin.symm.trans hin')
      exact hmem'
  | _ => cases hτ

/-- What a file leads to that exports a name by itself, the files that inherit the name lead to. -/
theorem Live.inherited {τ : Denoted} (h : Live cx earlier busy file name τ) (hd : name ≠ "default")
    (hpath : cx.Inherits name target file) : Live cx earlier busy target name τ := by
  induction hpath using Relation.ReflTransGen.head_induction_on with
  | refl => exact h
  | head hstep _ ih =>
    obtain ⟨⟨src, hsrc, hin⟩, hl⟩ := hstep
    exact .star (by simpa [Context.Lists] using hl) hd hsrc hin ih

/-- The files whose imports may not be linked yet: those that are begun and not finished at the
root, and those of open blocks. -/
def AtWork (files : List Url) (s : State) (g : Url) : Prop := g ∈ files ∨ g ∈ s.targets

/-- Files to which stars lead are files of the chunk to which all lead that are begun. -/
theorem ready_of_inherits (hs : Underway cx earlier files s) (hlead : cx.LeadTo files target)
    (hhas : cx.HasFile target) (hpath : cx.Inherits name target file) : Ready cx files file s := by
  induction hpath with
  | refl => exact ⟨hs.grounded.formed, hlead, hhas⟩
  | tail _ hstep ih =>
    obtain ⟨⟨src, hsrc, hin⟩, -⟩ := hstep
    exact ih.next (.exported hsrc rfl hin)

/-- Merging is underway while a name is looked for. -/
theorem Seeks.underway (h : Seeks cx name target s t) (hs : Underway cx earlier files s)
    (hlead : cx.LeadTo files target) (hhas : cx.HasFile target) (hname : cx.Writes name) :
    Underway cx earlier files t ∧ t.inBlock = s.inBlock := by
  induction h with
  | refl => exact ⟨hs, rfl⟩
  | enter _ hpath h ih =>
    obtain ⟨ht, hb⟩ := ih hs
    have run := ((calls cx _).includeFile (r := .dependency)
      (ready_of_inherits ht hlead hhas hpath) (by simp) h).1
    exact ⟨ht.run run, run.inBlock_eq.trans hb⟩
  | ask _ hpath _ h ih =>
    obtain ⟨ht, hb⟩ := ih hs
    have run := ((calls cx _).resolveExport (r := .dependency)
      (ready_of_inherits ht hlead hhas hpath) (Or.inr hname) h).1
    exact ⟨ht.run run, run.inBlock_eq.trans hb⟩

/-- A file to which the search comes is in reach. -/
theorem Comes.inReach (h : Comes cx name target s file t) (hs : Underway cx earlier files s)
    (hlead : cx.LeadTo files target) (hhas : cx.HasFile target) (hname : cx.Writes name)
    (hreach : InReach s target) :
    Underway cx earlier files t ∧ t.inBlock = s.inBlock ∧ InReach t file := by
  cases h with
  | start => exact ⟨hs, rfl, hreach⟩
  | enter before hpath h =>
    obtain ⟨ht, hb⟩ := before.underway hs hlead hhas hname
    have hready := ready_of_inherits ht hlead hhas hpath
    have run := ((calls cx _).includeFile (r := .dependency) hready (by simp) h).1
    exact ⟨ht.run run, run.inBlock_eq.trans hb, inReach_of_includeFile hready h⟩

/-- What a file answers fits what it exports: at the root, and in blocks if no file imports a name
that it declares. -/
theorem AnswersFirst.fits {f : String} (h : AnswersFirst cx name target file f v' s t)
    (hs : Underway cx earlier files s) (hlead : cx.LeadTo files target) (hhas : cx.HasFile target)
    (hname : cx.Writes name) (hreach : InReach s target) :
    (s.inBlock = false → Denotes cx t (.exported file name) f) ∧
      (cx.ImportsApart → ∃ os ws, Stacks cx os ws t ∧
        FitsIn cx t.root.env os (.exported file name) f) := by
  obtain ⟨k, v, s₁, hcomes, hanswer⟩ := h.answer
  obtain ⟨hs₁, hb, hreach₁⟩ := hcomes.inReach hs hlead hhas hname hreach
  have hready := ready_of_inherits hs₁ hlead hhas h.path
  refine ⟨fun hroot => ?_, fun hd => ?_⟩
  · have hroot₁ := hb.trans hroot
    have hinc : s₁.included.contains file = true := by
      refine hreach₁.resolve_right (fun hopen => ?_)
      rw [State.inBlock_eq, Bool.not_eq_false', List.isEmpty_iff] at hroot₁
      rw [hroot₁] at hopen
      cases hopen
    cases answers cx earlier k (hs₁.atRoot hroot₁) hready.lead hready.has (Or.inr hname) hinc
      (fun _ hg => hg) hanswer with
    | found hf => exact hf
  · obtain ⟨os, ws, hk⟩ := hs₁.stacked hd
    have run := ((calls cx k).resolveExport (r := .dependency) hready (Or.inr hname) hanswer).1
    exact ⟨os, ws, run.stacked hd (fun k _ => findsIn hd earlier k) hs₁.grounded hk,
      findsIn hd earlier k hs₁.grounded hk hready.lead hready.has (Or.inr hname) hanswer⟩

/-- A name is resolved to what a file answers that exports it by itself, if there is such a file
that leads to a declaration. -/
theorem answersFirst_of_resolveExport {g : Url} {k : String} (hs : Underway cx earlier files s)
    (hlead : cx.LeadTo files target) (hhas : cx.HasFile target) (hreach : InReach s target)
    (hbusy : ∀ g, g ∈ files ∨ g ∈ s.targets → busy g) (hname : cx.Writes name)
    (hd : name ≠ "default") (hstay : cx.StarsStay name target)
    (hpath : cx.Inherits name target file) (hlive : Live cx earlier busy file name (.decl g k))
    (h : resolveExport cx n target name [] s = some ((found, v'), t)) :
    ∃ f e, found = some f ∧ AnswersFirst cx name target e f v' s t := by
  by_cases hl : cx.Lists target name
  · cases found with
    | some f => exact ⟨f, target, rfl, .refl, hl, n, [], s, .start, h⟩
    | none =>
      obtain rfl := hpath.eq_of_lists hl
      obtain ⟨hdead, hmem⟩ := exhausts cx earlier n hs hlead hhas (Or.inr hname) hreach hbusy h
      exact absurd hmem (hlive.not_mem (fun a ha => (hdead.stuck a ha).resolve_left (by simp)))
  have hx : cx.explicit? target name = none := by simpa [Context.Lists] using hl
  cases n with
  | zero => exact (failure_inv h).elim
  | succ n =>
  cases resolveExport_inv h with
  | again hv => cases hv
  | noDefault _ hdefault => exact absurd hdefault hd
  | stars _ _ hstars =>
    cases n with
    | zero => exact (failure_inv hstars).elim
    | succ n =>
    obtain ⟨b, s₁, hfold, hend⟩ := resolveInStars_inv hstars
    have hsought := (stars_sought hstay .refl hl List.mem_cons_self
      (sought_below hstay hd (k := n)) hfold).1
    -- A star that leads out is asked for only if nothing is found, which a live name excludes.
    have hfound : b.1 ≠ none := by
      intro hnone
      obtain ⟨hdead, hall⟩ := stars_exhausted (exhausts cx earlier n) hs hlead hhas hname hbusy
        hfold hnone
      refine (hlive.inherited hd hpath).declared_not_mem rfl hx (fun src file hsrc hin => ?_)
        (fun a ha => ?_) (hdead.subset List.mem_cons_self)
      · rcases hall src hsrc with ⟨file', hin', hmem⟩ | ⟨hout, -⟩
        · obtain rfl := Option.some.inj (hin.symm.trans hin')
          exact hmem
        · cases hout.symm.trans hin
      · exact (hdead.stuck a ha).imp_left List.mem_singleton.1
    cases hend with
    | found =>
      obtain ⟨e, he⟩ := hsought.first _ rfl
      exact ⟨_, e, rfl, he⟩
    | outer => exact absurd rfl hfound
    | none => exact absurd rfl hfound
  | listed hx' | source hx' | outer hx' | space hx' | outerSpace hx' =>
    rw [hx] at hx'
    cases hx'

/-- Stars that lead out of the chunk are a last resort, as long as none but the target has any among
the files from which the name is inherited. If one of these exports the name by itself and leads to
a declaration, by a way on which no import is looked up of a file at work, then resolving the name
ends with what one of them answers. For that, files are included and asked for what they export by
themselves, and no import is kept for a star. The answer is the final name of the declaration to
which that file's export leads, if it leads to one only. -/
theorem outer_stars_last {g : Url} {k : String} (hs : Underway cx earlier files s)
    (hlead : cx.LeadTo files target) (hhas : cx.HasFile target) (hreach : InReach s target)
    (hd : name ≠ "default") (hstay : cx.StarsStay name target)
    (hpath : cx.Inherits name target file) (hlists : cx.Lists file name)
    (hlive : Live cx earlier (AtWork files s) file name (.decl g k))
    (hn : depthBound cx.files ≤ n) :
    ∃ f v' t e, resolveExport cx n target name [] s = some ((some f, v'), t) ∧
      AnswersFirst cx name target e f v' s t ∧
      (s.inBlock = false → Denotes cx t (.exported e name) f) ∧
      (cx.ImportsApart → ∃ os ws, Stacks cx os ws t ∧
        FitsIn cx t.root.env os (.exported e name) f) := by
  have hdepth : cx.depth s + 4 + 2 * cx.unasked name [] ≤ depthBound cx.files := by
    have hbound := cx.depth_le_depthBound s
    have hunasked := cx.unasked_le_questions name []
    unfold Context.gathering at hbound
    omega
  obtain ⟨⟨found, v'⟩, t, hends, -⟩ := @Ending.resolveExport cx _ (ending cx _) target name [] s
    hhas.mem_fileSet hdepth
  have hcall := hends n hn
  have hname := Context.writes_of_lists (ready_of_inherits hs hlead hhas hpath).has hlists
  obtain ⟨f, e, rfl, he⟩ := answersFirst_of_resolveExport hs hlead hhas hreach (fun _ hg => hg)
    hname hd hstay hpath hlive hcall
  exact ⟨f, v', t, e, hcall, he, he.fits hs hlead hhas hname hreach⟩

/-- `/i.d.ts`, the entry, has the given stars, those of `/a.d.ts` and `/b.d.ts` among them. The
first leads out of the chunk, and the second exports a class `N`. -/
def starsAround (stars : List Item) : Context := .ofFiles
  [("/a.d.ts", [starOf "ext"]), ("/b.d.ts", [.exportDecl (emptyClass "N")]), ("/i.d.ts", stars)]

set_option maxRecDepth 100000 in
/-- The star of `"ext"` stands before that of `/b.d.ts`, whose class is found all the same. -/
theorem outer_stars_last_around : ∃ s, includeEntries (starsAround [starOf "ext", starOf "/b.d.ts"])
    (State.start ∅) = some ((), s) ∧ ∃ f v' t e,
      resolveExport (starsAround [starOf "ext", starOf "/b.d.ts"])
        (depthBound (starsAround [starOf "ext", starOf "/b.d.ts"]).files) (.ofPath "/i.d.ts") "N" []
        s = some ((some f, v'), t) ∧
      AnswersFirst (starsAround [starOf "ext", starOf "/b.d.ts"]) "N" (.ofPath "/i.d.ts") e f v' s
        t ∧
      Denotes (starsAround [starOf "ext", starOf "/b.d.ts"]) t (.exported e "N") f := by
  let cx := starsAround [starOf "ext", starOf "/b.d.ts"]
  obtain ⟨s, hm, hends⟩ := mergeChunk_ends cx ∅
  have hs : includeEntries cx (State.start ∅) = some ((), s) := hends _ le_rfl
  obtain ⟨s', run, -, -, hs'⟩ := mergeChunk_run hm
  obtain rfl : s' = s := (Prod.mk.inj (Option.some.inj (hs'.symm.trans hs))).2
  have hcheck : (includeEntries cx (State.start ∅)).any
      (fun r => r.2.included.contains (.ofPath "/i.d.ts")) := by decide +kernel
  have hinc : s'.included.contains (.ofPath "/i.d.ts") = true := by
    rw [hs] at hcheck
    exact hcheck
  have hroot : s'.inBlock = false := run.inBlock_eq
  have hhas : cx.HasFile (.ofPath "/i.d.ts") :=
    .entry (m := .ofPath "/i.d.ts") (by decide +kernel) (by decide +kernel)
  have hx : cx.explicit? (.ofPath "/b.d.ts") "N" =
      some (.named "N" "N" none (some ⟨.ofPath "/b.d.ts", 0⟩)) := by decide +kernel
  have hlists : cx.Lists (.ofPath "/b.d.ts") "N" := by simp [Context.Lists, hx]
  have hnot : ¬cx.Lists (.ofPath "/i.d.ts") "N" := by
    have hx : cx.explicit? (.ofPath "/i.d.ts") "N" = none := by decide +kernel
    simp [Context.Lists, hx]
  have hexports : cx.exports (.ofPath "/i.d.ts") = [.all "ext", .all "/b.d.ts"] := by decide +kernel
  have hin : cx.inChunk? "/b.d.ts" (.ofPath "/i.d.ts") = some (.ofPath "/b.d.ts") := by
    decide +kernel
  have hout : cx.inChunk? "ext" (.ofPath "/i.d.ts") = none := by decide +kernel
  have hstar : cx.Stars (.ofPath "/i.d.ts") (.ofPath "/b.d.ts") :=
    ⟨"/b.d.ts", by simp [hexports], hin⟩
  -- No other file inherits `N`, since `/b.d.ts` exports it by itself.
  have hstay : cx.StarsStay "N" (.ofPath "/i.d.ts") := by
    intro g hpath hne hl
    obtain rfl | ⟨h, ⟨⟨src, hsrc, hh⟩, -⟩, hpath⟩ := hpath.cases_head
    · exact absurd rfl hne
    rw [hexports, List.mem_cons, List.mem_singleton] at hsrc
    rcases hsrc with hsrc | hsrc
    · cases hsrc
      cases hout.symm.trans hh
    · cases hsrc
      obtain rfl := Option.some.inj (hin.symm.trans hh)
      obtain rfl := Context.Inherits.eq_of_lists hpath hlists
      exact absurd hlists hl
  obtain ⟨f, v', t, e, hcall, he, hfits, -⟩ := outer_stars_last (.run .start run)
    (fun _ hg => absurd hg List.not_mem_nil) hhas (Or.inl hinc) (by decide) hstay
    (.single ⟨hstar, hnot⟩) hlists (.declared hx (by decide) (by decide +kernel)) le_rfl
  exact ⟨s', hs, f, v', t, e, hcall, he, hfits hroot⟩

set_option maxRecDepth 100000 in
/-- Below the star of `/a.d.ts` the name is taken out of the chunk, before the star of `/b.d.ts` is
followed. -/
theorem outer_star_before_sibling :
    ¬∀ s found v t, includeEntries (starsAround [starOf "/a.d.ts", starOf "/b.d.ts"])
        (State.start ∅) = some ((), s) →
      (starsAround [starOf "/a.d.ts", starOf "/b.d.ts"]).Inherits "N" (.ofPath "/i.d.ts")
        (.ofPath "/b.d.ts") →
      (starsAround [starOf "/a.d.ts", starOf "/b.d.ts"]).Lists (.ofPath "/b.d.ts") "N" →
      (starsAround [starOf "/a.d.ts", starOf "/b.d.ts"]).Means (.exported (.ofPath "/b.d.ts") "N")
        (.ofPath "/b.d.ts") "N" →
      resolveExport (starsAround [starOf "/a.d.ts", starOf "/b.d.ts"])
        (depthBound (starsAround [starOf "/a.d.ts", starOf "/b.d.ts"]).files) (.ofPath "/i.d.ts")
        "N" [] s = some ((found, v), t) →
      ∃ f, found = some f ∧ t.root.env.lookup (.ofPath "/b.d.ts") "N" = some f := by
  intro hlast
  let cx := starsAround [starOf "/a.d.ts", starOf "/b.d.ts"]
  have hcheck : (includeEntries cx (State.start ∅)).any (fun r =>
      (resolveExport cx (depthBound cx.files) (.ofPath "/i.d.ts") "N" [] r.2).any (fun r' =>
        r'.1.1.isSome && r'.1.1 != r'.2.root.env.lookup (.ofPath "/b.d.ts") "N")) := by
    decide +kernel
  obtain ⟨⟨_, s⟩, hs, hcheck⟩ := (Option.any_eq_true _ _).1 hcheck
  obtain ⟨⟨⟨found, v⟩, t⟩, hcall, hcheck⟩ := (Option.any_eq_true _ _).1 hcheck
  obtain ⟨-, hne⟩ : found.isSome ∧ found ≠ t.root.env.lookup (.ofPath "/b.d.ts") "N" := by
    simpa using hcheck
  have hlists : cx.Lists (.ofPath "/b.d.ts") "N" := by
    have hx : cx.explicit? (.ofPath "/b.d.ts") "N" ≠ none := by decide +kernel
    simpa [Context.Lists, Option.isSome_iff_ne_none] using hx
  have hnot : ¬cx.Lists (.ofPath "/i.d.ts") "N" := by
    have hx : cx.explicit? (.ofPath "/i.d.ts") "N" = none := by decide +kernel
    simp [Context.Lists, hx]
  have hstar : cx.Stars (.ofPath "/i.d.ts") (.ofPath "/b.d.ts") :=
    ⟨"/b.d.ts", by decide +kernel, by decide +kernel⟩
  have hmeans : cx.Means (.exported (.ofPath "/b.d.ts") "N") (.ofPath "/b.d.ts") "N" := by
    have hclosed : cx.ClosedFor [.exported (.ofPath "/b.d.ts") "N", .own (.ofPath "/b.d.ts") "N"]
        (.ofPath "/b.d.ts") "N" := by decide +kernel
    exact hclosed.means (by simp) (.next (b := .own (.ofPath "/b.d.ts") "N") (by decide +kernel)
      (.here (by decide +kernel)))
  obtain ⟨f, rfl, hlookup⟩ := hlast s found v t hs (.single ⟨hstar, hnot⟩) hlists hmeans hcall
  exact hne hlookup.symm

end AmbientBundle.Merge
