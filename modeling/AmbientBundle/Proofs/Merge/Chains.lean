import AmbientBundle.Proofs.Merge.Gathering
/-!
Resolving an export in a chunk without imports. Whether a name is found, and what for, does not
depend on how far merging has come: the files alone say it, by a depth-first search in which
explicit exports come before stars and stars that lead out of the chunk come last.
-/
namespace AmbientBundle.Merge

open Names Step Syntax

/-- Whether a hop leads on to another name. -/
def Hop.goes : Hop → Bool
  | .go _ => true
  | .arrive _ => false

namespace Context

/-- No file of the chunk imports anything. -/
def ImportFree (cx : Context) : Prop := ∀ file, cx.HasFile file → cx.imports file = []

/-- What those stars of a file stand for that lead to files of the chunk, when a name is asked
for. -/
def innerHops (cx : Context) (file : Url) (name : String) (stars : List ExportedSymbol) :
    List Hop :=
  (stars.filterMap (cx.throughStar? file name)).filter Hop.goes

/-- What those stars of a file stand for that lead out of the chunk. -/
def outerHops (cx : Context) (file : Url) (name : String) (stars : List ExportedSymbol) :
    List Hop :=
  (stars.filterMap (cx.throughStar? file name)).filter (fun hop => !hop.goes)

/-- What an export stands for, if files do not import anything: a declaration of a file that no
earlier chunk holds, an export of another file, something from outside of the chunk, or what the
stars stand for. -/
def onward (cx : Context) (earlier : SeenSet Url) (file : Url) (name : String) : List Hop :=
  match cx.explicit? file name with
  | some (.named _ property none _) =>
    if cx.Declares file property ∧ earlier.contains file = false then
      [.arrive (.decl file property)]
    else []
  | some (.named _ property (some src) _) => [cx.takeFrom src file property]
  | some _ => [.arrive .other]
  | none =>
    if name = "default" then []
    else cx.innerHops file name (cx.exports file) ++ cx.outerHops file name (cx.exports file)

end Context

/-- `Search cx earlier v hops r v'`: what the hops stand for, as far as the exports in `v` are not
asked for again. The first arrival is the result, if there is one, and `v'` are the exports that
have been asked for then. -/
inductive Search (cx : Context) (earlier : SeenSet Url) :
    Visited → List Hop → Option Denoted → Visited → Prop where
  | nothing {v : Visited} : Search cx earlier v [] none v
  | arrive {v : Visited} {τ : Denoted} {hops : List Hop} :
      Search cx earlier v (.arrive τ :: hops) (some τ) v
  | again {v v' : Visited} {file : Url} {name : String} {hops : List Hop} {r : Option Denoted}
      (h : (file, name) ∈ v) (rest : Search cx earlier v hops r v') :
      Search cx earlier v (.go (.exported file name) :: hops) r v'
  | ask {v v' : Visited} {file : Url} {name : String} {hops : List Hop} {r : Option Denoted}
      (h : (file, name) ∉ v)
      (rest : Search cx earlier ((file, name) :: v) (cx.onward earlier file name ++ hops) r v') :
      Search cx earlier v (.go (.exported file name) :: hops) r v'

/-- The way of a file's export ends at a declaration or at something else, or it ends nowhere. -/
def Context.EndsAt (cx : Context) (earlier : SeenSet Url) (file : Url) (name : String)
    (r : Option Denoted) : Prop :=
  ∃ v, Search cx earlier [] [.go (.exported file name)] r v

namespace Search

variable {cx : Context} {earlier : SeenSet Url} {v v' v'' : Visited} {hops hops' : List Hop}
  {r r' : Option Denoted} {τ : Denoted} {file : Url} {name : String}

theorem append_some (h : Search cx earlier v hops (some τ) v') :
    Search cx earlier v (hops ++ hops') (some τ) v' := by
  generalize hr : some τ = r at h
  induction h with
  | nothing => cases hr
  | arrive => exact .arrive
  | again hv _ ih => exact .again hv (ih hr)
  | ask hv _ ih =>
    have hrest := ih hr
    rw [List.append_assoc] at hrest
    exact .ask hv hrest

theorem append_none (h : Search cx earlier v hops none v')
    (h' : Search cx earlier v' hops' r v'') : Search cx earlier v (hops ++ hops') r v'' := by
  generalize hr : (none : Option Denoted) = r' at h
  induction h with
  | nothing => exact h'
  | arrive => cases hr
  | again hv _ ih => exact .again hv (ih h' hr)
  | ask hv _ ih =>
    have hrest := ih h' hr
    rw [List.append_assoc] at hrest
    exact .ask hv hrest

theorem unique (h : Search cx earlier v hops r v') (h' : Search cx earlier v hops r' v'') :
    r = r' := by
  induction h with
  | nothing =>
    cases h'
    rfl
  | arrive =>
    cases h'
    rfl
  | again hv _ ih =>
    cases h' with
    | again _ rest => exact ih rest
    | ask hn _ => exact absurd hv hn
  | ask hn _ ih =>
    cases h' with
    | again hv _ => exact absurd hv hn
    | ask _ rest => exact ih rest

/-- What is asked for stands for what follows from it. -/
theorem of_onward (hv : (file, name) ∉ v)
    (h : Search cx earlier ((file, name) :: v) (cx.onward earlier file name) r v') :
    Search cx earlier v [.go (.exported file name)] r v' := by
  refine .ask hv ?_
  rwa [List.append_nil]

end Search

/-- The name stands for the declaration at the root, if it is one. -/
def NamedBy (env : Environment) (f : String) (τ : Denoted) : Prop :=
  ∀ g k, τ = .decl g k → env.lookup g k = some f

/-- `Merging cx earlier files s`: while a chunk is merged the root can be in the state `s`, when the
given files are begun and not finished. -/
inductive Merging (cx : Context) (earlier : SeenSet Url) : List Url → State → Prop where
  | start : Merging cx earlier [] (State.start earlier)
  | run {n : Nat} {r : Role} {files : List Url} {s t : State} {y : Yield}
      (before : Merging cx earlier files s) (run : Run cx n r files s y t) :
      Merging cx earlier files t
  | begin {files : List Url} {s : State} {file : Url} (before : Merging cx earlier files s)
      (hnew : s.included.contains file = false) (hfile : cx.HasFile file)
      (hlead : cx.LeadTo files file) :
      Merging cx earlier (file :: files) ((s.addFile file).bindFile (cx.statements file) file)

variable {cx : Context} {earlier : SeenSet Url} {n : Nat} {files : List Url} {s t : State}
  {file target : Url} {name : String} {v v' : Visited} {found : Option String}

theorem Context.ImportFree.specifiers (h : cx.ImportFree) (hf : cx.HasFile file) :
    cx.specifiers file = [] := by
  simp [Context.specifiers, h file hf]

/-- What the root knows in a chunk without imports. -/
structure Plain (cx : Context) (earlier : SeenSet Url) (files : List Url) (s : State) : Prop where
  atRoot : AtRoot cx earlier files [] s
  contains : ∀ g, earlier.contains g = true → s.included.contains g = true
  begun : ∀ g ∈ files, earlier.contains g = false
  unnamed : ∀ g x, earlier.contains g = true → s.root.env.lookup g x = none

namespace Plain

theorem start (earlier : SeenSet Url) : Plain cx earlier [] (State.start earlier) :=
  ⟨⟨rfl, .start earlier, .start earlier, by simp, .start earlier⟩, fun _ hg => hg, by simp,
    fun _ _ _ => rfl⟩

theorem run {r : Role} {y : Yield} (h : Plain cx earlier files s)
    (run : Run cx n r files s y t) : Plain cx earlier files t := by
  refine ⟨h.atRoot.run (fun k _ => answers cx earlier k) run,
    fun g hg => run.grows.contains (h.contains g hg), h.begun, fun g x hg => ?_⟩
  rw [run.lookup_root (h.contains g hg), h.unnamed g x hg]
  intro _ hhead
  have hnew := h.begun g (List.mem_of_mem_head? hhead)
  simp [hg] at hnew

theorem begin (h : Plain cx earlier files s) (hfree : cx.ImportFree)
    (hnew : s.included.contains file = false) (hfile : cx.HasFile file) :
    Plain cx earlier (file :: files) ((s.addFile file).bindFile (cx.statements file) file) := by
  have hroot := h.atRoot.root
  have hlinked : Linked cx earlier [] ((s.addFile file).bindFile (cx.statements file) file) := by
    refine (h.atRoot.linked.beginFile h.atRoot.rooted hroot hnew).finish (fun e he => ?_)
    rw [hfree.specifiers hfile] at he
    cases he
  refine ⟨⟨?_, ?_, h.atRoot.rooted.beginFile _ file, by simp, hlinked⟩, fun g hg => ?_,
    fun g hg => ?_, fun g x hg => ?_⟩
  · exact (State.inBlock_begunFile _ _ _).trans hroot
  · exact h.atRoot.formed.beginFile hfile
  · exact (Grows.beginFile s (cx.statements file) file).contains (h.contains g hg)
  · rcases List.mem_cons.1 hg with rfl | hg
    · cases he : earlier.contains g with
      | false => rfl
      | true => simp [h.contains g he] at hnew
    · exact h.begun g hg
  · have hne : file ≠ g := by
      rintro rfl
      simp [h.contains file hg] at hnew
    exact (State.lookup_root_bindFile_of_ne hne x).trans (h.unnamed g x hg)

/-- The root has names for the declarations of files of this chunk, and for nothing else. -/
theorem declares (h : Plain cx earlier files s) (hfree : cx.ImportFree) (hfile : cx.HasFile file)
    {x f : String} (hv : s.root.env.lookup file x = some f) :
    cx.Declares file x ∧ earlier.contains file = false := by
  constructor
  · by_contra hd
    obtain ⟨τ, hτ⟩ := (h.atRoot.linked.sound file x f hv).leads
    have hnone : cx.follow (.own file x) = [] := by
      simp [Context.follow, hd, hfree.specifiers hfile]
    cases hτ with
    | here hmem => simp [hnone] at hmem
    | next hmem _ => simp [hnone] at hmem
  · cases he : earlier.contains file with
    | false => rfl
    | true => simp [h.unnamed file x he] at hv

end Plain

theorem Merging.plain (h : Merging cx earlier files s) (hfree : cx.ImportFree) :
    Plain cx earlier files s := by
  induction h with
  | start => exact .start earlier
  | run _ run ih => exact ih.run run
  | begin _ hnew hfile _ ih => exact ih.begin hfree hnew hfile

theorem Plain.include (h : Plain cx earlier files s) (hlead : cx.LeadTo files file)
    (hfile : cx.HasFile file) (hinc : includeFile cx n file .dependency s = some ((), t)) :
    Plain cx earlier files t ∧ t.included.contains file = true := by
  obtain ⟨run, hincluded⟩ := (calls cx n).includeFile (r := .dependency)
    ⟨h.atRoot.formed, hlead, hfile⟩ (by simp) hinc
  exact ⟨h.run run, hincluded h.atRoot.root⟩

section Hops

variable {e : ExportedSymbol} {hop : Hop} {src : String} {stars stars' : List ExportedSymbol}

theorem innerHops_append : cx.innerHops file name (stars ++ stars') =
    cx.innerHops file name stars ++ cx.innerHops file name stars' := by
  simp [Context.innerHops]

theorem outerHops_append : cx.outerHops file name (stars ++ stars') =
    cx.outerHops file name stars ++ cx.outerHops file name stars' := by
  simp [Context.outerHops]

theorem hops_of_not_star (he : ∀ src, e ≠ .all src) :
    cx.innerHops file name [e] = [] ∧ cx.outerHops file name [e] = [] := by
  cases e with
  | all src => exact absurd rfl (he src)
  | named => exact ⟨rfl, rfl⟩
  | allAs => exact ⟨rfl, rfl⟩

theorem hops_of_inner (hin : cx.inChunk? src file = some target) :
    cx.innerHops file name [.all src] = [.go (.exported target name)] ∧
      cx.outerHops file name [.all src] = [] := by
  simp [Context.innerHops, Context.outerHops, Context.throughStar?,
    Context.takeFrom_of_inChunk? hin, Hop.goes]

theorem hops_of_outer (hin : cx.inChunk? src file = none) :
    cx.innerHops file name [.all src] = [] ∧
      cx.outerHops file name [.all src] = [.arrive .other] := by
  simp [Context.innerHops, Context.outerHops, Context.throughStar?,
    Context.takeFrom_of_none hin, Hop.goes]

/-- A star that leads out of the chunk stands for what is outside. -/
theorem eq_arrive_of_mem_outerHops (h : hop ∈ cx.outerHops file name stars) :
    hop = .arrive .other := by
  obtain ⟨hmem, hgoes⟩ := List.mem_filter.1 h
  obtain ⟨e, _, he⟩ := List.mem_filterMap.1 hmem
  cases e with
  | all src =>
    obtain rfl := Option.some.inj he
    unfold Context.takeFrom at hgoes ⊢
    split at hgoes
    · cases hgoes
    · rfl
  | named => cases he
  | allAs => cases he

end Hops

/-- What is found for an export is what its way ends at. -/
def Finds (cx : Context) (earlier : SeenSet Url) (v : Visited) (hops : List Hop) (t : State)
    (found : Option String) (v' : Visited) : Prop :=
  ∃ r, Search cx earlier v hops r v' ∧ Option.Rel (NamedBy t.root.env) found r

/-- Resolving an export with depth `k` finds what its way ends at. -/
def FindsExport (cx : Context) (earlier : SeenSet Url) (k : Nat) : Prop :=
  ∀ ⦃files : List Url⦄ ⦃target : Url⦄ ⦃name : String⦄ ⦃v v' : Visited⦄ ⦃s t : State⦄
    ⦃found : Option String⦄, Plain cx earlier files s → cx.LeadTo files target →
    cx.HasFile target → Asked cx name → s.included.contains target = true →
    resolveExport cx k target name v s = some ((found, v'), t) →
    Finds cx earlier v [.go (.exported target name)] t found v'

/-- An export of a name of the file itself. -/
theorem finds_listed {k property : String} {id : Option DeclId} (hs : Plain cx earlier files s)
    (hfree : cx.ImportFree) (hhas : cx.HasFile target) (hinc : s.included.contains target = true)
    (hx : cx.explicit? target name = some (.named k property none id)) :
    Finds cx earlier ((target, name) :: v) (cx.onward earlier target name) s
      (s.lookup target property) ((target, name) :: v) := by
  rw [State.lookup, State.scope_of_root hs.atRoot.root, Context.onward, hx]
  cases hl : s.root.env.lookup target property with
  | some f =>
    simp only [if_pos (hs.declares hfree hhas hl)]
    refine ⟨_, .arrive, .some ?_⟩
    rintro _ _ ⟨⟩
    exact hl
  | none =>
    have hnone : ¬(cx.Declares target property ∧ earlier.contains target = false) := by
      rintro ⟨hd, hnew⟩
      have hbound := hs.atRoot.linked.bound target property hinc hnew hd
      simp [hl] at hbound
    simp only [if_neg hnone]
    exact ⟨_, .nothing, .none⟩

/-- What is found for an export that comes from outside of the chunk, or is a namespace. -/
theorem finds_other {f : String} (hops : List Hop) :
    Finds cx earlier v (.arrive .other :: hops) t (some f) v :=
  ⟨_, .arrive, .some (by rintro _ _ ⟨⟩)⟩

/-- The part of the stars that was asked, and whether one of them leads out of the chunk. -/
theorem finds_stars (hn : FindsExport cx earlier n) (hs : Plain cx earlier files s)
    (hlead : cx.LeadTo files target) (hhas : cx.HasFile target) (hname : cx.Writes name)
    {b : Option String × Option String × Visited}
    (h : Folds (StarStep cx n target name) (cx.exports target) (none, none, v) s b t) :
    Finds cx earlier v (cx.innerHops target name (cx.exports target)) t b.1 b.2.2 ∧
      (b.1 = none → (b.2.1 = none ↔ cx.outerHops target name (cx.exports target) = [])) := by
  suffices H : Plain cx earlier files t ∧
      Finds cx earlier v (cx.innerHops target name (cx.exports target)) t b.1 b.2.2 ∧
      (b.1 = none → (b.2.1 = none ↔ cx.outerHops target name (cx.exports target) = [])) from H.2
  refine h.inv (fun done b s' => Plain cx earlier files s' ∧
    Finds cx earlier v (cx.innerHops target name done) s' b.1 b.2.2 ∧
      (b.1 = none → (b.2.1 = none ↔ cx.outerHops target name done = [])))
    ⟨hs, ⟨none, .nothing, .none⟩, fun _ => ⟨fun _ => rfl, fun _ => rfl⟩⟩ ?_
  rintro done e ⟨found₁, outer₁, v₁⟩ b₂ s₁ s₂ he ⟨hs₁, ⟨r, hr, hrel⟩, hout⟩ hstep
  rw [innerHops_append, outerHops_append]
  cases hstep with
  | skip hskip =>
    cases hrel with
    | some hf => exact ⟨hs₁, ⟨_, hr.append_some, .some hf⟩, by simp⟩
    | none =>
      obtain ⟨hinner, houter⟩ : cx.innerHops target name [e] = [] ∧
          cx.outerHops target name [e] = [] := hops_of_not_star (hskip rfl)
      rw [hinner, houter, List.append_nil, List.append_nil]
      exact ⟨hs₁, ⟨none, hr, .none⟩, hout⟩
  | @outer src _ _ _ hsrc hin =>
    obtain ⟨hinner, houter⟩ : cx.innerHops target name [.all src] = [] ∧
        cx.outerHops target name [.all src] = [.arrive .other] := hops_of_outer hin
    rw [hsrc, hinner, houter, List.append_nil]
    exact ⟨hs₁, ⟨r, hr, hrel⟩, by simp⟩
  | @inner src _ found₂ _ v₂ next _ s₃ _ hsrc hin hinc h =>
    obtain ⟨hinner, houter⟩ : cx.innerHops target name [.all src] =
        [.go (.exported next name)] ∧ cx.outerHops target name [.all src] = [] :=
      hops_of_inner hin
    rw [hsrc, hinner, houter, List.append_nil]
    have hlinks : cx.Links target next := .exported he (hsrc ▸ rfl) hin
    have hlead' := hlead.tail hlinks
    obtain ⟨hs₃, hincluded⟩ := hs₁.include hlead' (.linked hhas hlinks) hinc
    obtain ⟨r₂, hr₂, hrel₂⟩ :=
      hn hs₃ hlead' (.linked hhas hlinks) (Or.inr hname) hincluded h
    have run := ((calls cx n).resolveExport (r := .dependency)
      ⟨hs₃.atRoot.formed, hlead', .linked hhas hlinks⟩ (Or.inr hname) h).1
    cases hrel with
    | none => exact ⟨hs₃.run run, ⟨r₂, hr.append_none hr₂, hrel₂⟩, fun _ => hout rfl⟩

/-- What is found when all stars are asked. -/
theorem finds_starsEnd {b : Option String × Option String × Visited}
    (hb : Finds cx earlier v (cx.innerHops target name (cx.exports target)) s b.1 b.2.2)
    (hout : b.1 = none → (b.2.1 = none ↔ cx.outerHops target name (cx.exports target) = []))
    (h : StarsEnd name b s found v' t) :
    Finds cx earlier v (cx.innerHops target name (cx.exports target) ++
      cx.outerHops target name (cx.exports target)) t found v' := by
  obtain ⟨r, hr, hrel⟩ := hb
  cases h with
  | found =>
    cases hrel with
    | some hf => exact ⟨_, hr.append_some, .some hf⟩
  | outer hp =>
    cases hrel with
    | none =>
      cases hops : cx.outerHops target name (cx.exports target) with
      | nil => simp [hops] at hout
      | cons hop rest =>
        have hmem : hop ∈ cx.outerHops target name (cx.exports target) := by simp [hops]
        obtain rfl := eq_arrive_of_mem_outerHops hmem
        exact ⟨_, hr.append_none .arrive, .some (by rintro _ _ ⟨⟩)⟩
  | none =>
    cases hrel with
    | none =>
      rw [(hout rfl).1 rfl, List.append_nil]
      exact ⟨none, hr, .none⟩

/-- An export of a file, with what follows from it. -/
theorem Finds.of_onward (hv : (target, name) ∉ v)
    (h : Finds cx earlier ((target, name) :: v) (cx.onward earlier target name) t found v') :
    Finds cx earlier v [.go (.exported target name)] t found v' :=
  h.imp (fun _ hr => ⟨.of_onward hv hr.1, hr.2⟩)

/-- At the root, resolving an export finds what its way ends at, at any depth. -/
theorem findsExport (hfree : cx.ImportFree) (earlier : SeenSet Url) (k : Nat) :
    FindsExport cx earlier k := by
  induction k using Nat.strongRecOn with
  | ind k ih =>
  intro files target name v v' s t found hs hlead hhas hname hinc h
  cases k with
  | zero => exact (failure_inv h).elim
  | succ n =>
  by_cases hv : (target, name) ∈ v
  · obtain ⟨rfl, rfl, rfl⟩ := resolveExport_again hv h
    exact ⟨none, .again hv .nothing, .none⟩
  refine .of_onward hv ?_
  cases resolveExport_inv h with
  | again hv' => exact absurd hv' hv
  | listed hx => exact finds_listed hs hfree hhas hinc hx
  | source hx hin hinc' h =>
    obtain ⟨hlinks, hasked⟩ := Calls.explicit_asks hhas hx hin
    obtain ⟨hs₁, hincluded⟩ := hs.include (hlead.tail hlinks) (.linked hhas hlinks) hinc'
    rw [Context.onward, hx]
    simp only [Context.takeFrom_of_inChunk? hin]
    exact ih n (Nat.lt_succ_self n) hs₁ (hlead.tail hlinks) (.linked hhas hlinks) hasked
      hincluded h
  | outer hx hin =>
    rw [Context.onward, hx]
    simp only [Context.takeFrom_of_none hin]
    exact finds_other []
  | space hx =>
    rw [Context.onward, hx]
    exact finds_other []
  | outerSpace hx =>
    rw [Context.onward, hx]
    exact finds_other []
  | noDefault hx hd =>
    rw [Context.onward, hx]
    simp only [if_pos hd]
    exact ⟨none, .nothing, .none⟩
  | stars hx hd h =>
    rw [Context.onward, hx]
    simp only [if_neg hd]
    cases n with
    | zero => exact (failure_inv h).elim
    | succ m =>
    obtain ⟨b, s₁, hfold, hend⟩ := resolveInStars_inv h
    obtain ⟨hb, hout⟩ := finds_stars (ih m (by omega)) hs hlead hhas (hname.resolve_left hd) hfold
    exact finds_starsEnd hb hout hend

end AmbientBundle.Merge
