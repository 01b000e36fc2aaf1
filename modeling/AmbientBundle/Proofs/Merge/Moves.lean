import AmbientBundle.Proofs.Merge.BlockLinks
import AmbientBundle.Proofs.Merge.Sound
import AmbientBundle.Proofs.Merge.Termination
/-!
Merging as a machine: the moments that merging of a chunk passes through, and the moves from one to
the next. Every run is a chain of moves; so what all moves keep holds at every moment, also halfway
through a file or a block.
-/
namespace AmbientBundle.Merge

open Names Syntax

/-- The open blocks are set aside until a file is inlined at the root: how many were set aside
before, and how many files were included then. -/
structure Pause where
  waiting : Nat
  included : Nat

/-- A moment of merging: the state, and the pauses that are not over, the last one first. -/
structure Moment where
  state : State
  pauses : List Pause

/-- Before anything of a chunk is merged. -/
def Moment.start (included : SeenSet Url) : Moment := ⟨.start included, []⟩

namespace State

/-- A new file begins at the root. -/
def beginFile (cx : Context) (file : Url) (s : State) : State :=
  (s.addFile file).bindFile (cx.statements file) file

/-- A block is opened for a file, which begins there. -/
def beginBlock (cx : Context) (target : Url) (wanted : String) (s : State) : State :=
  ((s.claim (s.freshName wanted)).openBlock target (s.freshName wanted)).bindFile
    (cx.statements target) target

/-- The pause that begins with setting the open blocks aside. -/
def pause (s : State) : Pause := ⟨s.suspended.length, s.included.size⟩

/-- The blocks that were set aside last are opened again and see the files that came in meanwhile. -/
def proceed (p : Pause) (s : State) : State :=
  (s.resume p.waiting).inheritFromRoot (s.included.addedSince p.included)

end State

/-- The moves of merging. In a block the locals of its file's imports are linked only. -/
inductive Move (cx : Context) : Moment → Moment → Prop where
  | warn {s : State} {ps : List Pause} (w : Warning) : Move cx ⟨s, ps⟩ ⟨s.warn w, ps⟩
  | keepRun {s : State} {ps : List Pause} (module : String) : Move cx ⟨s, ps⟩ ⟨s.keepRun module, ps⟩
  | keep {s : State} {ps : List Pause} (key : String × ImportedName) (p : Preserved) :
      Move cx ⟨s, ps⟩ ⟨s.keep key p, ps⟩
  | claim {s : State} {ps : List Pause} (wanted : String) :
      Move cx ⟨s, ps⟩ ⟨s.claim (s.freshName wanted), ps⟩
  | addItems {s : State} {ps : List Pause} (items : List Piece) :
      Move cx ⟨s, ps⟩ ⟨s.addItems items, ps⟩
  | takeItems {s : State} {ps : List Pause} (n : Nat) : Move cx ⟨s, ps⟩ ⟨(s.takeItems n).2, ps⟩
  | link {s : State} {ps : List Pause} {origin : Url} {e : ImportDecl × ImportSpecifier}
      (f : String) (hcur : s.inBlock = true → s.targets.head? = some origin)
      (he : e ∈ cx.specifiers origin) : Move cx ⟨s, ps⟩ ⟨s.link origin e.2.loc f, ps⟩
  | beginFile {s : State} {ps : List Pause} {file : Url} (hroot : s.inBlock = false)
      (hnew : s.included.contains file = false) (hfile : cx.HasFile file) :
      Move cx ⟨s, ps⟩ ⟨s.beginFile cx file, ps⟩
  | beginBlock {s : State} {ps : List Pause} {target : Url} (wanted : String)
      (hnew : s.space? target = none) : Move cx ⟨s, ps⟩ ⟨s.beginBlock cx target wanted, ps⟩
  | closeBlock {s : State} {ps : List Pause} (hb : s.inBlock = true) :
      Move cx ⟨s, ps⟩ ⟨s.closeBlock.2, ps⟩
  | suspend {s : State} {ps : List Pause} (hb : s.inBlock = true) :
      Move cx ⟨s, ps⟩ ⟨s.suspend, s.pause :: ps⟩
  | proceed {s : State} {ps : List Pause} {p : Pause} (hroot : s.inBlock = false) :
      Move cx ⟨s, p :: ps⟩ ⟨s.proceed p, ps⟩

/-- The second moment comes behind the first. -/
abbrev Moves (cx : Context) : Moment → Moment → Prop := Relation.ReflTransGen (Move cx)

section Run

variable {cx : Context} {n : Nat} {r : Role} {files : List Url} {s t : State} {y : Yield}

/-- Every run is a chain of moves, behind which the pauses are those from before. -/
theorem Run.moves (h : Run cx n r files s y t) (ps : List Pause) : Moves cx ⟨s, ps⟩ ⟨t, ps⟩ := by
  induction h generalizing ps with
  | nothing => exact .refl
  | andThen _ _ ih₁ ih₂ => exact (ih₁ ps).trans (ih₂ ps)
  | warn w => exact .single (.warn w)
  | keepRun module => exact .single (.keepRun module)
  | @preserve r files s key wanted typeOnly hkey hw =>
    exact .tail (.single (.claim wanted)) (.keep key _)
  | preserveAgain typeOnly hkey => exact .single (.keep _ _)
  | @aliasImport r files s f key p hf hkey => exact .tail (.single (.claim f)) (.keep key _)
  | @aliasBinding r files s f hf => exact .tail (.single (.claim f)) (.addItems _)
  | link hcur hsp hf run _ ih =>
    refine (ih ps).tail (.link _ (fun hb => ?_) hsp)
    rw [run.stacks.1]
    exact hcur.block (run.inBlock_eq ▸ hb)
  | unlinked target _ _ _ _ ih => exact (ih ps).tail (.warn _)
  | print _ _ _ _ _ _ _ _ ih₁ ih₂ => exact ((ih₁ ps).tail (.takeItems _)).trans (ih₂ ps)
  | inlined hroot hnew hfile _ _ _ _ ih₁ ih₂ =>
    exact .head (.beginFile hroot hnew hfile) (((ih₁ ps).trans (ih₂ ps)).tail (.addItems _))
  | @atRoot r files s t hblock run ih =>
    have hroot : t.inBlock = false := run.inBlock_eq.trans rfl
    exact .head (.suspend hblock) ((ih (s.pause :: ps)).tail (.proceed hroot))
  | @block r files s t u v w target wanted qs _ hnew _ _ _ _ imports prints collects _
      ih₁ ih₂ ih₃ ih₄ =>
    have hbody : (u.addItems qs).inBlock = true :=
      (State.inBlock_congr (State.targets_addItems u qs)).trans
        (prints.inBlock_eq.trans imports.inBlock_begunBlock)
    have hclose : v.inBlock = true := collects.inBlock_eq.trans hbody
    have hprinted := ((ih₁ ps).trans (ih₂ ps)).tail (.addItems qs)
    have hbuilt := ((hprinted.trans (ih₃ ps)).tail (.closeBlock hclose)).trans (ih₄ ps)
    exact .head (.beginBlock wanted hnew) (hbuilt.tail (.addItems _))
  | exportAgain _ _ _ _ _ _ ih => exact (ih ps).tail (.addItems _)

/-- A chunk is merged by moves, and in the end nothing is set aside. -/
theorem mergeChunk_moves (cx : Context) (included : SeenSet Url) : ∃ s : State,
    mergeChunk? cx included = some (finish cx.chunk s, s.included, s.warnings) ∧
      includeEntries cx (.start included) = some ((), s) ∧ Rooted [] s ∧
      Moves cx (.start included) ⟨s, []⟩ := by
  obtain ⟨u, hu⟩ := includeEntries_ends cx included
  have hmerge := mergeChunk_of_includeEntries (hu _ le_rfl)
  obtain ⟨s, run, -, -, hentries⟩ := mergeChunk_run hmerge
  exact ⟨s, mergeChunk_of_includeEntries hentries, hentries, run.rooted (.start included),
    run.moves []⟩

end Run

/-- The file imports something under the name. -/
def Context.Imports (cx : Context) (file : Url) (k : String) : Prop :=
  ∃ e ∈ cx.specifiers file, e.2.loc = k

instance (cx : Context) (file : Url) (k : String) : Decidable (cx.Imports file k) :=
  inferInstanceAs (Decidable (∃ e ∈ _, _))

section Moves

variable {cx : Context} {c c' : Moment} {f : Url} {k : String}

theorem Move.grows (h : Move cx c c') : Grows c.state c'.state := by
  cases h with
  | warn w => exact .of_eq rfl rfl
  | keepRun module => exact .of_eq rfl rfl
  | keep key p => exact .of_eq rfl rfl
  | claim wanted => exact .claim _ _
  | addItems items => exact .addItems _ _
  | takeItems n => exact .takeItems _ _
  | link f _ _ => exact .link _ _ _ _
  | beginFile _ _ _ => exact .beginFile _ _ _
  | beginBlock _ _ => exact .beginBlock _ _ _ _
  | closeBlock _ => exact .closeBlock _
  | suspend _ => exact .of_eq rfl rfl
  | @proceed s ps p _ =>
    exact Grows.trans (t := s.resume p.waiting) (.of_eq rfl rfl) (.inheritFromRoot _ _)

theorem Moves.grows (h : Moves cx c c') : Grows c.state c'.state := by
  induction h with
  | refl => exact .refl _
  | tail _ hmove ih => exact ih.trans hmove.grows

/-- The names of an included file at the root stay as they are, apart from those that it imports. -/
theorem Move.lookup_root (h : Move cx c c') (hf : c.state.included.contains f = true)
    (hk : ¬cx.Imports f k) : c'.state.root.env.lookup f k = c.state.root.env.lookup f k := by
  cases h with
  | warn w => rfl
  | keepRun module => rfl
  | keep key p => rfl
  | claim wanted => rfl
  | addItems items => rw [State.root_addItems_env]
  | takeItems n => rw [State.root_takeItems_env]
  | link v _ he =>
    refine State.lookup_root_link_of_ne (fun _ heq => ?_)
    cases heq
    exact hk ⟨_, he, rfl⟩
  | @beginFile s ps file hroot hnew _ =>
    have hne : file ≠ f := by
      rintro rfl
      simp [hf] at hnew
    exact State.lookup_root_bindFile_of_ne hne k
  | @beginBlock s ps target wanted _ =>
    exact State.lookup_root_begunBlock _ _ _ _ _ _
  | closeBlock _ => rw [State.root_closeBlock]
  | suspend _ => rfl
  | proceed _ => rw [State.proceed, State.root_inheritFromRoot]; rfl

theorem Moves.lookup_root (h : Moves cx c c') (hf : c.state.included.contains f = true)
    (hk : ¬cx.Imports f k) : c'.state.root.env.lookup f k = c.state.root.env.lookup f k := by
  induction h with
  | refl => rfl
  | tail h hmove ih =>
    exact (hmove.lookup_root ((Moves.grows h).contains hf) hk).trans ih

/-- A move includes at most one file, and that is one of the chunk. -/
theorem Move.included_cases (h : Move cx c c') : c'.state.included = c.state.included ∨
    ∃ file, cx.HasFile file ∧ c'.state.included = c.state.included.insert file := by
  cases h with
  | warn w => exact Or.inl rfl
  | keepRun module => exact Or.inl rfl
  | keep key p => exact Or.inl rfl
  | claim wanted => exact Or.inl rfl
  | addItems items => exact Or.inl (State.included_addItems _ _)
  | takeItems n => exact Or.inl (State.included_takeItems _ _)
  | link v _ _ => exact Or.inl (State.included_link _ _ _ _)
  | beginFile _ _ hfile =>
    exact Or.inr ⟨_, hfile, by rw [State.beginFile, State.included_bindFile, State.addFile]⟩
  | beginBlock wanted _ =>
    exact Or.inl (by rw [State.beginBlock, State.included_bindFile, State.included_openBlock,
      State.included_claim])
  | closeBlock _ => exact Or.inl (State.included_closeBlock _)
  | suspend _ => exact Or.inl rfl
  | proceed _ => exact Or.inl (State.included_inheritFromRoot _ _)

/-- A file that comes to be included is one of the chunk. -/
theorem Moves.hasFile (h : Moves cx c c') (hf : c'.state.included.contains f = true) :
    c.state.included.contains f = true ∨ cx.HasFile f := by
  induction h with
  | refl => exact Or.inl hf
  | tail _ hmove ih =>
    rcases hmove.included_cases with hsame | ⟨file, hfile, hadded⟩
    · exact ih (hsame ▸ hf)
    · rw [hadded, SeenSet.contains_insert, Bool.or_eq_true, decide_eq_true_iff] at hf
      rcases hf with hf | rfl
      · exact ih hf
      · exact Or.inr hfile

end Moves

end AmbientBundle.Merge
