import AmbientBundle.Proofs.Merge.Ends
import AmbientBundle.Proofs.Merge.Progress
import Mathlib.Data.Finset.Prod
import Mathlib.Tactic.Linarith
/-!
Merging ends, whatever the files, the resolver and the files of earlier chunks are. A file begins at
the root once, and each time only so many blocks can be opened in each other before all files have
a namespace; between two such events the recursion asks a file for a name at most once, or passes a
file at most once while it collects exports. So the depth of the recursion is bounded by the files
that are missing, then the files without a namespace, then the questions that are open.
-/
namespace AmbientBundle

/-- The name that an export has in the file that it comes from. -/
def ExportedSymbol.property? : ExportedSymbol → Option String
  | .named _ property _ _ => some property
  | .all _ => none
  | .allAs _ _ => none

namespace Merge

open Step Syntax

namespace Context

variable (cx : Context)

/-- What all files export. -/
def symbols : List ExportedSymbol :=
  cx.files.modules.entries.flatMap (fun e => Exports.table e.1 e.2.body)

/-- The names that may be asked for on the way from one file to the next. -/
def properties : Finset String := (cx.symbols.filterMap ExportedSymbol.property?).toFinset

/-- How many exports, by file and name, one that is asked for may lead through. -/
def questions : Nat := cx.fileSet.card * (cx.properties.card + 1)

/-- The exports that one may still lead through. -/
def unasked (name : String) (v : Visited) : Nat :=
  ((cx.fileSet ×ˢ insert name cx.properties) \ v.toFinset).card

/-- The files that are still passed when exports are collected. -/
def unpassed (passed : List Url) : Nat := (cx.fileSet \ passed.toFinset).card

/-- The depth that collecting exports takes between two files or blocks that begin. -/
def gathering : Nat := 5 + 2 * cx.questions + cx.fileSet.card

/-- The depth that merging takes between two files or blocks that begin. -/
def stage : Nat := cx.gathering + 5

/-- The depth that is taken by the files that are still to begin at the root. -/
def rootDepth (s : State) : Nat := cx.stage * (cx.missing s * (cx.fileSet.card + 1))

/-- The depth that is taken by the files and the blocks that are still to begin. -/
def depth (s : State) : Nat :=
  cx.stage * (cx.missing s * (cx.fileSet.card + 1) + cx.unnamed s)

section Bounds

variable {cx} {s t : State} {file : Url} {name property : String} {v w : Visited}

theorem mem_fileSet : file ∈ cx.fileSet ↔ cx.files.contains file = true := by
  rw [fileSet, List.mem_toFinset, Files.contains, OrderedMap.contains, OrderedMap.mem_keys_iff,
    Option.isSome_iff_exists]

theorem findForModule_mem {m : Url} (h : cx.files.findForModule m = some file) :
    file ∈ cx.fileSet := by
  rw [mem_fileSet]
  unfold Files.findForModule at h
  split at h
  · obtain rfl := Option.some.inj h
    assumption
  · exact List.find?_some h

theorem inChunk?_mem {src : String} {origin : Url} (h : cx.inChunk? src origin = some file) :
    file ∈ cx.fileSet := by
  obtain ⟨u, -, h⟩ := Option.bind_eq_some_iff.1 h
  obtain ⟨id, -, h⟩ := Option.bind_eq_some_iff.1 h
  split at h
  · exact findForModule_mem h
  · cases h

theorem HasFile.mem_fileSet (h : cx.HasFile file) : file ∈ cx.fileSet := by
  cases h with
  | entry _ hf => exact cx.findForModule_mem hf
  | linked _ hlinks =>
    cases hlinks with
    | imported _ hin => exact cx.inChunk?_mem hin
    | exported _ _ hin => exact cx.inChunk?_mem hin
    | typed _ hin => exact cx.inChunk?_mem hin

theorem property_mem {e : ExportedSymbol} (he : e ∈ cx.exports file)
    (hp : e.property? = some property) : property ∈ cx.properties := by
  unfold exports at he
  split at he
  · rename_i m hm
    refine List.mem_toFinset.2 (List.mem_filterMap.2 ⟨e, List.mem_flatMap.2 ⟨(file, m), ?_, he⟩, hp⟩)
    exact OrderedMap.mem_entries_of_get? hm
  · cases he

theorem toFinset_mono {α : Type} [DecidableEq α] {l l' : List α} (h : l ⊆ l') :
    l.toFinset ⊆ l'.toFinset :=
  fun _ ha => List.mem_toFinset.2 (h (List.mem_toFinset.1 ha))

theorem unasked_le_questions (cx : Context) (name : String) (v : Visited) :
    cx.unasked name v ≤ cx.questions :=
  calc cx.unasked name v ≤ (cx.fileSet ×ˢ insert name cx.properties).card :=
        Finset.card_le_card Finset.sdiff_subset
    _ = cx.fileSet.card * (insert name cx.properties).card := Finset.card_product _ _
    _ ≤ cx.questions := Nat.mul_le_mul_left _ (Finset.card_insert_le _ _)

/-- Only a name under which files export is asked for behind a question. -/
theorem unasked_le (hp : property = name ∨ property ∈ cx.properties) (hv : v ⊆ w) :
    cx.unasked property w ≤ cx.unasked name v := by
  refine Finset.card_le_card (Finset.sdiff_subset_sdiff ?_ (toFinset_mono hv))
  refine Finset.product_subset_product_right (Finset.insert_subset ?_ (Finset.subset_insert _ _))
  rcases hp with rfl | hp
  · exact Finset.mem_insert_self _ _
  · exact Finset.mem_insert_of_mem hp

theorem unasked_cons (hf : file ∈ cx.fileSet) (hv : (file, name) ∉ v) :
    cx.unasked name ((file, name) :: v) < cx.unasked name v := by
  refine Finset.card_lt_card (Finset.ssubset_iff_of_subset ?_ |>.2 ⟨(file, name), ?_, ?_⟩)
  · exact Finset.sdiff_subset_sdiff (Finset.Subset.refl _)
      (toFinset_mono (List.subset_cons_self _ _))
  · simp [hf, hv]
  · simp

theorem unpassed_le_files (cx : Context) (passed : List Url) :
    cx.unpassed passed ≤ cx.fileSet.card :=
  Finset.card_le_card Finset.sdiff_subset

theorem unpassed_le {passed passed' : List Url} (h : passed ⊆ passed') :
    cx.unpassed passed' ≤ cx.unpassed passed :=
  Finset.card_le_card (Finset.sdiff_subset_sdiff (Finset.Subset.refl _)
    (toFinset_mono h))

theorem unpassed_cons {passed : List Url} (hf : file ∈ cx.fileSet) (hp : file ∉ passed) :
    cx.unpassed (file :: passed) < cx.unpassed passed := by
  refine Finset.card_lt_card (Finset.ssubset_iff_of_subset ?_ |>.2 ⟨file, ?_, ?_⟩)
  · exact Finset.sdiff_subset_sdiff (Finset.Subset.refl _)
      (toFinset_mono (List.subset_cons_self _ _))
  · simp [hf, hp]
  · simp

theorem rootDepth_le (cx : Context) (s : State) : cx.rootDepth s ≤ cx.depth s :=
  Nat.mul_le_mul_left _ (Nat.le_add_right _ _)

theorem depth_mono (cx : Context) (h : Advances s t) : cx.depth t ≤ cx.depth s :=
  Nat.mul_le_mul_left _
    (Nat.add_le_add (Nat.mul_le_mul_right _ (cx.missing_le h)) (cx.unnamed_le h))

/-- At the root the blocks that may open in a new file take less than the file is worth. -/
theorem depth_addFile (hf : file ∈ cx.fileSet) (hnew : s.included.contains file = false) :
    cx.depth (s.addFile file) + cx.stage ≤ cx.rootDepth s := by
  have hmissing := cx.missing_addFile hf hnew
  have hunnamed := cx.unnamed_le_files (s.addFile file)
  have hlevel : cx.missing (s.addFile file) * (cx.fileSet.card + 1) +
      cx.unnamed (s.addFile file) + 1 ≤ cx.missing s * (cx.fileSet.card + 1) :=
    calc cx.missing (s.addFile file) * (cx.fileSet.card + 1) + cx.unnamed (s.addFile file) + 1
        ≤ (cx.missing (s.addFile file) + 1) * (cx.fileSet.card + 1) := by
          rw [Nat.succ_mul]
          omega
      _ ≤ cx.missing s * (cx.fileSet.card + 1) := Nat.mul_le_mul_right _ hmissing
  exact Nat.mul_le_mul_left cx.stage hlevel

theorem depth_openBlock (hf : file ∈ cx.fileSet) (hnew : s.space? file = none) (name : String) :
    cx.depth (s.openBlock file name) + cx.stage ≤ cx.depth s := by
  have hmissing : cx.missing (s.openBlock file name) = cx.missing s := by
    simp [missing]
  have hunnamed := cx.unnamed_openBlock hf hnew name
  have hlevel : cx.missing (s.openBlock file name) * (cx.fileSet.card + 1) +
      cx.unnamed (s.openBlock file name) + 1 ≤
        cx.missing s * (cx.fileSet.card + 1) + cx.unnamed s := by
    rw [hmissing]
    omega
  exact Nat.mul_le_mul_left cx.stage hlevel

theorem stage_le (cx : Context) :
    cx.stage ≤ 6 * ((cx.files.modules.size + 2) * (cx.symbols.length + 2)) := by
  have hfiles : cx.fileSet.card ≤ cx.files.modules.size := by
    simpa [fileSet, OrderedMap.keys, OrderedMap.size] using
      List.toFinset_card_le cx.files.modules.keys
  have hproperties : cx.properties.card ≤ cx.symbols.length :=
    (List.toFinset_card_le _).trans (List.length_filterMap_le _ _)
  have hquestions : cx.questions ≤ cx.files.modules.size * (cx.symbols.length + 1) :=
    Nat.mul_le_mul hfiles (Nat.succ_le_succ hproperties)
  unfold stage gathering
  nlinarith

/-- No state takes more depth than merging is given. -/
theorem depth_le_depthBound (cx : Context) (s : State) :
    cx.depth s + cx.gathering + 2 ≤ depthBound cx.files := by
  have hfiles : cx.fileSet.card + 1 ≤ cx.files.modules.size + 2 := by
    have h := List.toFinset_card_le cx.files.modules.keys
    simp only [OrderedMap.keys, List.length_map] at h
    exact Nat.succ_le_succ (h.trans (Nat.le_succ _))
  have hlevel : cx.missing s * (cx.fileSet.card + 1) + cx.unnamed s + 1 ≤
      (cx.fileSet.card + 1) * (cx.fileSet.card + 1) := by
    have hmissing := Nat.mul_le_mul_right (cx.fileSet.card + 1) (cx.missing_le_files s)
    have hunnamed := cx.unnamed_le_files s
    rw [Nat.succ_mul]
    omega
  have hfinal : depthBound cx.files = 16 * (cx.files.modules.size + 2) *
      (cx.files.modules.size + 2) * (cx.files.modules.size + 2) * (cx.symbols.length + 2) := rfl
  calc cx.depth s + cx.gathering + 2
      ≤ cx.depth s + cx.stage := by
        unfold stage
        omega
    _ = cx.stage * (cx.missing s * (cx.fileSet.card + 1) + cx.unnamed s + 1) := rfl
    _ ≤ cx.stage * ((cx.fileSet.card + 1) * (cx.fileSet.card + 1)) :=
        Nat.mul_le_mul_left _ hlevel
    _ ≤ 6 * ((cx.files.modules.size + 2) * (cx.symbols.length + 2)) *
          ((cx.files.modules.size + 2) * (cx.files.modules.size + 2)) :=
        Nat.mul_le_mul cx.stage_le (Nat.mul_le_mul hfiles hfiles)
    _ ≤ depthBound cx.files := by
        rw [hfinal]
        nlinarith

end Bounds

end Context

variable {cx : Context} {b : Nat} {s t : State}

section Primitives

theorem ends_claimFresh (wanted : String) :
    Ends b (fun _ => claimFresh wanted) s (fun name t => t = s.claim name) :=
  .of_eq rfl rfl

theorem ends_preserve (module : String) (imported : ImportedName) (wanted : String)
    (typeOnly : Bool) :
    Ends b (fun _ => preserve module imported wanted typeOnly) s (fun _ => Advances s) := by
  unfold preserve
  refine .get ?_
  cases s.preserved.get? (module, imported) with
  | some p => exact .bind (.modify (.keep s _ _)) (fun _ _ h => .pure h)
  | none =>
    refine (ends_claimFresh wanted).bind ?_
    rintro name _ rfl
    exact .bind (.modify ((Advances.claim s name).trans (.keep _ _ _))) (fun _ _ h => .pure h)

theorem ends_aliasOuter (final : String) :
    Ends b (fun _ => aliasOuter final) s (fun _ => Advances s) := by
  unfold aliasOuter
  refine (ends_claimFresh final).bind ?_
  rintro name _ rfl
  refine .get ?_
  cases (s.claim name).preserved.entries.find? (fun e => e.2.locals.contains final) with
  | some e => exact .bind (.modify ((Advances.claim s name).trans (.keep _ _ _))) (fun _ _ h => .pure h)
  | none => exact .bind (.modify ((Advances.claim s name).trans (.addItems _ _))) (fun _ _ h => .pure h)

theorem ends_mergeOuterImport (origin : Url) (d : ImportDecl) :
    Ends b (fun _ => mergeOuterImport cx origin d) s (fun _ => Advances s) := by
  unfold mergeOuterImport
  refine .ite_then (Advances s) (.refl s) (.modify (.keepRun s _)) (fun t ht => ?_)
  refine .forM (Advances s) ht (fun sp _ u hu => ?_)
  refine (ends_preserve _ _ _ _).bind (fun f v hv => .modify ?_)
  exact hu.trans (hv.trans (.link _ _ _ _))

/-- What an import stands for is linked, or there is a warning. -/
theorem ends_linkFound (origin target : Url) (loc : String) (final : Option String)
    (ht : Advances s t) :
    Ends b (fun _ => (match final with
      | some f => modify (State.link origin loc f)
      | none => modify (State.warn (.unknownImport target origin loc)) : Step PUnit)) t
      (fun _ => Advances s) := by
  cases final with
  | some f => exact .modify (ht.trans (.link _ _ _ _))
  | none => exact .modify (ht.trans (.warn _ _))

/-- What a specifier stands for is exported, or there is a warning. -/
theorem ends_exportFound (origin target : Url) (exported : String) (final : Option String)
    (ht : Advances s t) :
    Ends b (fun _ => (match final with
      | some f => pure (some (Exports.specifier f exported))
      | none => do
        modify (State.warn (.unknownReexport target origin exported))
        pure none : Step (Option ExportSpecifier))) t (fun _ => Advances s) := by
  cases final with
  | some f => exact .pure ht
  | none => exact .bind (.modify (ht.trans (.warn _ _))) (fun _ _ h => .pure h)

end Primitives

/-- Every call ends whose depth is not below what the measures of its state and of its arguments
take, and leads to a later state. -/
structure Ending (cx : Context) (b : Nat) : Prop where
  includeFile {file : Url} {s : State} (hf : file ∈ cx.fileSet) (hb : cx.rootDepth s + 3 ≤ b) :
    Ends b (fun n => Merge.includeFile cx n file .dependency) s (fun _ => Advances s)
  includeRoot {file : Url} {s : State} (hf : file ∈ cx.fileSet) (hroot : s.inBlock = false)
    (hb : cx.rootDepth s + 1 ≤ b) :
    Ends b (fun n => Merge.includeFile cx n file .dependency) s (fun _ => Advances s)
  includeEntry {file : Url} {s : State} (hf : file ∈ cx.fileSet) (hroot : s.inBlock = false)
    (hb : cx.depth s + cx.gathering + 2 ≤ b) :
    Ends b (fun n => Merge.includeFile cx n file .entry) s (fun _ => Advances s)
  includeAtRoot {file : Url} {s : State} (hf : file ∈ cx.fileSet) (hb : cx.rootDepth s + 2 ≤ b) :
    Ends b (fun n => includeAtRoot cx n file .dependency) s (fun _ => Advances s)
  inlineFile {file : Url} {role : Role} {s : State} (hb : cx.depth s + cx.gathering + 5 ≤ b) :
    Ends b (fun n => inlineFile cx n file role) s (fun _ => Advances s)
  mergeFile {file : Url} {role : Role} {s : State} (hb : cx.depth s + cx.gathering + 4 ≤ b) :
    Ends b (fun n => mergeFile cx n file role) s (fun _ => Advances s)
  mergeItem {origin : Url} {role : Role} {i : Item} {s : State}
    (hb : cx.depth s + cx.gathering + 3 ≤ b) :
    Ends b (fun n => mergeItem cx n origin role i) s (fun _ => Advances s)
  reexport {origin : Url} {i : Item} {s : State} (hb : cx.depth s + cx.gathering + 2 ≤ b) :
    Ends b (fun n => reexport cx n origin i) s (fun _ => Advances s)
  mergeImport {origin : Url} {d : ImportDecl} {s : State}
    (hb : cx.depth s + 5 + 2 * cx.questions ≤ b) :
    Ends b (fun n => mergeImport cx n origin d) s (fun _ => Advances s)
  mergeReexport {origin : Url} {d : ExportList} {src : String} {s : State}
    (hb : cx.depth s + 5 + 2 * cx.questions ≤ b) :
    Ends b (fun n => mergeReexport cx n origin d src) s (fun _ => Advances s)
  mergeStar {origin : Url} {src : String} {s : State} (hb : cx.depth s + cx.gathering + 1 ≤ b) :
    Ends b (fun n => mergeStar cx n origin src) s (fun _ => Advances s)
  exportAgain {file : Url} {s : State} (hf : file ∈ cx.fileSet)
    (hb : cx.depth s + cx.gathering + 1 ≤ b) :
    Ends b (fun n => exportAgain cx n file) s (fun _ => Advances s)
  resolveExport {target : Url} {name : String} {v : Visited} {s : State} (hf : target ∈ cx.fileSet)
    (hb : cx.depth s + 4 + 2 * cx.unasked name v ≤ b) :
    Ends b (fun n => resolveExport cx n target name v) s (fun r t => Advances s t ∧ v ⊆ r.2)
  resolveInStars {target : Url} {name : String} {v : Visited} {s : State}
    (hb : cx.depth s + 5 + 2 * cx.unasked name v ≤ b) :
    Ends b (fun n => resolveInStars cx n target name v) s (fun r t => Advances s t ∧ v ⊆ r.2)
  collect {target : Url} {withDefault : Bool} {c : Collected} {s : State}
    (hf : target ∈ cx.fileSet)
    (hb : cx.depth s + 5 + 2 * cx.questions + cx.unpassed c.visited ≤ b) :
    Ends b (fun n => collect cx n target withDefault c) s
      (fun c' t => Advances s t ∧ c.visited ⊆ c'.visited)
  ensureSpace {target : Url} {wanted : String} {s : State} (hf : target ∈ cx.fileSet)
    (hb : cx.depth s + 1 ≤ b) :
    Ends b (fun n => ensureSpace cx n target wanted) s (fun _ => Advances s)
  linkTypes {origin : Url} {items : List Item} {s : State}
    (hb : cx.depth s + 5 + 2 * cx.questions ≤ b) :
    Ends b (fun n => linkTypes cx n origin items) s (fun _ => Advances s)

namespace Ending

theorem zero : Ending cx 0 := by
  constructor <;> intros <;> rename_i hb <;> exact absurd hb (by omega)

theorem includeAtRoot_succ (ih : Ending cx b) {file : Url} (hf : file ∈ cx.fileSet)
    (hb : cx.rootDepth s + 2 ≤ b + 1) :
    Ends (b + 1) (fun n => Merge.includeAtRoot cx n file .dependency) s (fun _ => Advances s) := by
  refine .succ ?_ (fun n => by rw [Merge.includeAtRoot])
  refine .get ?_
  refine .bind (P := fun _ t => t = s.suspend) (.of_eq rfl rfl) ?_
  rintro _ _ rfl
  have hdepth : cx.rootDepth s.suspend = cx.rootDepth s := rfl
  refine (ih.includeRoot hf rfl (by omega)).bind (fun _ t ht => ?_)
  refine .bind (P := fun _ u => u = t.resume s.suspended.length) (.of_eq rfl rfl) ?_
  rintro _ _ rfl
  exact .modify (ht.atRoot _)

/-- A file that the chunk does not have yet is inlined, whatever asked for it. -/
theorem inlineNew (ih : Ending cx b) {file : Url} {role : Role} (hf : file ∈ cx.fileSet)
    (hnew : s.included.contains file = false) (hb : cx.rootDepth s ≤ b) :
    Ends b (fun n => (do set (s.addFile file); Merge.inlineFile cx n file role : Step Unit)) s
      (fun _ => Advances s) := by
  have hdepth := cx.depth_addFile hf hnew
  refine .bind (P := fun _ t => t = s.addFile file) (.of_eq rfl rfl) ?_
  rintro _ _ rfl
  refine (ih.inlineFile ?_).imp (fun _ _ ht => (Advances.addFile s file).trans ht)
  unfold Context.stage at hdepth
  omega

theorem includeFile_succ (ih : Ending cx b) {file : Url} (hf : file ∈ cx.fileSet)
    (hb : cx.rootDepth s + 1 ≤ b + 1) (hblock : s.inBlock = true → cx.rootDepth s + 3 ≤ b + 1) :
    Ends (b + 1) (fun n => Merge.includeFile cx n file .dependency) s (fun _ => Advances s) := by
  refine .succ ?_ (fun n => by rw [Merge.includeFile])
  refine .get (.ite (fun hs => ?_) (fun _ => .ite (fun _ => ?_) (fun hnew => ?_)))
  · have hb' := hblock hs
    exact .ite (fun _ => ih.includeAtRoot hf (by omega)) (fun _ => .pure (.refl s))
  · exact .ite (fun h => by cases h) (fun _ => .pure (.refl s))
  · exact ih.inlineNew hf (by simpa using hnew) (by omega)

theorem includeEntry_succ (ih : Ending cx b) {file : Url} (hf : file ∈ cx.fileSet)
    (hroot : s.inBlock = false) (hb : cx.depth s + cx.gathering + 2 ≤ b + 1) :
    Ends (b + 1) (fun n => Merge.includeFile cx n file .entry) s (fun _ => Advances s) := by
  refine .succ ?_ (fun n => by rw [Merge.includeFile])
  refine .get (.ite (fun hs => ?_) (fun _ => .ite (fun _ => ?_) (fun hnew => ?_)))
  · exact absurd hs (by simp [hroot])
  · exact .ite (fun _ => ih.exportAgain hf (by omega)) (fun _ => .pure (.refl s))
  · have hle := cx.rootDepth_le s
    exact ih.inlineNew hf (by simpa using hnew) (by omega)

theorem inlineFile_succ (ih : Ending cx b) {file : Url} {role : Role}
    (hb : cx.depth s + cx.gathering + 5 ≤ b + 1) :
    Ends (b + 1) (fun n => Merge.inlineFile cx n file role) s (fun _ => Advances s) := by
  refine .succ ?_ (fun n => by rw [Merge.inlineFile])
  cases cx.files.get? file with
  | none => exact .modify (.warn s _)
  | some m =>
    exact (ih.mergeFile (by omega)).bind (fun _ t ht => .modify (ht.trans (.addItems t _)))

theorem mergeFile_succ (ih : Ending cx b) {file : Url} {role : Role}
    (hb : cx.depth s + cx.gathering + 4 ≤ b + 1) :
    Ends (b + 1) (fun n => Merge.mergeFile cx n file role) s (fun _ => Advances s) := by
  have hdepth {t : State} (ht : Advances s t) : cx.depth t + cx.gathering + 3 ≤ b := by
    have hmono := cx.depth_mono ht
    omega
  refine .succ ?_ (fun n => by rw [Merge.mergeFile])
  refine .bind (.modify (Q := fun _ => Advances s) (.bindFile s _ _)) (fun _ t ht => ?_)
  refine .bind (.forM (Advances s) ht (fun d _ u hu => ?_)) (fun _ t ht => ?_)
  · have hd := hdepth hu
    unfold Context.gathering at hd
    exact (ih.mergeImport (by omega)).imp (fun _ _ h => hu.trans h)
  refine .bind (.forM (Advances s) ht (fun src _ u hu => ?_)) (fun _ t ht => ?_)
  · cases hin : cx.inChunk? src file with
    | none => exact .pure hu
    | some target =>
      have hd := hdepth hu
      have hle := cx.rootDepth_le u
      exact (ih.includeFile (cx.inChunk?_mem hin) (by omega)).imp (fun _ _ h => hu.trans h)
  refine .bind (.mapM (Advances s) ht (fun i _ u hu => ?_)) (fun _ t ht => .pure ht)
  exact (ih.mergeItem (hdepth hu)).imp (fun _ _ h => hu.trans h)

theorem mergeItem_succ (ih : Ending cx b) {origin : Url} {role : Role} {i : Item}
    (hb : cx.depth s + cx.gathering + 3 ≤ b + 1) :
    Ends (b + 1) (fun n => Merge.mergeItem cx n origin role i) s (fun _ => Advances s) := by
  refine .succ ?_ (fun n => by rw [Merge.mergeItem])
  refine .get (.ite_bind (P := fun _ => Advances s) (.ite (fun _ => ?_) (fun _ => .pure (.refl s))) ?_)
  · exact ih.reexport (by omega)
  intro exports t ht
  refine .bind (P := fun _ u => u = (t.takeItems s.scope.items.length).2) (.of_eq rfl rfl) ?_
  rintro synthesized _ rfl
  have htake := ht.trans (.takeItems t s.scope.items.length)
  have hmono := cx.depth_mono htake
  refine .get ((ih.linkTypes ?_).bind (fun nodes u hu => .pure (htake.trans hu)))
  unfold Context.gathering at hb
  omega

theorem reexport_succ (ih : Ending cx b) {origin : Url} {i : Item}
    (hb : cx.depth s + cx.gathering + 2 ≤ b + 1) :
    Ends (b + 1) (fun n => Merge.reexport cx n origin i) s (fun _ => Advances s) := by
  cases i with
  | exportList d =>
    refine .succ ?_ (fun n => by rw [Merge.reexport])
    cases d.src with
    | none => exact .pure (.refl s)
    | some src =>
      unfold Context.gathering at hb
      exact ih.mergeReexport (by omega)
  | exportAll d => exact .succ (ih.mergeStar (by omega)) (fun n => by rw [Merge.reexport])
  | _ => exact .succ (.pure (.refl s)) (fun n => by rw [Merge.reexport] <;> simp)

theorem mergeImport_succ (ih : Ending cx b) {origin : Url} {d : ImportDecl}
    (hb : cx.depth s + 5 + 2 * cx.questions ≤ b + 1) :
    Ends (b + 1) (fun n => Merge.mergeImport cx n origin d) s (fun _ => Advances s) := by
  refine .succ ?_ (fun n => by rw [Merge.mergeImport])
  cases hin : cx.inChunk? d.src.value origin with
  | none => exact ends_mergeOuterImport origin d
  | some target =>
    have hf := cx.inChunk?_mem hin
    have hle := cx.rootDepth_le s
    refine (ih.includeFile hf (by omega)).bind (fun _ t ht => .forM (Advances s) ht (fun sp _ u hu => ?_))
    have hmono := cx.depth_mono hu
    have hresolve (name : String) :
        Ends b (fun n => Prod.fst <$> Merge.resolveExport cx n target name []) u
          (fun _ => Advances s) := by
      have hopen := cx.unasked_le_questions name []
      exact (ih.resolveExport hf (by omega)).map (fun _ v hv => hu.trans hv.1)
    have hlink (final : Option String) (v : State) (hv : Advances s v) :=
      ends_linkFound (b := b) origin target (ofSpecifier sp).1 final hv
    dsimp only
    cases (ofSpecifier sp).2.1 with
    | named name => exact (hresolve name).bind hlink
    | default => exact (hresolve "default").bind hlink
    | all => exact ((ih.ensureSpace hf (by omega)).map (Q := fun _ => Advances s)
        (fun _ v hv => hu.trans hv)).bind hlink

theorem mergeReexport_succ (ih : Ending cx b) {origin : Url} {d : ExportList} {src : String}
    (hb : cx.depth s + 5 + 2 * cx.questions ≤ b + 1) :
    Ends (b + 1) (fun n => Merge.mergeReexport cx n origin d src) s (fun _ => Advances s) := by
  refine .succ ?_ (fun n => by rw [Merge.mergeReexport])
  cases hin : cx.inChunk? src origin with
  | none => exact .pure (.refl s)
  | some target =>
    have hf := cx.inChunk?_mem hin
    refine .bind (.filterMapM (Advances s) (.refl s) (fun sp _ u hu => ?_)) (fun _ t ht => .pure ht)
    have hmono := cx.depth_mono hu
    have hput (final : Option String) (v : State) (hv : Advances s v) :=
      ends_exportFound (b := b) origin target (exportedName sp) final hv
    cases sp with
    | named orig exported typeOnly =>
      have hopen := cx.unasked_le_questions orig.text []
      exact ((ih.resolveExport hf (by omega)).map (Q := fun _ => Advances s)
        (fun _ v hv => hu.trans hv.1)).bind hput
    | all name => exact ((ih.ensureSpace hf (by omega)).map (Q := fun _ => Advances s)
        (fun _ v hv => hu.trans hv)).bind hput

theorem mergeStar_succ (ih : Ending cx b) {origin : Url} {src : String}
    (hb : cx.depth s + cx.gathering + 1 ≤ b + 1) :
    Ends (b + 1) (fun n => Merge.mergeStar cx n origin src) s (fun _ => Advances s) := by
  refine .succ ?_ (fun n => by rw [Merge.mergeStar])
  cases hin : cx.inChunk? src origin with
  | none => exact .pure (.refl s)
  | some target =>
    have hpassed := cx.unpassed_le_files Collected.empty.visited
    unfold Context.gathering at hb
    exact (ih.collect (cx.inChunk?_mem hin) (by omega)).bind (fun _ _ ht => .pure ht.1)

theorem exportAgain_succ (ih : Ending cx b) {file : Url} (hf : file ∈ cx.fileSet)
    (hb : cx.depth s + cx.gathering + 1 ≤ b + 1) :
    Ends (b + 1) (fun n => Merge.exportAgain cx n file) s (fun _ => Advances s) := by
  refine .succ ?_ (fun n => by rw [Merge.exportAgain])
  have hpassed := cx.unpassed_le_files Collected.empty.visited
  unfold Context.gathering at hb
  exact (ih.collect hf (by omega)).bind (fun _ t ht => .modify (ht.1.trans (.addItems t _)))

theorem resolveExport_succ (ih : Ending cx b) {target : Url} {name : String} {v : Visited}
    (hf : target ∈ cx.fileSet) (hb : cx.depth s + 4 + 2 * cx.unasked name v ≤ b + 1) :
    Ends (b + 1) (fun n => Merge.resolveExport cx n target name v) s
      (fun r t => Advances s t ∧ v ⊆ r.2) := by
  refine .succ ?_ (fun n => by rw [Merge.resolveExport])
  refine .ite (fun _ => .pure ⟨.refl s, List.Subset.refl v⟩) (fun hnew => ?_)
  have hunasked : cx.unasked name ((target, name) :: v) < cx.unasked name v :=
    cx.unasked_cons hf (by simpa using hnew)
  have hv := List.subset_cons_self (target, name) v
  have hstars : Ends b (fun n => if name = "default" then pure (none, (target, name) :: v)
      else Merge.resolveInStars cx n target name ((target, name) :: v)) s
      (fun r t => Advances s t ∧ v ⊆ r.2) :=
    .ite (fun _ => .pure ⟨.refl s, hv⟩) (fun _ =>
      (ih.resolveInStars (by omega)).imp (fun _ _ h => ⟨h.1, List.Subset.trans hv h.2⟩))
  have hpreserve (module : String) (imported : ImportedName) :
      Ends b (fun _ => do
        let f ← preserve module imported name false
        pure (some f, (target, name) :: v)) s (fun r t => Advances s t ∧ v ⊆ r.2) :=
    (ends_preserve _ _ _ _).bind (fun _ _ ht => .pure ⟨ht, hv⟩)
  dsimp only
  cases hx : (cx.exports target).find? (fun s => s.exportedName? == some name) with
  | none => exact hstars
  | some e =>
    have he := List.mem_of_find?_eq_some hx
    cases e with
    | all src => exact hstars
    | allAs k src =>
      cases hin : cx.inChunk? src target with
      | none =>
        simp only [hin]
        exact hpreserve _ _
      | some file =>
        simp only [hin]
        exact (ih.ensureSpace (cx.inChunk?_mem hin) (by omega)).bind (fun _ _ ht => .pure ⟨ht, hv⟩)
    | named k property src id =>
      cases src with
      | none => exact .get (.pure ⟨.refl s, hv⟩)
      | some src =>
        cases hin : cx.inChunk? src target with
        | none =>
          simp only [hin]
          exact hpreserve _ _
        | some file =>
          simp only [hin]
          have hfile := cx.inChunk?_mem hin
          have hle := cx.rootDepth_le s
          refine (ih.includeFile hfile (by omega)).bind (fun _ t ht => ?_)
          have hmono := cx.depth_mono ht
          have hproperty : cx.unasked property ((target, name) :: v) ≤
              cx.unasked name ((target, name) :: v) :=
            cx.unasked_le (Or.inr (cx.property_mem he rfl)) (List.Subset.refl _)
          exact (ih.resolveExport hfile (by omega)).imp (fun _ _ h => ⟨ht.trans h.1, List.Subset.trans hv h.2⟩)

theorem resolveInStars_succ (ih : Ending cx b) {target : Url} {name : String} {v : Visited}
    (hb : cx.depth s + 5 + 2 * cx.unasked name v ≤ b + 1) :
    Ends (b + 1) (fun n => Merge.resolveInStars cx n target name v) s
      (fun r t => Advances s t ∧ v ⊆ r.2) := by
  refine .succ ?_ (fun n => by rw [Merge.resolveInStars])
  refine .bind (.foldlM (fun r t => Advances s t ∧ v ⊆ r.2.2) ⟨.refl s, List.Subset.refl v⟩ ?_) ?_
  · rintro symbol - ⟨found, outer, w⟩ t ⟨ht, hw⟩
    cases found with
    | some f => exact .pure ⟨ht, hw⟩
    | none =>
      cases symbol with
      | all src =>
        cases hin : cx.inChunk? src target with
        | none =>
          simp only [hin]
          exact .pure ⟨ht, hw⟩
        | some file =>
          simp only [hin]
          have hfile := cx.inChunk?_mem hin
          have hle := cx.rootDepth_le t
          have hmono := cx.depth_mono ht
          refine (ih.includeFile hfile (by omega)).bind (fun _ u hu => ?_)
          have hmono' := cx.depth_mono (ht.trans hu)
          have hunasked : cx.unasked name w ≤ cx.unasked name v := cx.unasked_le (Or.inl rfl) hw
          refine (ih.resolveExport hfile (by omega)).bind (fun r u' hu' => ?_)
          exact .pure ⟨ht.trans (hu.trans hu'.1), List.Subset.trans hw hu'.2⟩
      | _ => exact .pure ⟨ht, hw⟩
  · rintro ⟨found, outer, w⟩ t ⟨ht, hw⟩
    cases found with
    | some f => exact .pure ⟨ht, hw⟩
    | none =>
      cases outer with
      | none => exact .pure ⟨ht, hw⟩
      | some module =>
        exact (ends_preserve _ _ _ _).bind (fun _ u hu => .pure ⟨ht.trans hu, hw⟩)

theorem collect_succ (ih : Ending cx b) {target : Url} {withDefault : Bool} {c : Collected}
    (hf : target ∈ cx.fileSet)
    (hb : cx.depth s + 5 + 2 * cx.questions + cx.unpassed c.visited ≤ b + 1) :
    Ends (b + 1) (fun n => Merge.collect cx n target withDefault c) s
      (fun c' t => Advances s t ∧ c.visited ⊆ c'.visited) := by
  refine .succ ?_ (fun n => by rw [Merge.collect])
  refine .ite (fun _ => .pure ⟨.refl s, List.Subset.refl _⟩) (fun hnew => ?_)
  have hunpassed : cx.unpassed (target :: c.visited) < cx.unpassed c.visited :=
    cx.unpassed_cons hf (by simpa using hnew)
  dsimp only
  refine .bind (.foldlM (fun c' t => Advances s t ∧ target :: c.visited ⊆ c'.visited)
    ⟨.refl s, List.Subset.refl _⟩ ?_) (fun c' t hc' => ?_)
  · rintro name - c' t ⟨ht, hc'⟩
    refine .ite (fun _ => .pure ⟨ht, hc'⟩) (fun _ => ?_)
    have hmono := cx.depth_mono ht
    have hunasked := cx.unasked_le_questions name []
    refine (ih.resolveExport hf (by omega)).bind (fun r u hu => ?_)
    cases r.1 with
    | some f => exact .pure ⟨ht.trans hu.1, hc'⟩
    | none => exact .bind (.modify (ht.trans (hu.1.trans (.warn _ _)))) (fun _ _ h => .pure ⟨h, hc'⟩)
  · refine (Ends.foldlM (fun c' t => Advances s t ∧ target :: c.visited ⊆ c'.visited) hc' ?_).imp
      (fun _ _ h => ⟨h.1, List.Subset.trans (List.subset_cons_self _ _) h.2⟩)
    rintro symbol - c' t ⟨ht, hc'⟩
    cases symbol with
    | all src =>
      cases hin : cx.inChunk? src target with
      | none =>
        simp only [hin]
        refine .pure ⟨ht, ?_⟩
        unfold Collected.addStar
        split <;> exact hc'
      | some file =>
        simp only [hin]
        have hfile := cx.inChunk?_mem hin
        have hle := cx.rootDepth_le t
        have hmono := cx.depth_mono ht
        refine (ih.includeFile hfile (by omega)).bind (fun _ u hu => ?_)
        have hmono' := cx.depth_mono (ht.trans hu)
        have hpassed := cx.unpassed_le hc'
        refine (ih.collect hfile (by omega)).imp (fun _ _ h => ⟨?_, List.Subset.trans hc' h.2⟩)
        exact ht.trans (hu.trans h.1)
    | _ => exact .pure ⟨ht, hc'⟩

theorem ensureSpace_succ (ih : Ending cx b) {target : Url} {wanted : String}
    (hf : target ∈ cx.fileSet) (hb : cx.depth s + 1 ≤ b + 1) :
    Ends (b + 1) (fun n => Merge.ensureSpace cx n target wanted) s (fun _ => Advances s) := by
  refine .succ ?_ (fun n => by rw [Merge.ensureSpace])
  refine .get ?_
  cases hnew : s.space? target with
  | some name => exact .pure (.refl s)
  | none =>
    refine (ends_claimFresh wanted).bind ?_
    rintro name _ rfl
    have hclaim := cx.depth_mono (Advances.claim s name)
    have hopen := cx.depth_openBlock hf (s := s.claim name) (by simpa using hnew) name
    unfold Context.stage at hopen
    refine .bind (P := fun _ t => t = (s.claim name).openBlock target name) (.of_eq rfl rfl) ?_
    rintro _ _ rfl
    refine (ih.inlineFile (by omega)).bind (fun _ t ht => ?_)
    refine .ite_then (Advances ((s.claim name).openBlock target name)) ht
      (.modify (ht.trans (.warn _ _))) (fun t ht => ?_)
    have hmono := cx.depth_mono ht
    have hpassed := cx.unpassed_le_files Collected.empty.visited
    unfold Context.gathering at hopen
    refine (ih.collect hf (by omega)).bind (fun c u hu => ?_)
    refine .bind (.forM _ (ht.trans hu.1) (fun star _ v hv => .modify (hv.trans (.warn _ _))))
      (fun _ u hu => ?_)
    refine .bind (P := fun _ v => v = u.closeBlock.2) (.of_eq rfl rfl) ?_
    rintro body _ rfl
    have hclose : Advances s u.closeBlock.2 := (Advances.claim s name).trans hu.block
    refine .bind (.mapM (Advances s) hclose (fun e _ v hv => ?_)) (fun exports v hv => ?_)
    · exact .ite (fun _ => (ends_aliasOuter e.2).bind (fun _ _ hw => .pure (hv.trans hw)))
        (fun _ => .pure hv)
    refine .bind (.forM _ hv (fun e _ w hw => .modify (hw.trans (.warn _ _)))) (fun _ w hw => ?_)
    refine .get (.bind (.modify (Q := fun _ => Advances s) (hw.trans (.addItems _ _))) ?_)
    exact fun _ _ h => .pure h

theorem linkTypes_succ (ih : Ending cx b) {origin : Url} {items : List Item}
    (hb : cx.depth s + 5 + 2 * cx.questions ≤ b + 1) :
    Ends (b + 1) (fun n => Merge.linkTypes cx n origin items) s (fun _ => Advances s) := by
  refine .succ ?_ (fun n => by rw [Merge.linkTypes])
  refine .bind (.foldlM (fun _ => Advances s) (.refl s) (fun key _ ts t ht => ?_))
    (fun _ _ h => .pure h)
  cases hin : cx.inChunk? key.specifier origin with
  | none => exact .pure ht
  | some file =>
    have hf := cx.inChunk?_mem hin
    have hle := cx.rootDepth_le t
    have hmono := cx.depth_mono ht
    refine (ih.includeFile hf (by omega)).bind (fun _ u hu => ?_)
    have hmono' := cx.depth_mono (ht.trans hu)
    dsimp only
    cases key.head with
    | some head =>
      have hunasked := cx.unasked_le_questions head []
      exact ((ih.resolveExport hf (by omega)).map (Q := fun _ => Advances s)
        (fun _ _ h => ht.trans (hu.trans h.1))).bind (fun _ _ h => .pure h)
    | none =>
      exact ((ih.ensureSpace hf (by omega)).map (Q := fun _ => Advances s)
        (fun _ _ h => ht.trans (hu.trans h))).bind (fun _ _ h => .pure h)

theorem succ (ih : Ending cx b) : Ending cx (b + 1) where
  includeFile hf hb := ih.includeFile_succ hf (by omega) (fun _ => hb)
  includeRoot hf hroot hb := ih.includeFile_succ hf hb (by simp [hroot])
  includeEntry hf hroot hb := ih.includeEntry_succ hf hroot hb
  includeAtRoot hf hb := ih.includeAtRoot_succ hf hb
  inlineFile hb := ih.inlineFile_succ hb
  mergeFile hb := ih.mergeFile_succ hb
  mergeItem hb := ih.mergeItem_succ hb
  reexport hb := ih.reexport_succ hb
  mergeImport hb := ih.mergeImport_succ hb
  mergeReexport hb := ih.mergeReexport_succ hb
  mergeStar hb := ih.mergeStar_succ hb
  exportAgain hf hb := ih.exportAgain_succ hf hb
  resolveExport hf hb := ih.resolveExport_succ hf hb
  resolveInStars hb := ih.resolveInStars_succ hb
  collect hf hb := ih.collect_succ hf hb
  ensureSpace hf hb := ih.ensureSpace_succ hf hb
  linkTypes hb := ih.linkTypes_succ hb

end Ending

theorem ending (cx : Context) (b : Nat) : Ending cx b := by
  induction b with
  | zero => exact .zero
  | succ b ih => exact ih.succ

/-- Includes the entry files of a chunk with the given depth of inlining. -/
def includeEntriesWithin (cx : Context) (n : Nat) : Step Unit :=
  cx.chunk.entryModules.forM (fun m =>
    match cx.files.findForModule m with
    | some file => includeFile cx n file .entry
    | none => pure ())

theorem includeEntries_eq (cx : Context) :
    includeEntries cx = includeEntriesWithin cx (depthBound cx.files) := rfl

/-- Including the entry files ends at the bound and at each depth from there on, in one state. -/
theorem includeEntries_ends (cx : Context) (included : SeenSet Url) : ∃ s : State,
    ∀ n, depthBound cx.files ≤ n → includeEntriesWithin cx n (State.start included) = some ((), s) := by
  have hends : Ends (depthBound cx.files) (includeEntriesWithin cx) (State.start included)
      (fun _ => Advances (State.start included)) := by
    refine .forM _ (.refl _) (fun m _ s hs => ?_)
    cases hm : cx.files.findForModule m with
    | none => exact .pure hs
    | some file =>
      have hroot : s.inBlock = false := hs.inBlock_eq
      exact ((ending cx _).includeEntry (cx.findForModule_mem hm) hroot
        (cx.depth_le_depthBound s)).imp (fun _ _ h => hs.trans h)
  obtain ⟨_, s, hrun, _⟩ := hends
  exact ⟨s, hrun⟩

theorem mergeChunk_of_includeEntries {cx : Context} {included : SeenSet Url} {s : State}
    (h : includeEntries cx (State.start included) = some ((), s)) :
    mergeChunk? cx included = some (finish cx.chunk s, s.included, s.warnings) := by
  change (includeEntries cx (State.start included)).bind _ = _
  rw [h]
  rfl

/-- Merging a chunk ends for all files, whatever cycles they form, and for every resolver and every
set of files of earlier chunks: there is a result, and each depth from the bound on leads to it, so
that the bound never cuts the recursion off. -/
theorem mergeChunk_ends (cx : Context) (included : SeenSet Url) : ∃ s : State,
    mergeChunk? cx included = some (finish cx.chunk s, s.included, s.warnings) ∧
      ∀ n, depthBound cx.files ≤ n →
        includeEntriesWithin cx n (State.start included) = some ((), s) := by
  obtain ⟨s, hrun⟩ := includeEntries_ends cx included
  refine ⟨s, mergeChunk_of_includeEntries ?_, hrun⟩
  rw [includeEntries_eq]
  exact hrun _ le_rfl

end Merge

end AmbientBundle
