import AmbientBundle.Proofs.Merge.RepeatedExports
import AmbientBundle.Proofs.Merge.Termination
import AmbientBundle.Proofs.Names.Recorded
import AmbientBundle.Proofs.Rename.Identity
/-!
A file that stands by itself: it refers to no other file, and it exports no name by a list that it
exports a second time. A chunk of this file alone has its statements as the passes leave them. Each
name is free, so that nothing is renamed; there is nothing to link and nothing to import; and no
export is dropped.
-/
namespace AmbientBundle

open Syntax

namespace Merge

open Names

/-- Whether a statement takes something from another module. -/
def refersOut : Item → Bool
  | .importDecl _ => true
  | .importEquals d =>
    match d.target with
    | .require _ => true
    | .entity _ => false
  | .exportList d => d.src.isSome
  | .exportAll _ => true
  | _ => false

/-- The statements of a file that refers to no other file, has no nameless default export, and
exports no name by a list that it exports a second time. -/
structure SelfContained (body : List Item) : Prop where
  within : ∀ i ∈ body, refersOut i = false
  untyped : collectItems ImportTypes.pickKey body = []
  named : ∀ i ∈ body, Exports.isAnonymousDefault i = false
  listedOnce : (namesOf (listExportsOf body)).Nodup
  listedAlone : ∀ n ∈ namesOf (listExportsOf body), n ∉ namesOf (directExportsOf body)
  emptyOnce : body.countP isEmptyList ≤ 1

namespace SelfContained

variable {body : List Item}

/-- A pass leaves the file self-contained. -/
theorem run {p : Declare.Pass} {m : Module} (h : SelfContained m.body) :
    SelfContained (p.run m).body := by
  have hkeys := p.apply_onItem? (Item.collect ImportTypes.pickKey) Decl.keys_setModifier
    Decl.keys_setModifier
  have hlists := p.apply_onItem? Item.listExports (fun _ _ => rfl) (fun _ _ => rfl)
  have hdirect := p.apply_onItem? Item.directExports (fun _ _ => rfl)
    (fun b d => congrArg (List.map _) (Decl.bound_setModifier b d))
  have hempty := p.apply_onItem? isEmptyList (fun _ _ => rfl) (fun _ _ => rfl)
  have hout := p.apply_onItem? refersOut (fun _ _ => rfl) (fun _ _ => rfl)
  have hnamed := p.apply_onItem? Exports.isAnonymousDefault (fun _ _ => rfl) (fun _ _ => rfl)
  have hlisted : listExportsOf (p.run m).body = listExportsOf m.body := by
    simp only [p.body_run, listExportsOf, List.flatMap_map, hlists]
  have hdirected : directExportsOf (p.run m).body = directExportsOf m.body := by
    simp only [p.body_run, directExportsOf, List.flatMap_map, hdirect]
  refine ⟨?_, ?_, ?_, hlisted ▸ h.listedOnce, ?_, ?_⟩
  · simpa only [p.body_run, List.forall_mem_map, hout] using h.within
  · rw [collectItems_eq_flatMap, p.body_run, List.flatMap_map]
    simpa only [hkeys, collectItems_eq_flatMap] using h.untyped
  · simpa only [p.body_run, List.forall_mem_map, hnamed] using h.named
  · rw [hlisted, hdirected]
    exact h.listedAlone
  · rw [p.body_run, List.countP_map]
    simpa only [Function.comp_def, hempty] using h.emptyOnce

theorem prepare {cx : Context} {m : Module} (h : SelfContained m.body) :
    SelfContained (cx.prepare m).body := by
  unfold Context.prepare
  induction cx.passes generalizing m with
  | nil => exact h
  | cons p ps ih => exact ih h.run

theorem star?_eq_none (h : SelfContained body) {i : Item} (hi : i ∈ body) : i.star? = none := by
  cases i with
  | exportAll d => cases h.within _ hi
  | _ => rfl

theorem dropRepeatedExports_eq (h : SelfContained body) (file : Url) :
    dropRepeatedExports (body.map (Piece.ofFile file)) = body.map (Piece.ofFile file) := by
  have hlisted : listedNames (body.map (Piece.ofFile file)) = namesOf (listExportsOf body) := by
    simp only [listedNames, List.flatMap_map, namesOf, listExportsOf, Piece.ofFile]
  have hdirect : directNamesOf (body.map (Piece.ofFile file)) = namesOf (directExportsOf body) := by
    simp only [directNamesOf, List.flatMap_map, namesOf, directExportsOf, Piece.ofFile]
  have hstars : starsOf ((body.map (Piece.ofFile file)).map Piece.item) = [] :=
    starsOf_eq_nil (by simpa [Piece.ofFile] using fun i hi => h.star?_eq_none hi)
  have hempty : (body.map (Piece.ofFile file)).countP (fun p => isEmptyList p.item) ≤ 1 := by
    rw [List.countP_map]
    exact h.emptyOnce
  rw [dropRepeatedExports_eq_keepNewAll, hdirect]
  refine keepNewAll_eq_self
    (nodup_marksOf.2 ⟨hlisted ▸ h.listedOnce, hstars ▸ List.nodup_nil, hempty⟩) ?_
  rintro (n | src | _) hk
  · rw [mem_marks_name]
    exact h.listedAlone n (hlisted ▸ mem_listedNames.2 hk)
  · simp
  · simp

end SelfContained

section Merge

variable {cx : Context} {file : Url} {m : Module} {i : Item} {s : State}

namespace SelfContained

variable (hm : cx.files.get? file = some m) (h : SelfContained m.body)

include hm h

theorem body_eq : cx.body file = (cx.prepare m).body := by
  have hsame (i : Item) (hi : i ∈ (cx.prepare m).body) :
      (if Exports.isAnonymousDefault i then (Exports.promote file i).nodes i else [i]) = [i] := by
    rw [h.prepare.named i hi]
    rfl
  simp only [Context.body, hm, nameDefaults]
  rw [List.flatMap_congr hsame, List.flatMap_singleton']

theorem splitImport_eq (hi : i ∈ cx.body file) : splitImport cx file i = ([], [i]) := by
  have hwithin := h.prepare.within i (body_eq hm h ▸ hi)
  cases i with
  | importDecl d => cases hwithin
  | importEquals d =>
    obtain ⟨isExport, typeOnly, id, target⟩ := d
    cases target with
    | require src => cases hwithin
    | entity name => rfl
  | _ => rfl

theorem imports_eq : cx.imports file = [] :=
  List.flatMap_eq_nil_iff.2 (fun _ hi => by rw [splitImport_eq hm h hi])

theorem statements_eq : cx.statements file = (cx.prepare m).body := by
  rw [Context.statements, List.flatMap_congr (fun i hi => by rw [splitImport_eq hm h hi]),
    List.flatMap_singleton', body_eq hm h]

end SelfContained

/-- Where no name of a file changes, a statement that takes nothing from elsewhere is shown as it is. -/
theorem shown_self (hwithin : refersOut i = false)
    (hsame : Rename.ofEnvironment s.scope.env file = id) :
    shown cx file false true s.scope.env i = [i] := by
  have hkept (ids : List Ident) : isRenamed s.scope.env file ids = false := by
    simp [isRenamed, hsame]
  cases i with
  | importDecl d => cases hwithin
  | importEquals d =>
    obtain ⟨isExport, typeOnly, id, target⟩ := d
    cases target with
    | require src => cases hwithin
    | entity name => rfl
  | exportDecl d => simp [shown, hkept]
  | exportDefaultDecl d => simp [shown, hkept]
  | exportList d =>
    have hsrc : d.src.isNone = true := by simpa [refersOut] using hwithin
    simp [shown, hsrc]
  | exportAll d => cases hwithin
  | _ => rfl

theorem linkTypes_of_nil {items : List Item} {n : Nat}
    (h : collectItems ImportTypes.pickKey items = []) :
    linkTypes cx (n + 1) file items s = some (items, s) := by
  have hkeys : (ImportTypes.keys items).items = [] := by
    rw [ImportTypes.keys, h]
    rfl
  rw [linkTypes, hkeys]
  exact congrArg (fun is => some (is, s)) (items_link_none items)

/-- Merging a statement of a file that stands by itself puts it in its place, and does nothing else. -/
theorem mergeItem_self {n : Nat} (hroot : s.nested = []) (hwithin : refersOut i = false)
    (huntyped : i.collect ImportTypes.pickKey = [])
    (hsame : Rename.ofEnvironment s.scope.env file = id) :
    mergeItem cx (n + 2) file .entry i s = some ([Piece.ofFile file i], s) := by
  have hblock : s.inBlock = false := by simp [State.inBlock, hroot]
  have hreexport : reexport cx (n + 1) file i = pure [] := by
    cases i with
    | exportList d =>
      have hsrc : d.src = none := by simpa [refersOut] using hwithin
      simp [reexport, hsrc]
    | exportAll d => cases hwithin
    | _ => simp [reexport]
  have htake : (modifyGet (State.takeItems s.scope.items.length) : Step (List Piece)) s =
      some ([], s) := by
    obtain ⟨included, root, nested, suspended, bindings, preserved, sideEffects, warnings⟩ := s
    subst hroot
    change some (root.items.drop root.items.length, _) = _
    simp only [State.scope, State.onScope, List.drop_length, List.take_length]
  have hlink : linkTypes cx (n + 1) file [i] s = some ([i], s) :=
    linkTypes_of_nil (by simp [collectItems, huntyped])
  have hshown : shown cx file s.inBlock true s.scope.env i = [i] := by
    rw [hblock]
    exact shown_self hwithin hsame
  have hkeep : keepsExports .entry s = true := by simp [keepsExports, hblock]
  rw [mergeItem]
  refine (Step.bind_eq (a := s) (t := s) rfl).trans ?_
  simp only [hkeep, if_true, hreexport, pure_bind, hshown]
  refine (Step.bind_eq htake).trans ?_
  refine (Step.bind_eq (a := s) (t := s) rfl).trans ?_
  rw [hsame, items_rename_id]
  exact (Step.bind_eq hlink).trans rfl

/-- The state behind a file that is the first of a chunk, with its statements as they are. -/
def State.withFile (included : SeenSet Url) (file : Url) (body : List Item) : State :=
  (((State.start included).addFile file).bindFile body file).addItems (body.map (Piece.ofFile file))

theorem ofEnvironment_bindFile (included : SeenSet Url) (file : Url) (body : List Item) :
    Rename.ofEnvironment (((State.start included).addFile file).bindFile body file).scope.env file =
      id := by
  have halone : Alone file
      (((State.start included).addFile file).bindFile body file).scope.env := by
    rw [State.scope_bindFile_env]
    exact (alone_empty file).bindIdents
  funext n
  exact halone.getD_lookup n

theorem includeFile_self {included : SeenSet Url} (hm : cx.files.get? file = some m)
    (h : SelfContained m.body) (hnew : included.contains file = false) (n : Nat) :
    includeFile cx (n + 5) file .entry (State.start included) =
      some ((), State.withFile included file (cx.prepare m).body) := by
  have hitems (i : Item) (hi : i ∈ (cx.prepare m).body) :
      mergeItem cx (n + 2) file .entry i
        (((State.start included).addFile file).bindFile (cx.prepare m).body file) =
      some ([Piece.ofFile file i],
        ((State.start included).addFile file).bindFile (cx.prepare m).body file) := by
    have huntyped : collectItems ImportTypes.pickKey (cx.prepare m).body = [] := h.prepare.untyped
    rw [collectItems_eq_flatMap] at huntyped
    exact mergeItem_self rfl (h.prepare.within i hi) (List.flatMap_eq_nil_iff.1 huntyped i hi)
      (ofEnvironment_bindFile included file _)
  have hsources : (cx.prepare m).body.filterMap reexportSource? = [] := by
    refine List.filterMap_eq_nil_iff.2 (fun i hi => ?_)
    have hwithin := h.prepare.within i hi
    cases i with
    | exportList d =>
      have hsrc : d.src = none := by simpa [refersOut] using hwithin
      simp [reexportSource?, hsrc]
    | exportAll d => cases hwithin
    | _ => rfl
  have hmerge : mergeFile cx (n + 3) file .entry ((State.start included).addFile file) =
      some ((cx.prepare m).body.map (Piece.ofFile file),
        ((State.start included).addFile file).bindFile (cx.prepare m).body file) := by
    rw [mergeFile, SelfContained.imports_eq hm h, SelfContained.statements_eq hm h, hsources]
    refine (Step.bind_eq (a := ⟨⟩) rfl).trans ?_
    refine (Step.bind_eq (a := ⟨⟩) rfl).trans ?_
    refine (Step.bind_eq (a := ⟨⟩) rfl).trans ?_
    refine (Step.bind_eq (Step.mapM_eq hitems)).trans ?_
    have hflat (is : List Item) : (is.map (fun i => [Piece.ofFile file i])).flatten =
        is.map (Piece.ofFile file) := by
      rw [← List.flatMap_def, ← List.map_eq_flatMap]
    exact congrArg (fun ps => some (ps, _)) (hflat _)
  have hold : (State.start included).included.contains file = false := hnew
  rw [includeFile]
  refine (Step.bind_eq (a := State.start included) rfl).trans ?_
  rw [if_neg (by simp [State.inBlock, State.start]), if_neg (by simp [hold])]
  refine (Step.bind_eq (a := ⟨⟩) (t := (State.start included).addFile file) rfl).trans ?_
  rw [inlineFile, hm]
  exact (Step.bind_eq hmerge).trans rfl

/-- A chunk of one file that stands by itself has the statements of the file as the passes leave
them, and the record that binding the file's declarations makes. -/
theorem mergeChunk_self (cx : Context) (included : SeenSet Url) {u : Url}
    (hm : cx.files.get? file = some m) (h : SelfContained m.body) (hu : cx.chunk.entryModules = [u])
    (hfile : cx.files.findForModule u = some file) (hnew : included.contains file = false) :
    ∃ merged warnings, mergeChunk? cx included = some (merged, included.insert file, warnings) ∧
      merged.pieces = (cx.prepare m).body.map (Piece.ofFile file) ∧
      merged.bindings = (((State.start included).addFile file).bindFile (cx.prepare m).body
        file).bindings := by
  obtain ⟨s, hrun⟩ := includeEntries_ends cx included
  have hmerge := mergeChunk_of_includeEntries (hrun _ le_rfl)
  have hentries := hrun (depthBound cx.files + 5) (by omega)
  have hself : includeEntriesWithin cx (depthBound cx.files + 5) (State.start included) =
      some ((), State.withFile included file (cx.prepare m).body) := by
    rw [includeEntriesWithin, hu]
    refine (Step.bind_eq (a := ⟨⟩) ?_).trans rfl
    dsimp only
    rw [hfile]
    exact includeFile_self hm h hnew _
  rw [hself] at hentries
  obtain rfl := (Prod.mk.inj (Option.some.inj hentries)).2
  refine ⟨_, _, hmerge, ?_, rfl⟩
  exact h.prepare.dropRepeatedExports_eq file

end Merge

end Merge

end AmbientBundle
