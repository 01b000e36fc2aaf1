import AmbientBundle.Merge.Inline
/-!
Properties that every function of merging has since what it is made of has them. A class of steps is
a property that chains of steps keep. Main statement: where it holds of the changes that merging
makes to its state, and of the few functions that make up for a change of their own or ask for the
files that are included, it holds of all functions of merging, at every depth.
-/
namespace AmbientBundle.Merge

open Syntax

/-- A property of steps that chains of steps keep. -/
structure StepClass where
  Holds : {α : Type} → Step α → Prop
  ret : ∀ {α : Type} (a : α), Holds (pure a : Step α)
  bind : ∀ {α β : Type} {x : Step α} {f : α → Step β}, Holds x → (∀ a, Holds (f a)) →
    Holds (x >>= f)

namespace StepClass

variable {α β : Type} (C : StepClass) {x y : Step α}

theorem ite {p : Prop} [Decidable p] (hx : p → C.Holds x) (hy : ¬p → C.Holds y) :
    C.Holds (if p then x else y) := by
  split
  · exact hx ‹_›
  · exact hy ‹_›

/-- A step that is chosen by a condition, with the same steps behind it. -/
theorem ite_bind {p : Prop} [Decidable p] {f : α → Step β} (hx : C.Holds (if p then x else y))
    (hf : ∀ a, C.Holds (f a)) : C.Holds (if p then x >>= f else y >>= f) := by
  by_cases h : p
  · simp only [if_pos h] at hx ⊢
    exact C.bind hx hf
  · simp only [if_neg h] at hx ⊢
    exact C.bind hx hf

/-- A first part that is only taken under a condition. -/
theorem ite_then {p : Prop} [Decidable p] {z : Step PUnit} {f : PUnit → Step α} (hz : C.Holds z)
    (hf : C.Holds (f ⟨⟩)) : C.Holds (if p then z >>= f else f ⟨⟩) :=
  C.ite (fun _ => C.bind hz (fun _ => hf)) (fun _ => hf)

/-- What is done next depends on whether something was found. -/
theorem bind_option {x : Step (Option α)} {f : Option α → Step β} (hx : C.Holds x)
    (hsome : ∀ a, C.Holds (f (some a))) (hnone : C.Holds (f none)) : C.Holds (x >>= f) := by
  refine C.bind hx (fun found => ?_)
  cases found with
  | some a => exact hsome a
  | none => exact hnone

theorem map (f : α → β) (hx : C.Holds x) : C.Holds (f <$> x) := by
  rw [map_eq_pure_bind]
  exact C.bind hx (fun _ => C.ret _)

theorem forM {l : List α} {f : α → Step PUnit} (hf : ∀ a ∈ l, C.Holds (f a)) :
    C.Holds (l.forM f) := by
  induction l with
  | nil => exact C.ret _
  | cons a l ih =>
    exact C.bind (hf a List.mem_cons_self) (fun _ => ih (fun b hb => hf b (List.mem_cons_of_mem a hb)))

theorem foldlM {l : List α} {f : β → α → Step β} (b : β) (hf : ∀ a ∈ l, ∀ b, C.Holds (f b a)) :
    C.Holds (l.foldlM f b) := by
  induction l generalizing b with
  | nil => exact C.ret _
  | cons a l ih =>
    rw [List.foldlM_cons]
    exact C.bind (hf a List.mem_cons_self b)
      (fun b' => ih b' (fun c hc => hf c (List.mem_cons_of_mem a hc)))

theorem mapM {l : List α} {f : α → Step β} (hf : ∀ a ∈ l, C.Holds (f a)) : C.Holds (l.mapM f) := by
  induction l with
  | nil => exact C.ret _
  | cons a l ih =>
    rw [List.mapM_cons]
    have hrest := ih (fun b hb => hf b (List.mem_cons_of_mem a hb))
    exact C.bind (hf a List.mem_cons_self) (fun _ => C.bind hrest (fun _ => C.ret _))

theorem filterMapM {l : List α} {f : α → Step (Option β)} (hf : ∀ a ∈ l, C.Holds (f a)) :
    C.Holds (l.filterMapM f) := by
  induction l with
  | nil => exact C.ret _
  | cons a l ih =>
    rw [List.filterMapM_cons]
    have hrest := ih (fun b hb => hf b (List.mem_cons_of_mem a hb))
    exact C.bind_option (hf a List.mem_cons_self) (fun _ => C.bind hrest (fun _ => C.ret _)) hrest

end StepClass

/-- A class of steps that merging stays in. Of four functions it says what follows from the calls
that they make: they open a block or set the open ones aside for a while, take statements out of the
current scope, or ask which files are included. -/
structure MergeClass (cx : Context) extends StepClass where
  /-- The files that may be included. -/
  Fits : Url → Prop
  led : ∀ {specifier : String} {referrer file : Url}, cx.inChunk? specifier referrer = some file →
    Fits file
  fail : ∀ {α : Type}, Holds (failure : Step α)
  warn : ∀ w : Warning, Holds (modify (State.warn w))
  keepRun : ∀ module : String, Holds (modify (State.keepRun module))
  addItems : ∀ ps : List Piece, Holds (modify (State.addItems ps))
  bindFile : ∀ (is : List Item) (origin : Url), Holds (modify (State.bindFile is origin))
  link : ∀ (origin : Url) (name final : String), Holds (modify (State.link origin name final))
  lookup : ∀ {α : Type} (origin : Url) (name : String) (f : Option String → α),
    Holds (get >>= fun s => pure (f (s.lookup origin name)))
  preserve : ∀ (module : String) (imported : ImportedName) (wanted : String) (typeOnly : Bool),
    Holds (Merge.preserve module imported wanted typeOnly)
  includeFile_succ : ∀ {n : Nat} {file : Url} {role : Role}, Fits file →
    Holds (includeAtRoot cx n file role) → Holds (exportAgain cx n file) →
    Holds (inlineFile cx n file role) → Holds (includeFile cx (n + 1) file role)
  includeAtRoot_succ : ∀ {n : Nat} {file : Url} {role : Role},
    Holds (includeFile cx n file role) → Holds (includeAtRoot cx (n + 1) file role)
  mergeItem_succ : ∀ {n : Nat} {origin : Url} {role : Role} {i : Item},
    Holds (reexport cx n origin i) → (∀ is, Holds (linkTypes cx n origin is)) →
    Holds (mergeItem cx (n + 1) origin role i)
  ensureSpace_succ : ∀ {n : Nat} {target : Url} {wanted : String},
    Holds (inlineFile cx n target .dependency) → (∀ c, Holds (collect cx n target false c)) →
    Holds (ensureSpace cx (n + 1) target wanted)

namespace MergeClass

variable {cx : Context} {n : Nat} {C : MergeClass cx}

/-- The functions of merging are in the class with depth `n`. -/
structure Within (C : MergeClass cx) (n : Nat) : Prop where
  includeFile : ∀ {file : Url} (role : Role), C.Fits file → C.Holds (includeFile cx n file role)
  includeAtRoot : ∀ {file : Url} (role : Role), C.Fits file → C.Holds (includeAtRoot cx n file role)
  inlineFile : ∀ (file : Url) (role : Role), C.Holds (inlineFile cx n file role)
  mergeFile : ∀ (origin : Url) (role : Role), C.Holds (mergeFile cx n origin role)
  mergeItem : ∀ (origin : Url) (role : Role) (i : Item), C.Holds (mergeItem cx n origin role i)
  reexport : ∀ (origin : Url) (i : Item), C.Holds (reexport cx n origin i)
  mergeImport : ∀ (origin : Url) (d : ImportDecl), C.Holds (mergeImport cx n origin d)
  mergeReexport : ∀ (origin : Url) (d : ExportList) (src : String),
    C.Holds (mergeReexport cx n origin d src)
  mergeStar : ∀ (origin : Url) (src : String), C.Holds (mergeStar cx n origin src)
  exportAgain : ∀ file : Url, C.Holds (exportAgain cx n file)
  resolveExport : ∀ (target : Url) (name : String) (v : Visited),
    C.Holds (resolveExport cx n target name v)
  resolveInStars : ∀ (target : Url) (name : String) (v : Visited),
    C.Holds (resolveInStars cx n target name v)
  collect : ∀ (target : Url) (withDefault : Bool) (c : Collected),
    C.Holds (collect cx n target withDefault c)
  ensureSpace : ∀ (target : Url) (wanted : String), C.Holds (ensureSpace cx n target wanted)
  linkTypes : ∀ (origin : Url) (is : List Item), C.Holds (linkTypes cx n origin is)

theorem mergeOuterImport (C : MergeClass cx) (origin : Url) (d : ImportDecl) :
    C.Holds (Merge.mergeOuterImport cx origin d) := by
  unfold Merge.mergeOuterImport
  refine C.ite_then (C.keepRun _) (C.forM (fun sp _ => ?_))
  exact C.bind (C.preserve _ _ _ _) (fun f => C.link origin _ f)

namespace Within

theorem zero (C : MergeClass cx) : C.Within 0 := by
  constructor <;> intros <;>
    simp only [Merge.includeFile, Merge.includeAtRoot, Merge.inlineFile, Merge.mergeFile,
      Merge.mergeItem, Merge.reexport, Merge.mergeImport, Merge.mergeReexport, Merge.mergeStar,
      Merge.exportAgain, Merge.resolveExport, Merge.resolveInStars, Merge.collect,
      Merge.ensureSpace, Merge.linkTypes] <;> exact C.fail

variable (ih : C.Within n)

include ih

theorem inlineFile_succ (file : Url) (role : Role) :
    C.Holds (Merge.inlineFile cx (n + 1) file role) := by
  rw [Merge.inlineFile]
  cases cx.files.get? file with
  | none => exact C.warn _
  | some m => exact C.bind (ih.mergeFile file role) (fun ps => C.addItems _)

/-- A file that a specifier leads to, if it leads to one, is included. -/
theorem includeLed (origin : Url) (specifier : String) :
    C.Holds (match cx.inChunk? specifier origin with
      | some target => Merge.includeFile cx n target .dependency
      | none => pure ()) := by
  cases hin : cx.inChunk? specifier origin with
  | none => exact C.ret _
  | some target => exact ih.includeFile _ (C.led hin)

theorem mergeFile_succ (origin : Url) (role : Role) :
    C.Holds (Merge.mergeFile cx (n + 1) origin role) := by
  rw [Merge.mergeFile]
  refine C.bind (C.bindFile _ origin) (fun _ => ?_)
  refine C.bind (C.forM (fun d _ => ih.mergeImport origin d)) (fun _ => ?_)
  refine C.bind (C.forM (fun src _ => ih.includeLed origin src)) (fun _ => ?_)
  exact C.bind (C.mapM (fun i _ => ih.mergeItem origin role i)) (fun _ => C.ret _)

theorem reexport_succ (origin : Url) (i : Item) :
    C.Holds (Merge.reexport cx (n + 1) origin i) := by
  cases i with
  | exportList d =>
    rw [Merge.reexport]
    cases d.src with
    | none => exact C.ret _
    | some src => exact ih.mergeReexport origin d _
  | exportAll d =>
    rw [Merge.reexport]
    exact ih.mergeStar origin _
  | _ =>
    simp only [Merge.reexport]
    exact C.ret _

theorem mergeImport_succ (origin : Url) (d : ImportDecl) :
    C.Holds (Merge.mergeImport cx (n + 1) origin d) := by
  rw [Merge.mergeImport]
  cases hin : cx.inChunk? d.src.value origin with
  | none => exact C.mergeOuterImport origin d
  | some target =>
    refine C.bind (ih.includeFile _ (C.led hin)) (fun _ => C.forM (fun sp _ => ?_))
    have hlink (f : String) := C.link origin (ofSpecifier sp).1 f
    have hwarn := C.warn (.unknownImport target origin (ofSpecifier sp).1)
    dsimp only
    cases (ofSpecifier sp).2.1 with
    | named name => exact C.bind_option (C.map _ (ih.resolveExport target name [])) hlink hwarn
    | default => exact C.bind_option (C.map _ (ih.resolveExport target "default" [])) hlink hwarn
    | all => exact C.bind_option (C.map _ (ih.ensureSpace target _)) hlink hwarn

theorem mergeReexport_succ (origin : Url) (d : ExportList) (src : String) :
    C.Holds (Merge.mergeReexport cx (n + 1) origin d src) := by
  rw [Merge.mergeReexport]
  cases cx.inChunk? src origin with
  | none => exact C.ret _
  | some target =>
    refine C.bind (C.filterMapM (fun sp _ => ?_)) (fun _ => C.ret _)
    have hwarn : C.Holds (do
        modify (State.warn (.unknownReexport target origin (exportedName sp)))
        pure none : Step (Option ExportSpecifier)) := C.bind (C.warn _) (fun _ => C.ret _)
    cases sp with
    | named orig exported typeOnly =>
      exact C.bind_option (C.map _ (ih.resolveExport target orig.text [])) (fun _ => C.ret _) hwarn
    | all name =>
      exact C.bind_option (C.map _ (ih.ensureSpace target name.text)) (fun _ => C.ret _) hwarn

theorem mergeStar_succ (origin : Url) (src : String) :
    C.Holds (Merge.mergeStar cx (n + 1) origin src) := by
  rw [Merge.mergeStar]
  cases cx.inChunk? src origin with
  | none => exact C.ret _
  | some target => exact C.bind (ih.collect target false _) (fun _ => C.ret _)

theorem exportAgain_succ (file : Url) : C.Holds (Merge.exportAgain cx (n + 1) file) := by
  rw [Merge.exportAgain]
  exact C.bind (ih.collect file true _) (fun _ => C.addItems _)

theorem resolveExport_succ (target : Url) (name : String) (v : Visited) :
    C.Holds (Merge.resolveExport cx (n + 1) target name v) := by
  have hstars : C.Holds (if name = "default" then pure (none, (target, name) :: v)
      else Merge.resolveInStars cx n target name ((target, name) :: v)) :=
    C.ite (fun _ => C.ret _) (fun _ => ih.resolveInStars target name _)
  have hpreserve (module : String) (imported : ImportedName) : C.Holds (do
      let f ← Merge.preserve module imported name false
      pure (some f, (target, name) :: v)) :=
    C.bind (C.preserve module imported name false) (fun _ => C.ret _)
  rw [Merge.resolveExport]
  refine C.ite (fun _ => C.ret _) (fun _ => ?_)
  dsimp only
  cases (cx.exports target).find? (fun s => s.exportedName? == some name) with
  | none => exact hstars
  | some e =>
    cases e with
    | all src => exact hstars
    | allAs k src =>
      cases hin : cx.inChunk? src target with
      | none =>
        simp only [hin]
        exact hpreserve _ _
      | some file =>
        simp only [hin]
        exact C.bind (ih.ensureSpace file name) (fun _ => C.ret _)
    | named k property src id =>
      cases src with
      | none => exact C.lookup target property (fun found => (found, (target, name) :: v))
      | some src =>
        cases hin : cx.inChunk? src target with
        | none =>
          simp only [hin]
          exact hpreserve _ _
        | some file =>
          simp only [hin]
          exact C.bind (ih.includeFile _ (C.led hin)) (fun _ => ih.resolveExport file property _)

theorem resolveInStars_succ (target : Url) (name : String) (v : Visited) :
    C.Holds (Merge.resolveInStars cx (n + 1) target name v) := by
  rw [Merge.resolveInStars]
  refine C.bind (C.foldlM _ (fun symbol _ r => ?_)) (fun r => ?_)
  · obtain ⟨found, outer, seen⟩ := r
    cases found with
    | some f => exact C.ret _
    | none =>
      cases symbol with
      | all src =>
        cases hin : cx.inChunk? src target with
        | none =>
          simp only [hin]
          exact C.ret _
        | some file =>
          simp only [hin]
          refine C.bind (ih.includeFile _ (C.led hin)) (fun _ => ?_)
          exact C.bind (ih.resolveExport file name seen) (fun _ => C.ret _)
      | _ => exact C.ret _
  · obtain ⟨found, outer, seen⟩ := r
    cases found with
    | some f => exact C.ret _
    | none =>
      cases outer with
      | none => exact C.ret _
      | some module => exact C.bind (C.preserve module _ name false) (fun _ => C.ret _)

theorem collect_succ (target : Url) (withDefault : Bool) (c : Collected) :
    C.Holds (Merge.collect cx (n + 1) target withDefault c) := by
  rw [Merge.collect]
  refine C.ite (fun _ => C.ret _) (fun _ => ?_)
  dsimp only
  refine C.bind (C.foldlM _ (fun name _ c => C.ite (fun _ => C.ret _) (fun _ => ?_)))
    (fun c => C.foldlM _ (fun symbol _ c => ?_))
  · refine C.bind (ih.resolveExport target name []) (fun r => ?_)
    cases r.1 with
    | some f => exact C.ret _
    | none => exact C.bind (C.warn _) (fun _ => C.ret _)
  · cases symbol with
    | all src =>
      cases hin : cx.inChunk? src target with
      | none =>
        simp only [hin]
        exact C.ret _
      | some file =>
        simp only [hin]
        exact C.bind (ih.includeFile _ (C.led hin)) (fun _ => ih.collect file false c)
    | _ => exact C.ret _

theorem linkTypes_succ (origin : Url) (is : List Item) :
    C.Holds (Merge.linkTypes cx (n + 1) origin is) := by
  rw [Merge.linkTypes]
  refine C.bind (C.foldlM _ (fun key _ ts => ?_)) (fun _ => C.ret _)
  cases hin : cx.inChunk? key.specifier origin with
  | none => exact C.ret _
  | some file =>
    refine C.bind (ih.includeFile _ (C.led hin)) (fun _ => ?_)
    dsimp only
    cases key.head with
    | some head => exact C.bind (C.map _ (ih.resolveExport file head [])) (fun _ => C.ret _)
    | none => exact C.bind (C.map _ (ih.ensureSpace file _)) (fun _ => C.ret _)

theorem succ : C.Within (n + 1) where
  includeFile role hf :=
    C.includeFile_succ hf (ih.includeAtRoot role hf) (ih.exportAgain _) (ih.inlineFile _ role)
  includeAtRoot role hf := C.includeAtRoot_succ (ih.includeFile role hf)
  inlineFile := ih.inlineFile_succ
  mergeFile := ih.mergeFile_succ
  mergeItem origin _ i := C.mergeItem_succ (ih.reexport origin i) (ih.linkTypes origin)
  reexport := ih.reexport_succ
  mergeImport := ih.mergeImport_succ
  mergeReexport := ih.mergeReexport_succ
  mergeStar := ih.mergeStar_succ
  exportAgain := ih.exportAgain_succ
  resolveExport := ih.resolveExport_succ
  resolveInStars := ih.resolveInStars_succ
  collect := ih.collect_succ
  ensureSpace target _ := C.ensureSpace_succ (ih.inlineFile target _) (ih.collect target false)
  linkTypes := ih.linkTypes_succ

end Within

/-- The functions of merging are in the class at every depth. -/
theorem within (C : MergeClass cx) (n : Nat) : C.Within n := by
  induction n with
  | zero => exact .zero C
  | succ n ih => exact ih.succ

end MergeClass

end AmbientBundle.Merge
