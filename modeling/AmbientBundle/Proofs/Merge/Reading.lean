import AmbientBundle.Merge.Chunk
/-!
What merging reads of its context: the files behind the passes, the entry modules, which file of the
chunk a specifier leads to, and what takes a specifier's place. Contexts that agree on these merge the
same, whatever numbers the chunks have and in whatever order they stand.
-/
namespace AmbientBundle.Merge

open Syntax

/-- What takes a specifier's place depends on where the other chunk's file stands, but not on the
number of the chunk. -/
theorem Context.placeSpecifier_congr {cx cx' : Context} (hresolver : cx.resolver = cx'.resolver)
    (hchunk : cx.chunk.specifier = cx'.chunk.specifier)
    (hother : ∀ u, (cx.otherChunk? u).map PlacedChunk.specifier =
      (cx'.otherChunk? u).map PlacedChunk.specifier) (specifier : String) (referrer : Url) :
    cx.placeSpecifier specifier referrer = cx'.placeSpecifier specifier referrer := by
  rw [Context.placeSpecifier, Context.placeSpecifier, hresolver]
  cases cx'.resolver specifier referrer with
  | none => rfl
  | some u =>
    have hu := hother u
    cases h : cx.otherChunk? u <;> cases h' : cx'.otherChunk? u <;> rw [h, h'] at hu
    · simp only [h, h', hchunk]
    · cases hu
    · cases hu
    · simp only [h, h', hchunk, Option.some.inj hu]

/-- Merging reads the same of both contexts. -/
structure Context.ReadsAs (cx cx' : Context) : Prop where
  files : cx.files = cx'.files
  passes : cx.passes = cx'.passes
  entryModules : cx.chunk.entryModules = cx'.chunk.entryModules
  inChunk : ∀ specifier referrer, cx.inChunk? specifier referrer = cx'.inChunk? specifier referrer
  placeSpecifier : ∀ specifier referrer,
    cx.placeSpecifier specifier referrer = cx'.placeSpecifier specifier referrer

namespace Context.ReadsAs

variable {cx cx' : Context} (h : cx.ReadsAs cx')

include h

theorem exports (file : Url) : cx.exports file = cx'.exports file := by
  simp only [Context.exports, h.files]

theorem body (file : Url) : cx.body file = cx'.body file := by
  simp only [Context.body, Context.prepare, h.files, h.passes]

theorem splitImport (origin : Url) (i : Item) :
    Merge.splitImport cx origin i = Merge.splitImport cx' origin i := by
  cases i with
  | importEquals d => simp only [Merge.splitImport, Context.required?, h.inChunk]
  | _ => rfl

theorem imports (file : Url) : cx.imports file = cx'.imports file := by
  simp only [Context.imports, h.body, h.splitImport]

theorem statements (file : Url) : cx.statements file = cx'.statements file := by
  simp only [Context.statements, h.body, h.splitImport]

theorem shown (origin : Url) (inBlock keep : Bool) (env : Environment) (i : Item) :
    Merge.shown cx origin inBlock keep env i = Merge.shown cx' origin inBlock keep env i := by
  have htarget (t : ImportTarget) : placeTarget cx origin t = placeTarget cx' origin t := by
    cases t with
    | require src => simp only [placeTarget, h.placeSpecifier]
    | entity name => rfl
  cases i with
  | importEquals d => simp only [Merge.shown, htarget]
  | _ => rfl

theorem mergeOuterImport (origin : Url) (d : ImportDecl) :
    Merge.mergeOuterImport cx origin d = Merge.mergeOuterImport cx' origin d := by
  simp only [Merge.mergeOuterImport, h.placeSpecifier]

end Context.ReadsAs

/-- Down to the depth `n` merging does the same in both contexts. -/
structure SameWithin (cx cx' : Context) (n : Nat) : Prop where
  includeFile : includeFile cx n = includeFile cx' n
  includeAtRoot : includeAtRoot cx n = includeAtRoot cx' n
  inlineFile : inlineFile cx n = inlineFile cx' n
  mergeFile : mergeFile cx n = mergeFile cx' n
  mergeItem : mergeItem cx n = mergeItem cx' n
  reexport : reexport cx n = reexport cx' n
  mergeImport : mergeImport cx n = mergeImport cx' n
  mergeReexport : mergeReexport cx n = mergeReexport cx' n
  mergeStar : mergeStar cx n = mergeStar cx' n
  exportAgain : exportAgain cx n = exportAgain cx' n
  resolveExport : resolveExport cx n = resolveExport cx' n
  resolveInStars : resolveInStars cx n = resolveInStars cx' n
  collect : collect cx n = collect cx' n
  ensureSpace : ensureSpace cx n = ensureSpace cx' n
  linkTypes : linkTypes cx n = linkTypes cx' n

namespace SameWithin

variable {cx cx' : Context} {n : Nat}

theorem zero (cx cx' : Context) : SameWithin cx cx' 0 := by
  constructor <;> (funext; simp only [Merge.includeFile, Merge.includeAtRoot, Merge.inlineFile,
    Merge.mergeFile, Merge.mergeItem, Merge.reexport, Merge.mergeImport, Merge.mergeReexport,
    Merge.mergeStar, Merge.exportAgain, Merge.resolveExport, Merge.resolveInStars, Merge.collect,
    Merge.ensureSpace, Merge.linkTypes])

theorem succ (h : cx.ReadsAs cx') (ih : SameWithin cx cx' n) : SameWithin cx cx' (n + 1) where
  includeFile := by
    funext file role
    simp only [Merge.includeFile, ih.includeAtRoot, ih.exportAgain, ih.inlineFile]
  includeAtRoot := by
    funext file role
    simp only [Merge.includeAtRoot, ih.includeFile]
  inlineFile := by
    funext file role
    simp only [Merge.inlineFile, h.files, ih.mergeFile]
  mergeFile := by
    funext origin role
    simp only [Merge.mergeFile, h.statements, h.imports, h.inChunk, ih.mergeImport, ih.includeFile,
      ih.mergeItem]
  mergeItem := by
    funext origin role i
    simp only [Merge.mergeItem, h.shown, ih.reexport, ih.linkTypes]
  reexport := by
    funext origin i
    cases i <;> simp only [Merge.reexport, ih.mergeReexport, ih.mergeStar]
  mergeImport := by
    funext origin d
    simp only [Merge.mergeImport, h.inChunk, h.mergeOuterImport, ih.includeFile, ih.resolveExport,
      ih.ensureSpace]
  mergeReexport := by
    funext origin d src
    simp only [Merge.mergeReexport, h.inChunk, h.placeSpecifier, ih.resolveExport, ih.ensureSpace]
  mergeStar := by
    funext origin src
    simp only [Merge.mergeStar, h.inChunk, h.placeSpecifier, ih.collect]
  exportAgain := by
    funext file
    simp only [Merge.exportAgain, ih.collect]
  resolveExport := by
    funext target name visited
    simp only [Merge.resolveExport, h.exports, h.inChunk, h.placeSpecifier, ih.includeFile,
      ih.resolveExport, ih.ensureSpace, ih.resolveInStars]
  resolveInStars := by
    funext target name visited
    simp only [Merge.resolveInStars, h.exports, h.inChunk, h.placeSpecifier, ih.includeFile,
      ih.resolveExport]
  collect := by
    funext target withDefault c
    simp only [Merge.collect, h.exports, h.inChunk, h.placeSpecifier, ih.includeFile,
      ih.resolveExport, ih.collect]
  ensureSpace := by
    funext target wanted
    simp only [Merge.ensureSpace, h.exports, ih.inlineFile, ih.collect]
  linkTypes := by
    funext origin items
    simp only [Merge.linkTypes, h.inChunk, h.placeSpecifier, ih.includeFile, ih.resolveExport,
      ih.ensureSpace]

end SameWithin

theorem sameWithin {cx cx' : Context} (h : cx.ReadsAs cx') (n : Nat) : SameWithin cx cx' n := by
  induction n with
  | zero => exact .zero cx cx'
  | succ n ih => exact ih.succ h

theorem Context.ReadsAs.includeEntries {cx cx' : Context} (h : cx.ReadsAs cx') :
    includeEntries cx = includeEntries cx' := by
  simp only [Merge.includeEntries, h.entryModules, h.files, (sameWithin h _).includeFile]

/-- A chunk that only has another number is merged the same. -/
theorem Context.ReadsAs.mergeChunk? {cx cx' : Context} (h : cx.ReadsAs cx') {k : Nat}
    (hchunk : cx'.chunk = { cx.chunk with id := k }) {m : Merged} {included after : SeenSet Url}
    {warnings : List Warning}
    (hm : Merge.mergeChunk? cx included = some (m, after, warnings)) :
    Merge.mergeChunk? cx' included = some ({ m with id := k }, after, warnings) := by
  change (Merge.includeEntries cx (.start included)).bind _ = _ at hm
  obtain ⟨⟨_, s⟩, hs, hm⟩ := Option.bind_eq_some_iff.1 hm
  obtain ⟨rfl, rfl, rfl⟩ := Prod.mk.inj (Option.some.inj hm)
  change (Merge.includeEntries cx' (.start included)).bind _ = _
  rw [← h.includeEntries, hs, Option.bind_some, hchunk]
  rfl

end AmbientBundle.Merge
