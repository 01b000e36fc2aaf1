import AmbientBundle.Merge.Chunk
/-!
Bundling: every chunk is given a place and checked, then the chunks are merged in turn. A file
that is part of one chunk is not inlined into a later one.
-/
namespace AmbientBundle

inductive BundleError where
  | invalidFileName (fileName : String) (cause : Url.ParseError)
  | missingFile (file : Url) (chunk : String)
  | missingEntry (module : Url) (chunk : String)
  | tooDeep
deriving DecidableEq, Repr

def BundleError.message : BundleError → String
  | .invalidFileName fileName cause =>
    "invalid chunk file name '" ++ fileName ++ "': " ++ cause.message
  | .missingFile file chunk =>
    "chunk " ++ chunk ++ " contains the declaration file " ++ file.href ++
      ", which was not provided"
  | .missingEntry module chunk =>
    "no declaration file was found for the entry module " ++ module.href ++ " of chunk " ++ chunk
  | .tooDeep => "the files are nested too deep"

namespace Bundle

/-- Where the chunks' files stand; a chunk's number is its position. -/
def placeChunks (outDir : Url) (chunks : List Chunk) : Except BundleError (List PlacedChunk) :=
  chunks.zipIdx.mapM (fun c =>
    (c.1.place outDir c.2).mapError (BundleError.invalidFileName c.1.fileName))

def isDeclarationFile (u : Url) : Bool :=
  Specifier.declarationExtensions.any (Text.endsWith u.path)

/-- Declaration files that a chunk lists have to be there, and so have those of its entries. -/
def check (files : Files) (c : PlacedChunk) : Except BundleError Unit :=
  match c.modules.items.find? (fun m => isDeclarationFile m && !files.contains m) with
  | some m => .error (.missingFile m c.fileName)
  | none =>
    if c.isEntry then
      match c.entryModules.find? (fun m => (files.findForModule m).isNone) with
      | some m => .error (.missingEntry m c.fileName)
      | none => .ok ()
    else .ok ()

/-- How the chunks of a bundle are merged. -/
structure Options where
  files : Files
  resolver : Resolver
  passes : List Declare.Pass
  extensions : List String

def Options.context (o : Options) (chunks : List PlacedChunk) (chunk : PlacedChunk) :
    Merge.Context :=
  ⟨chunk, o.files, o.resolver, ⟨chunks, o.extensions⟩, o.passes⟩

/-- The merged chunks, the files in them, and the warnings. -/
structure Result where
  chunks : List Merge.Merged
  included : SeenSet Url
  warnings : List Warning

def mergeNext (o : Options) (chunks : List PlacedChunk) (r : Result) (chunk : PlacedChunk) :
    Except BundleError Result :=
  match Merge.mergeChunk? (o.context chunks chunk) r.included with
  | some (merged, included, warnings) =>
    .ok ⟨r.chunks ++ [merged], included, r.warnings ++ warnings⟩
  | none => .error .tooDeep

/-- Merges all chunks in order. -/
def run (o : Options) (outDir : Url) (chunks : List Chunk) : Except BundleError Result := do
  let placed ← placeChunks outDir chunks
  placed.forM (check o.files)
  let r ← placed.foldlM (mergeNext o placed) ⟨[], ∅, []⟩
  return if r.included.isEmpty && !placed.isEmpty then
      { r with warnings := r.warnings ++ [.nothingFound] }
    else r

end Bundle

end AmbientBundle
