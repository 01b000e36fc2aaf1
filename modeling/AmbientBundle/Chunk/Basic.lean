import AmbientBundle.SeenSet
import AmbientBundle.Specifier
/-!
Chunks: groups of modules that end up in one declaration file each, and where that file stands.
-/
namespace AmbientBundle

/-- A chunk as it is asked for; the file name is relative to the output directory. -/
structure Chunk where
  fileName : String
  isEntry : Bool
  modules : List Url
deriving DecidableEq, Repr, Inhabited

/-- A chunk whose declaration file has a name and a place. -/
structure PlacedChunk where
  id : Nat
  fileName : String
  specifier : Url
  isEntry : Bool
  modules : SeenSet Url

namespace Chunk

/-- The name of the declaration file for a chunk: `index.js` becomes `index.d.ts`. -/
def declarationFileName (fileName : String) : String :=
  let ends := fun e => Text.endsWith fileName e
  let extension :=
    if ends ".mjs" || ends ".mts" then ".d.mts"
    else if ends ".cjs" || ends ".cts" then ".d.cts"
    else ".d.ts"
  Specifier.stripExtension fileName ++ extension

/-- Takes every `./` off the front. -/
def dropLeadingDots : List Char → List Char
  | '.' :: '/' :: r => dropLeadingDots r
  | cs => cs

def place (outDir : Url) (chunk : Chunk) (id : Nat) : Except Url.ParseError PlacedChunk := do
  let name := declarationFileName (String.ofList (dropLeadingDots chunk.fileName.toList))
  let specifier ← outDir.join name
  return ⟨id, name, specifier, chunk.isEntry, SeenSet.ofList chunk.modules⟩

end Chunk

/-- The modules that merging starts from: the last one of an entry chunk, otherwise all of them
from the last to the first. -/
def PlacedChunk.entryModules (c : PlacedChunk) : List Url :=
  if c.isEntry then c.modules.items.getLast?.toList else c.modules.items.reverse

end AmbientBundle
