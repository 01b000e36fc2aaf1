import AmbientBundle.Chunk.Basic
/-!
Which chunk a file belongs to: the first that lists it, a file with another extension in its
place, or the index of the directory of that name.
-/
namespace AmbientBundle

structure Membership where
  chunks : List PlacedChunk
  extensions : List String

namespace Membership

/-- The extensions of the modules that a chunk lists unless others are given. -/
def defaultExtensions : List String :=
  [".ts", ".tsx", ".mts", ".cts", ".d.ts", ".d.mts", ".d.cts", ".js", ".jsx", ".mjs", ".cjs"]

/-- The modules that a chunk may list for a file. -/
def candidates (extensions : List String) (u : Url) : List Url :=
  let path := Text.dropTrailingSlashes u.path
  let withBase (base : String) : List Url :=
    u.setPath base :: (extensions ++ Specifier.declarationExtensions).map
      (fun e => u.setPath (Specifier.stripExtension base ++ e))
  u :: (withBase path ++ withBase (path ++ "/index"))

/-- The chunk of a file; none if the file lies outside. -/
def chunkFor (m : Membership) (u : Url) : Option Nat :=
  let urls := candidates m.extensions u
  (m.chunks.find? (fun c => urls.any c.modules.contains)).map PlacedChunk.id

def get? (m : Membership) (id : Nat) : Option PlacedChunk := m.chunks[id]?

end Membership

end AmbientBundle
