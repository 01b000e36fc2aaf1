import AmbientBundle.Merge.Inline
/-!
Merging a chunk: its entry files are inlined one after the other, imports that stay stand in
front, and no name is exported twice.
-/
namespace AmbientBundle.Merge

open Syntax

/-- The statements of a chunk's declaration module with their owners, the names that its files'
names stand under at its root, and the final names of all declarations in it. -/
structure Merged where
  id : Nat
  fileName : String
  specifier : Url
  pieces : List Piece
  names : Environment
  bindings : Names.Bindings

/-- The declaration module of a chunk. -/
def Merged.module (m : Merged) : Module := ⟨none, m.pieces.map Piece.item⟩

/-- A bound for the depth of inlining: files at the root, blocks in blocks, and names on the way
to a declaration each occur at most once on a path. -/
def depthBound (files : Files) : Nat :=
  let f := files.modules.size + 2
  let p := (files.modules.entries.flatMap (fun e => Exports.table e.1 e.2.body)).length + 2
  16 * f * f * f * p

def includeEntries (cx : Context) : Step Unit :=
  cx.chunk.entryModules.forM (fun m =>
    match cx.files.findForModule m with
    | some file => includeFile cx (depthBound cx.files) file .entry
    | none => pure ())

/-- The statements of the chunk's file. -/
def finalPieces (s : State) : List Piece :=
  (hoistedImports s.preserved s.sideEffects).map Piece.made ++ dropRepeatedExports s.root.items

/-- What is left of a chunk when all its files are merged. -/
def finish (c : PlacedChunk) (s : State) : Merged :=
  ⟨c.id, c.fileName, c.specifier, finalPieces s, s.root.env, s.bindings⟩

/-- Merges a chunk. `included` holds the files that are part of an earlier chunk, and afterwards
those of this one too. -/
def mergeChunk? (cx : Context) (included : SeenSet Url) :
    Option (Merged × SeenSet Url × List Warning) := do
  let (_, s) ← (includeEntries cx).run (State.start included)
  return (finish cx.chunk s, s.included, s.warnings)

end AmbientBundle.Merge
