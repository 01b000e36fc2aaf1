import AmbientBundle.Chunk.Membership
import AmbientBundle.Declare
import AmbientBundle.Exports.Table
import AmbientBundle.Files.Basic
/-!
What merging a chunk is given: the chunk, the files, and where module specifiers lead. Nothing of
it changes while the chunk is merged.
-/
namespace AmbientBundle.Merge

open Syntax

structure Context where
  chunk : PlacedChunk
  files : Files
  resolver : Resolver
  membership : Membership
  passes : List Declare.Pass

namespace Context

/-- The file of the chunk that a specifier leads to. -/
def inChunk? (cx : Context) (specifier : String) (referrer : Url) : Option Url := do
  let u ← cx.resolver specifier referrer
  let id ← cx.membership.chunkFor u
  if id = cx.chunk.id then cx.files.findForModule u else none

/-- The other chunk that a file belongs to. -/
def otherChunk? (cx : Context) (u : Url) : Option PlacedChunk := do
  let id ← cx.membership.chunkFor u
  if id = cx.chunk.id then none else cx.membership.get? id

/-- The specifier that stands in the chunk's file for one that stays: it leads to the file of the
other chunk, or to the same file from the chunk's place. -/
def placeSpecifier (cx : Context) (specifier : String) (referrer : Url) : String :=
  match cx.resolver specifier referrer with
  | none => specifier
  | some u =>
    match cx.otherChunk? u with
    | some other =>
      (Specifier.between? cx.chunk.specifier other.specifier).getD other.specifier.href
    | none =>
      if u.isFile && Specifier.startsAsPath specifier then
        (Specifier.between? cx.chunk.specifier u).getD specifier
      else specifier

/-- What a file exports. -/
def exports (cx : Context) (file : Url) : List ExportedSymbol :=
  match cx.files.get? file with
  | some m => Exports.table file m.body
  | none => []

/-- The file of the chunk that an `import x = require(…)` takes. -/
def required? (cx : Context) (origin : Url) (d : ImportEquals) : Option Url :=
  match d.target with
  | .require src => cx.inChunk? src.value origin
  | .entity _ => none

/-- The module of a file after all passes. -/
def prepare (cx : Context) (m : Module) : Module := cx.passes.foldl (fun m p => p.run m) m

end Context

end AmbientBundle.Merge
