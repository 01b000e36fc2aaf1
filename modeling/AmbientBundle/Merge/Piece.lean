import AmbientBundle.Names.Environment
import AmbientBundle.Syntax.Tree
/-!
The statements of a chunk with their owners: the file that a statement comes from, or the chunk
where merging makes it up.
-/
namespace AmbientBundle.Merge

open Syntax

structure Piece where
  owner : Names.Owner
  item : Item

def Piece.ofFile (origin : Url) (i : Item) : Piece := ⟨.file origin, i⟩

def Piece.made (i : Item) : Piece := ⟨.chunk, i⟩

end AmbientBundle.Merge
