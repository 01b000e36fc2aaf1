import AmbientBundle.Names.Declared
import AmbientBundle.SeenSet
import AmbientBundle.Specifier
/-!
Namespace blocks: the name for a file's block, and exporting the members of a block.
-/
namespace AmbientBundle.Merge

open Syntax

/-- A name for the namespace of a file that nothing names. The path of a URL is ASCII. -/
def spaceName (file : Url) : String :=
  let cs := (Specifier.stem file).toList.map
    (fun c => if c.isAlphanum || c == '_' || c == '$' then c else '_')
  String.ofList (if (cs.head?.map Char.isDigit).getD true then '_' :: cs else cs)

/-- The names that a statement of a block binds in it. -/
def memberNames : Item → List String
  | .decl d => d.bound.map Ident.name
  | .importEquals d => [d.id.name]
  | _ => []

def exportMember : Item → Item
  | .decl d => .exportDecl d
  | .importEquals d => .importEquals { d with isExport := true }
  | i => i

/-- `import name = target`, exported or not. -/
def aliasOf (name target : String) (isExport : Bool) : Item :=
  .importEquals ⟨isExport, false, Ident.made name, .entity ⟨target, []⟩⟩

/-- The body with its members exported: those named like their export by themselves, the others
by an alias behind them. -/
def exportMembers (body : List Item) (exports : List (String × String)) : List Item :=
  let direct := (exports.filter (fun e => e.1 == e.2)).map Prod.fst
  body.map (fun i => if (memberNames i).any direct.contains then exportMember i else i) ++
    (exports.filter (fun e => e.1 != e.2)).map (fun e => aliasOf e.1 e.2 true)

/-- The exports named like their binding that no member of the body binds. -/
def unboundExports (body : List Item) (exports : List (String × String)) : List String :=
  let bound := body.flatMap memberNames
  (SeenSet.ofList ((exports.filter (fun e => e.1 == e.2)).map Prod.fst)).items.filter
    (fun n => !bound.contains n)

/-- A namespace declaration that a chunk makes up. -/
def spaceOf (declare : Bool) (name : String) (body : List Item) : Item :=
  .decl (.space declare (.ident (Ident.made name)) [] (some body))

end AmbientBundle.Merge
