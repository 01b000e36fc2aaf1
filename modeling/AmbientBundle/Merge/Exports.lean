import AmbientBundle.Exports.Promotion
import AmbientBundle.Merge.Piece
/-!
The export statements of a chunk: writing down what was collected, and dropping what is exported
a second time.
-/
namespace AmbientBundle.Merge

open Syntax

/-- Names with the bindings that they export, and stars that lead out of the chunk. -/
structure Surface where
  names : List (String × String)
  stars : List String

def starOf (specifier : String) : Item := .exportAll ⟨StrLit.made specifier, false, none⟩

def Surface.items (s : Surface) : List Item :=
  let specifiers := s.names.map (fun n => Exports.specifier n.2 n.1)
  (if specifiers.isEmpty then [] else [Exports.list specifiers]) ++ s.stars.map starOf

/-- The name under which a specifier exports. -/
def exportedName : ExportSpecifier → String
  | .named orig exported _ => (exported.getD orig).text
  | .all name => name.text

/-- The names that a statement exports other than by an export list. -/
def directNames : Item → List String
  | .exportDecl d => d.bound.map Ident.name
  | .exportDefaultDecl _ => ["default"]
  | .exportDefaultExpr _ => ["default"]
  | .importEquals d => if d.isExport then [d.id.name] else []
  | _ => []

/-- What the statements so far export. -/
structure Exported where
  names : List String
  stars : List String
  hasEmpty : Bool

/-- The specifiers of names that are not exported yet, and all names exported then. -/
def newSpecifiers (names : List String) : List ExportSpecifier → List ExportSpecifier × List String
  | [] => ([], names)
  | s :: ss =>
    if names.contains (exportedName s) then newSpecifiers names ss
    else
      let r := newSpecifiers (exportedName s :: names) ss
      (s :: r.1, r.2)

/-- What is left of a statement, and what is exported behind it. -/
def keepNew (seen : Exported) : Item → Option Item × Exported
  | .exportList d =>
    if d.specifiers.isEmpty then
      if d.src.isSome then (some (.exportList d), seen)
      else if seen.hasEmpty then (none, seen)
      else (some (.exportList d), { seen with hasEmpty := true })
    else
      let r := newSpecifiers seen.names d.specifiers
      (if r.1.isEmpty then none else some (.exportList { d with specifiers := r.1 }),
        { seen with names := r.2 })
  | .exportAll d =>
    if seen.stars.contains d.src.value then (none, seen)
    else (some (.exportAll d), { seen with stars := d.src.value :: seen.stars })
  | i => (some i, seen)

def keepNewAll (seen : Exported) : List Piece → List Piece
  | [] => []
  | p :: ps =>
    let r := keepNew seen p.item
    r.1.toList.map (Piece.mk p.owner) ++ keepNewAll r.2 ps

/-- The statements without the exports of names that another statement exports: a direct export
wins over export lists, and of those the first. -/
def dropRepeatedExports (pieces : List Piece) : List Piece :=
  keepNewAll ⟨pieces.flatMap (fun p => directNames p.item), [], false⟩ pieces

end AmbientBundle.Merge
