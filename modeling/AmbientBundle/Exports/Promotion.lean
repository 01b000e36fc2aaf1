import AmbientBundle.Declare
import AmbientBundle.Exports.DefaultName
import AmbientBundle.Names.Declared
import AmbientBundle.Placement
/-!
Splitting an exported declaration into the plain declaration and an export list that names it.
-/
namespace AmbientBundle.Exports

open Syntax

/-- `name as exported`, or `name` alone where both are equal. -/
def specifier (name exported : String) : ExportSpecifier :=
  .named (.word name) (if name = exported then none else some (.word exported)) false

/-- An export list of the file's own names. -/
def list (specifiers : List ExportSpecifier) : Item := .exportList ⟨specifiers, none, false, none⟩

/-- The default declaration as a declaration of its own. -/
def plainDefault (file : Url) : DefaultDecl → Decl
  | .cls name body => .cls (identOf file .cls name) true body
  | .func name body => .func (identOf file .func name) true body
  | .interface body => .interface body

def promote (file : Url) : Item → Placement Item
  | .exportDecl d =>
    if d.bound.isEmpty then .unchanged
    else (Placement.ofOutcome (.replaced (.decl (Declare.ensure true d)))).addAfter
      [list (d.bound.map (fun id => specifier id.name id.name))]
  | .exportDefaultDecl d =>
    (Placement.ofOutcome (.replaced (.decl (plainDefault file d)))).addAfter
      [list [specifier (defaultIdent file d).name "default"]]
  | .importEquals d =>
    if d.isExport then
      (Placement.ofOutcome (.replaced (.importEquals { d with isExport := false }))).addAfter
        [list [specifier d.id.name d.id.name]]
    else .unchanged
  | _ => .unchanged

end AmbientBundle.Exports
