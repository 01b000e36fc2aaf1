import AmbientBundle.Exports.DefaultName
import AmbientBundle.Names.Declared
/-!
The export table of a file: what it exports, in the order of its statements.
-/
namespace AmbientBundle

open Syntax

/-- `name` is what other files import, `property` the name in the file itself or, behind `from`,
in the file of the specifier. -/
inductive ExportedSymbol where
  | named (name property : String) (specifier : Option String) (id : Option DeclId)
  | all (specifier : String)
  | allAs (name specifier : String)
deriving DecidableEq, Repr

namespace ExportedSymbol

def exportedName? : ExportedSymbol → Option String
  | named name _ _ _ => some name
  | all _ => none
  | allAs name _ => some name

end ExportedSymbol

namespace Exports

def ofIdent (file : Url) (name : String) (id : Ident) : ExportedSymbol :=
  .named name id.name none (some ⟨file, id.start⟩)

def ofSpecifier (src : Option String) : ExportSpecifier → Option ExportedSymbol
  | .named orig exported _ => some (.named (exported.getD orig).text orig.text src none)
  | .all name => src.map (.allAs name.text)

def ofItem (file : Url) : Item → List ExportedSymbol
  | .exportAll d => [.all d.src.value]
  | .exportList d => d.specifiers.filterMap (ofSpecifier (d.src.map StrLit.value))
  | .exportDecl d => d.bound.map (fun id => ofIdent file id.name id)
  | .exportDefaultDecl d => [ofIdent file "default" (defaultIdent file d)]
  | .exportDefaultExpr (.ident name) => [.named "default" name none none]
  | .importEquals d => if d.isExport then [ofIdent file d.id.name d.id] else []
  | _ => []

/-- What a file with the given statements exports. -/
def table (file : Url) (items : List Item) : List ExportedSymbol := items.flatMap (ofItem file)

end Exports

end AmbientBundle
