import AmbientBundle.OrderedMap
import AmbientBundle.SeenSet
import AmbientBundle.Syntax.Tree
/-!
The imports that stay in a chunk's file. Each imported symbol has one entry with its locals, and
the import declarations are built from the entries, module by module.
-/
namespace AmbientBundle.Merge

open Syntax

/-- What an import takes from a module. -/
inductive ImportedName where
  | named (name : String)
  | default
  | all
deriving DecidableEq, Repr

def ImportedName.ofText (name : String) : ImportedName :=
  if name = "default" then .default else .named name

/-- The locals of an imported symbol. All files refer to the first; the others are further names
of it. It is a type import only if every import of the symbol was one. -/
structure Preserved where
  first : String
  others : List String
  typeOnly : Bool
deriving DecidableEq, Repr

def Preserved.locals (p : Preserved) : List String := p.first :: p.others

abbrev PreservedImports := OrderedMap (String × ImportedName) Preserved

/-- The local and the symbol of a specifier, and whether it is a type import by itself. -/
def ofSpecifier : ImportSpecifier → String × ImportedName × Bool
  | .named imported loc typeOnly =>
    (loc, .ofText ((imported.map ExportName.text).getD loc), typeOnly)
  | .default loc => (loc, .default, false)
  | .all loc => (loc, .all, false)

/-- What is imported from one module. -/
structure ModuleImports where
  default : Option String
  named : List ImportSpecifier
  spaces : List (String × Bool)
  typeOnly : Bool

def ModuleImports.empty : ModuleImports := ⟨none, [], [], true⟩

/-- `imported as local`, or the local alone where both are equal. -/
def namedSpecifier (imported loc : String) : ImportSpecifier :=
  .named (if imported = loc then none else some (.word imported)) loc false

/-- A second default import of a module is written as a named one. -/
def ModuleImports.addLocal (imported : ImportedName) (typeOnly : Bool) (m : ModuleImports)
    (loc : String) : ModuleImports :=
  match imported with
  | .all => { m with spaces := m.spaces ++ [(loc, typeOnly)] }
  | .named name =>
    { m with named := m.named ++ [namedSpecifier name loc], typeOnly := m.typeOnly && typeOnly }
  | .default =>
    if m.default.isNone then { m with default := some loc, typeOnly := m.typeOnly && typeOnly }
    else { m with
      named := m.named ++ [namedSpecifier "default" loc]
      typeOnly := m.typeOnly && typeOnly }

def addPreserved (ms : OrderedMap String ModuleImports)
    (p : (String × ImportedName) × Preserved) : OrderedMap String ModuleImports :=
  let m := (ms.get? p.1.1).getD ModuleImports.empty
  ms.put p.1.1 (p.2.locals.foldl (ModuleImports.addLocal p.1.2 p.2.typeOnly) m)

def byModule (ps : PreservedImports) : OrderedMap String ModuleImports :=
  ps.entries.foldl addPreserved OrderedMap.empty

def importOf (specifiers : List ImportSpecifier) (module : String) (typeOnly : Bool) : Item :=
  .importDecl ⟨specifiers, StrLit.made module, typeOnly, none⟩

/-- A type import cannot hold a default and named bindings at once. -/
def ModuleImports.items (module : String) (m : ModuleImports) : List Item :=
  let specifiers := (m.default.map ImportSpecifier.default).toList ++ m.named
  let typeOnly := m.typeOnly && (m.default.isNone || m.named.isEmpty)
  (if specifiers.isEmpty then [] else [importOf specifiers module typeOnly]) ++
    m.spaces.map (fun s => importOf [.all s.1] module s.2)

/-- The import declarations of a chunk; a module that is only run comes last. -/
def hoistedImports (ps : PreservedImports) (sideEffects : SeenSet String) : List Item :=
  let modules := byModule ps
  modules.entries.flatMap (fun e => e.2.items e.1) ++
    (sideEffects.items.filter (fun m => !modules.contains m)).map (fun m => importOf [] m false)

end AmbientBundle.Merge
