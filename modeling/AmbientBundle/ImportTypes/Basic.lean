import AmbientBundle.SeenSet
import AmbientBundle.Syntax.Collect
/-!
Import types, `import("x").A.B` and `typeof import("x").A`: which exports they refer to, and what
takes their place once those are known.
-/
namespace AmbientBundle

/-- A module specifier and the first name behind it; without a name the whole module is meant. -/
structure ImportTypeKey where
  specifier : String
  head : Option String
deriving DecidableEq, Repr

namespace ImportTypes

open Syntax

def keyOf (arg : StrLit) (qualifier : Option EntityName) : ImportTypeKey :=
  ⟨arg.value, qualifier.map EntityName.head⟩

def pickKey : Pick ImportTypeKey
  | .imported arg _ qualifier _ => ([keyOf arg qualifier], true)
  | .importQuery arg _ qualifier _ _ => ([keyOf arg qualifier], true)
  | _ => ([], true)

/-- What the import types of some statements refer to, each once. -/
def keys (items : List Item) : SeenSet ImportTypeKey :=
  SeenSet.ofList (collectItems pickKey items)

/-- A binding that stands for the import, or the specifier that it is given. -/
inductive Target where
  | binding (name : String)
  | specifier (text : String)
deriving DecidableEq, Repr

/-- The targets that are known; other import types stay as they are. -/
abbrev Targets := ImportTypeKey → Option Target

/-- The entity that takes the place of an import and its qualifier. -/
def entity (name : String) : Option EntityName → EntityName
  | some q => { q with head := name }
  | none => ⟨name, []⟩

/-- An import as a type. A whole module stands for the type of its namespace. -/
def linkImported (τ : Targets) (arg : StrLit) (attrs : Option Attributes)
    (qualifier : Option EntityName) (args : List Ty) : Ty :=
  match τ (keyOf arg qualifier) with
  | some (.binding name) =>
    if qualifier.isSome then .ref (entity name qualifier) args else .query (entity name none) args
  | some (.specifier text) => .imported (StrLit.made text) attrs qualifier args
  | none => .imported arg attrs qualifier args

/-- An import behind `typeof`. Its own arguments count where the query has none. -/
def linkQuery (τ : Targets) (arg : StrLit) (attrs : Option Attributes)
    (qualifier : Option EntityName) (args outer : List Ty) : Ty :=
  match τ (keyOf arg qualifier) with
  | some (.binding name) => .query (entity name qualifier) (if outer.isEmpty then args else outer)
  | some (.specifier text) => .importQuery (StrLit.made text) attrs qualifier args outer
  | none => .importQuery arg attrs qualifier args outer

end ImportTypes

end AmbientBundle
