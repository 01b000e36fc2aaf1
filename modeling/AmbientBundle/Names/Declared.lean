import AmbientBundle.Names.Environment
import AmbientBundle.Syntax.Tree
/-!
The identifiers that statements declare, and the final names that declarations are given.
-/
namespace AmbientBundle

open Syntax

namespace Syntax

mutual

/-- The identifiers that a pattern binds. -/
def Pat.bound : Pat → List Ident
  | .ident id _ _ => [id]
  | .hole => []
  | .array elems _ _ => patsBound elems
  | .object fields _ _ => fieldsBound fields
  | .rest arg _ => arg.bound
  | .assign left _ => left.bound

def patsBound : List Pat → List Ident
  | [] => []
  | p :: ps => p.bound ++ patsBound ps

def Field.bound : Field → List Ident
  | .keyed _ value => value.bound
  | .short id _ => [id]
  | .rest arg => arg.bound

def fieldsBound : List Field → List Ident
  | [] => []
  | f :: fs => f.bound ++ fieldsBound fs

end

/-- The identifiers that a declaration binds where it stands. An ambient module and the global
scope bind none. -/
def Decl.bound : Decl → List Ident
  | .cls id _ _ => [id]
  | .func id _ _ => [id]
  | .var _ _ decls => decls.flatMap (fun d => d.pat.bound)
  | .resource _ decls => decls.flatMap (fun d => d.pat.bound)
  | .interface body => [body.id]
  | .typeAlias id _ _ _ => [id]
  | .enum id _ _ _ => [id]
  | .space _ (.ident id) _ _ => [id]
  | .space _ _ _ _ => []

def DefaultName.ident? : DefaultName → Option Ident
  | .named id => some id
  | .anonymous _ => none

def DefaultDecl.ident? : DefaultDecl → Option Ident
  | .cls name _ => name.ident?
  | .func name _ => name.ident?
  | .interface body => some body.id

/-- The identifiers that a statement declares; imports are no declarations. -/
def Item.declared : Item → List Ident
  | .decl d => d.bound
  | .exportDecl d => d.bound
  | .exportDefaultDecl d => d.ident?.toList
  | .importEquals d => [d.id]
  | _ => []

end Syntax

/-- A declaration, known by its file and the place where its name starts. -/
structure DeclId where
  file : Url
  start : Nat
deriving DecidableEq, Repr

namespace Names

/-- The final names of declarations. -/
abbrev Bindings := OrderedMap DeclId String

/-- The final name of a declared name: the one it has in the innermost frame, or a new one. -/
def finalName (env : Environment) (origin : Url) (name : String) : String :=
  (env.lookupInner origin name).getD (env.placeName name origin)

def bindIdent (origin : Url) (s : Environment × Bindings) (id : Ident) : Environment × Bindings :=
  let final := finalName s.1 origin id.name
  (s.1.bind origin id.name final, s.2.put ⟨origin, id.start⟩ final)

/-- Binds every declaration of a file in the innermost frame. Repeated declarations of a name
share one final name. -/
def bindDeclarations (items : List Item) (origin : Url) (env : Environment) (bs : Bindings) :
    Environment × Bindings :=
  (items.flatMap Item.declared).foldl (bindIdent origin) (env, bs)

end Names

end AmbientBundle
