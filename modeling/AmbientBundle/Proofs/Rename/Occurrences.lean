import AmbientBundle.Rename.Module
/-!
The identifiers of a piece of syntax in tree order, each with what it is there and with the names
that the binders around it bind: type parameters, the key of a mapped type, the names that `infer`
gives to a conditional type, and the declarations of a namespace body.
-/
namespace AmbientBundle.Rename

open Syntax

/-- What an identifier is where it stands. -/
inductive Kind where
  /-- A name that is looked up, or one that a statement or a variable's pattern declares. -/
  | reference
  /-- A reference that is the name of a property at once. -/
  | shorthand
  /-- A parameter or the label of a tuple's element. -/
  | parameter
  /-- A type parameter, the key of a mapped type, the name of an `infer` or the local of an import. -/
  | binder
  /-- A name that is not looked up: of a member, of a predicate's subject, or of an export. -/
  | label
deriving DecidableEq, Repr

/-- Where an identifier stands: the names that the binders around it bind, and whether it belongs to
the annotation, a key or a default of a variable's pattern that is not a single identifier. -/
structure Place where
  bound : List String
  inPattern : Bool
deriving DecidableEq, Repr

/-- Outside of all statements. -/
def Place.top : Place := ⟨[], false⟩

/-- Under a binder of the given names. -/
def Place.under (a : Place) (names : List String) : Place := { a with bound := names ++ a.bound }

/-- In a pattern; `declares` tells that it is a variable's. -/
def Place.into (a : Place) (declares : Bool) : Place :=
  { a with inPattern := declares || a.inPattern }

/-- Behind a single identifier. -/
def Place.plain (a : Place) : Place := { a with inPattern := false }

structure Occurrence where
  kind : Kind
  name : String
  place : Place
deriving DecidableEq, Repr

/-- The property `{ x }` of an object is a reference and a name of a property. -/
def asProperty (e : Expr) (os : List Occurrence) : List Occurrence :=
  match e with
  | .ident _ => os.map (fun o => { o with kind := .shorthand })
  | _ => os

end AmbientBundle.Rename

namespace AmbientBundle.Syntax

open Rename

def EntityName.occurrences (a : Place) (n : EntityName) : List Occurrence :=
  ⟨.reference, n.head, a⟩ :: n.tail.map (⟨.label, ·, a⟩)

/-- The names behind an import are names of the other module. -/
def qualifierOccurrences (a : Place) (n : Option EntityName) : List Occurrence :=
  n.toList.flatMap (fun n => (n.head :: n.tail).map (⟨.label, ·, a⟩))

mutual

def Expr.occurrences (a : Place) : Expr → List Occurrence
  | .ident name => [⟨.reference, name, a⟩]
  | .word _ => []
  | .str _ => []
  | .template _ parts => exprsOccurrences a parts
  | .hole => []
  | .spread e => e.occurrences a
  | .keyed key value => key.occurrences a ++ value.occurrences a
  | .array elems => exprsOccurrences a elems
  | .object props => propsOccurrences a props
  | .paren e => e.occurrences a
  | .member obj _ name => obj.occurrences a ++ [⟨.label, name, a⟩]
  | .index obj _ idx => obj.occurrences a ++ idx.occurrences a
  | .call callee _ targs args =>
    callee.occurrences a ++ tysOccurrences a targs ++ exprsOccurrences a args
  | .construct callee targs args =>
    callee.occurrences a ++ tysOccurrences a targs ++ argsOccurrences a args
  | .instantiate e targs => e.occurrences a ++ tysOccurrences a targs
  | .unary _ e => e.occurrences a
  | .postfixed e _ => e.occurrences a
  | .binary _ left right => left.occurrences a ++ right.occurrences a
  | .cond test yes no => test.occurrences a ++ yes.occurrences a ++ no.occurrences a
  | .seq es => exprsOccurrences a es
  | .cast _ e ty => e.occurrences a ++ ty.occurrences a

def exprsOccurrences (a : Place) : List Expr → List Occurrence
  | [] => []
  | e :: es => e.occurrences a ++ exprsOccurrences a es

def propsOccurrences (a : Place) : List Expr → List Occurrence
  | [] => []
  | e :: es => asProperty e (e.occurrences a) ++ propsOccurrences a es

def argsOccurrences (a : Place) : Option (List Expr) → List Occurrence
  | none => []
  | some es => exprsOccurrences a es

def expr?Occurrences (a : Place) : Option Expr → List Occurrence
  | none => []
  | some e => e.occurrences a

def Key.occurrences (a : Place) : Key → List Occurrence
  | .word text => [⟨.label, text, a⟩]
  | .hidden text => [⟨.label, text, a⟩]
  | .str _ => []
  | .number _ => []
  | .computed e => e.occurrences a

def Ty.occurrences (a : Place) : Ty → List Occurrence
  | .word _ => []
  | .str _ => []
  | .template _ parts => tysOccurrences a parts
  | .ref name args => name.occurrences a ++ tysOccurrences a args
  | .query name args => name.occurrences a ++ tysOccurrences a args
  | .imported _ _ qualifier args => qualifierOccurrences a qualifier ++ tysOccurrences a args
  | .importQuery _ _ qualifier args outer =>
    qualifierOccurrences a qualifier ++ tysOccurrences a args ++ tysOccurrences a outer
  | .array elem => elem.occurrences a
  | .tuple elems => tysOccurrences a elems
  | .labeled _ label _ ty => ⟨.parameter, label, a⟩ :: ty.occurrences a
  | .optional ty => ty.occurrences a
  | .rest ty => ty.occurrences a
  | .union parts => tysOccurrences a parts
  | .inter parts => tysOccurrences a parts
  | .conditional check bound yes no =>
    check.occurrences (a.under (infers bound)) ++ bound.occurrences (a.under (infers bound)) ++
      yes.occurrences (a.under (infers bound)) ++ no.occurrences (a.under (infers bound))
  | .infer name bound => ⟨.binder, name, a⟩ :: ty?Occurrences a bound
  | .paren ty => ty.occurrences a
  | .operator _ ty => ty.occurrences a
  | .indexed obj idx => obj.occurrences a ++ idx.occurrences a
  | .mapped _ key domain rename _ value =>
    ⟨.binder, key, a.under [key]⟩ :: (domain.occurrences (a.under [key]) ++
      ty?Occurrences (a.under [key]) rename ++ ty?Occurrences (a.under [key]) value)
  | .func sig => sig.occurrences a
  | .ctor _ sig => sig.occurrences a
  | .record members => membersOccurrences a members
  | .predicate _ subject ty => ⟨.label, subject, a⟩ :: ty?Occurrences a ty

def tysOccurrences (a : Place) : List Ty → List Occurrence
  | [] => []
  | t :: ts => t.occurrences a ++ tysOccurrences a ts

def ty?Occurrences (a : Place) : Option Ty → List Occurrence
  | none => []
  | some t => t.occurrences a

def TypeParam.occurrences (a : Place) : TypeParam → List Occurrence
  | .mk _ name bound default =>
    ⟨.binder, name, a⟩ :: (ty?Occurrences a bound ++ ty?Occurrences a default)

def typeParamsOccurrences (a : Place) : List TypeParam → List Occurrence
  | [] => []
  | t :: ts => t.occurrences a ++ typeParamsOccurrences a ts

/-- An identifier of a variable's pattern is declared by a statement. -/
def Pat.occurrences (a : Place) (declares : Bool) : Pat → List Occurrence
  | .ident id _ ann =>
    ⟨if declares then .reference else .parameter, id.name, a⟩ :: ty?Occurrences a.plain ann
  | .hole => []
  | .array elems _ ann => patsOccurrences a declares elems ++ ty?Occurrences (a.into declares) ann
  | .object fields _ ann =>
    fieldsOccurrences a declares fields ++ ty?Occurrences (a.into declares) ann
  | .rest arg ann => arg.occurrences a declares ++ ty?Occurrences (a.into declares) ann
  | .assign left right => left.occurrences a declares ++ right.occurrences (a.into declares)

def patsOccurrences (a : Place) (declares : Bool) : List Pat → List Occurrence
  | [] => []
  | p :: ps => p.occurrences a declares ++ patsOccurrences a declares ps

def Field.occurrences (a : Place) (declares : Bool) : Field → List Occurrence
  | .keyed key value => key.occurrences (a.into declares) ++ value.occurrences a declares
  | .short id default =>
    ⟨if declares then .shorthand else .parameter, id.name, a⟩ ::
      expr?Occurrences (a.into declares) default
  | .rest arg => arg.occurrences a declares

def fieldsOccurrences (a : Place) (declares : Bool) : List Field → List Occurrence
  | [] => []
  | f :: fs => f.occurrences a declares ++ fieldsOccurrences a declares fs

def Signature.occurrences (a : Place) : Signature → List Occurrence
  | .mk tparams params result =>
    typeParamsOccurrences (a.under (typeParamNames tparams)) tparams ++
      patsOccurrences (a.under (typeParamNames tparams)) false params ++
      ty?Occurrences (a.under (typeParamNames tparams)) result

def Member.occurrences (a : Place) : Member → List Occurrence
  | .property _ key _ ann => key.occurrences a ++ ty?Occurrences a ann
  | .getter key ann => key.occurrences a ++ ty?Occurrences a ann
  | .setter key param => key.occurrences a ++ param.occurrences a false
  | .method key _ sig => key.occurrences a ++ sig.occurrences a
  | .call sig => sig.occurrences a
  | .construct sig => sig.occurrences a
  | .index _ param ann => param.occurrences a false ++ ty?Occurrences a ann

def membersOccurrences (a : Place) : List Member → List Occurrence
  | [] => []
  | m :: ms => m.occurrences a ++ membersOccurrences a ms

end

def Heritage.occurrences (a : Place) (h : Heritage) : List Occurrence :=
  h.expr.occurrences a ++ tysOccurrences a h.args

def ClassMember.occurrences (a : Place) : ClassMember → List Occurrence
  | .ctor _ _ params => params.flatMap (fun p => p.pat.occurrences a false)
  | .method _ _ _ key _ sig => key.occurrences a ++ sig.occurrences a
  | .property _ _ key _ ann value =>
    key.occurrences a ++ ty?Occurrences a ann ++ expr?Occurrences a value
  | .index _ param ann => param.occurrences a false ++ ty?Occurrences a ann
  | .empty => []

/-- What stands behind the name of a class. -/
def ClassBody.occurrences (a : Place) (c : ClassBody) : List Occurrence :=
  typeParamsOccurrences (a.under (typeParamNames c.tparams)) c.tparams ++
    c.base.toList.flatMap (Heritage.occurrences (a.under (typeParamNames c.tparams))) ++
    c.implements.flatMap (Heritage.occurrences (a.under (typeParamNames c.tparams))) ++
    c.members.flatMap (ClassMember.occurrences (a.under (typeParamNames c.tparams)))

def Interface.occurrences (a : Place) (i : Interface) : List Occurrence :=
  ⟨.reference, i.id.name, a⟩ :: (typeParamsOccurrences (a.under (typeParamNames i.tparams)) i.tparams ++
    i.bases.flatMap (Heritage.occurrences (a.under (typeParamNames i.tparams))) ++
    membersOccurrences (a.under (typeParamNames i.tparams)) i.members)

def Declarator.occurrences (a : Place) (d : Declarator) : List Occurrence :=
  d.pat.occurrences a true ++ expr?Occurrences a d.init

/-- The name of an enum member, if it is an identifier, and its initializer. -/
def EnumMember.occurrences (a : Place) (m : EnumMember) : List Occurrence :=
  (match m.key with
    | .word text => [⟨.label, text, a⟩]
    | _ => []) ++ expr?Occurrences a m.init

def ModuleName.occurrences (a : Place) : ModuleName → List Occurrence
  | .ident id => [⟨.reference, id.name, a⟩]
  | .str _ => []
  | .global => []

def ImportTarget.occurrences (a : Place) : ImportTarget → List Occurrence
  | .entity name => name.occurrences a
  | .require _ => []

def ExportName.occurrences (a : Place) : ExportName → List Occurrence
  | .word text => [⟨.label, text, a⟩]
  | .str _ => []

def ImportSpecifier.occurrences (a : Place) : ImportSpecifier → List Occurrence
  | .named imported loc _ =>
    imported.toList.flatMap (ExportName.occurrences a) ++ [⟨.binder, loc, a⟩]
  | .default loc => [⟨.binder, loc, a⟩]
  | .all loc => [⟨.binder, loc, a⟩]

/-- What is exported and the name under which it is; without another name that is the same. -/
def ExportSpecifier.occurrences (a : Place) : ExportSpecifier → List Occurrence
  | .named (.word name) exported _ =>
    ⟨.reference, name, a⟩ :: (exported.getD (.word name)).occurrences a
  | .named (.str _) exported _ => exported.toList.flatMap (ExportName.occurrences a)
  | .all name => name.occurrences a

/-- In a list of exports of another module no name is looked up. -/
def ExportList.occurrences (a : Place) (d : ExportList) : List Occurrence :=
  let os := d.specifiers.flatMap (ExportSpecifier.occurrences a)
  if d.src.isSome then os.map (fun o => { o with kind := .label }) else os

def DefaultName.occurrences (a : Place) (n : DefaultName) : List Occurrence :=
  n.ident?.toList.map (fun id => ⟨.reference, id.name, a⟩)

def DefaultDecl.occurrences (a : Place) : DefaultDecl → List Occurrence
  | .cls name body => name.occurrences a ++ body.occurrences a
  | .func name body => name.occurrences a ++ body.sig.occurrences a
  | .interface body => body.occurrences a

mutual

def Decl.occurrences (a : Place) : Decl → List Occurrence
  | .cls id _ body => ⟨.reference, id.name, a⟩ :: body.occurrences a
  | .func id _ body => ⟨.reference, id.name, a⟩ :: body.sig.occurrences a
  | .var _ _ decls => decls.flatMap (Declarator.occurrences a)
  | .resource _ decls => decls.flatMap (Declarator.occurrences a)
  | .interface body => body.occurrences a
  | .typeAlias id _ tparams ty =>
    ⟨.reference, id.name, a⟩ :: (typeParamsOccurrences (a.under (typeParamNames tparams)) tparams ++
      ty.occurrences (a.under (typeParamNames tparams)))
  | .enum id _ _ members =>
    ⟨.reference, id.name, a⟩ :: members.flatMap (EnumMember.occurrences a)
  | .space _ name inner body =>
    name.occurrences a ++ inner.map (⟨.label, ·, a⟩) ++ bodyOccurrences a body

def Item.occurrences (a : Place) : Item → List Occurrence
  | .empty => []
  | .expr e => e.occurrences a
  | .decl d => d.occurrences a
  | .importDecl d => d.specifiers.flatMap (ImportSpecifier.occurrences a)
  | .importEquals d => ⟨.reference, d.id.name, a⟩ :: d.target.occurrences a
  | .exportDecl d => d.occurrences a
  | .exportDefaultDecl d => d.occurrences a
  | .exportDefaultExpr e => e.occurrences a
  | .exportList d => d.occurrences a
  | .exportAll _ => []
  | .exportAssign e => e.occurrences a
  | .exportAsNamespace name => [⟨.label, name, a⟩]

def itemsOccurrences (a : Place) : List Item → List Occurrence
  | [] => []
  | i :: is => i.occurrences a ++ itemsOccurrences a is

def bodyOccurrences (a : Place) : Option (List Item) → List Occurrence
  | none => []
  | some items => itemsOccurrences (a.under (bodyNames items)) items

end

end AmbientBundle.Syntax
