import AmbientBundle.Syntax.Tree
/-!
Collecting from the types that a piece of syntax holds. A choice `pick` says what a type gives by
itself and whether its parts are looked at too. Parameters come before type parameters, and the
value of a property before its type.
-/
namespace AmbientBundle.Syntax

/-- What a type gives, and whether its parts give something as well. -/
abbrev Pick (α : Type) := Ty → List α × Bool

variable {α : Type}

/-- A type's own part of the answer, and its parts' where they are asked for. -/
def Pick.at (own : List α × Bool) (parts : List α) : List α :=
  own.1 ++ (if own.2 then parts else [])

mutual

def Expr.collect (pick : Pick α) : Expr → List α
  | .ident _ => []
  | .word _ => []
  | .str _ => []
  | .template _ parts => collectExprs pick parts
  | .hole => []
  | .spread e => e.collect pick
  | .keyed key value => key.collect pick ++ value.collect pick
  | .array elems => collectExprs pick elems
  | .object props => collectExprs pick props
  | .paren e => e.collect pick
  | .member obj _ _ => obj.collect pick
  | .index obj _ idx => obj.collect pick ++ idx.collect pick
  | .call callee _ targs args =>
    callee.collect pick ++ collectExprs pick args ++ collectTys pick targs
  | .construct callee targs args =>
    callee.collect pick ++ collectArgs pick args ++ collectTys pick targs
  | .instantiate e targs => e.collect pick ++ collectTys pick targs
  | .unary _ e => e.collect pick
  | .postfixed e _ => e.collect pick
  | .binary _ left right => left.collect pick ++ right.collect pick
  | .cond test yes no => test.collect pick ++ yes.collect pick ++ no.collect pick
  | .seq es => collectExprs pick es
  | .cast _ e ty => e.collect pick ++ ty.collect pick

def collectExprs (pick : Pick α) : List Expr → List α
  | [] => []
  | e :: es => e.collect pick ++ collectExprs pick es

def collectArgs (pick : Pick α) : Option (List Expr) → List α
  | none => []
  | some es => collectExprs pick es

def collectExpr? (pick : Pick α) : Option Expr → List α
  | none => []
  | some e => e.collect pick

def Key.collect (pick : Pick α) : Key → List α
  | .computed e => e.collect pick
  | .word _ => []
  | .str _ => []
  | .number _ => []
  | .hidden _ => []

def Ty.collect (pick : Pick α) : Ty → List α
  | .word text => Pick.at (pick (.word text)) []
  | .str lit => Pick.at (pick (.str lit)) []
  | .template chunks parts => Pick.at (pick (.template chunks parts)) (collectTys pick parts)
  | .ref name args => Pick.at (pick (.ref name args)) (collectTys pick args)
  | .query name args => Pick.at (pick (.query name args)) (collectTys pick args)
  | .imported arg attrs qualifier args =>
    Pick.at (pick (.imported arg attrs qualifier args)) (collectTys pick args)
  | .importQuery arg attrs qualifier args outer =>
    Pick.at (pick (.importQuery arg attrs qualifier args outer))
      (collectTys pick args ++ collectTys pick outer)
  | .array elem => Pick.at (pick (.array elem)) (elem.collect pick)
  | .tuple elems => Pick.at (pick (.tuple elems)) (collectTys pick elems)
  | .labeled isRest label isOptional ty =>
    Pick.at (pick (.labeled isRest label isOptional ty)) (ty.collect pick)
  | .optional ty => Pick.at (pick (.optional ty)) (ty.collect pick)
  | .rest ty => Pick.at (pick (.rest ty)) (ty.collect pick)
  | .union parts => Pick.at (pick (.union parts)) (collectTys pick parts)
  | .inter parts => Pick.at (pick (.inter parts)) (collectTys pick parts)
  | .conditional check bound yes no =>
    Pick.at (pick (.conditional check bound yes no))
      (check.collect pick ++ bound.collect pick ++ yes.collect pick ++ no.collect pick)
  | .infer name bound => Pick.at (pick (.infer name bound)) (collectTy? pick bound)
  | .paren ty => Pick.at (pick (.paren ty)) (ty.collect pick)
  | .operator op ty => Pick.at (pick (.operator op ty)) (ty.collect pick)
  | .indexed obj idx => Pick.at (pick (.indexed obj idx)) (obj.collect pick ++ idx.collect pick)
  | .mapped readonly key domain rename optional value =>
    Pick.at (pick (.mapped readonly key domain rename optional value))
      (domain.collect pick ++ collectTy? pick rename ++ collectTy? pick value)
  | .func sig => Pick.at (pick (.func sig)) (sig.collect pick)
  | .ctor isAbstract sig => Pick.at (pick (.ctor isAbstract sig)) (sig.collect pick)
  | .record members => Pick.at (pick (.record members)) (collectMembers pick members)
  | .predicate asserts subject ty =>
    Pick.at (pick (.predicate asserts subject ty)) (collectTy? pick ty)

def collectTys (pick : Pick α) : List Ty → List α
  | [] => []
  | t :: ts => t.collect pick ++ collectTys pick ts

def collectTy? (pick : Pick α) : Option Ty → List α
  | none => []
  | some t => t.collect pick

def TypeParam.collect (pick : Pick α) : TypeParam → List α
  | .mk _ _ bound default => collectTy? pick bound ++ collectTy? pick default

def collectTypeParams (pick : Pick α) : List TypeParam → List α
  | [] => []
  | t :: ts => t.collect pick ++ collectTypeParams pick ts

def Pat.collect (pick : Pick α) : Pat → List α
  | .ident _ _ ann => collectTy? pick ann
  | .hole => []
  | .array elems _ ann => collectPats pick elems ++ collectTy? pick ann
  | .object fields _ ann => collectFields pick fields ++ collectTy? pick ann
  | .rest arg ann => arg.collect pick ++ collectTy? pick ann
  | .assign left right => left.collect pick ++ right.collect pick

def collectPats (pick : Pick α) : List Pat → List α
  | [] => []
  | p :: ps => p.collect pick ++ collectPats pick ps

def Field.collect (pick : Pick α) : Field → List α
  | .keyed key value => key.collect pick ++ value.collect pick
  | .short _ default => collectExpr? pick default
  | .rest arg => arg.collect pick

def collectFields (pick : Pick α) : List Field → List α
  | [] => []
  | f :: fs => f.collect pick ++ collectFields pick fs

def Signature.collect (pick : Pick α) : Signature → List α
  | .mk tparams params result =>
    collectPats pick params ++ collectTypeParams pick tparams ++ collectTy? pick result

def Member.collect (pick : Pick α) : Member → List α
  | .property _ key _ ann => key.collect pick ++ collectTy? pick ann
  | .getter key ann => key.collect pick ++ collectTy? pick ann
  | .setter key param => key.collect pick ++ param.collect pick
  | .method key _ (.mk tparams params result) =>
    key.collect pick ++ collectPats pick params ++ collectTy? pick result ++
      collectTypeParams pick tparams
  | .call (.mk tparams params result) =>
    collectPats pick params ++ collectTy? pick result ++ collectTypeParams pick tparams
  | .construct (.mk tparams params result) =>
    collectPats pick params ++ collectTy? pick result ++ collectTypeParams pick tparams
  | .index _ param ann => param.collect pick ++ collectTy? pick ann

def collectMembers (pick : Pick α) : List Member → List α
  | [] => []
  | m :: ms => m.collect pick ++ collectMembers pick ms

end

def Heritage.collect (pick : Pick α) (h : Heritage) : List α :=
  h.expr.collect pick ++ collectTys pick h.args

def CtorParam.collect (pick : Pick α) (p : CtorParam) : List α := p.pat.collect pick

def ClassMember.collect (pick : Pick α) : ClassMember → List α
  | .ctor _ _ params => params.flatMap (CtorParam.collect pick)
  | .method _ _ _ key _ sig => key.collect pick ++ sig.collect pick
  | .property _ _ key _ ann value =>
    key.collect pick ++ collectExpr? pick value ++ collectTy? pick ann
  | .index _ param ann => param.collect pick ++ collectTy? pick ann
  | .empty => []

/-- Members first, then the base, the type parameters and the base's arguments. -/
def ClassBody.collect (pick : Pick α) (c : ClassBody) : List α :=
  c.members.flatMap (ClassMember.collect pick) ++
    (c.base.toList.flatMap (fun h => h.expr.collect pick)) ++
    collectTypeParams pick c.tparams ++
    (c.base.toList.flatMap (fun h => collectTys pick h.args)) ++
    c.implements.flatMap (Heritage.collect pick)

def Interface.collect (pick : Pick α) (i : Interface) : List α :=
  collectTypeParams pick i.tparams ++ i.bases.flatMap (Heritage.collect pick) ++
    collectMembers pick i.members

def Declarator.collect (pick : Pick α) (d : Declarator) : List α :=
  d.pat.collect pick ++ collectExpr? pick d.init

def EnumMember.collect (pick : Pick α) (m : EnumMember) : List α :=
  m.key.collect pick ++ collectExpr? pick m.init

def DefaultDecl.collect (pick : Pick α) : DefaultDecl → List α
  | .cls _ body => body.collect pick
  | .func _ body => body.sig.collect pick
  | .interface body => body.collect pick

mutual

def Decl.collect (pick : Pick α) : Decl → List α
  | .cls _ _ body => body.collect pick
  | .func _ _ body => body.sig.collect pick
  | .var _ _ decls => decls.flatMap (Declarator.collect pick)
  | .resource _ decls => decls.flatMap (Declarator.collect pick)
  | .interface body => body.collect pick
  | .typeAlias _ _ tparams ty => collectTypeParams pick tparams ++ ty.collect pick
  | .enum _ _ _ members => members.flatMap (EnumMember.collect pick)
  | .space _ _ _ body => collectBody pick body

def Item.collect (pick : Pick α) : Item → List α
  | .expr e => e.collect pick
  | .decl d => d.collect pick
  | .exportDecl d => d.collect pick
  | .exportDefaultDecl d => d.collect pick
  | .exportDefaultExpr e => e.collect pick
  | .exportAssign e => e.collect pick
  | .empty => []
  | .importDecl _ => []
  | .importEquals _ => []
  | .exportList _ => []
  | .exportAll _ => []
  | .exportAsNamespace _ => []

def collectItems (pick : Pick α) : List Item → List α
  | [] => []
  | i :: is => i.collect pick ++ collectItems pick is

def collectBody (pick : Pick α) : Option (List Item) → List α
  | none => []
  | some items => collectItems pick items

end

end AmbientBundle.Syntax
