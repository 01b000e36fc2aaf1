import AmbientBundle.ImportTypes.Basic
/-!
Putting the known targets in the place of import types, wherever these stand.
-/
namespace AmbientBundle.Syntax

open ImportTypes

mutual

def Expr.link (τ : Targets) : Expr → Expr
  | .ident name => .ident name
  | .word text => .word text
  | .str lit => .str lit
  | .template chunks parts => .template chunks (linkExprs τ parts)
  | .hole => .hole
  | .spread e => .spread (Expr.link τ e)
  | .keyed key value => .keyed (Key.link τ key) (Expr.link τ value)
  | .array elems => .array (linkExprs τ elems)
  | .object props => .object (linkExprs τ props)
  | .paren e => .paren (Expr.link τ e)
  | .member obj optional name => .member (Expr.link τ obj) optional name
  | .index obj optional idx => .index (Expr.link τ obj) optional (Expr.link τ idx)
  | .call callee optional targs args =>
    .call (Expr.link τ callee) optional (linkTys τ targs) (linkExprs τ args)
  | .construct callee targs args =>
    .construct (Expr.link τ callee) (linkTys τ targs) (linkArgs τ args)
  | .instantiate e targs => .instantiate (Expr.link τ e) (linkTys τ targs)
  | .unary op e => .unary op (Expr.link τ e)
  | .postfixed e op => .postfixed (Expr.link τ e) op
  | .binary op left right => .binary op (Expr.link τ left) (Expr.link τ right)
  | .cond test yes no => .cond (Expr.link τ test) (Expr.link τ yes) (Expr.link τ no)
  | .seq es => .seq (linkExprs τ es)
  | .cast op e ty => .cast op (Expr.link τ e) (Ty.link τ ty)

def linkExprs (τ : Targets) : List Expr → List Expr
  | [] => []
  | e :: es => Expr.link τ e :: linkExprs τ es

def linkArgs (τ : Targets) : Option (List Expr) → Option (List Expr)
  | none => none
  | some es => some (linkExprs τ es)

def linkExpr? (τ : Targets) : Option Expr → Option Expr
  | none => none
  | some e => some (Expr.link τ e)

def Key.link (τ : Targets) : Key → Key
  | .computed e => .computed (Expr.link τ e)
  | .word text => .word text
  | .str lit => .str lit
  | .number text => .number text
  | .hidden text => .hidden text

def Ty.link (τ : Targets) : Ty → Ty
  | .word text => .word text
  | .str lit => .str lit
  | .template chunks parts => .template chunks (linkTys τ parts)
  | .ref name args => .ref name (linkTys τ args)
  | .query name args => .query name (linkTys τ args)
  | .imported arg attrs qualifier args => linkImported τ arg attrs qualifier (linkTys τ args)
  | .importQuery arg attrs qualifier args outer =>
    linkQuery τ arg attrs qualifier (linkTys τ args) (linkTys τ outer)
  | .array elem => .array (Ty.link τ elem)
  | .tuple elems => .tuple (linkTys τ elems)
  | .labeled isRest label isOptional ty => .labeled isRest label isOptional (Ty.link τ ty)
  | .optional ty => .optional (Ty.link τ ty)
  | .rest ty => .rest (Ty.link τ ty)
  | .union parts => .union (linkTys τ parts)
  | .inter parts => .inter (linkTys τ parts)
  | .conditional check bound yes no =>
    .conditional (Ty.link τ check) (Ty.link τ bound) (Ty.link τ yes) (Ty.link τ no)
  | .infer name bound => .infer name (linkTy? τ bound)
  | .paren ty => .paren (Ty.link τ ty)
  | .operator op ty => .operator op (Ty.link τ ty)
  | .indexed obj idx => .indexed (Ty.link τ obj) (Ty.link τ idx)
  | .mapped readonly key domain rename optional value =>
    .mapped readonly key (Ty.link τ domain) (linkTy? τ rename) optional (linkTy? τ value)
  | .func sig => .func (Signature.link τ sig)
  | .ctor isAbstract sig => .ctor isAbstract (Signature.link τ sig)
  | .record members => .record (linkMembers τ members)
  | .predicate asserts subject ty => .predicate asserts subject (linkTy? τ ty)

def linkTys (τ : Targets) : List Ty → List Ty
  | [] => []
  | t :: ts => Ty.link τ t :: linkTys τ ts

def linkTy? (τ : Targets) : Option Ty → Option Ty
  | none => none
  | some t => some (Ty.link τ t)

def TypeParam.link (τ : Targets) : TypeParam → TypeParam
  | .mk mods name bound default => .mk mods name (linkTy? τ bound) (linkTy? τ default)

def linkTypeParams (τ : Targets) : List TypeParam → List TypeParam
  | [] => []
  | t :: ts => TypeParam.link τ t :: linkTypeParams τ ts

def Pat.link (τ : Targets) : Pat → Pat
  | .ident id isOptional ann => .ident id isOptional (linkTy? τ ann)
  | .hole => .hole
  | .array elems isOptional ann => .array (linkPats τ elems) isOptional (linkTy? τ ann)
  | .object fields isOptional ann => .object (linkFields τ fields) isOptional (linkTy? τ ann)
  | .rest arg ann => .rest (Pat.link τ arg) (linkTy? τ ann)
  | .assign left right => .assign (Pat.link τ left) (Expr.link τ right)

def linkPats (τ : Targets) : List Pat → List Pat
  | [] => []
  | p :: ps => Pat.link τ p :: linkPats τ ps

def Field.link (τ : Targets) : Field → Field
  | .keyed key value => .keyed (Key.link τ key) (Pat.link τ value)
  | .short id default => .short id (linkExpr? τ default)
  | .rest arg => .rest (Pat.link τ arg)

def linkFields (τ : Targets) : List Field → List Field
  | [] => []
  | f :: fs => Field.link τ f :: linkFields τ fs

def Signature.link (τ : Targets) : Signature → Signature
  | .mk tparams params result =>
    .mk (linkTypeParams τ tparams) (linkPats τ params) (linkTy? τ result)

def Member.link (τ : Targets) : Member → Member
  | .property isReadonly key isOptional ann =>
    .property isReadonly (Key.link τ key) isOptional (linkTy? τ ann)
  | .getter key ann => .getter (Key.link τ key) (linkTy? τ ann)
  | .setter key param => .setter (Key.link τ key) (Pat.link τ param)
  | .method key isOptional sig => .method (Key.link τ key) isOptional (Signature.link τ sig)
  | .call sig => .call (Signature.link τ sig)
  | .construct sig => .construct (Signature.link τ sig)
  | .index isReadonly param ann => .index isReadonly (Pat.link τ param) (linkTy? τ ann)

def linkMembers (τ : Targets) : List Member → List Member
  | [] => []
  | m :: ms => Member.link τ m :: linkMembers τ ms

end

def Heritage.link (τ : Targets) (h : Heritage) : Heritage :=
  ⟨Expr.link τ h.expr, linkTys τ h.args⟩

def CtorParam.link (τ : Targets) (p : CtorParam) : CtorParam := { p with pat := Pat.link τ p.pat }

def ClassMember.link (τ : Targets) : ClassMember → ClassMember
  | .ctor mods isOptional params => .ctor mods isOptional (params.map (CtorParam.link τ))
  | .method mods fn kind key isOptional sig =>
    .method mods fn kind (Key.link τ key) isOptional (Signature.link τ sig)
  | .property mods isAccessor key mark ann value =>
    .property mods isAccessor (Key.link τ key) mark (linkTy? τ ann) (linkExpr? τ value)
  | .index mods param ann => .index mods (Pat.link τ param) (linkTy? τ ann)
  | .empty => .empty

def ClassBody.link (τ : Targets) (c : ClassBody) : ClassBody :=
  { c with
    tparams := linkTypeParams τ c.tparams
    base := c.base.map (Heritage.link τ)
    implements := c.implements.map (Heritage.link τ)
    members := c.members.map (ClassMember.link τ) }

def Func.link (τ : Targets) (f : Func) : Func := { f with sig := Signature.link τ f.sig }

def Interface.link (τ : Targets) (i : Interface) : Interface :=
  { i with
    tparams := linkTypeParams τ i.tparams
    bases := i.bases.map (Heritage.link τ)
    members := linkMembers τ i.members }

def Declarator.link (τ : Targets) (d : Declarator) : Declarator :=
  ⟨Pat.link τ d.pat, linkExpr? τ d.init⟩

def EnumMember.link (τ : Targets) (m : EnumMember) : EnumMember :=
  ⟨Key.link τ m.key, linkExpr? τ m.init⟩

def DefaultDecl.link (τ : Targets) : DefaultDecl → DefaultDecl
  | .cls name body => .cls name (ClassBody.link τ body)
  | .func name body => .func name (Func.link τ body)
  | .interface body => .interface (Interface.link τ body)

mutual

def Decl.link (τ : Targets) : Decl → Decl
  | .cls id declare body => .cls id declare (ClassBody.link τ body)
  | .func id declare body => .func id declare (Func.link τ body)
  | .var kind declare decls => .var kind declare (decls.map (Declarator.link τ))
  | .resource isAwait decls => .resource isAwait (decls.map (Declarator.link τ))
  | .interface body => .interface (Interface.link τ body)
  | .typeAlias id declare tparams ty =>
    .typeAlias id declare (linkTypeParams τ tparams) (Ty.link τ ty)
  | .enum id declare isConst members =>
    .enum id declare isConst (members.map (EnumMember.link τ))
  | .space declare name inner body => .space declare name inner (linkBody τ body)

def Item.link (τ : Targets) : Item → Item
  | .empty => .empty
  | .expr e => .expr (Expr.link τ e)
  | .decl d => .decl (Decl.link τ d)
  | .importDecl d => .importDecl d
  | .importEquals d => .importEquals d
  | .exportDecl d => .exportDecl (Decl.link τ d)
  | .exportDefaultDecl d => .exportDefaultDecl (DefaultDecl.link τ d)
  | .exportDefaultExpr e => .exportDefaultExpr (Expr.link τ e)
  | .exportList d => .exportList d
  | .exportAll d => .exportAll d
  | .exportAssign e => .exportAssign (Expr.link τ e)
  | .exportAsNamespace name => .exportAsNamespace name

def linkItems (τ : Targets) : List Item → List Item
  | [] => []
  | i :: is => Item.link τ i :: linkItems τ is

def linkBody (τ : Targets) : Option (List Item) → Option (List Item)
  | none => none
  | some items => some (linkItems τ items)

end

end AmbientBundle.Syntax
