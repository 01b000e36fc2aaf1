import AmbientBundle.Syntax.Collect
/-!
The outline of a piece of syntax: all of it but the names of what declarations, patterns and
references stand for. Names that belong to other modules, names of members, and the names that type
parameters and other binders within types give stay in it. An export list keeps the names under
which it exports, written out.
-/
namespace AmbientBundle.Syntax

def Ident.outline (id : Ident) : Ident := { id with name := "" }

def EntityName.outline (n : EntityName) : EntityName := { n with head := "" }

mutual

def Expr.outline : Expr → Expr
  | .ident _ => .ident ""
  | .word text => .word text
  | .str lit => .str lit
  | .template chunks parts => .template chunks (outlineExprs parts)
  | .hole => .hole
  | .spread e => .spread e.outline
  | .keyed key value => .keyed key.outline value.outline
  | .array elems => .array (outlineExprs elems)
  | .object props => .object (outlineExprs props)
  | .paren e => .paren e.outline
  | .member obj optional name => .member obj.outline optional name
  | .index obj optional idx => .index obj.outline optional idx.outline
  | .call callee optional targs args =>
    .call callee.outline optional (outlineTys targs) (outlineExprs args)
  | .construct callee targs args =>
    .construct callee.outline (outlineTys targs) (outlineArgs args)
  | .instantiate e targs => .instantiate e.outline (outlineTys targs)
  | .unary op e => .unary op e.outline
  | .postfixed e op => .postfixed e.outline op
  | .binary op left right => .binary op left.outline right.outline
  | .cond test yes no => .cond test.outline yes.outline no.outline
  | .seq es => .seq (outlineExprs es)
  | .cast op e ty => .cast op e.outline ty.outline

def outlineExprs : List Expr → List Expr
  | [] => []
  | e :: es => e.outline :: outlineExprs es

def outlineArgs : Option (List Expr) → Option (List Expr)
  | none => none
  | some es => some (outlineExprs es)

def outlineExpr? : Option Expr → Option Expr
  | none => none
  | some e => some e.outline

def Key.outline : Key → Key
  | .word text => .word text
  | .str lit => .str lit
  | .number text => .number text
  | .hidden text => .hidden text
  | .computed e => .computed e.outline

def Ty.outline : Ty → Ty
  | .word text => .word text
  | .str lit => .str lit
  | .template chunks parts => .template chunks (outlineTys parts)
  | .ref name args => .ref name.outline (outlineTys args)
  | .query name args => .query name.outline (outlineTys args)
  | .imported arg attrs qualifier args => .imported arg attrs qualifier (outlineTys args)
  | .importQuery arg attrs qualifier args outer =>
    .importQuery arg attrs qualifier (outlineTys args) (outlineTys outer)
  | .array elem => .array elem.outline
  | .tuple elems => .tuple (outlineTys elems)
  | .labeled isRest _ isOptional ty => .labeled isRest "" isOptional ty.outline
  | .optional ty => .optional ty.outline
  | .rest ty => .rest ty.outline
  | .union parts => .union (outlineTys parts)
  | .inter parts => .inter (outlineTys parts)
  | .conditional check bound yes no =>
    .conditional check.outline bound.outline yes.outline no.outline
  | .infer name bound => .infer name (outlineTy? bound)
  | .paren ty => .paren ty.outline
  | .operator op ty => .operator op ty.outline
  | .indexed obj idx => .indexed obj.outline idx.outline
  | .mapped readonly key domain rename optional value =>
    .mapped readonly key domain.outline (outlineTy? rename) optional (outlineTy? value)
  | .func sig => .func sig.outline
  | .ctor isAbstract sig => .ctor isAbstract sig.outline
  | .record members => .record (outlineMembers members)
  | .predicate asserts subject ty => .predicate asserts subject (outlineTy? ty)

def outlineTys : List Ty → List Ty
  | [] => []
  | t :: ts => t.outline :: outlineTys ts

def outlineTy? : Option Ty → Option Ty
  | none => none
  | some t => some t.outline

def TypeParam.outline : TypeParam → TypeParam
  | .mk mods name bound default => .mk mods name (outlineTy? bound) (outlineTy? default)

def outlineTypeParams : List TypeParam → List TypeParam
  | [] => []
  | t :: ts => t.outline :: outlineTypeParams ts

def Pat.outline : Pat → Pat
  | .ident id isOptional ann => .ident id.outline isOptional (outlineTy? ann)
  | .hole => .hole
  | .array elems isOptional ann => .array (outlinePats elems) isOptional (outlineTy? ann)
  | .object fields isOptional ann => .object (outlineFields fields) isOptional (outlineTy? ann)
  | .rest arg ann => .rest arg.outline (outlineTy? ann)
  | .assign left right => .assign left.outline right.outline

def outlinePats : List Pat → List Pat
  | [] => []
  | p :: ps => p.outline :: outlinePats ps

def Field.outline : Field → Field
  | .keyed key value => .keyed key.outline value.outline
  | .short id default => .short id.outline (outlineExpr? default)
  | .rest arg => .rest arg.outline

def outlineFields : List Field → List Field
  | [] => []
  | f :: fs => f.outline :: outlineFields fs

def Signature.outline : Signature → Signature
  | .mk tparams params result =>
    .mk (outlineTypeParams tparams) (outlinePats params) (outlineTy? result)

def Member.outline : Member → Member
  | .property isReadonly key isOptional ann =>
    .property isReadonly key.outline isOptional (outlineTy? ann)
  | .getter key ann => .getter key.outline (outlineTy? ann)
  | .setter key param => .setter key.outline param.outline
  | .method key isOptional sig => .method key.outline isOptional sig.outline
  | .call sig => .call sig.outline
  | .construct sig => .construct sig.outline
  | .index isReadonly param ann => .index isReadonly param.outline (outlineTy? ann)

def outlineMembers : List Member → List Member
  | [] => []
  | m :: ms => m.outline :: outlineMembers ms

end

def Heritage.outline (h : Heritage) : Heritage := ⟨h.expr.outline, outlineTys h.args⟩

def CtorParam.outline (p : CtorParam) : CtorParam := { p with pat := p.pat.outline }

def ClassMember.outline : ClassMember → ClassMember
  | .ctor mods isOptional params => .ctor mods isOptional (params.map CtorParam.outline)
  | .method mods fn kind key isOptional sig =>
    .method mods fn kind key.outline isOptional sig.outline
  | .property mods isAccessor key mark ann value =>
    .property mods isAccessor key.outline mark (outlineTy? ann) (outlineExpr? value)
  | .index mods param ann => .index mods param.outline (outlineTy? ann)
  | .empty => .empty

def ClassBody.outline (c : ClassBody) : ClassBody where
  isAbstract := c.isAbstract
  tparams := outlineTypeParams c.tparams
  base := c.base.map Heritage.outline
  implements := c.implements.map Heritage.outline
  members := c.members.map ClassMember.outline

def Func.outline (f : Func) : Func := ⟨f.mods, f.sig.outline⟩

def Interface.outline (i : Interface) : Interface where
  id := i.id.outline
  declare := i.declare
  tparams := outlineTypeParams i.tparams
  bases := i.bases.map Heritage.outline
  members := outlineMembers i.members

def Declarator.outline (d : Declarator) : Declarator := ⟨d.pat.outline, outlineExpr? d.init⟩

/-- The name of an enum member stays, computed or not. -/
def EnumMember.outline (m : EnumMember) : EnumMember := ⟨m.key, outlineExpr? m.init⟩

def ModuleName.outline : ModuleName → ModuleName
  | .ident id => .ident id.outline
  | .str lit => .str lit
  | .global => .global

def ImportTarget.outline : ImportTarget → ImportTarget
  | .entity name => .entity name.outline
  | .require src => .require src

/-- Whether a word is exported under its own name or under another one, the other name is told. -/
def ExportSpecifier.outline : ExportSpecifier → ExportSpecifier
  | .named (.word name) exported typeOnly =>
    .named (.word "") (some (exported.getD (.word name))) typeOnly
  | .named (.str lit) exported typeOnly => .named (.str lit) exported typeOnly
  | .all name => .all name

/-- What is exported of another module stays as it is. -/
def ExportList.outline (d : ExportList) : ExportList :=
  if d.src.isSome then d else { d with specifiers := d.specifiers.map ExportSpecifier.outline }

def DefaultName.outline : DefaultName → DefaultName
  | .named id => .named id.outline
  | .anonymous start => .anonymous start

def DefaultDecl.outline : DefaultDecl → DefaultDecl
  | .cls name body => .cls name.outline body.outline
  | .func name body => .func name.outline body.outline
  | .interface body => .interface body.outline

mutual

def Decl.outline : Decl → Decl
  | .cls id declare body => .cls id.outline declare body.outline
  | .func id declare body => .func id.outline declare body.outline
  | .var kind declare decls => .var kind declare (decls.map Declarator.outline)
  | .resource isAwait decls => .resource isAwait (decls.map Declarator.outline)
  | .interface body => .interface body.outline
  | .typeAlias id declare tparams ty =>
    .typeAlias id.outline declare (outlineTypeParams tparams) ty.outline
  | .enum id declare isConst members =>
    .enum id.outline declare isConst (members.map EnumMember.outline)
  | .space declare name inner body => .space declare name.outline inner (outlineBody body)

def Item.outline : Item → Item
  | .empty => .empty
  | .expr e => .expr e.outline
  | .decl d => .decl d.outline
  | .importDecl d => .importDecl d
  | .importEquals d =>
    .importEquals { d with id := d.id.outline, target := d.target.outline }
  | .exportDecl d => .exportDecl d.outline
  | .exportDefaultDecl d => .exportDefaultDecl d.outline
  | .exportDefaultExpr e => .exportDefaultExpr e.outline
  | .exportList d => .exportList d.outline
  | .exportAll d => .exportAll d
  | .exportAssign e => .exportAssign e.outline
  | .exportAsNamespace name => .exportAsNamespace name

def outlineItems : List Item → List Item
  | [] => []
  | i :: is => i.outline :: outlineItems is

def outlineBody : Option (List Item) → Option (List Item)
  | none => none
  | some items => some (outlineItems items)

end

end AmbientBundle.Syntax
