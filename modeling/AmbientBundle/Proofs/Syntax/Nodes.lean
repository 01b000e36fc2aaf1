import AmbientBundle.ImportTypes.Basic
import AmbientBundle.Rename.Module
/-!
A piece of syntax node by node, in prefix order. A node is what is left of a part when its own parts
are taken out: it tells how many of them there were, so the list of all nodes tells what the piece
is. With each node stand the names that the binders around it bind: type parameters, the key of a
mapped type, the names that `infer` gives to a conditional type, and the declarations of a namespace
body.
-/
namespace AmbientBundle.Syntax

instance : Inhabited Key := ⟨.word ""⟩
instance : Inhabited TypeParam := ⟨.mk [] "" none none⟩
instance : Inhabited Signature := ⟨.mk [] [] none⟩
instance : Inhabited Field := ⟨.rest default⟩
instance : Inhabited Member := ⟨.call default⟩
instance : Inhabited Func := ⟨⟨default, default⟩⟩
instance : Inhabited CtorParam := ⟨⟨none, false, false, default⟩⟩
instance : Inhabited ClassMember := ⟨.empty⟩
instance : Inhabited Heritage := ⟨⟨default, []⟩⟩
instance : Inhabited ClassBody := ⟨⟨false, [], none, [], []⟩⟩
instance : Inhabited Interface := ⟨⟨default, false, [], [], []⟩⟩
instance : Inhabited Declarator := ⟨⟨default, none⟩⟩
instance : Inhabited EnumMember := ⟨⟨default, none⟩⟩
instance : Inhabited DefaultDecl := ⟨.interface default⟩
instance : Inhabited Decl := ⟨.interface default⟩

/-- As many placeholders as there are parts. -/
def blanks {α : Type} [Inhabited α] (parts : List α) : List α := parts.map (fun _ => default)

/-- A placeholder if there is a part. -/
def blank? {α : Type} [Inhabited α] (part : Option α) : Option α := part.map (fun _ => default)

/-- A part of some syntax where placeholders stand for its own parts. -/
inductive Node where
  | expr (e : Expr)
  | key (k : Key)
  | ty (t : Ty)
  | typeParam (t : TypeParam)
  | pat (p : Pat)
  | field (f : Field)
  | signature (s : Signature)
  | member (m : Member)
  | heritage (h : Heritage)
  | ctorParam (p : CtorParam)
  | classMember (m : ClassMember)
  | classBody (c : ClassBody)
  | func (f : Func)
  | interface (i : Interface)
  | declarator (d : Declarator)
  | enumMember (m : EnumMember)
  | defaultDecl (d : DefaultDecl)
  | decl (d : Decl)
  | item (i : Item)

/-- A node and the names that are bound where it stands. -/
structure Spot where
  node : Node
  bound : List String

open Rename

mutual

def Expr.spots (a : List String) : Expr → List Spot
  | .ident name => [⟨.expr (.ident name), a⟩]
  | .word text => [⟨.expr (.word text), a⟩]
  | .str lit => [⟨.expr (.str lit), a⟩]
  | .template chunks parts => ⟨.expr (.template chunks (blanks parts)), a⟩ :: exprsSpots a parts
  | .hole => [⟨.expr .hole, a⟩]
  | .spread e => ⟨.expr (.spread default), a⟩ :: e.spots a
  | .keyed key value => ⟨.expr (.keyed default default), a⟩ :: (key.spots a ++ value.spots a)
  | .array elems => ⟨.expr (.array (blanks elems)), a⟩ :: exprsSpots a elems
  | .object props => ⟨.expr (.object (blanks props)), a⟩ :: exprsSpots a props
  | .paren e => ⟨.expr (.paren default), a⟩ :: e.spots a
  | .member obj optional name => ⟨.expr (.member default optional name), a⟩ :: obj.spots a
  | .index obj optional idx =>
    ⟨.expr (.index default optional default), a⟩ :: (obj.spots a ++ idx.spots a)
  | .call callee optional targs args =>
    ⟨.expr (.call default optional (blanks targs) (blanks args)), a⟩ ::
      (callee.spots a ++ tysSpots a targs ++ exprsSpots a args)
  | .construct callee targs args =>
    ⟨.expr (.construct default (blanks targs) (args.map blanks)), a⟩ ::
      (callee.spots a ++ tysSpots a targs ++ argsSpots a args)
  | .instantiate e targs =>
    ⟨.expr (.instantiate default (blanks targs)), a⟩ :: (e.spots a ++ tysSpots a targs)
  | .unary op e => ⟨.expr (.unary op default), a⟩ :: e.spots a
  | .postfixed e op => ⟨.expr (.postfixed default op), a⟩ :: e.spots a
  | .binary op left right =>
    ⟨.expr (.binary op default default), a⟩ :: (left.spots a ++ right.spots a)
  | .cond test yes no =>
    ⟨.expr (.cond default default default), a⟩ :: (test.spots a ++ yes.spots a ++ no.spots a)
  | .seq es => ⟨.expr (.seq (blanks es)), a⟩ :: exprsSpots a es
  | .cast op e ty => ⟨.expr (.cast op default default), a⟩ :: (e.spots a ++ ty.spots a)

def exprsSpots (a : List String) : List Expr → List Spot
  | [] => []
  | e :: es => e.spots a ++ exprsSpots a es

def argsSpots (a : List String) : Option (List Expr) → List Spot
  | none => []
  | some es => exprsSpots a es

def expr?Spots (a : List String) : Option Expr → List Spot
  | none => []
  | some e => e.spots a

def Key.spots (a : List String) : Key → List Spot
  | .word text => [⟨.key (.word text), a⟩]
  | .hidden text => [⟨.key (.hidden text), a⟩]
  | .str lit => [⟨.key (.str lit), a⟩]
  | .number text => [⟨.key (.number text), a⟩]
  | .computed e => ⟨.key (.computed default), a⟩ :: e.spots a

/-- Where a query has arguments, those of its import do not count, and they are left in the node. -/
def Ty.spots (a : List String) : Ty → List Spot
  | .word text => [⟨.ty (.word text), a⟩]
  | .str lit => [⟨.ty (.str lit), a⟩]
  | .template chunks parts => ⟨.ty (.template chunks (blanks parts)), a⟩ :: tysSpots a parts
  | .ref name args => ⟨.ty (.ref name (blanks args)), a⟩ :: tysSpots a args
  | .query name args => ⟨.ty (.query name (blanks args)), a⟩ :: tysSpots a args
  | .imported arg attrs qualifier args =>
    ⟨.ty (.imported arg attrs qualifier (blanks args)), a⟩ :: tysSpots a args
  | .importQuery arg attrs qualifier args outer =>
    if outer.isEmpty then
      ⟨.ty (.importQuery arg attrs qualifier (blanks args) []), a⟩ :: tysSpots a args
    else ⟨.ty (.importQuery arg attrs qualifier args (blanks outer)), a⟩ :: tysSpots a outer
  | .array elem => ⟨.ty (.array default), a⟩ :: elem.spots a
  | .tuple elems => ⟨.ty (.tuple (blanks elems)), a⟩ :: tysSpots a elems
  | .labeled isRest label isOptional ty =>
    ⟨.ty (.labeled isRest label isOptional default), a⟩ :: ty.spots a
  | .optional ty => ⟨.ty (.optional default), a⟩ :: ty.spots a
  | .rest ty => ⟨.ty (.rest default), a⟩ :: ty.spots a
  | .union parts => ⟨.ty (.union (blanks parts)), a⟩ :: tysSpots a parts
  | .inter parts => ⟨.ty (.inter (blanks parts)), a⟩ :: tysSpots a parts
  | .conditional check bound yes no =>
    ⟨.ty (.conditional default default default default), a⟩ ::
      (check.spots (infers bound ++ a) ++ bound.spots (infers bound ++ a) ++
        yes.spots (infers bound ++ a) ++ no.spots (infers bound ++ a))
  | .infer name bound => ⟨.ty (.infer name (blank? bound)), a⟩ :: ty?Spots a bound
  | .paren ty => ⟨.ty (.paren default), a⟩ :: ty.spots a
  | .operator op ty => ⟨.ty (.operator op default), a⟩ :: ty.spots a
  | .indexed obj idx => ⟨.ty (.indexed default default), a⟩ :: (obj.spots a ++ idx.spots a)
  | .mapped readonly key domain rename optional value =>
    ⟨.ty (.mapped readonly key default (blank? rename) optional (blank? value)), a⟩ ::
      (domain.spots (key :: a) ++ ty?Spots (key :: a) rename ++ ty?Spots (key :: a) value)
  | .func sig => ⟨.ty (.func default), a⟩ :: sig.spots a
  | .ctor isAbstract sig => ⟨.ty (.ctor isAbstract default), a⟩ :: sig.spots a
  | .record members => ⟨.ty (.record (blanks members)), a⟩ :: membersSpots a members
  | .predicate asserts subject ty =>
    ⟨.ty (.predicate asserts subject (blank? ty)), a⟩ :: ty?Spots a ty

def tysSpots (a : List String) : List Ty → List Spot
  | [] => []
  | t :: ts => t.spots a ++ tysSpots a ts

def ty?Spots (a : List String) : Option Ty → List Spot
  | none => []
  | some t => t.spots a

def TypeParam.spots (a : List String) : TypeParam → List Spot
  | .mk mods name bound default =>
    ⟨.typeParam (.mk mods name (blank? bound) (blank? default)), a⟩ ::
      (ty?Spots a bound ++ ty?Spots a default)

def typeParamsSpots (a : List String) : List TypeParam → List Spot
  | [] => []
  | t :: ts => t.spots a ++ typeParamsSpots a ts

def Pat.spots (a : List String) : Pat → List Spot
  | .ident id isOptional ann => ⟨.pat (.ident id isOptional (blank? ann)), a⟩ :: ty?Spots a ann
  | .hole => [⟨.pat .hole, a⟩]
  | .array elems isOptional ann =>
    ⟨.pat (.array (blanks elems) isOptional (blank? ann)), a⟩ ::
      (patsSpots a elems ++ ty?Spots a ann)
  | .object fields isOptional ann =>
    ⟨.pat (.object (blanks fields) isOptional (blank? ann)), a⟩ ::
      (fieldsSpots a fields ++ ty?Spots a ann)
  | .rest arg ann => ⟨.pat (.rest default (blank? ann)), a⟩ :: (arg.spots a ++ ty?Spots a ann)
  | .assign left right => ⟨.pat (.assign default default), a⟩ :: (left.spots a ++ right.spots a)

def patsSpots (a : List String) : List Pat → List Spot
  | [] => []
  | p :: ps => p.spots a ++ patsSpots a ps

def Field.spots (a : List String) : Field → List Spot
  | .keyed key value => ⟨.field (.keyed default default), a⟩ :: (key.spots a ++ value.spots a)
  | .short id default => ⟨.field (.short id (blank? default)), a⟩ :: expr?Spots a default
  | .rest arg => ⟨.field (.rest default), a⟩ :: arg.spots a

def fieldsSpots (a : List String) : List Field → List Spot
  | [] => []
  | f :: fs => f.spots a ++ fieldsSpots a fs

def Signature.spots (a : List String) : Signature → List Spot
  | .mk tparams params result =>
    ⟨.signature (.mk (blanks tparams) (blanks params) (blank? result)), a⟩ ::
      (typeParamsSpots (typeParamNames tparams ++ a) tparams ++
        patsSpots (typeParamNames tparams ++ a) params ++
        ty?Spots (typeParamNames tparams ++ a) result)

def Member.spots (a : List String) : Member → List Spot
  | .property isReadonly key isOptional ann =>
    ⟨.member (.property isReadonly default isOptional (blank? ann)), a⟩ ::
      (key.spots a ++ ty?Spots a ann)
  | .getter key ann => ⟨.member (.getter default (blank? ann)), a⟩ :: (key.spots a ++ ty?Spots a ann)
  | .setter key param => ⟨.member (.setter default default), a⟩ :: (key.spots a ++ param.spots a)
  | .method key isOptional sig =>
    ⟨.member (.method default isOptional default), a⟩ :: (key.spots a ++ sig.spots a)
  | .call sig => ⟨.member (.call default), a⟩ :: sig.spots a
  | .construct sig => ⟨.member (.construct default), a⟩ :: sig.spots a
  | .index isReadonly param ann =>
    ⟨.member (.index isReadonly default (blank? ann)), a⟩ :: (param.spots a ++ ty?Spots a ann)

def membersSpots (a : List String) : List Member → List Spot
  | [] => []
  | m :: ms => m.spots a ++ membersSpots a ms

end

def Heritage.spots (a : List String) (h : Heritage) : List Spot :=
  ⟨.heritage ⟨default, blanks h.args⟩, a⟩ :: (h.expr.spots a ++ tysSpots a h.args)

def CtorParam.spots (a : List String) (p : CtorParam) : List Spot :=
  ⟨.ctorParam { p with pat := default }, a⟩ :: p.pat.spots a

def ClassMember.spots (a : List String) : ClassMember → List Spot
  | .ctor mods isOptional params =>
    ⟨.classMember (.ctor mods isOptional (blanks params)), a⟩ :: params.flatMap (CtorParam.spots a)
  | .method mods fn kind key isOptional sig =>
    ⟨.classMember (.method mods fn kind default isOptional default), a⟩ ::
      (key.spots a ++ sig.spots a)
  | .property mods isAccessor key mark ann value =>
    ⟨.classMember (.property mods isAccessor default mark (blank? ann) (blank? value)), a⟩ ::
      (key.spots a ++ ty?Spots a ann ++ expr?Spots a value)
  | .index mods param ann =>
    ⟨.classMember (.index mods default (blank? ann)), a⟩ :: (param.spots a ++ ty?Spots a ann)
  | .empty => [⟨.classMember .empty, a⟩]

/-- What stands behind the name of a class. -/
def ClassBody.spots (a : List String) (c : ClassBody) : List Spot :=
  ⟨.classBody ⟨c.isAbstract, blanks c.tparams, blank? c.base, blanks c.implements,
      blanks c.members⟩, a⟩ ::
    (typeParamsSpots (typeParamNames c.tparams ++ a) c.tparams ++
      c.base.toList.flatMap (Heritage.spots (typeParamNames c.tparams ++ a)) ++
      c.implements.flatMap (Heritage.spots (typeParamNames c.tparams ++ a)) ++
      c.members.flatMap (ClassMember.spots (typeParamNames c.tparams ++ a)))

def Func.spots (a : List String) (f : Func) : List Spot :=
  ⟨.func { f with sig := default }, a⟩ :: f.sig.spots a

def Interface.spots (a : List String) (i : Interface) : List Spot :=
  ⟨.interface ⟨i.id, i.declare, blanks i.tparams, blanks i.bases, blanks i.members⟩, a⟩ ::
    (typeParamsSpots (typeParamNames i.tparams ++ a) i.tparams ++
      i.bases.flatMap (Heritage.spots (typeParamNames i.tparams ++ a)) ++
      membersSpots (typeParamNames i.tparams ++ a) i.members)

def Declarator.spots (a : List String) (d : Declarator) : List Spot :=
  ⟨.declarator ⟨default, blank? d.init⟩, a⟩ :: (d.pat.spots a ++ expr?Spots a d.init)

def EnumMember.spots (a : List String) (m : EnumMember) : List Spot :=
  ⟨.enumMember ⟨default, blank? m.init⟩, a⟩ :: (m.key.spots a ++ expr?Spots a m.init)

def DefaultDecl.spots (a : List String) : DefaultDecl → List Spot
  | .cls name body => ⟨.defaultDecl (.cls name default), a⟩ :: body.spots a
  | .func name body => ⟨.defaultDecl (.func name default), a⟩ :: body.spots a
  | .interface body => ⟨.defaultDecl (.interface default), a⟩ :: body.spots a

mutual

def Decl.spots (a : List String) : Decl → List Spot
  | .cls id declare body => ⟨.decl (.cls id declare default), a⟩ :: body.spots a
  | .func id declare body => ⟨.decl (.func id declare default), a⟩ :: body.spots a
  | .var kind declare decls =>
    ⟨.decl (.var kind declare (blanks decls)), a⟩ :: decls.flatMap (Declarator.spots a)
  | .resource isAwait decls =>
    ⟨.decl (.resource isAwait (blanks decls)), a⟩ :: decls.flatMap (Declarator.spots a)
  | .interface body => ⟨.decl (.interface default), a⟩ :: body.spots a
  | .typeAlias id declare tparams ty =>
    ⟨.decl (.typeAlias id declare (blanks tparams) default), a⟩ ::
      (typeParamsSpots (typeParamNames tparams ++ a) tparams ++
        ty.spots (typeParamNames tparams ++ a))
  | .enum id declare isConst members =>
    ⟨.decl (.enum id declare isConst (blanks members)), a⟩ :: members.flatMap (EnumMember.spots a)
  | .space declare name inner body =>
    ⟨.decl (.space declare name inner (body.map blanks)), a⟩ :: bodySpots a body

def Item.spots (a : List String) : Item → List Spot
  | .empty => [⟨.item .empty, a⟩]
  | .expr e => ⟨.item (.expr default), a⟩ :: e.spots a
  | .decl d => ⟨.item (.decl default), a⟩ :: d.spots a
  | .importDecl d => [⟨.item (.importDecl d), a⟩]
  | .importEquals d => [⟨.item (.importEquals d), a⟩]
  | .exportDecl d => ⟨.item (.exportDecl default), a⟩ :: d.spots a
  | .exportDefaultDecl d => ⟨.item (.exportDefaultDecl default), a⟩ :: d.spots a
  | .exportDefaultExpr e => ⟨.item (.exportDefaultExpr default), a⟩ :: e.spots a
  | .exportList d => [⟨.item (.exportList d), a⟩]
  | .exportAll d => [⟨.item (.exportAll d), a⟩]
  | .exportAssign e => ⟨.item (.exportAssign default), a⟩ :: e.spots a
  | .exportAsNamespace name => [⟨.item (.exportAsNamespace name), a⟩]

def itemsSpots (a : List String) : List Item → List Spot
  | [] => []
  | i :: is => i.spots a ++ itemsSpots a is

/-- A namespace body binds what its statements declare. -/
def bodySpots (a : List String) : Option (List Item) → List Spot
  | none => []
  | some items => itemsSpots (bodyNames items ++ a) items

end

end AmbientBundle.Syntax
