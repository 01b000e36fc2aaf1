import AmbientBundle.Rename.Scope
/-!
Renaming types, patterns and expressions. Heads of names are references; names of members,
parameters and labels are none. The flag `binds` tells that the identifiers of patterns are
references as well, as they are in a variable declaration; inside the annotation of such an
identifier it is off.
-/
namespace AmbientBundle.Syntax

open Rename

def Ident.rename (ρ : Renaming) (id : Ident) : Ident := { id with name := ρ id.name }

def Ident.renameIf (binds : Bool) (ρ : Renaming) (id : Ident) : Ident :=
  if binds then Ident.rename ρ id else id

mutual

def Expr.rename (ρ : Renaming) (binds : Bool) : Expr → Expr
  | .ident name => .ident (ρ name)
  | .word text => .word text
  | .str lit => .str lit
  | .template chunks parts => .template chunks (renameExprs ρ binds parts)
  | .hole => .hole
  | .spread e => .spread (Expr.rename ρ binds e)
  | .keyed key value => .keyed (Key.rename ρ binds key) (Expr.rename ρ binds value)
  | .array elems => .array (renameExprs ρ binds elems)
  | .object props => .object (renameExprs ρ binds props)
  | .paren e => .paren (Expr.rename ρ binds e)
  | .member obj optional name => .member (Expr.rename ρ binds obj) optional name
  | .index obj optional idx =>
    .index (Expr.rename ρ binds obj) optional (Expr.rename ρ binds idx)
  | .call callee optional targs args =>
    .call (Expr.rename ρ binds callee) optional (renameTys ρ binds targs)
      (renameExprs ρ binds args)
  | .construct callee targs args =>
    .construct (Expr.rename ρ binds callee) (renameTys ρ binds targs) (renameArgs ρ binds args)
  | .instantiate e targs => .instantiate (Expr.rename ρ binds e) (renameTys ρ binds targs)
  | .unary op e => .unary op (Expr.rename ρ binds e)
  | .postfixed e op => .postfixed (Expr.rename ρ binds e) op
  | .binary op left right => .binary op (Expr.rename ρ binds left) (Expr.rename ρ binds right)
  | .cond test yes no =>
    .cond (Expr.rename ρ binds test) (Expr.rename ρ binds yes) (Expr.rename ρ binds no)
  | .seq es => .seq (renameExprs ρ binds es)
  | .cast op e ty => .cast op (Expr.rename ρ binds e) (Ty.rename ρ binds ty)

def renameExprs (ρ : Renaming) (binds : Bool) : List Expr → List Expr
  | [] => []
  | e :: es => Expr.rename ρ binds e :: renameExprs ρ binds es

def renameArgs (ρ : Renaming) (binds : Bool) : Option (List Expr) → Option (List Expr)
  | none => none
  | some es => some (renameExprs ρ binds es)

def renameExpr? (ρ : Renaming) (binds : Bool) : Option Expr → Option Expr
  | none => none
  | some e => some (Expr.rename ρ binds e)

def Key.rename (ρ : Renaming) (binds : Bool) : Key → Key
  | .computed e => .computed (Expr.rename ρ binds e)
  | .word text => .word text
  | .str lit => .str lit
  | .number text => .number text
  | .hidden text => .hidden text

def Ty.rename (ρ : Renaming) (binds : Bool) : Ty → Ty
  | .word text => .word text
  | .str lit => .str lit
  | .template chunks parts => .template chunks (renameTys ρ binds parts)
  | .ref name args => .ref (name.mapHead ρ) (renameTys ρ binds args)
  | .query name args => .query (name.mapHead ρ) (renameTys ρ binds args)
  | .imported arg attrs qualifier args => .imported arg attrs qualifier (renameTys ρ binds args)
  | .importQuery arg attrs qualifier args outer =>
    .importQuery arg attrs qualifier (renameTys ρ binds args) (renameTys ρ binds outer)
  | .array elem => .array (Ty.rename ρ binds elem)
  | .tuple elems => .tuple (renameTys ρ binds elems)
  | .labeled isRest label isOptional ty =>
    .labeled isRest (if binds then ρ label else label) isOptional (Ty.rename ρ binds ty)
  | .optional ty => .optional (Ty.rename ρ binds ty)
  | .rest ty => .rest (Ty.rename ρ binds ty)
  | .union parts => .union (renameTys ρ binds parts)
  | .inter parts => .inter (renameTys ρ binds parts)
  | .conditional check bound yes no =>
    let ρ' := hide (infers bound) ρ
    .conditional (Ty.rename ρ' binds check) (Ty.rename ρ' binds bound) (Ty.rename ρ' binds yes)
      (Ty.rename ρ' binds no)
  | .infer name bound => .infer name (renameTy? ρ binds bound)
  | .paren ty => .paren (Ty.rename ρ binds ty)
  | .operator op ty => .operator op (Ty.rename ρ binds ty)
  | .indexed obj idx => .indexed (Ty.rename ρ binds obj) (Ty.rename ρ binds idx)
  | .mapped readonly key domain rename optional value =>
    let ρ' := hide [key] ρ
    .mapped readonly key (Ty.rename ρ' binds domain) (renameTy? ρ' binds rename) optional
      (renameTy? ρ' binds value)
  | .func sig => .func (Signature.rename ρ binds sig)
  | .ctor isAbstract sig => .ctor isAbstract (Signature.rename ρ binds sig)
  | .record members => .record (renameMembers ρ binds members)
  | .predicate asserts subject ty => .predicate asserts subject (renameTy? ρ binds ty)

def renameTys (ρ : Renaming) (binds : Bool) : List Ty → List Ty
  | [] => []
  | t :: ts => Ty.rename ρ binds t :: renameTys ρ binds ts

def renameTy? (ρ : Renaming) (binds : Bool) : Option Ty → Option Ty
  | none => none
  | some t => some (Ty.rename ρ binds t)

def TypeParam.rename (ρ : Renaming) (binds : Bool) : TypeParam → TypeParam
  | .mk mods name bound default =>
    .mk mods name (renameTy? ρ binds bound) (renameTy? ρ binds default)

def renameTypeParams (ρ : Renaming) (binds : Bool) : List TypeParam → List TypeParam
  | [] => []
  | t :: ts => TypeParam.rename ρ binds t :: renameTypeParams ρ binds ts

def Pat.rename (ρ : Renaming) (binds : Bool) : Pat → Pat
  | .ident id isOptional ann =>
    .ident (Ident.renameIf binds ρ id) isOptional (renameTy? ρ false ann)
  | .hole => .hole
  | .array elems isOptional ann =>
    .array (renamePats ρ binds elems) isOptional (renameTy? ρ binds ann)
  | .object fields isOptional ann =>
    .object (renameFields ρ binds fields) isOptional (renameTy? ρ binds ann)
  | .rest arg ann => .rest (Pat.rename ρ binds arg) (renameTy? ρ binds ann)
  | .assign left right => .assign (Pat.rename ρ binds left) (Expr.rename ρ binds right)

def renamePats (ρ : Renaming) (binds : Bool) : List Pat → List Pat
  | [] => []
  | p :: ps => Pat.rename ρ binds p :: renamePats ρ binds ps

def Field.rename (ρ : Renaming) (binds : Bool) : Field → Field
  | .keyed key value => .keyed (Key.rename ρ binds key) (Pat.rename ρ binds value)
  | .short id default => .short (Ident.renameIf binds ρ id) (renameExpr? ρ binds default)
  | .rest arg => .rest (Pat.rename ρ binds arg)

def renameFields (ρ : Renaming) (binds : Bool) : List Field → List Field
  | [] => []
  | f :: fs => Field.rename ρ binds f :: renameFields ρ binds fs

def Signature.rename (ρ : Renaming) (binds : Bool) : Signature → Signature
  | .mk tparams params result =>
    let ρ' := hide (typeParamNames tparams) ρ
    .mk (renameTypeParams ρ' binds tparams) (renamePats ρ' binds params)
      (renameTy? ρ' binds result)

def Member.rename (ρ : Renaming) (binds : Bool) : Member → Member
  | .property isReadonly key isOptional ann =>
    .property isReadonly (Key.rename ρ binds key) isOptional (renameTy? ρ binds ann)
  | .getter key ann => .getter (Key.rename ρ binds key) (renameTy? ρ binds ann)
  | .setter key param => .setter (Key.rename ρ binds key) (Pat.rename ρ binds param)
  | .method key isOptional sig =>
    .method (Key.rename ρ binds key) isOptional (Signature.rename ρ binds sig)
  | .call sig => .call (Signature.rename ρ binds sig)
  | .construct sig => .construct (Signature.rename ρ binds sig)
  | .index isReadonly param ann =>
    .index isReadonly (Pat.rename ρ binds param) (renameTy? ρ binds ann)

def renameMembers (ρ : Renaming) (binds : Bool) : List Member → List Member
  | [] => []
  | m :: ms => Member.rename ρ binds m :: renameMembers ρ binds ms

end

end AmbientBundle.Syntax
