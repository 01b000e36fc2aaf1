import AmbientBundle.Names.Declared
import AmbientBundle.Rename.Type
/-!
Renaming declarations and statements. A namespace body hides the names that its statements
declare. Imports and exports of other files name nothing of this one, and an export list keeps
its external names.
-/
namespace AmbientBundle.Syntax

open Rename

def Heritage.rename (ρ : Renaming) (h : Heritage) : Heritage :=
  ⟨Expr.rename ρ false h.expr, renameTys ρ false h.args⟩

def CtorParam.rename (ρ : Renaming) (p : CtorParam) : CtorParam :=
  { p with pat := Pat.rename ρ false p.pat }

def ClassMember.rename (ρ : Renaming) : ClassMember → ClassMember
  | .ctor mods isOptional params => .ctor mods isOptional (params.map (CtorParam.rename ρ))
  | .method mods fn kind key isOptional sig =>
    .method mods fn kind (Key.rename ρ false key) isOptional (Signature.rename ρ false sig)
  | .property mods isAccessor key mark ann value =>
    .property mods isAccessor (Key.rename ρ false key) mark (renameTy? ρ false ann)
      (renameExpr? ρ false value)
  | .index mods param ann => .index mods (Pat.rename ρ false param) (renameTy? ρ false ann)
  | .empty => .empty

def ClassBody.rename (ρ : Renaming) (c : ClassBody) : ClassBody :=
  let ρ' := hide (typeParamNames c.tparams) ρ
  { c with
    tparams := renameTypeParams ρ' false c.tparams
    base := c.base.map (Heritage.rename ρ')
    implements := c.implements.map (Heritage.rename ρ')
    members := c.members.map (ClassMember.rename ρ') }

def Func.rename (ρ : Renaming) (f : Func) : Func := { f with sig := Signature.rename ρ false f.sig }

def Interface.rename (ρ : Renaming) (i : Interface) : Interface :=
  let ρ' := hide (typeParamNames i.tparams) ρ
  { i with
    id := Ident.rename ρ i.id
    tparams := renameTypeParams ρ' false i.tparams
    bases := i.bases.map (Heritage.rename ρ')
    members := renameMembers ρ' false i.members }

def Declarator.rename (ρ : Renaming) (d : Declarator) : Declarator :=
  ⟨Pat.rename ρ true d.pat, renameExpr? ρ false d.init⟩

/-- The name of an enum member is no reference, computed or not. -/
def EnumMember.rename (ρ : Renaming) (m : EnumMember) : EnumMember :=
  { m with init := renameExpr? ρ false m.init }

def ModuleName.rename (ρ : Renaming) : ModuleName → ModuleName
  | .ident id => .ident (Ident.rename ρ id)
  | .str lit => .str lit
  | .global => .global

def ImportTarget.rename (ρ : Renaming) : ImportTarget → ImportTarget
  | .entity name => .entity (name.mapHead ρ)
  | .require src => .require src

/-- A renamed name is still exported under the old one. -/
def ExportSpecifier.rename (ρ : Renaming) : ExportSpecifier → ExportSpecifier
  | .named (.word name) exported typeOnly =>
    if ρ name = name then .named (.word name) exported typeOnly
    else .named (.word (ρ name)) (some (exported.getD (.word name))) typeOnly
  | s => s

def ExportList.rename (ρ : Renaming) (d : ExportList) : ExportList :=
  if d.src.isSome then d else { d with specifiers := d.specifiers.map (ExportSpecifier.rename ρ) }

def DefaultName.rename (ρ : Renaming) : DefaultName → DefaultName
  | .named id => .named (Ident.rename ρ id)
  | .anonymous start => .anonymous start

def DefaultDecl.rename (ρ : Renaming) : DefaultDecl → DefaultDecl
  | .cls name body => .cls (DefaultName.rename ρ name) (ClassBody.rename ρ body)
  | .func name body => .func (DefaultName.rename ρ name) (Func.rename ρ body)
  | .interface body => .interface (Interface.rename ρ body)

/-- The names that a namespace body binds for itself. -/
def bodyNames (items : List Item) : List String := (items.flatMap Item.declared).map Ident.name

mutual

def Decl.rename (ρ : Renaming) : Decl → Decl
  | .cls id declare body => .cls (Ident.rename ρ id) declare (ClassBody.rename ρ body)
  | .func id declare body => .func (Ident.rename ρ id) declare (Func.rename ρ body)
  | .var kind declare decls => .var kind declare (decls.map (Declarator.rename ρ))
  | .resource isAwait decls => .resource isAwait (decls.map (Declarator.rename ρ))
  | .interface body => .interface (Interface.rename ρ body)
  | .typeAlias id declare tparams ty =>
    let ρ' := hide (typeParamNames tparams) ρ
    .typeAlias (Ident.rename ρ id) declare (renameTypeParams ρ' false tparams)
      (Ty.rename ρ' false ty)
  | .enum id declare isConst members =>
    .enum (Ident.rename ρ id) declare isConst (members.map (EnumMember.rename ρ))
  | .space declare name inner body =>
    .space declare (ModuleName.rename ρ name) inner (renameBody ρ body)

def Item.rename (ρ : Renaming) : Item → Item
  | .empty => .empty
  | .expr e => .expr (Expr.rename ρ false e)
  | .decl d => .decl (Decl.rename ρ d)
  | .importDecl d => .importDecl d
  | .importEquals d =>
    .importEquals { d with id := Ident.rename ρ d.id, target := ImportTarget.rename ρ d.target }
  | .exportDecl d => .exportDecl (Decl.rename ρ d)
  | .exportDefaultDecl d => .exportDefaultDecl (DefaultDecl.rename ρ d)
  | .exportDefaultExpr e => .exportDefaultExpr (Expr.rename ρ false e)
  | .exportList d => .exportList (ExportList.rename ρ d)
  | .exportAll d => .exportAll d
  | .exportAssign e => .exportAssign (Expr.rename ρ false e)
  | .exportAsNamespace name => .exportAsNamespace name

def renameItems (ρ : Renaming) : List Item → List Item
  | [] => []
  | i :: is => Item.rename ρ i :: renameItems ρ is

def renameBody (ρ : Renaming) : Option (List Item) → Option (List Item)
  | none => none
  | some items => some (renameItems (hide (bodyNames items) ρ) items)

end

end AmbientBundle.Syntax

namespace AmbientBundle.Rename

/-- The renaming that an environment prescribes for a file. -/
def ofEnvironment (env : Environment) (origin : Url) : Renaming :=
  fun name => (env.lookup origin name).getD name

end AmbientBundle.Rename
