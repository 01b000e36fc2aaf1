import AmbientBundle.Proofs.Syntax.Outline
import AmbientBundle.Rename.Module
/-!
Renaming keeps the outline of every piece of syntax: nothing changes but names, and where a word of
an export list does, the list says under which name it is exported.
-/
namespace AmbientBundle.Syntax

open Rename

theorem EntityName.outline_mapHead (f : String → String) (n : EntityName) :
    (n.mapHead f).outline = n.outline := rfl

theorem Ident.outline_rename (ρ : Renaming) (id : Ident) : (id.rename ρ).outline = id.outline := rfl

theorem Ident.outline_renameIf (b : Bool) (ρ : Renaming) (id : Ident) :
    (id.renameIf b ρ).outline = id.outline := by
  cases b <;> rfl

section Types

-- Under a binder a part is renamed in another way than the whole, so that the inductions are for
-- all renamings.
mutual

theorem Expr.outline_rename (ρ : Renaming) (b : Bool) (e : Expr) :
    (e.rename ρ b).outline = e.outline := by
  cases e with
  | template chunks parts => simp only [Expr.rename, Expr.outline, exprs_outline_rename ρ b parts]
  | spread e => simp only [Expr.rename, Expr.outline, Expr.outline_rename ρ b e]
  | keyed key value =>
    simp only [Expr.rename, Expr.outline, Key.outline_rename ρ b key, Expr.outline_rename ρ b value]
  | array elems => simp only [Expr.rename, Expr.outline, exprs_outline_rename ρ b elems]
  | object props => simp only [Expr.rename, Expr.outline, exprs_outline_rename ρ b props]
  | paren e => simp only [Expr.rename, Expr.outline, Expr.outline_rename ρ b e]
  | member obj optional name =>
    simp only [Expr.rename, Expr.outline, Expr.outline_rename ρ b obj]
  | index obj optional idx =>
    simp only [Expr.rename, Expr.outline, Expr.outline_rename ρ b obj, Expr.outline_rename ρ b idx]
  | call callee optional targs args =>
    simp only [Expr.rename, Expr.outline, Expr.outline_rename ρ b callee,
      tys_outline_rename ρ b targs, exprs_outline_rename ρ b args]
  | construct callee targs args =>
    simp only [Expr.rename, Expr.outline, Expr.outline_rename ρ b callee,
      tys_outline_rename ρ b targs, args_outline_rename ρ b args]
  | instantiate e targs =>
    simp only [Expr.rename, Expr.outline, Expr.outline_rename ρ b e, tys_outline_rename ρ b targs]
  | unary op e => simp only [Expr.rename, Expr.outline, Expr.outline_rename ρ b e]
  | postfixed e op => simp only [Expr.rename, Expr.outline, Expr.outline_rename ρ b e]
  | binary op left right =>
    simp only [Expr.rename, Expr.outline, Expr.outline_rename ρ b left,
      Expr.outline_rename ρ b right]
  | cond test yes no =>
    simp only [Expr.rename, Expr.outline, Expr.outline_rename ρ b test, Expr.outline_rename ρ b yes,
      Expr.outline_rename ρ b no]
  | seq es => simp only [Expr.rename, Expr.outline, exprs_outline_rename ρ b es]
  | cast op e ty =>
    simp only [Expr.rename, Expr.outline, Expr.outline_rename ρ b e, Ty.outline_rename ρ b ty]
  | _ => rfl

theorem exprs_outline_rename (ρ : Renaming) (b : Bool) (es : List Expr) :
    outlineExprs (renameExprs ρ b es) = outlineExprs es := by
  cases es with
  | nil => rfl
  | cons e es =>
    simp only [renameExprs, outlineExprs, Expr.outline_rename ρ b e, exprs_outline_rename ρ b es]

theorem args_outline_rename (ρ : Renaming) (b : Bool) (es : Option (List Expr)) :
    outlineArgs (renameArgs ρ b es) = outlineArgs es := by
  cases es with
  | none => rfl
  | some es => simp only [renameArgs, outlineArgs, exprs_outline_rename ρ b es]

theorem expr?_outline_rename (ρ : Renaming) (b : Bool) (e : Option Expr) :
    outlineExpr? (renameExpr? ρ b e) = outlineExpr? e := by
  cases e with
  | none => rfl
  | some e => simp only [renameExpr?, outlineExpr?, Expr.outline_rename ρ b e]

theorem Key.outline_rename (ρ : Renaming) (b : Bool) (k : Key) :
    (k.rename ρ b).outline = k.outline := by
  cases k with
  | computed e => simp only [Key.rename, Key.outline, Expr.outline_rename ρ b e]
  | _ => rfl

theorem Ty.outline_rename (ρ : Renaming) (b : Bool) (t : Ty) :
    (t.rename ρ b).outline = t.outline := by
  cases t with
  | template chunks parts => simp only [Ty.rename, Ty.outline, tys_outline_rename ρ b parts]
  | ref name args =>
    simp only [Ty.rename, Ty.outline, EntityName.outline_mapHead, tys_outline_rename ρ b args]
  | query name args =>
    simp only [Ty.rename, Ty.outline, EntityName.outline_mapHead, tys_outline_rename ρ b args]
  | imported arg attrs qualifier args =>
    simp only [Ty.rename, Ty.outline, tys_outline_rename ρ b args]
  | importQuery arg attrs qualifier args outer =>
    simp only [Ty.rename, Ty.outline, tys_outline_rename ρ b args, tys_outline_rename ρ b outer]
  | array elem => simp only [Ty.rename, Ty.outline, Ty.outline_rename ρ b elem]
  | tuple elems => simp only [Ty.rename, Ty.outline, tys_outline_rename ρ b elems]
  | labeled isRest label isOptional ty => simp only [Ty.rename, Ty.outline, Ty.outline_rename ρ b ty]
  | optional ty => simp only [Ty.rename, Ty.outline, Ty.outline_rename ρ b ty]
  | rest ty => simp only [Ty.rename, Ty.outline, Ty.outline_rename ρ b ty]
  | union parts => simp only [Ty.rename, Ty.outline, tys_outline_rename ρ b parts]
  | inter parts => simp only [Ty.rename, Ty.outline, tys_outline_rename ρ b parts]
  | conditional check bound yes no =>
    simp only [Ty.rename, Ty.outline, Ty.outline_rename (hide (infers bound) ρ) b check,
      Ty.outline_rename (hide (infers bound) ρ) b bound,
      Ty.outline_rename (hide (infers bound) ρ) b yes,
      Ty.outline_rename (hide (infers bound) ρ) b no]
  | infer name bound => simp only [Ty.rename, Ty.outline, ty?_outline_rename ρ b bound]
  | paren ty => simp only [Ty.rename, Ty.outline, Ty.outline_rename ρ b ty]
  | operator op ty => simp only [Ty.rename, Ty.outline, Ty.outline_rename ρ b ty]
  | indexed obj idx =>
    simp only [Ty.rename, Ty.outline, Ty.outline_rename ρ b obj, Ty.outline_rename ρ b idx]
  | mapped readonly key domain rename optional value =>
    simp only [Ty.rename, Ty.outline, Ty.outline_rename (hide [key] ρ) b domain,
      ty?_outline_rename (hide [key] ρ) b rename, ty?_outline_rename (hide [key] ρ) b value]
  | func sig => simp only [Ty.rename, Ty.outline, Signature.outline_rename ρ b sig]
  | ctor isAbstract sig => simp only [Ty.rename, Ty.outline, Signature.outline_rename ρ b sig]
  | record members => simp only [Ty.rename, Ty.outline, members_outline_rename ρ b members]
  | predicate asserts subject ty => simp only [Ty.rename, Ty.outline, ty?_outline_rename ρ b ty]
  | _ => rfl

theorem tys_outline_rename (ρ : Renaming) (b : Bool) (ts : List Ty) :
    outlineTys (renameTys ρ b ts) = outlineTys ts := by
  cases ts with
  | nil => rfl
  | cons t ts => simp only [renameTys, outlineTys, Ty.outline_rename ρ b t, tys_outline_rename ρ b ts]

theorem ty?_outline_rename (ρ : Renaming) (b : Bool) (t : Option Ty) :
    outlineTy? (renameTy? ρ b t) = outlineTy? t := by
  cases t with
  | none => rfl
  | some t => simp only [renameTy?, outlineTy?, Ty.outline_rename ρ b t]

theorem TypeParam.outline_rename (ρ : Renaming) (b : Bool) (t : TypeParam) :
    (t.rename ρ b).outline = t.outline := by
  cases t with
  | mk mods name bound default =>
    simp only [TypeParam.rename, TypeParam.outline, ty?_outline_rename ρ b bound,
      ty?_outline_rename ρ b default]

theorem typeParams_outline_rename (ρ : Renaming) (b : Bool) (ts : List TypeParam) :
    outlineTypeParams (renameTypeParams ρ b ts) = outlineTypeParams ts := by
  cases ts with
  | nil => rfl
  | cons t ts =>
    simp only [renameTypeParams, outlineTypeParams, TypeParam.outline_rename ρ b t,
      typeParams_outline_rename ρ b ts]

theorem Pat.outline_rename (ρ : Renaming) (b : Bool) (p : Pat) :
    (p.rename ρ b).outline = p.outline := by
  cases p with
  | ident id isOptional ann =>
    simp only [Pat.rename, Pat.outline, Ident.outline_renameIf, ty?_outline_rename ρ false ann]
  | array elems isOptional ann =>
    simp only [Pat.rename, Pat.outline, pats_outline_rename ρ b elems, ty?_outline_rename ρ b ann]
  | object fields isOptional ann =>
    simp only [Pat.rename, Pat.outline, fields_outline_rename ρ b fields,
      ty?_outline_rename ρ b ann]
  | rest arg ann =>
    simp only [Pat.rename, Pat.outline, Pat.outline_rename ρ b arg, ty?_outline_rename ρ b ann]
  | assign left right =>
    simp only [Pat.rename, Pat.outline, Pat.outline_rename ρ b left, Expr.outline_rename ρ b right]
  | hole => rfl

theorem pats_outline_rename (ρ : Renaming) (b : Bool) (ps : List Pat) :
    outlinePats (renamePats ρ b ps) = outlinePats ps := by
  cases ps with
  | nil => rfl
  | cons p ps =>
    simp only [renamePats, outlinePats, Pat.outline_rename ρ b p, pats_outline_rename ρ b ps]

theorem Field.outline_rename (ρ : Renaming) (b : Bool) (f : Field) :
    (f.rename ρ b).outline = f.outline := by
  cases f with
  | keyed key value =>
    simp only [Field.rename, Field.outline, Key.outline_rename ρ b key, Pat.outline_rename ρ b value]
  | short id default =>
    simp only [Field.rename, Field.outline, Ident.outline_renameIf,
      expr?_outline_rename ρ b default]
  | rest arg => simp only [Field.rename, Field.outline, Pat.outline_rename ρ b arg]

theorem fields_outline_rename (ρ : Renaming) (b : Bool) (fs : List Field) :
    outlineFields (renameFields ρ b fs) = outlineFields fs := by
  cases fs with
  | nil => rfl
  | cons f fs =>
    simp only [renameFields, outlineFields, Field.outline_rename ρ b f,
      fields_outline_rename ρ b fs]

theorem Signature.outline_rename (ρ : Renaming) (b : Bool) (s : Signature) :
    (s.rename ρ b).outline = s.outline := by
  cases s with
  | mk tparams params result =>
    simp only [Signature.rename, Signature.outline,
      typeParams_outline_rename (hide (typeParamNames tparams) ρ) b tparams,
      pats_outline_rename (hide (typeParamNames tparams) ρ) b params,
      ty?_outline_rename (hide (typeParamNames tparams) ρ) b result]

theorem Member.outline_rename (ρ : Renaming) (b : Bool) (m : Member) :
    (m.rename ρ b).outline = m.outline := by
  cases m with
  | property isReadonly key isOptional ann =>
    simp only [Member.rename, Member.outline, Key.outline_rename ρ b key,
      ty?_outline_rename ρ b ann]
  | getter key ann =>
    simp only [Member.rename, Member.outline, Key.outline_rename ρ b key,
      ty?_outline_rename ρ b ann]
  | setter key param =>
    simp only [Member.rename, Member.outline, Key.outline_rename ρ b key,
      Pat.outline_rename ρ b param]
  | method key isOptional sig =>
    simp only [Member.rename, Member.outline, Key.outline_rename ρ b key,
      Signature.outline_rename ρ b sig]
  | call sig => simp only [Member.rename, Member.outline, Signature.outline_rename ρ b sig]
  | construct sig => simp only [Member.rename, Member.outline, Signature.outline_rename ρ b sig]
  | index isReadonly param ann =>
    simp only [Member.rename, Member.outline, Pat.outline_rename ρ b param,
      ty?_outline_rename ρ b ann]

theorem members_outline_rename (ρ : Renaming) (b : Bool) (ms : List Member) :
    outlineMembers (renameMembers ρ b ms) = outlineMembers ms := by
  cases ms with
  | nil => rfl
  | cons m ms =>
    simp only [renameMembers, outlineMembers, Member.outline_rename ρ b m,
      members_outline_rename ρ b ms]

end

end Types

section Declarations

/-- The outlines of parts that are renamed one by one are those of the parts. -/
theorem map_outline_rename {α : Type} {outline rename : α → α}
    (h : ∀ x, outline (rename x) = outline x) (xs : List α) :
    (xs.map rename).map outline = xs.map outline := by
  rw [List.map_map]
  exact List.map_congr_left (fun x _ => h x)

variable (ρ : Renaming)

theorem Heritage.outline_rename (h : Heritage) : (h.rename ρ).outline = h.outline := by
  simp only [Heritage.rename, Heritage.outline, Expr.outline_rename, tys_outline_rename]

theorem CtorParam.outline_rename (p : CtorParam) : (p.rename ρ).outline = p.outline := by
  simp only [CtorParam.rename, CtorParam.outline, Pat.outline_rename]

theorem ClassMember.outline_rename (m : ClassMember) : (m.rename ρ).outline = m.outline := by
  cases m with
  | ctor mods isOptional params =>
    simp only [ClassMember.rename, ClassMember.outline,
      map_outline_rename (CtorParam.outline_rename ρ)]
  | method mods fn kind key isOptional sig =>
    simp only [ClassMember.rename, ClassMember.outline, Key.outline_rename, Signature.outline_rename]
  | property mods isAccessor key mark ann value =>
    simp only [ClassMember.rename, ClassMember.outline, Key.outline_rename, ty?_outline_rename,
      expr?_outline_rename]
  | index mods param ann =>
    simp only [ClassMember.rename, ClassMember.outline, Pat.outline_rename, ty?_outline_rename]
  | empty => rfl

theorem ClassBody.outline_rename (c : ClassBody) : (c.rename ρ).outline = c.outline := by
  have hbase (σ : Renaming) : (c.base.map (Heritage.rename σ)).map Heritage.outline =
      c.base.map Heritage.outline := by
    cases c.base <;> simp only [Option.map, Heritage.outline_rename]
  simp only [ClassBody.rename, ClassBody.outline, typeParams_outline_rename, hbase,
    map_outline_rename (Heritage.outline_rename _), map_outline_rename (ClassMember.outline_rename _)]

theorem Func.outline_rename (f : Func) : (f.rename ρ).outline = f.outline := by
  simp only [Func.rename, Func.outline, Signature.outline_rename]

theorem Interface.outline_rename (i : Interface) : (i.rename ρ).outline = i.outline := by
  simp only [Interface.rename, Interface.outline, Ident.outline_rename, typeParams_outline_rename,
    map_outline_rename (Heritage.outline_rename _), members_outline_rename]

theorem Declarator.outline_rename (d : Declarator) : (d.rename ρ).outline = d.outline := by
  simp only [Declarator.rename, Declarator.outline, Pat.outline_rename, expr?_outline_rename]

theorem EnumMember.outline_rename (m : EnumMember) : (m.rename ρ).outline = m.outline := by
  simp only [EnumMember.rename, EnumMember.outline, expr?_outline_rename]

theorem ModuleName.outline_rename (n : ModuleName) : (n.rename ρ).outline = n.outline := by
  cases n <;> rfl

theorem ImportTarget.outline_rename (t : ImportTarget) : (t.rename ρ).outline = t.outline := by
  cases t <;> rfl

/-- A word that gets another name is exported under the old one from then on. -/
theorem ExportSpecifier.outline_rename (s : ExportSpecifier) :
    (s.rename ρ).outline = s.outline := by
  cases s with
  | named orig exported typeOnly =>
    cases orig with
    | word name =>
      rw [ExportSpecifier.rename]
      split
      · rfl
      · rfl
    | str lit => rfl
  | all name => rfl

theorem ExportList.outline_rename (d : ExportList) : (d.rename ρ).outline = d.outline := by
  unfold ExportList.rename
  split
  · rfl
  · rename_i h
    simp only [ExportList.outline, h, Bool.false_eq_true, if_false,
      map_outline_rename (ExportSpecifier.outline_rename ρ)]

theorem DefaultName.outline_rename (n : DefaultName) : (n.rename ρ).outline = n.outline := by
  cases n <;> rfl

theorem DefaultDecl.outline_rename (d : DefaultDecl) : (d.rename ρ).outline = d.outline := by
  cases d with
  | cls name body =>
    simp only [DefaultDecl.rename, DefaultDecl.outline, DefaultName.outline_rename,
      ClassBody.outline_rename]
  | func name body =>
    simp only [DefaultDecl.rename, DefaultDecl.outline, DefaultName.outline_rename,
      Func.outline_rename]
  | interface body => simp only [DefaultDecl.rename, DefaultDecl.outline, Interface.outline_rename]

end Declarations

section Statements

mutual

theorem Decl.outline_rename (ρ : Renaming) (d : Decl) : (d.rename ρ).outline = d.outline := by
  cases d with
  | cls id declare body =>
    simp only [Decl.rename, Decl.outline, Ident.outline_rename, ClassBody.outline_rename]
  | func id declare body =>
    simp only [Decl.rename, Decl.outline, Ident.outline_rename, Func.outline_rename]
  | var kind declare decls =>
    simp only [Decl.rename, Decl.outline, map_outline_rename (Declarator.outline_rename ρ)]
  | resource isAwait decls =>
    simp only [Decl.rename, Decl.outline, map_outline_rename (Declarator.outline_rename ρ)]
  | interface body => simp only [Decl.rename, Decl.outline, Interface.outline_rename]
  | typeAlias id declare tparams ty =>
    simp only [Decl.rename, Decl.outline, Ident.outline_rename, typeParams_outline_rename,
      Ty.outline_rename]
  | enum id declare isConst members =>
    simp only [Decl.rename, Decl.outline, Ident.outline_rename,
      map_outline_rename (EnumMember.outline_rename ρ)]
  | space declare name inner body =>
    simp only [Decl.rename, Decl.outline, ModuleName.outline_rename, body_outline_rename ρ body]

theorem Item.outline_rename (ρ : Renaming) (i : Item) : (i.rename ρ).outline = i.outline := by
  cases i with
  | expr e => simp only [Item.rename, Item.outline, Expr.outline_rename]
  | decl d => simp only [Item.rename, Item.outline, Decl.outline_rename ρ d]
  | importEquals d =>
    simp only [Item.rename, Item.outline, Ident.outline_rename, ImportTarget.outline_rename]
  | exportDecl d => simp only [Item.rename, Item.outline, Decl.outline_rename ρ d]
  | exportDefaultDecl d => simp only [Item.rename, Item.outline, DefaultDecl.outline_rename]
  | exportDefaultExpr e => simp only [Item.rename, Item.outline, Expr.outline_rename]
  | exportList d => simp only [Item.rename, Item.outline, ExportList.outline_rename]
  | exportAssign e => simp only [Item.rename, Item.outline, Expr.outline_rename]
  | _ => rfl

theorem items_outline_rename (ρ : Renaming) (is : List Item) :
    outlineItems (renameItems ρ is) = outlineItems is := by
  cases is with
  | nil => rfl
  | cons i is =>
    simp only [renameItems, outlineItems, Item.outline_rename ρ i, items_outline_rename ρ is]

theorem body_outline_rename (ρ : Renaming) (body : Option (List Item)) :
    outlineBody (renameBody ρ body) = outlineBody body := by
  cases body with
  | none => rfl
  | some is =>
    simp only [renameBody, outlineBody, items_outline_rename (hide (bodyNames is) ρ) is]

end

end Statements

end AmbientBundle.Syntax
