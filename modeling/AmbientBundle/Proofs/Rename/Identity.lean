import AmbientBundle.ImportTypes.Link
import AmbientBundle.Rename.Module
/-!
What changes nothing: a renaming that keeps all names keeps every piece of syntax, also under
binders, and so does linking where no import type has a target.
-/
namespace AmbientBundle.Rename

theorem hide_id (names : List String) : hide names id = id := by
  funext n
  simp [hide]

end AmbientBundle.Rename

namespace AmbientBundle.Syntax

open Rename ImportTypes

section Rename

theorem EntityName.mapHead_id (n : EntityName) : n.mapHead id = n := rfl

theorem Ident.rename_id (i : Ident) : i.rename id = i := rfl

theorem Ident.renameIf_id (b : Bool) (i : Ident) : i.renameIf b id = i := by
  cases b <;> rfl

mutual

theorem Expr.rename_id (b : Bool) : ∀ e : Expr, e.rename id b = e
  | .ident _ => rfl
  | .word _ => rfl
  | .str _ => rfl
  | .template _ parts => by simp only [Expr.rename, exprs_rename_id b parts]
  | .hole => rfl
  | .spread e => by simp only [Expr.rename, Expr.rename_id b e]
  | .keyed key value => by simp only [Expr.rename, Key.rename_id b key, Expr.rename_id b value]
  | .array elems => by simp only [Expr.rename, exprs_rename_id b elems]
  | .object props => by simp only [Expr.rename, exprs_rename_id b props]
  | .paren e => by simp only [Expr.rename, Expr.rename_id b e]
  | .member obj _ _ => by simp only [Expr.rename, Expr.rename_id b obj]
  | .index obj _ idx => by simp only [Expr.rename, Expr.rename_id b obj, Expr.rename_id b idx]
  | .call callee _ targs args => by
    simp only [Expr.rename, Expr.rename_id b callee, tys_rename_id b targs,
      exprs_rename_id b args]
  | .construct callee targs args => by
    simp only [Expr.rename, Expr.rename_id b callee, tys_rename_id b targs, args_rename_id b args]
  | .instantiate e targs => by simp only [Expr.rename, Expr.rename_id b e, tys_rename_id b targs]
  | .unary _ e => by simp only [Expr.rename, Expr.rename_id b e]
  | .postfixed e _ => by simp only [Expr.rename, Expr.rename_id b e]
  | .binary _ left right => by
    simp only [Expr.rename, Expr.rename_id b left, Expr.rename_id b right]
  | .cond test yes no => by
    simp only [Expr.rename, Expr.rename_id b test, Expr.rename_id b yes, Expr.rename_id b no]
  | .seq es => by simp only [Expr.rename, exprs_rename_id b es]
  | .cast _ e ty => by simp only [Expr.rename, Expr.rename_id b e, Ty.rename_id b ty]

theorem exprs_rename_id (b : Bool) : ∀ es : List Expr, renameExprs id b es = es
  | [] => rfl
  | e :: es => by simp only [renameExprs, Expr.rename_id b e, exprs_rename_id b es]

theorem args_rename_id (b : Bool) : ∀ es : Option (List Expr), renameArgs id b es = es
  | none => rfl
  | some es => by simp only [renameArgs, exprs_rename_id b es]

theorem expr?_rename_id (b : Bool) : ∀ e : Option Expr, renameExpr? id b e = e
  | none => rfl
  | some e => by simp only [renameExpr?, Expr.rename_id b e]

theorem Key.rename_id (b : Bool) : ∀ k : Key, k.rename id b = k
  | .computed e => by simp only [Key.rename, Expr.rename_id b e]
  | .word _ => rfl
  | .str _ => rfl
  | .number _ => rfl
  | .hidden _ => rfl

theorem Ty.rename_id (b : Bool) : ∀ t : Ty, t.rename id b = t
  | .word _ => rfl
  | .str _ => rfl
  | .template _ parts => by simp only [Ty.rename, tys_rename_id b parts]
  | .ref _ args => by simp only [Ty.rename, EntityName.mapHead_id, tys_rename_id b args]
  | .query _ args => by simp only [Ty.rename, EntityName.mapHead_id, tys_rename_id b args]
  | .imported _ _ _ args => by simp only [Ty.rename, tys_rename_id b args]
  | .importQuery _ _ _ args outer => by
    simp only [Ty.rename, tys_rename_id b args, tys_rename_id b outer]
  | .array elem => by simp only [Ty.rename, Ty.rename_id b elem]
  | .tuple elems => by simp only [Ty.rename, tys_rename_id b elems]
  | .labeled _ _ _ ty => by simp only [Ty.rename, id_eq, ite_self, Ty.rename_id b ty]
  | .optional ty => by simp only [Ty.rename, Ty.rename_id b ty]
  | .rest ty => by simp only [Ty.rename, Ty.rename_id b ty]
  | .union parts => by simp only [Ty.rename, tys_rename_id b parts]
  | .inter parts => by simp only [Ty.rename, tys_rename_id b parts]
  | .conditional check bound yes no => by
    simp only [Ty.rename, hide_id, Ty.rename_id b check, Ty.rename_id b bound, Ty.rename_id b yes,
      Ty.rename_id b no]
  | .infer _ bound => by simp only [Ty.rename, ty?_rename_id b bound]
  | .paren ty => by simp only [Ty.rename, Ty.rename_id b ty]
  | .operator _ ty => by simp only [Ty.rename, Ty.rename_id b ty]
  | .indexed obj idx => by simp only [Ty.rename, Ty.rename_id b obj, Ty.rename_id b idx]
  | .mapped _ _ domain rename _ value => by
    simp only [Ty.rename, hide_id, Ty.rename_id b domain, ty?_rename_id b rename,
      ty?_rename_id b value]
  | .func sig => by simp only [Ty.rename, Signature.rename_id b sig]
  | .ctor _ sig => by simp only [Ty.rename, Signature.rename_id b sig]
  | .record members => by simp only [Ty.rename, members_rename_id b members]
  | .predicate _ _ ty => by simp only [Ty.rename, ty?_rename_id b ty]

theorem tys_rename_id (b : Bool) : ∀ ts : List Ty, renameTys id b ts = ts
  | [] => rfl
  | t :: ts => by simp only [renameTys, Ty.rename_id b t, tys_rename_id b ts]

theorem ty?_rename_id (b : Bool) : ∀ t : Option Ty, renameTy? id b t = t
  | none => rfl
  | some t => by simp only [renameTy?, Ty.rename_id b t]

theorem TypeParam.rename_id (b : Bool) : ∀ t : TypeParam, t.rename id b = t
  | .mk _ _ bound default => by
    simp only [TypeParam.rename, ty?_rename_id b bound, ty?_rename_id b default]

theorem typeParams_rename_id (b : Bool) : ∀ ts : List TypeParam, renameTypeParams id b ts = ts
  | [] => rfl
  | t :: ts => by simp only [renameTypeParams, TypeParam.rename_id b t, typeParams_rename_id b ts]

theorem Pat.rename_id (b : Bool) : ∀ p : Pat, p.rename id b = p
  | .ident _ _ ann => by simp only [Pat.rename, Ident.renameIf_id, ty?_rename_id false ann]
  | .hole => rfl
  | .array elems _ ann => by simp only [Pat.rename, pats_rename_id b elems, ty?_rename_id b ann]
  | .object fields _ ann => by
    simp only [Pat.rename, fields_rename_id b fields, ty?_rename_id b ann]
  | .rest arg ann => by simp only [Pat.rename, Pat.rename_id b arg, ty?_rename_id b ann]
  | .assign left right => by simp only [Pat.rename, Pat.rename_id b left, Expr.rename_id b right]

theorem pats_rename_id (b : Bool) : ∀ ps : List Pat, renamePats id b ps = ps
  | [] => rfl
  | p :: ps => by simp only [renamePats, Pat.rename_id b p, pats_rename_id b ps]

theorem Field.rename_id (b : Bool) : ∀ f : Field, f.rename id b = f
  | .keyed key value => by simp only [Field.rename, Key.rename_id b key, Pat.rename_id b value]
  | .short _ default => by
    simp only [Field.rename, Ident.renameIf_id, expr?_rename_id b default]
  | .rest arg => by simp only [Field.rename, Pat.rename_id b arg]

theorem fields_rename_id (b : Bool) : ∀ fs : List Field, renameFields id b fs = fs
  | [] => rfl
  | f :: fs => by simp only [renameFields, Field.rename_id b f, fields_rename_id b fs]

theorem Signature.rename_id (b : Bool) : ∀ s : Signature, s.rename id b = s
  | .mk tparams params result => by
    simp only [Signature.rename, hide_id, typeParams_rename_id b tparams, pats_rename_id b params,
      ty?_rename_id b result]

theorem Member.rename_id (b : Bool) : ∀ m : Member, m.rename id b = m
  | .property _ key _ ann => by
    simp only [Member.rename, Key.rename_id b key, ty?_rename_id b ann]
  | .getter key ann => by simp only [Member.rename, Key.rename_id b key, ty?_rename_id b ann]
  | .setter key param => by simp only [Member.rename, Key.rename_id b key, Pat.rename_id b param]
  | .method key _ sig => by
    simp only [Member.rename, Key.rename_id b key, Signature.rename_id b sig]
  | .call sig => by simp only [Member.rename, Signature.rename_id b sig]
  | .construct sig => by simp only [Member.rename, Signature.rename_id b sig]
  | .index _ param ann => by simp only [Member.rename, Pat.rename_id b param, ty?_rename_id b ann]

theorem members_rename_id (b : Bool) : ∀ ms : List Member, renameMembers id b ms = ms
  | [] => rfl
  | m :: ms => by simp only [renameMembers, Member.rename_id b m, members_rename_id b ms]

end

theorem Heritage.rename_id (h : Heritage) : h.rename id = h := by
  simp only [Heritage.rename, Expr.rename_id, tys_rename_id]

theorem CtorParam.rename_id (p : CtorParam) : p.rename id = p := by
  simp only [CtorParam.rename, Pat.rename_id]

theorem ClassMember.rename_id (m : ClassMember) : m.rename id = m := by
  cases m with
  | ctor mods isOptional params =>
    simp only [ClassMember.rename, List.map_id'' CtorParam.rename_id]
  | method mods fn kind key isOptional sig =>
    simp only [ClassMember.rename, Key.rename_id, Signature.rename_id]
  | property mods isAccessor key mark ann value =>
    simp only [ClassMember.rename, Key.rename_id, ty?_rename_id, expr?_rename_id]
  | index mods param ann => simp only [ClassMember.rename, Pat.rename_id, ty?_rename_id]
  | empty => rfl

theorem ClassBody.rename_id (c : ClassBody) : c.rename id = c := by
  have hbase : c.base.map (Heritage.rename id) = c.base := by
    cases c.base <;> simp only [Option.map, Heritage.rename_id]
  simp only [ClassBody.rename, hide_id, typeParams_rename_id, hbase,
    List.map_id'' Heritage.rename_id, List.map_id'' ClassMember.rename_id]

theorem Func.rename_id (f : Func) : f.rename id = f := by
  simp only [Func.rename, Signature.rename_id]

theorem interface_rename_id (i : Interface) : i.rename id = i := by
  simp only [Interface.rename, hide_id, Ident.rename_id, typeParams_rename_id,
    List.map_id'' Heritage.rename_id, members_rename_id]

theorem Declarator.rename_id (d : Declarator) : d.rename id = d := by
  simp only [Declarator.rename, Pat.rename_id, expr?_rename_id]

theorem EnumMember.rename_id (m : EnumMember) : m.rename id = m := by
  simp only [EnumMember.rename, expr?_rename_id]

theorem ModuleName.rename_id (n : ModuleName) : n.rename id = n := by
  cases n <;> rfl

theorem ImportTarget.rename_id (t : ImportTarget) : t.rename id = t := by
  cases t <;> rfl

theorem ExportSpecifier.rename_id (s : ExportSpecifier) : s.rename id = s := by
  cases s with
  | named orig exported typeOnly => cases orig <;> simp [ExportSpecifier.rename]
  | all name => rfl

theorem ExportList.rename_id (d : ExportList) : d.rename id = d := by
  simp only [ExportList.rename, List.map_id'' ExportSpecifier.rename_id, ite_self]

theorem DefaultName.rename_id (n : DefaultName) : n.rename id = n := by
  cases n <;> rfl

theorem DefaultDecl.rename_id (d : DefaultDecl) : d.rename id = d := by
  cases d with
  | cls name body => simp only [DefaultDecl.rename, DefaultName.rename_id, ClassBody.rename_id]
  | func name body => simp only [DefaultDecl.rename, DefaultName.rename_id, Func.rename_id]
  | interface body => simp only [DefaultDecl.rename, interface_rename_id]

mutual

theorem Decl.rename_id : ∀ d : Decl, d.rename id = d
  | .cls _ _ body => by simp only [Decl.rename, Ident.rename_id, ClassBody.rename_id body]
  | .func _ _ body => by simp only [Decl.rename, Ident.rename_id, Func.rename_id body]
  | .var _ _ decls => by simp only [Decl.rename, List.map_id'' Declarator.rename_id decls]
  | .resource _ decls => by simp only [Decl.rename, List.map_id'' Declarator.rename_id decls]
  | .interface body => by simp only [Decl.rename, interface_rename_id body]
  | .typeAlias _ _ tparams ty => by
    simp only [Decl.rename, hide_id, Ident.rename_id, typeParams_rename_id false tparams,
      Ty.rename_id false ty]
  | .enum _ _ _ members => by
    simp only [Decl.rename, Ident.rename_id, List.map_id'' EnumMember.rename_id members]
  | .space _ name _ body => by
    simp only [Decl.rename, ModuleName.rename_id name, body_rename_id body]

theorem Item.rename_id : ∀ i : Item, i.rename id = i
  | .empty => rfl
  | .expr e => by simp only [Item.rename, Expr.rename_id false e]
  | .decl d => by simp only [Item.rename, Decl.rename_id d]
  | .importDecl _ => rfl
  | .importEquals d => by
    simp only [Item.rename, Ident.rename_id, ImportTarget.rename_id d.target]
  | .exportDecl d => by simp only [Item.rename, Decl.rename_id d]
  | .exportDefaultDecl d => by simp only [Item.rename, DefaultDecl.rename_id d]
  | .exportDefaultExpr e => by simp only [Item.rename, Expr.rename_id false e]
  | .exportList d => by simp only [Item.rename, ExportList.rename_id d]
  | .exportAll _ => rfl
  | .exportAssign e => by simp only [Item.rename, Expr.rename_id false e]
  | .exportAsNamespace _ => rfl

theorem items_rename_id : ∀ is : List Item, renameItems id is = is
  | [] => rfl
  | i :: is => by simp only [renameItems, Item.rename_id i, items_rename_id is]

theorem body_rename_id : ∀ b : Option (List Item), renameBody id b = b
  | none => rfl
  | some is => by simp only [renameBody, hide_id, items_rename_id is]

end

end Rename

section Link

/-- No import type has a target. -/
abbrev noTargets : Targets := fun _ => none

mutual

theorem Expr.link_none : ∀ e : Expr, e.link noTargets = e
  | .ident _ => rfl
  | .word _ => rfl
  | .str _ => rfl
  | .template _ parts => by simp only [Expr.link, exprs_link_none parts]
  | .hole => rfl
  | .spread e => by simp only [Expr.link, Expr.link_none e]
  | .keyed key value => by simp only [Expr.link, Key.link_none key, Expr.link_none value]
  | .array elems => by simp only [Expr.link, exprs_link_none elems]
  | .object props => by simp only [Expr.link, exprs_link_none props]
  | .paren e => by simp only [Expr.link, Expr.link_none e]
  | .member obj _ _ => by simp only [Expr.link, Expr.link_none obj]
  | .index obj _ idx => by simp only [Expr.link, Expr.link_none obj, Expr.link_none idx]
  | .call callee _ targs args => by
    simp only [Expr.link, Expr.link_none callee, tys_link_none targs, exprs_link_none args]
  | .construct callee targs args => by
    simp only [Expr.link, Expr.link_none callee, tys_link_none targs, args_link_none args]
  | .instantiate e targs => by simp only [Expr.link, Expr.link_none e, tys_link_none targs]
  | .unary _ e => by simp only [Expr.link, Expr.link_none e]
  | .postfixed e _ => by simp only [Expr.link, Expr.link_none e]
  | .binary _ left right => by simp only [Expr.link, Expr.link_none left, Expr.link_none right]
  | .cond test yes no => by
    simp only [Expr.link, Expr.link_none test, Expr.link_none yes, Expr.link_none no]
  | .seq es => by simp only [Expr.link, exprs_link_none es]
  | .cast _ e ty => by simp only [Expr.link, Expr.link_none e, Ty.link_none ty]

theorem exprs_link_none : ∀ es : List Expr, linkExprs noTargets es = es
  | [] => rfl
  | e :: es => by simp only [linkExprs, Expr.link_none e, exprs_link_none es]

theorem args_link_none : ∀ es : Option (List Expr), linkArgs noTargets es = es
  | none => rfl
  | some es => by simp only [linkArgs, exprs_link_none es]

theorem expr?_link_none : ∀ e : Option Expr, linkExpr? noTargets e = e
  | none => rfl
  | some e => by simp only [linkExpr?, Expr.link_none e]

theorem Key.link_none : ∀ k : Key, k.link noTargets = k
  | .computed e => by simp only [Key.link, Expr.link_none e]
  | .word _ => rfl
  | .str _ => rfl
  | .number _ => rfl
  | .hidden _ => rfl

theorem Ty.link_none : ∀ t : Ty, t.link noTargets = t
  | .word _ => rfl
  | .str _ => rfl
  | .template _ parts => by simp only [Ty.link, tys_link_none parts]
  | .ref _ args => by simp only [Ty.link, tys_link_none args]
  | .query _ args => by simp only [Ty.link, tys_link_none args]
  | .imported _ _ _ args => by simp only [Ty.link, linkImported, tys_link_none args]
  | .importQuery _ _ _ args outer => by
    simp only [Ty.link, linkQuery, tys_link_none args, tys_link_none outer]
  | .array elem => by simp only [Ty.link, Ty.link_none elem]
  | .tuple elems => by simp only [Ty.link, tys_link_none elems]
  | .labeled _ _ _ ty => by simp only [Ty.link, Ty.link_none ty]
  | .optional ty => by simp only [Ty.link, Ty.link_none ty]
  | .rest ty => by simp only [Ty.link, Ty.link_none ty]
  | .union parts => by simp only [Ty.link, tys_link_none parts]
  | .inter parts => by simp only [Ty.link, tys_link_none parts]
  | .conditional check bound yes no => by
    simp only [Ty.link, Ty.link_none check, Ty.link_none bound, Ty.link_none yes,
      Ty.link_none no]
  | .infer _ bound => by simp only [Ty.link, ty?_link_none bound]
  | .paren ty => by simp only [Ty.link, Ty.link_none ty]
  | .operator _ ty => by simp only [Ty.link, Ty.link_none ty]
  | .indexed obj idx => by simp only [Ty.link, Ty.link_none obj, Ty.link_none idx]
  | .mapped _ _ domain rename _ value => by
    simp only [Ty.link, Ty.link_none domain, ty?_link_none rename, ty?_link_none value]
  | .func sig => by simp only [Ty.link, Signature.link_none sig]
  | .ctor _ sig => by simp only [Ty.link, Signature.link_none sig]
  | .record members => by simp only [Ty.link, members_link_none members]
  | .predicate _ _ ty => by simp only [Ty.link, ty?_link_none ty]

theorem tys_link_none : ∀ ts : List Ty, linkTys noTargets ts = ts
  | [] => rfl
  | t :: ts => by simp only [linkTys, Ty.link_none t, tys_link_none ts]

theorem ty?_link_none : ∀ t : Option Ty, linkTy? noTargets t = t
  | none => rfl
  | some t => by simp only [linkTy?, Ty.link_none t]

theorem TypeParam.link_none : ∀ t : TypeParam, t.link noTargets = t
  | .mk _ _ bound default => by
    simp only [TypeParam.link, ty?_link_none bound, ty?_link_none default]

theorem typeParams_link_none : ∀ ts : List TypeParam, linkTypeParams noTargets ts = ts
  | [] => rfl
  | t :: ts => by simp only [linkTypeParams, TypeParam.link_none t, typeParams_link_none ts]

theorem Pat.link_none : ∀ p : Pat, p.link noTargets = p
  | .ident _ _ ann => by simp only [Pat.link, ty?_link_none ann]
  | .hole => rfl
  | .array elems _ ann => by simp only [Pat.link, pats_link_none elems, ty?_link_none ann]
  | .object fields _ ann => by simp only [Pat.link, fields_link_none fields, ty?_link_none ann]
  | .rest arg ann => by simp only [Pat.link, Pat.link_none arg, ty?_link_none ann]
  | .assign left right => by simp only [Pat.link, Pat.link_none left, Expr.link_none right]

theorem pats_link_none : ∀ ps : List Pat, linkPats noTargets ps = ps
  | [] => rfl
  | p :: ps => by simp only [linkPats, Pat.link_none p, pats_link_none ps]

theorem Field.link_none : ∀ f : Field, f.link noTargets = f
  | .keyed key value => by simp only [Field.link, Key.link_none key, Pat.link_none value]
  | .short _ default => by simp only [Field.link, expr?_link_none default]
  | .rest arg => by simp only [Field.link, Pat.link_none arg]

theorem fields_link_none : ∀ fs : List Field, linkFields noTargets fs = fs
  | [] => rfl
  | f :: fs => by simp only [linkFields, Field.link_none f, fields_link_none fs]

theorem Signature.link_none : ∀ s : Signature, s.link noTargets = s
  | .mk tparams params result => by
    simp only [Signature.link, typeParams_link_none tparams, pats_link_none params,
      ty?_link_none result]

theorem Member.link_none : ∀ m : Member, m.link noTargets = m
  | .property _ key _ ann => by simp only [Member.link, Key.link_none key, ty?_link_none ann]
  | .getter key ann => by simp only [Member.link, Key.link_none key, ty?_link_none ann]
  | .setter key param => by simp only [Member.link, Key.link_none key, Pat.link_none param]
  | .method key _ sig => by simp only [Member.link, Key.link_none key, Signature.link_none sig]
  | .call sig => by simp only [Member.link, Signature.link_none sig]
  | .construct sig => by simp only [Member.link, Signature.link_none sig]
  | .index _ param ann => by simp only [Member.link, Pat.link_none param, ty?_link_none ann]

theorem members_link_none : ∀ ms : List Member, linkMembers noTargets ms = ms
  | [] => rfl
  | m :: ms => by simp only [linkMembers, Member.link_none m, members_link_none ms]

end

theorem Heritage.link_none (h : Heritage) : h.link noTargets = h := by
  simp only [Heritage.link, Expr.link_none, tys_link_none]

theorem CtorParam.link_none (p : CtorParam) : p.link noTargets = p := by
  simp only [CtorParam.link, Pat.link_none]

theorem ClassMember.link_none (m : ClassMember) : m.link noTargets = m := by
  cases m with
  | ctor mods isOptional params =>
    simp only [ClassMember.link, List.map_id'' CtorParam.link_none]
  | method mods fn kind key isOptional sig =>
    simp only [ClassMember.link, Key.link_none, Signature.link_none]
  | property mods isAccessor key mark ann value =>
    simp only [ClassMember.link, Key.link_none, ty?_link_none, expr?_link_none]
  | index mods param ann => simp only [ClassMember.link, Pat.link_none, ty?_link_none]
  | empty => rfl

theorem ClassBody.link_none (c : ClassBody) : c.link noTargets = c := by
  have hbase : c.base.map (Heritage.link noTargets) = c.base := by
    cases c.base <;> simp only [Option.map, Heritage.link_none]
  simp only [ClassBody.link, typeParams_link_none, hbase, List.map_id'' Heritage.link_none,
    List.map_id'' ClassMember.link_none]

theorem Func.link_none (f : Func) : f.link noTargets = f := by
  simp only [Func.link, Signature.link_none]

theorem Interface.link_none (i : Interface) : i.link noTargets = i := by
  simp only [Interface.link, typeParams_link_none, List.map_id'' Heritage.link_none,
    members_link_none]

theorem Declarator.link_none (d : Declarator) : d.link noTargets = d := by
  simp only [Declarator.link, Pat.link_none, expr?_link_none]

theorem EnumMember.link_none (m : EnumMember) : m.link noTargets = m := by
  simp only [EnumMember.link, Key.link_none, expr?_link_none]

theorem DefaultDecl.link_none (d : DefaultDecl) : d.link noTargets = d := by
  cases d with
  | cls name body => simp only [DefaultDecl.link, ClassBody.link_none]
  | func name body => simp only [DefaultDecl.link, Func.link_none]
  | interface body => simp only [DefaultDecl.link, Interface.link_none]

mutual

theorem Decl.link_none : ∀ d : Decl, d.link noTargets = d
  | .cls _ _ body => by simp only [Decl.link, ClassBody.link_none body]
  | .func _ _ body => by simp only [Decl.link, Func.link_none body]
  | .var _ _ decls => by simp only [Decl.link, List.map_id'' Declarator.link_none decls]
  | .resource _ decls => by simp only [Decl.link, List.map_id'' Declarator.link_none decls]
  | .interface body => by simp only [Decl.link, Interface.link_none body]
  | .typeAlias _ _ tparams ty => by
    simp only [Decl.link, typeParams_link_none tparams, Ty.link_none ty]
  | .enum _ _ _ members => by simp only [Decl.link, List.map_id'' EnumMember.link_none members]
  | .space _ _ _ body => by simp only [Decl.link, body_link_none body]

theorem Item.link_none : ∀ i : Item, i.link noTargets = i
  | .empty => rfl
  | .expr e => by simp only [Item.link, Expr.link_none e]
  | .decl d => by simp only [Item.link, Decl.link_none d]
  | .importDecl _ => rfl
  | .importEquals _ => rfl
  | .exportDecl d => by simp only [Item.link, Decl.link_none d]
  | .exportDefaultDecl d => by simp only [Item.link, DefaultDecl.link_none d]
  | .exportDefaultExpr e => by simp only [Item.link, Expr.link_none e]
  | .exportList _ => rfl
  | .exportAll _ => rfl
  | .exportAssign e => by simp only [Item.link, Expr.link_none e]
  | .exportAsNamespace _ => rfl

theorem items_link_none : ∀ is : List Item, linkItems noTargets is = is
  | [] => rfl
  | i :: is => by simp only [linkItems, Item.link_none i, items_link_none is]

theorem body_link_none : ∀ b : Option (List Item), linkBody noTargets b = b
  | none => rfl
  | some is => by simp only [linkBody, items_link_none is]

end

end Link

end AmbientBundle.Syntax
