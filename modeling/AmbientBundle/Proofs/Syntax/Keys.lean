import AmbientBundle.Proofs.Merge.Shown
/-!
Renaming keeps what is collected from the types of a piece of syntax, as long as the choice sees no
name that is renamed. So it keeps the import types, and so does splitting off the exports: what
is shown of a statement refers to the same modules as the statement.
-/
namespace AmbientBundle.Syntax

open Rename ImportTypes

/-- The choice sees nothing of a type that a renaming changes. -/
def Pick.Blind {α : Type} (pick : Pick α) : Prop :=
  ∀ (ρ : Renaming) (b : Bool) (t : Ty), pick (t.rename ρ b) = pick t

theorem pickKey_blind : Pick.Blind pickKey := by
  intro ρ b t
  cases t <;> rfl

theorem pickInfer_blind : Pick.Blind pickInfer := by
  intro ρ b t
  cases t <;> rfl

section Collected

variable {α : Type} {pick : Pick α} (hp : pick.Blind)

include hp

-- Most members of the two inductions use the hypothesis through each other only.
set_option linter.unusedSectionVars false

mutual

theorem Expr.collect_rename (ρ : Renaming) (b : Bool) (e : Expr) :
    (e.rename ρ b).collect pick = e.collect pick := by
  cases e with
  | ident name => rfl
  | word text => rfl
  | str lit => rfl
  | template chunks parts => simp [Expr.rename, Expr.collect, exprs_collect_rename ρ b parts]
  | hole => rfl
  | spread e => simp [Expr.rename, Expr.collect, Expr.collect_rename ρ b e]
  | keyed key value =>
    simp [Expr.rename, Expr.collect, Key.collect_rename ρ b key, Expr.collect_rename ρ b value]
  | array elems => simp [Expr.rename, Expr.collect, exprs_collect_rename ρ b elems]
  | object props => simp [Expr.rename, Expr.collect, exprs_collect_rename ρ b props]
  | paren e => simp [Expr.rename, Expr.collect, Expr.collect_rename ρ b e]
  | member obj optional name => simp [Expr.rename, Expr.collect, Expr.collect_rename ρ b obj]
  | index obj optional idx =>
    simp [Expr.rename, Expr.collect, Expr.collect_rename ρ b obj, Expr.collect_rename ρ b idx]
  | call callee optional targs args =>
    simp [Expr.rename, Expr.collect, Expr.collect_rename ρ b callee, exprs_collect_rename ρ b args,
      tys_collect_rename ρ b targs]
  | construct callee targs args =>
    simp [Expr.rename, Expr.collect, Expr.collect_rename ρ b callee, args_collect_rename ρ b args,
      tys_collect_rename ρ b targs]
  | instantiate e targs =>
    simp [Expr.rename, Expr.collect, Expr.collect_rename ρ b e, tys_collect_rename ρ b targs]
  | unary op e => simp [Expr.rename, Expr.collect, Expr.collect_rename ρ b e]
  | postfixed e op => simp [Expr.rename, Expr.collect, Expr.collect_rename ρ b e]
  | binary op left right =>
    simp [Expr.rename, Expr.collect, Expr.collect_rename ρ b left, Expr.collect_rename ρ b right]
  | cond test yes no =>
    simp [Expr.rename, Expr.collect, Expr.collect_rename ρ b test, Expr.collect_rename ρ b yes,
      Expr.collect_rename ρ b no]
  | seq es => simp [Expr.rename, Expr.collect, exprs_collect_rename ρ b es]
  | cast op e ty =>
    simp [Expr.rename, Expr.collect, Expr.collect_rename ρ b e, Ty.collect_rename ρ b ty]

theorem exprs_collect_rename (ρ : Renaming) (b : Bool) (es : List Expr) :
    collectExprs pick (renameExprs ρ b es) = collectExprs pick es := by
  cases es with
  | nil => rfl
  | cons e es =>
    simp [renameExprs, collectExprs, Expr.collect_rename ρ b e, exprs_collect_rename ρ b es]

theorem args_collect_rename (ρ : Renaming) (b : Bool) (es : Option (List Expr)) :
    collectArgs pick (renameArgs ρ b es) = collectArgs pick es := by
  cases es with
  | none => rfl
  | some es => simp [renameArgs, collectArgs, exprs_collect_rename ρ b es]

theorem expr?_collect_rename (ρ : Renaming) (b : Bool) (e : Option Expr) :
    collectExpr? pick (renameExpr? ρ b e) = collectExpr? pick e := by
  cases e with
  | none => rfl
  | some e => simp [renameExpr?, collectExpr?, Expr.collect_rename ρ b e]

theorem Key.collect_rename (ρ : Renaming) (b : Bool) (k : Key) :
    (k.rename ρ b).collect pick = k.collect pick := by
  cases k with
  | computed e => simp [Key.rename, Key.collect, Expr.collect_rename ρ b e]
  | _ => rfl

theorem Ty.collect_rename (ρ : Renaming) (b : Bool) (t : Ty) :
    (t.rename ρ b).collect pick = t.collect pick := by
  have own := hp ρ b t
  cases t with
  | word text => rfl
  | str lit => rfl
  | template chunks parts =>
    simp only [Ty.rename] at own
    simp [Ty.rename, Ty.collect, own, tys_collect_rename ρ b parts]
  | ref name args =>
    simp only [Ty.rename] at own
    simp [Ty.rename, Ty.collect, own, tys_collect_rename ρ b args]
  | query name args =>
    simp only [Ty.rename] at own
    simp [Ty.rename, Ty.collect, own, tys_collect_rename ρ b args]
  | imported arg attrs qualifier args =>
    simp only [Ty.rename] at own
    simp [Ty.rename, Ty.collect, own, tys_collect_rename ρ b args]
  | importQuery arg attrs qualifier args outer =>
    simp only [Ty.rename] at own
    simp [Ty.rename, Ty.collect, own, tys_collect_rename ρ b args, tys_collect_rename ρ b outer]
  | array elem =>
    simp only [Ty.rename] at own
    simp [Ty.rename, Ty.collect, own, Ty.collect_rename ρ b elem]
  | tuple elems =>
    simp only [Ty.rename] at own
    simp [Ty.rename, Ty.collect, own, tys_collect_rename ρ b elems]
  | labeled isRest label isOptional ty =>
    simp only [Ty.rename] at own
    simp [Ty.rename, Ty.collect, own, Ty.collect_rename ρ b ty]
  | optional ty =>
    simp only [Ty.rename] at own
    simp [Ty.rename, Ty.collect, own, Ty.collect_rename ρ b ty]
  | rest ty =>
    simp only [Ty.rename] at own
    simp [Ty.rename, Ty.collect, own, Ty.collect_rename ρ b ty]
  | union parts =>
    simp only [Ty.rename] at own
    simp [Ty.rename, Ty.collect, own, tys_collect_rename ρ b parts]
  | inter parts =>
    simp only [Ty.rename] at own
    simp [Ty.rename, Ty.collect, own, tys_collect_rename ρ b parts]
  | conditional check bound yes no =>
    simp only [Ty.rename] at own
    simp [Ty.rename, Ty.collect, own, Ty.collect_rename (hide (infers bound) ρ) b check,
      Ty.collect_rename (hide (infers bound) ρ) b bound,
      Ty.collect_rename (hide (infers bound) ρ) b yes,
      Ty.collect_rename (hide (infers bound) ρ) b no]
  | infer name bound =>
    simp only [Ty.rename] at own
    simp [Ty.rename, Ty.collect, own, ty?_collect_rename ρ b bound]
  | paren ty =>
    simp only [Ty.rename] at own
    simp [Ty.rename, Ty.collect, own, Ty.collect_rename ρ b ty]
  | operator op ty =>
    simp only [Ty.rename] at own
    simp [Ty.rename, Ty.collect, own, Ty.collect_rename ρ b ty]
  | indexed obj idx =>
    simp only [Ty.rename] at own
    simp [Ty.rename, Ty.collect, own, Ty.collect_rename ρ b obj, Ty.collect_rename ρ b idx]
  | mapped readonly key domain rename optional value =>
    simp only [Ty.rename] at own
    simp [Ty.rename, Ty.collect, own, Ty.collect_rename (hide [key] ρ) b domain,
      ty?_collect_rename (hide [key] ρ) b rename, ty?_collect_rename (hide [key] ρ) b value]
  | func sig =>
    simp only [Ty.rename] at own
    simp [Ty.rename, Ty.collect, own, Signature.collect_rename ρ b sig]
  | ctor isAbstract sig =>
    simp only [Ty.rename] at own
    simp [Ty.rename, Ty.collect, own, Signature.collect_rename ρ b sig]
  | record members =>
    simp only [Ty.rename] at own
    simp [Ty.rename, Ty.collect, own, members_collect_rename ρ b members]
  | predicate asserts subject ty =>
    simp only [Ty.rename] at own
    simp [Ty.rename, Ty.collect, own, ty?_collect_rename ρ b ty]

theorem tys_collect_rename (ρ : Renaming) (b : Bool) (ts : List Ty) :
    collectTys pick (renameTys ρ b ts) = collectTys pick ts := by
  cases ts with
  | nil => rfl
  | cons t ts => simp [renameTys, collectTys, Ty.collect_rename ρ b t, tys_collect_rename ρ b ts]

theorem ty?_collect_rename (ρ : Renaming) (b : Bool) (t : Option Ty) :
    collectTy? pick (renameTy? ρ b t) = collectTy? pick t := by
  cases t with
  | none => rfl
  | some t => simp [renameTy?, collectTy?, Ty.collect_rename ρ b t]

theorem TypeParam.collect_rename (ρ : Renaming) (b : Bool) (t : TypeParam) :
    (t.rename ρ b).collect pick = t.collect pick := by
  cases t with
  | mk mods name bound default =>
    simp [TypeParam.rename, TypeParam.collect, ty?_collect_rename ρ b bound,
      ty?_collect_rename ρ b default]

theorem typeParams_collect_rename (ρ : Renaming) (b : Bool) (ts : List TypeParam) :
    collectTypeParams pick (renameTypeParams ρ b ts) = collectTypeParams pick ts := by
  cases ts with
  | nil => rfl
  | cons t ts =>
    simp [renameTypeParams, collectTypeParams, TypeParam.collect_rename ρ b t,
      typeParams_collect_rename ρ b ts]

theorem Pat.collect_rename (ρ : Renaming) (b : Bool) (p : Pat) :
    (p.rename ρ b).collect pick = p.collect pick := by
  cases p with
  | ident id isOptional ann => simp [Pat.rename, Pat.collect, ty?_collect_rename ρ false ann]
  | hole => rfl
  | array elems isOptional ann =>
    simp [Pat.rename, Pat.collect, pats_collect_rename ρ b elems, ty?_collect_rename ρ b ann]
  | object fields isOptional ann =>
    simp [Pat.rename, Pat.collect, fields_collect_rename ρ b fields, ty?_collect_rename ρ b ann]
  | rest arg ann =>
    simp [Pat.rename, Pat.collect, Pat.collect_rename ρ b arg, ty?_collect_rename ρ b ann]
  | assign left right =>
    simp [Pat.rename, Pat.collect, Pat.collect_rename ρ b left, Expr.collect_rename ρ b right]

theorem pats_collect_rename (ρ : Renaming) (b : Bool) (ps : List Pat) :
    collectPats pick (renamePats ρ b ps) = collectPats pick ps := by
  cases ps with
  | nil => rfl
  | cons p ps => simp [renamePats, collectPats, Pat.collect_rename ρ b p,
  pats_collect_rename ρ b ps]

theorem Field.collect_rename (ρ : Renaming) (b : Bool) (f : Field) :
    (f.rename ρ b).collect pick = f.collect pick := by
  cases f with
  | keyed key value =>
    simp [Field.rename, Field.collect, Key.collect_rename ρ b key, Pat.collect_rename ρ b value]
  | short id default => simp [Field.rename, Field.collect, expr?_collect_rename ρ b default]
  | rest arg => simp [Field.rename, Field.collect, Pat.collect_rename ρ b arg]

theorem fields_collect_rename (ρ : Renaming) (b : Bool) (fs : List Field) :
    collectFields pick (renameFields ρ b fs) = collectFields pick fs := by
  cases fs with
  | nil => rfl
  | cons f fs =>
    simp [renameFields, collectFields, Field.collect_rename ρ b f, fields_collect_rename ρ b fs]

theorem Signature.collect_rename (ρ : Renaming) (b : Bool) (s : Signature) :
    (s.rename ρ b).collect pick = s.collect pick := by
  cases s with
  | mk tparams params result =>
    simp [Signature.rename, Signature.collect,
      typeParams_collect_rename (hide (typeParamNames tparams) ρ) b tparams,
      pats_collect_rename (hide (typeParamNames tparams) ρ) b params,
      ty?_collect_rename (hide (typeParamNames tparams) ρ) b result]

theorem Member.collect_rename (ρ : Renaming) (b : Bool) (m : Member) :
    (m.rename ρ b).collect pick = m.collect pick := by
  cases m with
  | property isReadonly key isOptional ann =>
    simp [Member.rename, Member.collect, Key.collect_rename ρ b key, ty?_collect_rename ρ b ann]
  | getter key ann =>
    simp [Member.rename, Member.collect, Key.collect_rename ρ b key, ty?_collect_rename ρ b ann]
  | setter key param =>
    simp [Member.rename, Member.collect, Key.collect_rename ρ b key, Pat.collect_rename ρ b param]
  | method key isOptional sig =>
    cases sig with
    | mk tparams params result =>
      simp [Member.rename, Member.collect, Signature.rename, Key.collect_rename ρ b key,
        typeParams_collect_rename (hide (typeParamNames tparams) ρ) b tparams,
        pats_collect_rename (hide (typeParamNames tparams) ρ) b params,
        ty?_collect_rename (hide (typeParamNames tparams) ρ) b result]
  | call sig =>
    cases sig with
    | mk tparams params result =>
      simp [Member.rename, Member.collect, Signature.rename,
        typeParams_collect_rename (hide (typeParamNames tparams) ρ) b tparams,
        pats_collect_rename (hide (typeParamNames tparams) ρ) b params,
        ty?_collect_rename (hide (typeParamNames tparams) ρ) b result]
  | construct sig =>
    cases sig with
    | mk tparams params result =>
      simp [Member.rename, Member.collect, Signature.rename,
        typeParams_collect_rename (hide (typeParamNames tparams) ρ) b tparams,
        pats_collect_rename (hide (typeParamNames tparams) ρ) b params,
        ty?_collect_rename (hide (typeParamNames tparams) ρ) b result]
  | index isReadonly param ann =>
    simp [Member.rename, Member.collect, Pat.collect_rename ρ b param, ty?_collect_rename ρ b ann]

theorem members_collect_rename (ρ : Renaming) (b : Bool) (ms : List Member) :
    collectMembers pick (renameMembers ρ b ms) = collectMembers pick ms := by
  cases ms with
  | nil => rfl
  | cons m ms =>
    simp [renameMembers, collectMembers, Member.collect_rename ρ b m, members_collect_rename ρ b ms]

end

theorem Heritage.collect_rename (ρ : Renaming) (h : Heritage) :
    (h.rename ρ).collect pick = h.collect pick := by
  simp [Heritage.rename, Heritage.collect, Expr.collect_rename hp, tys_collect_rename hp]

theorem ClassMember.collect_rename (ρ : Renaming) (m : ClassMember) :
    (m.rename ρ).collect pick = m.collect pick := by
  cases m with
  | ctor mods isOptional params =>
    have h : (fun p => CtorParam.collect pick (p.rename ρ)) = CtorParam.collect pick :=
      funext (fun p => Pat.collect_rename hp ρ false p.pat)
    simp only [ClassMember.rename, ClassMember.collect, List.flatMap_map, h]
  | method mods fn kind key isOptional sig =>
    simp [ClassMember.rename, ClassMember.collect, Key.collect_rename hp,
      Signature.collect_rename hp]
  | property mods isAccessor key mark ann value =>
    simp [ClassMember.rename, ClassMember.collect, Key.collect_rename hp, ty?_collect_rename hp,
      expr?_collect_rename hp]
  | index mods param ann =>
    simp [ClassMember.rename, ClassMember.collect, Pat.collect_rename hp, ty?_collect_rename hp]
  | empty => rfl

theorem ClassBody.collect_rename (ρ : Renaming) (c : ClassBody) :
    (c.rename ρ).collect pick = c.collect pick := by
  have hi : ∀ ρ : Renaming, (fun h => Heritage.collect pick (h.rename ρ)) =
      Heritage.collect pick := fun ρ => funext (Heritage.collect_rename hp ρ)
  simp only [ClassBody.rename, ClassBody.collect, List.flatMap_map, ClassMember.collect_rename hp,
    typeParams_collect_rename hp, hi, Option.toList_map]
  simp only [Heritage.rename, Expr.collect_rename hp, tys_collect_rename hp]

theorem Interface.collect_rename (ρ : Renaming) (i : Interface) :
    (i.rename ρ).collect pick = i.collect pick := by
  simp [Interface.rename, Interface.collect, List.flatMap_map, Heritage.collect_rename hp,
    typeParams_collect_rename hp, members_collect_rename hp]

theorem Declarator.collect_rename (ρ : Renaming) (d : Declarator) :
    (d.rename ρ).collect pick = d.collect pick := by
  simp [Declarator.rename, Declarator.collect, Pat.collect_rename hp, expr?_collect_rename hp]

theorem EnumMember.collect_rename (ρ : Renaming) (m : EnumMember) :
    (m.rename ρ).collect pick = m.collect pick := by
  simp [EnumMember.rename, EnumMember.collect, expr?_collect_rename hp]

theorem DefaultDecl.collect_rename (ρ : Renaming) (d : DefaultDecl) :
    (d.rename ρ).collect pick = d.collect pick := by
  cases d with
  | cls name body => exact ClassBody.collect_rename hp ρ body
  | func name body => exact Signature.collect_rename hp ρ false body.sig
  | interface body => exact Interface.collect_rename hp ρ body

mutual

theorem Decl.collect_rename (ρ : Renaming) (d : Decl) :
    (d.rename ρ).collect pick = d.collect pick := by
  cases d with
  | cls id declare body => exact ClassBody.collect_rename hp ρ body
  | func id declare body => exact Signature.collect_rename hp ρ false body.sig
  | var kind declare decls =>
    simp [Decl.rename, Decl.collect, List.flatMap_map, Declarator.collect_rename hp]
  | resource isAwait decls =>
    simp [Decl.rename, Decl.collect, List.flatMap_map, Declarator.collect_rename hp]
  | interface body => exact Interface.collect_rename hp ρ body
  | typeAlias id declare tparams ty =>
    simp [Decl.rename, Decl.collect, typeParams_collect_rename hp, Ty.collect_rename hp]
  | enum id declare isConst members =>
    simp [Decl.rename, Decl.collect, List.flatMap_map, EnumMember.collect_rename hp]
  | space declare name inner body =>
    simp [Decl.rename, Decl.collect, body_collect_rename ρ body]

theorem Item.collect_rename (ρ : Renaming) (i : Item) :
    (i.rename ρ).collect pick = i.collect pick := by
  cases i with
  | expr e => exact Expr.collect_rename hp ρ false e
  | decl d => simp [Item.rename, Item.collect, Decl.collect_rename ρ d]
  | exportDecl d => simp [Item.rename, Item.collect, Decl.collect_rename ρ d]
  | exportDefaultDecl d => exact DefaultDecl.collect_rename hp ρ d
  | exportDefaultExpr e => exact Expr.collect_rename hp ρ false e
  | exportAssign e => exact Expr.collect_rename hp ρ false e
  | _ => rfl

theorem items_collect_rename (ρ : Renaming) (is : List Item) :
    collectItems pick (renameItems ρ is) = collectItems pick is := by
  cases is with
  | nil => rfl
  | cons i is =>
    simp [renameItems, collectItems, Item.collect_rename ρ i, items_collect_rename ρ is]

theorem body_collect_rename (ρ : Renaming) (b : Option (List Item)) :
    collectBody pick (renameBody ρ b) = collectBody pick b := by
  cases b with
  | none => rfl
  | some is => simp [renameBody, collectBody, items_collect_rename (hide (bodyNames is) ρ) is]

end

end Collected

theorem collectItems_eq_flatMap {α : Type} (pick : Pick α) (is : List Item) :
    collectItems pick is = is.flatMap (Item.collect pick) := by
  induction is with
  | nil => rfl
  | cons i is ih => rw [collectItems, List.flatMap_cons, ih]

theorem mem_collectItems {α : Type} {pick : Pick α} {is : List Item} {x : α} :
    x ∈ collectItems pick is ↔ ∃ i ∈ is, x ∈ i.collect pick := by
  rw [collectItems_eq_flatMap, List.mem_flatMap]

section Modifier

open Declare

theorem Decl.keys_setModifier (declare : Bool) (d : Decl) :
    (setModifier declare d).collect pickKey = d.collect pickKey := by
  cases d with
  | space old name inner body => cases name <;> rfl
  | _ => rfl

theorem Decl.keys_ensure (declare : Bool) (d : Decl) :
    (ensure declare d).collect pickKey = d.collect pickKey :=
  ensure_keeps (Decl.keys_setModifier declare) d

@[simp] theorem Item.collect_ofDecl {α : Type} (pick : Pick α) (isExport : Bool) (d : Decl) :
    (Item.ofDecl isExport d).collect pick = d.collect pick := by
  cases isExport <;> rfl

end Modifier

end AmbientBundle.Syntax

namespace AmbientBundle.Merge

open Syntax ImportTypes

theorem keys_plainDefault (g : Url) (d : DefaultDecl) :
    (Exports.plainDefault g d).collect pickKey = d.collect pickKey := by
  cases d <;> rfl

/-- What a chunk shows of a statement holds no import type that the statement does not hold. -/
theorem keys_shownAs {cx : Context} {g : Url} {inBlock keep : Bool} {i j : Item}
    (h : ShownAs cx g inBlock keep i j) {key : ImportTypeKey} (hkey : key ∈ j.collect pickKey) :
    key ∈ i.collect pickKey := by
  cases h with
  | same => exact hkey
  | declared => simpa only [Item.collect_ofDecl, Decl.keys_ensure] using hkey
  | byDefault => simpa only [Item.collect, Decl.keys_ensure, keys_plainDefault] using hkey
  | equals => cases hkey
  | listed => cases hkey
  | listedDefault => cases hkey

/-- Renaming what is shown of a statement brings in no import type. -/
theorem keys_rename_shown (cx : Context) (origin : Url) (inBlock keep : Bool) (env : Environment)
    (ρ : Rename.Renaming) (i : Item) {key : ImportTypeKey}
    (h : key ∈ collectItems pickKey (renameItems ρ (shown cx origin inBlock keep env i))) :
    key ∈ i.collect pickKey := by
  rw [items_collect_rename pickKey_blind, collectItems_eq_flatMap] at h
  obtain ⟨j, hj, hkey⟩ := List.mem_flatMap.1 h
  exact keys_shownAs (shownAs_of_mem hj) hkey

end AmbientBundle.Merge
