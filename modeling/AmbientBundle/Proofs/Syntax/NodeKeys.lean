import AmbientBundle.Proofs.Syntax.Nodes
/-!
What the import types among the nodes of a piece of syntax refer to: nothing but what is collected
from the piece.
-/
namespace AmbientBundle.Syntax

open ImportTypes Rename

/-- What an import type refers to. -/
def Node.key? : Node → Option ImportTypeKey
  | .ty (.imported arg _ qualifier _) => some (keyOf arg qualifier)
  | .ty (.importQuery arg _ qualifier _ _) => some (keyOf arg qualifier)
  | _ => none

def keysOf (spots : List Spot) : List ImportTypeKey := spots.filterMap (fun s => s.node.key?)

@[simp]
theorem keysOf_nil : keysOf [] = [] := rfl

@[simp]
theorem keysOf_cons (s : Spot) (spots : List Spot) :
    keysOf (s :: spots) = s.node.key?.toList ++ keysOf spots := by
  cases h : s.node.key? <;> simp [keysOf, h]

@[simp]
theorem keysOf_append (spots spots' : List Spot) :
    keysOf (spots ++ spots') = keysOf spots ++ keysOf spots' := List.filterMap_append

-- The order is not the same: what is collected comes with parameters in front of type parameters.
mutual

theorem Expr.keys_spots (a : List String) (e : Expr) :
    ∀ key ∈ keysOf (e.spots a), key ∈ e.collect pickKey := by
  cases e with
  | template chunks parts =>
    simp +contextual [Expr.spots, Expr.collect, Node.key?, exprs_keys_spots a parts]
  | spread e => simp +contextual [Expr.spots, Expr.collect, Node.key?, Expr.keys_spots a e]
  | keyed key value =>
    simp +contextual [Expr.spots, Expr.collect, Node.key?, or_imp, Key.keys_spots a key,
      Expr.keys_spots a value]
  | array elems => simp +contextual [Expr.spots, Expr.collect, Node.key?, exprs_keys_spots a elems]
  | object props => simp +contextual [Expr.spots, Expr.collect, Node.key?, exprs_keys_spots a props]
  | paren e => simp +contextual [Expr.spots, Expr.collect, Node.key?, Expr.keys_spots a e]
  | member obj optional name =>
    simp +contextual [Expr.spots, Expr.collect, Node.key?, Expr.keys_spots a obj]
  | index obj optional idx =>
    simp +contextual [Expr.spots, Expr.collect, Node.key?, or_imp, Expr.keys_spots a obj,
      Expr.keys_spots a idx]
  | call callee optional targs args =>
    simp +contextual [Expr.spots, Expr.collect, Node.key?, or_imp, Expr.keys_spots a callee,
      tys_keys_spots a targs, exprs_keys_spots a args]
  | construct callee targs args =>
    simp +contextual [Expr.spots, Expr.collect, Node.key?, or_imp, Expr.keys_spots a callee,
      tys_keys_spots a targs, args_keys_spots a args]
  | instantiate e targs =>
    simp +contextual [Expr.spots, Expr.collect, Node.key?, or_imp, Expr.keys_spots a e,
      tys_keys_spots a targs]
  | unary op e => simp +contextual [Expr.spots, Expr.collect, Node.key?, Expr.keys_spots a e]
  | postfixed e op => simp +contextual [Expr.spots, Expr.collect, Node.key?, Expr.keys_spots a e]
  | binary op left right =>
    simp +contextual [Expr.spots, Expr.collect, Node.key?, or_imp, Expr.keys_spots a left,
      Expr.keys_spots a right]
  | cond test yes no =>
    simp +contextual [Expr.spots, Expr.collect, Node.key?, or_imp, Expr.keys_spots a test,
      Expr.keys_spots a yes, Expr.keys_spots a no]
  | seq es => simp +contextual [Expr.spots, Expr.collect, Node.key?, exprs_keys_spots a es]
  | cast op e ty =>
    simp +contextual [Expr.spots, Expr.collect, Node.key?, or_imp, Expr.keys_spots a e,
      Ty.keys_spots a ty]
  | _ => simp [Expr.spots, Node.key?]

theorem exprs_keys_spots (a : List String) (es : List Expr) :
    ∀ key ∈ keysOf (exprsSpots a es), key ∈ collectExprs pickKey es := by
  cases es with
  | nil => simp [exprsSpots]
  | cons e es =>
    simp +contextual [exprsSpots, collectExprs, or_imp, Expr.keys_spots a e, exprs_keys_spots a es]

theorem args_keys_spots (a : List String) (es : Option (List Expr)) :
    ∀ key ∈ keysOf (argsSpots a es), key ∈ collectArgs pickKey es := by
  cases es with
  | none => simp [argsSpots]
  | some es => simpa [argsSpots, collectArgs] using exprs_keys_spots a es

theorem expr?_keys_spots (a : List String) (e : Option Expr) :
    ∀ key ∈ keysOf (expr?Spots a e), key ∈ collectExpr? pickKey e := by
  cases e with
  | none => simp [expr?Spots]
  | some e => simpa [expr?Spots, collectExpr?] using Expr.keys_spots a e

theorem Key.keys_spots (a : List String) (k : Key) :
    ∀ key ∈ keysOf (k.spots a), key ∈ k.collect pickKey := by
  cases k with
  | computed e => simp +contextual [Key.spots, Key.collect, Node.key?, Expr.keys_spots a e]
  | _ => simp [Key.spots, Node.key?]

theorem Ty.keys_spots (a : List String) (t : Ty) :
    ∀ key ∈ keysOf (t.spots a), key ∈ t.collect pickKey := by
  cases t with
  | template chunks parts =>
    simp +contextual [Ty.spots, Ty.collect, Pick.at, pickKey, Node.key?, tys_keys_spots a parts]
  | ref name args =>
    simp +contextual [Ty.spots, Ty.collect, Pick.at, pickKey, Node.key?, tys_keys_spots a args]
  | query name args =>
    simp +contextual [Ty.spots, Ty.collect, Pick.at, pickKey, Node.key?, tys_keys_spots a args]
  | imported arg attrs qualifier args =>
    simp +contextual [Ty.spots, Ty.collect, Pick.at, pickKey, Node.key?, or_imp,
      tys_keys_spots a args]
  | importQuery arg attrs qualifier args outer =>
    cases hempty : outer.isEmpty
    all_goals
      simp +contextual [Ty.spots, Ty.collect, Pick.at, pickKey, Node.key?, hempty, or_imp,
        tys_keys_spots a args, tys_keys_spots a outer]
  | array elem =>
    simp +contextual [Ty.spots, Ty.collect, Pick.at, pickKey, Node.key?, Ty.keys_spots a elem]
  | tuple elems =>
    simp +contextual [Ty.spots, Ty.collect, Pick.at, pickKey, Node.key?, tys_keys_spots a elems]
  | labeled isRest label isOptional ty =>
    simp +contextual [Ty.spots, Ty.collect, Pick.at, pickKey, Node.key?, Ty.keys_spots a ty]
  | optional ty =>
    simp +contextual [Ty.spots, Ty.collect, Pick.at, pickKey, Node.key?, Ty.keys_spots a ty]
  | rest ty =>
    simp +contextual [Ty.spots, Ty.collect, Pick.at, pickKey, Node.key?, Ty.keys_spots a ty]
  | union parts =>
    simp +contextual [Ty.spots, Ty.collect, Pick.at, pickKey, Node.key?, tys_keys_spots a parts]
  | inter parts =>
    simp +contextual [Ty.spots, Ty.collect, Pick.at, pickKey, Node.key?, tys_keys_spots a parts]
  | conditional check bound yes no =>
    simp +contextual [Ty.spots, Ty.collect, Pick.at, pickKey, Node.key?, or_imp,
      Ty.keys_spots (infers bound ++ a) check, Ty.keys_spots (infers bound ++ a) bound,
      Ty.keys_spots (infers bound ++ a) yes, Ty.keys_spots (infers bound ++ a) no]
  | infer name bound =>
    simp +contextual [Ty.spots, Ty.collect, Pick.at, pickKey, Node.key?, ty?_keys_spots a bound]
  | paren ty =>
    simp +contextual [Ty.spots, Ty.collect, Pick.at, pickKey, Node.key?, Ty.keys_spots a ty]
  | operator op ty =>
    simp +contextual [Ty.spots, Ty.collect, Pick.at, pickKey, Node.key?, Ty.keys_spots a ty]
  | indexed obj idx =>
    simp +contextual [Ty.spots, Ty.collect, Pick.at, pickKey, Node.key?, or_imp,
      Ty.keys_spots a obj, Ty.keys_spots a idx]
  | mapped readonly key domain rename optional value =>
    simp +contextual [Ty.spots, Ty.collect, Pick.at, pickKey, Node.key?, or_imp,
      Ty.keys_spots (key :: a) domain, ty?_keys_spots (key :: a) rename,
      ty?_keys_spots (key :: a) value]
  | func sig =>
    simp +contextual [Ty.spots, Ty.collect, Pick.at, pickKey, Node.key?, Signature.keys_spots a sig]
  | ctor isAbstract sig =>
    simp +contextual [Ty.spots, Ty.collect, Pick.at, pickKey, Node.key?, Signature.keys_spots a sig]
  | record members =>
    simp +contextual [Ty.spots, Ty.collect, Pick.at, pickKey, Node.key?,
      members_keys_spots a members]
  | predicate asserts subject ty =>
    simp +contextual [Ty.spots, Ty.collect, Pick.at, pickKey, Node.key?, ty?_keys_spots a ty]
  | _ => simp [Ty.spots, Node.key?]

theorem tys_keys_spots (a : List String) (ts : List Ty) :
    ∀ key ∈ keysOf (tysSpots a ts), key ∈ collectTys pickKey ts := by
  cases ts with
  | nil => simp [tysSpots]
  | cons t ts =>
    simp +contextual [tysSpots, collectTys, or_imp, Ty.keys_spots a t, tys_keys_spots a ts]

theorem ty?_keys_spots (a : List String) (t : Option Ty) :
    ∀ key ∈ keysOf (ty?Spots a t), key ∈ collectTy? pickKey t := by
  cases t with
  | none => simp [ty?Spots]
  | some t => simpa [ty?Spots, collectTy?] using Ty.keys_spots a t

theorem TypeParam.keys_spots (a : List String) (t : TypeParam) :
    ∀ key ∈ keysOf (t.spots a), key ∈ t.collect pickKey := by
  cases t with
  | mk mods name bound default =>
    simp +contextual [TypeParam.spots, TypeParam.collect, Node.key?, or_imp, ty?_keys_spots a bound,
      ty?_keys_spots a default]

theorem typeParams_keys_spots (a : List String) (ts : List TypeParam) :
    ∀ key ∈ keysOf (typeParamsSpots a ts), key ∈ collectTypeParams pickKey ts := by
  cases ts with
  | nil => simp [typeParamsSpots]
  | cons t ts =>
    simp +contextual [typeParamsSpots, collectTypeParams, or_imp, TypeParam.keys_spots a t,
      typeParams_keys_spots a ts]

theorem Pat.keys_spots (a : List String) (p : Pat) :
    ∀ key ∈ keysOf (p.spots a), key ∈ p.collect pickKey := by
  cases p with
  | ident id isOptional ann =>
    simp +contextual [Pat.spots, Pat.collect, Node.key?, ty?_keys_spots a ann]
  | hole => simp [Pat.spots, Node.key?]
  | array elems isOptional ann =>
    simp +contextual [Pat.spots, Pat.collect, Node.key?, or_imp, pats_keys_spots a elems,
      ty?_keys_spots a ann]
  | object fields isOptional ann =>
    simp +contextual [Pat.spots, Pat.collect, Node.key?, or_imp, fields_keys_spots a fields,
      ty?_keys_spots a ann]
  | rest arg ann =>
    simp +contextual [Pat.spots, Pat.collect, Node.key?, or_imp, Pat.keys_spots a arg,
      ty?_keys_spots a ann]
  | assign left right =>
    simp +contextual [Pat.spots, Pat.collect, Node.key?, or_imp, Pat.keys_spots a left,
      Expr.keys_spots a right]

theorem pats_keys_spots (a : List String) (ps : List Pat) :
    ∀ key ∈ keysOf (patsSpots a ps), key ∈ collectPats pickKey ps := by
  cases ps with
  | nil => simp [patsSpots]
  | cons p ps =>
    simp +contextual [patsSpots, collectPats, or_imp, Pat.keys_spots a p, pats_keys_spots a ps]

theorem Field.keys_spots (a : List String) (f : Field) :
    ∀ key ∈ keysOf (f.spots a), key ∈ f.collect pickKey := by
  cases f with
  | keyed key value =>
    simp +contextual [Field.spots, Field.collect, Node.key?, or_imp, Key.keys_spots a key,
      Pat.keys_spots a value]
  | short id default =>
    simp +contextual [Field.spots, Field.collect, Node.key?, expr?_keys_spots a default]
  | rest arg => simp +contextual [Field.spots, Field.collect, Node.key?, Pat.keys_spots a arg]

theorem fields_keys_spots (a : List String) (fs : List Field) :
    ∀ key ∈ keysOf (fieldsSpots a fs), key ∈ collectFields pickKey fs := by
  cases fs with
  | nil => simp [fieldsSpots]
  | cons f fs =>
    simp +contextual [fieldsSpots, collectFields, or_imp, Field.keys_spots a f,
      fields_keys_spots a fs]

theorem Signature.keys_spots (a : List String) (s : Signature) :
    ∀ key ∈ keysOf (s.spots a), key ∈ s.collect pickKey := by
  cases s with
  | mk tparams params result =>
    simp +contextual [Signature.spots, Signature.collect, Node.key?, or_imp,
      typeParams_keys_spots (typeParamNames tparams ++ a) tparams,
      pats_keys_spots (typeParamNames tparams ++ a) params,
      ty?_keys_spots (typeParamNames tparams ++ a) result]

theorem Member.keys_spots (a : List String) (m : Member) :
    ∀ key ∈ keysOf (m.spots a), key ∈ m.collect pickKey := by
  cases m with
  | property isReadonly key isOptional ann =>
    simp +contextual [Member.spots, Member.collect, Node.key?, or_imp, Key.keys_spots a key,
      ty?_keys_spots a ann]
  | getter key ann =>
    simp +contextual [Member.spots, Member.collect, Node.key?, or_imp, Key.keys_spots a key,
      ty?_keys_spots a ann]
  | setter key param =>
    simp +contextual [Member.spots, Member.collect, Node.key?, or_imp, Key.keys_spots a key,
      Pat.keys_spots a param]
  | method key isOptional sig =>
    have hsig := Signature.keys_spots a sig
    cases sig with
    | mk tparams params result =>
      simp only [Signature.collect, List.mem_append] at hsig
      intro k hk
      simp only [Member.spots, keysOf_cons, keysOf_append, Node.key?, Option.toList_none,
        List.nil_append, List.mem_append] at hk
      have hparts := hk.imp (Key.keys_spots a key k) (hsig k)
      simpa only [Member.collect, List.mem_append, or_assoc, or_comm, or_left_comm] using hparts
  | call sig =>
    have hsig := Signature.keys_spots a sig
    cases sig with
    | mk tparams params result =>
      simpa [Member.spots, Member.collect, Signature.collect, Node.key?, or_comm] using hsig
  | construct sig =>
    have hsig := Signature.keys_spots a sig
    cases sig with
    | mk tparams params result =>
      simpa [Member.spots, Member.collect, Signature.collect, Node.key?, or_comm] using hsig
  | index isReadonly param ann =>
    simp +contextual [Member.spots, Member.collect, Node.key?, or_imp, Pat.keys_spots a param,
      ty?_keys_spots a ann]

theorem members_keys_spots (a : List String) (ms : List Member) :
    ∀ key ∈ keysOf (membersSpots a ms), key ∈ collectMembers pickKey ms := by
  cases ms with
  | nil => simp [membersSpots]
  | cons m ms =>
    simp +contextual [membersSpots, collectMembers, or_imp, Member.keys_spots a m,
      members_keys_spots a ms]

end

/-- Parts that are looked at one by one. -/
theorem flatMap_keys_spots {α : Type} {spots : α → List Spot} {collect : α → List ImportTypeKey}
    (h : ∀ x, ∀ key ∈ keysOf (spots x), key ∈ collect x) (parts : List α) :
    ∀ key ∈ keysOf (parts.flatMap spots), key ∈ parts.flatMap collect := by
  induction parts with
  | nil => simp
  | cons x parts ih =>
    intro key hkey
    rw [List.flatMap_cons, keysOf_append, List.mem_append] at hkey
    rw [List.flatMap_cons, List.mem_append]
    exact hkey.imp (h x key) (ih key)

theorem Heritage.keys_spots (a : List String) (h : Heritage) :
    ∀ key ∈ keysOf (h.spots a), key ∈ h.collect pickKey := by
  simp +contextual [Heritage.spots, Heritage.collect, Node.key?, or_imp, Expr.keys_spots a h.expr,
    tys_keys_spots a h.args]

theorem CtorParam.keys_spots (a : List String) (p : CtorParam) :
    ∀ key ∈ keysOf (p.spots a), key ∈ p.collect pickKey := by
  simpa [CtorParam.spots, CtorParam.collect, Node.key?] using Pat.keys_spots a p.pat

theorem ClassMember.keys_spots (a : List String) (m : ClassMember) :
    ∀ key ∈ keysOf (m.spots a), key ∈ m.collect pickKey := by
  cases m with
  | ctor mods isOptional params => exact flatMap_keys_spots (CtorParam.keys_spots a) params
  | method mods fn kind key isOptional sig =>
    simp +contextual [ClassMember.spots, ClassMember.collect, Node.key?, or_imp,
      Key.keys_spots a key, Signature.keys_spots a sig]
  | property mods isAccessor key mark ann value =>
    simp +contextual [ClassMember.spots, ClassMember.collect, Node.key?, or_imp,
      Key.keys_spots a key, ty?_keys_spots a ann, expr?_keys_spots a value]
  | index mods param ann =>
    simp +contextual [ClassMember.spots, ClassMember.collect, Node.key?, or_imp,
      Pat.keys_spots a param, ty?_keys_spots a ann]
  | empty => simp [ClassMember.spots, Node.key?]

theorem ClassBody.keys_spots (a : List String) (c : ClassBody) :
    ∀ key ∈ keysOf (c.spots a), key ∈ c.collect pickKey := by
  let inner := typeParamNames c.tparams ++ a
  have htparams := typeParams_keys_spots inner c.tparams
  have himplements := flatMap_keys_spots (Heritage.keys_spots inner) c.implements
  have hmembers := flatMap_keys_spots (ClassMember.keys_spots inner) c.members
  have hbase : ∀ h, c.base = some h → ∀ key ∈ keysOf (h.spots inner),
      key ∈ h.expr.collect pickKey ∨ key ∈ collectTys pickKey h.args :=
    fun h _ key hkey => List.mem_append.1 (Heritage.keys_spots inner h key hkey)
  intro key hkey
  simp only [ClassBody.spots, keysOf_cons, keysOf_append, Node.key?, Option.toList_none,
    List.nil_append, List.mem_append] at hkey
  simp only [ClassBody.collect, List.mem_append]
  rcases hkey with ((hkey | hkey) | hkey) | hkey
  · exact Or.inl (Or.inl (Or.inr (htparams key hkey)))
  · cases hb : c.base with
    | none => simp [hb] at hkey
    | some h =>
      rw [hb, Option.toList_some, List.flatMap_singleton] at hkey
      simp only [Option.toList_some, List.flatMap_singleton]
      rcases hbase h hb key hkey with he | ha
      · exact Or.inl (Or.inl (Or.inl (Or.inr he)))
      · exact Or.inl (Or.inr ha)
  · exact Or.inr (himplements key hkey)
  · exact Or.inl (Or.inl (Or.inl (Or.inl (hmembers key hkey))))

theorem Func.keys_spots (a : List String) (f : Func) :
    ∀ key ∈ keysOf (f.spots a), key ∈ f.sig.collect pickKey := by
  simpa [Func.spots, Node.key?] using Signature.keys_spots a f.sig

theorem Interface.keys_spots (a : List String) (i : Interface) :
    ∀ key ∈ keysOf (i.spots a), key ∈ i.collect pickKey := by
  let inner := typeParamNames i.tparams ++ a
  have hbases := flatMap_keys_spots (Heritage.keys_spots inner) i.bases
  intro key hkey
  simp only [Interface.spots, keysOf_cons, keysOf_append, Node.key?, Option.toList_none,
    List.nil_append, List.mem_append] at hkey
  simp only [Interface.collect, List.mem_append]
  exact hkey.imp (Or.imp (typeParams_keys_spots inner i.tparams key) (hbases key))
    (members_keys_spots inner i.members key)

theorem Declarator.keys_spots (a : List String) (d : Declarator) :
    ∀ key ∈ keysOf (d.spots a), key ∈ d.collect pickKey := by
  simp +contextual [Declarator.spots, Declarator.collect, Node.key?, or_imp,
    Pat.keys_spots a d.pat, expr?_keys_spots a d.init]

theorem EnumMember.keys_spots (a : List String) (m : EnumMember) :
    ∀ key ∈ keysOf (m.spots a), key ∈ m.collect pickKey := by
  simp +contextual [EnumMember.spots, EnumMember.collect, Node.key?, or_imp,
    Key.keys_spots a m.key, expr?_keys_spots a m.init]

theorem DefaultDecl.keys_spots (a : List String) (d : DefaultDecl) :
    ∀ key ∈ keysOf (d.spots a), key ∈ d.collect pickKey := by
  cases d with
  | cls name body => exact ClassBody.keys_spots a body
  | func name body => exact Func.keys_spots a body
  | interface body => exact Interface.keys_spots a body

mutual

theorem Decl.keys_spots (a : List String) (d : Decl) :
    ∀ key ∈ keysOf (d.spots a), key ∈ d.collect pickKey := by
  cases d with
  | cls id declare body => exact ClassBody.keys_spots a body
  | func id declare body => exact Func.keys_spots a body
  | var kind declare decls => exact flatMap_keys_spots (Declarator.keys_spots a) decls
  | resource isAwait decls => exact flatMap_keys_spots (Declarator.keys_spots a) decls
  | interface body => exact Interface.keys_spots a body
  | typeAlias id declare tparams ty =>
    simp +contextual [Decl.spots, Decl.collect, Node.key?, or_imp,
      typeParams_keys_spots (typeParamNames tparams ++ a) tparams,
      Ty.keys_spots (typeParamNames tparams ++ a) ty]
  | enum id declare isConst members => exact flatMap_keys_spots (EnumMember.keys_spots a) members
  | space declare name inner body =>
    simp +contextual [Decl.spots, Decl.collect, Node.key?, body_keys_spots a body]

theorem Item.keys_spots (a : List String) (i : Item) :
    ∀ key ∈ keysOf (i.spots a), key ∈ i.collect pickKey := by
  cases i with
  | expr e => exact Expr.keys_spots a e
  | decl d => simp +contextual [Item.spots, Item.collect, Node.key?, Decl.keys_spots a d]
  | exportDecl d => simp +contextual [Item.spots, Item.collect, Node.key?, Decl.keys_spots a d]
  | exportDefaultDecl d => exact DefaultDecl.keys_spots a d
  | exportDefaultExpr e => exact Expr.keys_spots a e
  | exportAssign e => exact Expr.keys_spots a e
  | _ => simp [Item.spots, Node.key?]

theorem items_keys_spots (a : List String) (is : List Item) :
    ∀ key ∈ keysOf (itemsSpots a is), key ∈ collectItems pickKey is := by
  cases is with
  | nil => simp [itemsSpots]
  | cons i is =>
    simp +contextual [itemsSpots, collectItems, or_imp, Item.keys_spots a i,
      items_keys_spots a is]

theorem body_keys_spots (a : List String) (body : Option (List Item)) :
    ∀ key ∈ keysOf (bodySpots a body), key ∈ collectBody pickKey body := by
  cases body with
  | none => simp [bodySpots]
  | some items =>
    simp only [bodySpots, collectBody]
    exact items_keys_spots _ items

end

end AmbientBundle.Syntax
