import AmbientBundle.ImportTypes.Link
import AmbientBundle.Proofs.Syntax.NodeKeys
import Mathlib.Data.List.Forall2
/-!
Linking import types node by node: where an import type stands whose target is known, the reference
or the other specifier takes its place, and all other nodes stay what they are.
-/
namespace AmbientBundle.Syntax

open ImportTypes Rename

/-- The node that linking puts in the place of another one. -/
def Node.link (τ : Targets) : Node → Node
  | .ty (.imported arg attrs qualifier args) => .ty (linkImported τ arg attrs qualifier args)
  | .ty (.importQuery arg attrs qualifier args outer) =>
    .ty (linkQuery τ arg attrs qualifier (linkTys τ args) outer)
  | n => n

/-- What takes the place of a node: where an import type has a binding for its target, a reference
that begins with the binding's name and goes on as the import did; where it has another specifier,
the import from there. A module without a name behind it becomes the type of the binding. Arguments
that an import keeps behind `typeof`, although they do not count, are linked in turn. -/
inductive Node.Becomes (τ : Targets) : Node → Node → Prop where
  | reference {arg : StrLit} {attrs : Option Attributes} {q : EntityName} {args : List Ty}
      {v : String} (h : τ (keyOf arg (some q)) = some (.binding v)) :
      Becomes τ (.ty (.imported arg attrs (some q) args)) (.ty (.ref ⟨v, q.tail⟩ args))
  | space {arg : StrLit} {attrs : Option Attributes} {args : List Ty} {v : String}
      (h : τ (keyOf arg none) = some (.binding v)) :
      Becomes τ (.ty (.imported arg attrs none args)) (.ty (.query ⟨v, []⟩ args))
  | query {arg : StrLit} {attrs : Option Attributes} {qualifier : Option EntityName}
      {args outer : List Ty} {v : String}
      (h : τ (keyOf arg qualifier) = some (.binding v)) :
      Becomes τ (.ty (.importQuery arg attrs qualifier args outer))
        (.ty (.query ⟨v, (qualifier.map EntityName.tail).getD []⟩
          (if outer.isEmpty then linkTys τ args else outer)))
  | placed {arg : StrLit} {attrs : Option Attributes} {qualifier : Option EntityName}
      {args : List Ty} {text : String} (h : τ (keyOf arg qualifier) = some (.specifier text)) :
      Becomes τ (.ty (.imported arg attrs qualifier args))
        (.ty (.imported (StrLit.made text) attrs qualifier args))
  | placedQuery {arg : StrLit} {attrs : Option Attributes} {qualifier : Option EntityName}
      {args outer : List Ty} {text : String}
      (h : τ (keyOf arg qualifier) = some (.specifier text)) :
      Becomes τ (.ty (.importQuery arg attrs qualifier args outer))
        (.ty (.importQuery (StrLit.made text) attrs qualifier (linkTys τ args) outer))
  | left {arg : StrLit} {attrs : Option Attributes} {qualifier : Option EntityName}
      {args : List Ty} (h : τ (keyOf arg qualifier) = none) :
      Becomes τ (.ty (.imported arg attrs qualifier args))
        (.ty (.imported arg attrs qualifier args))
  | leftQuery {arg : StrLit} {attrs : Option Attributes} {qualifier : Option EntityName}
      {args outer : List Ty} (h : τ (keyOf arg qualifier) = none) :
      Becomes τ (.ty (.importQuery arg attrs qualifier args outer))
        (.ty (.importQuery arg attrs qualifier (linkTys τ args) outer))
  | same {n : Node} (h : n.key? = none) : Becomes τ n n

theorem Node.becomes_link (τ : Targets) (n : Node) : n.Becomes τ (n.link τ) := by
  cases n with
  | ty t =>
    cases t with
    | imported arg attrs qualifier args =>
      simp only [Node.link, linkImported]
      split
      · rename_i v hτ
        cases qualifier with
        | none => exact .space hτ
        | some q => exact .reference hτ
      · rename_i text hτ
        exact .placed hτ
      · rename_i hτ
        exact .left hτ
    | importQuery arg attrs qualifier args outer =>
      simp only [Node.link, linkQuery]
      split
      · rename_i v hτ
        cases qualifier with
        | none => exact .query hτ
        | some q => exact .query hτ
      · rename_i text hτ
        exact .placedQuery hτ
      · rename_i hτ
        exact .leftQuery hτ
    | _ => exact .same rfl
  | _ => exact .same rfl

section Blanks

variable (τ : Targets)

@[simp]
theorem blanks_isEmpty {α : Type} [Inhabited α] (parts : List α) :
    (blanks parts).isEmpty = parts.isEmpty := by
  cases parts <;> rfl

@[simp]
theorem blanks_map {α : Type} [Inhabited α] (f : α → α) (parts : List α) :
    blanks (parts.map f) = blanks parts := by
  simp [blanks, Function.comp_def]

/-- What is made of a list part by part has as many placeholders. -/
theorem blanks_partwise {α : Type} [Inhabited α] {f : List α → List α} (hnil : f [] = [])
    (hcons : ∀ x xs, ∃ y, f (x :: xs) = y :: f xs) (parts : List α) :
    blanks (f parts) = blanks parts := by
  induction parts with
  | nil => rw [hnil]
  | cons x xs ih =>
    obtain ⟨y, hy⟩ := hcons x xs
    rw [hy]
    exact congrArg (default :: ·) ih

@[simp]
theorem blank?_map {α : Type} [Inhabited α] (f : α → α) (part : Option α) :
    blank? (part.map f) = blank? part := by
  cases part <;> rfl

@[simp]
theorem blanks_linkExprs (es : List Expr) : blanks (linkExprs τ es) = blanks es :=
  blanks_partwise rfl (fun _ _ => ⟨_, rfl⟩) es

@[simp]
theorem blanks_linkTys (ts : List Ty) : blanks (linkTys τ ts) = blanks ts :=
  blanks_partwise rfl (fun _ _ => ⟨_, rfl⟩) ts

@[simp]
theorem isEmpty_linkTys (ts : List Ty) : (linkTys τ ts).isEmpty = ts.isEmpty := by
  cases ts <;> rfl

/-- A placeholder is no import type. -/
@[simp]
theorem linkTys_blanks (ts : List Ty) : linkTys τ (blanks ts) = blanks ts := by
  induction ts with
  | nil => rfl
  | cons t ts ih => simpa [linkTys, blanks, default, Ty.link] using ih

@[simp]
theorem blanks_linkTypeParams (ts : List TypeParam) : blanks (linkTypeParams τ ts) = blanks ts :=
  blanks_partwise rfl (fun _ _ => ⟨_, rfl⟩) ts

@[simp]
theorem blanks_linkPats (ps : List Pat) : blanks (linkPats τ ps) = blanks ps :=
  blanks_partwise rfl (fun _ _ => ⟨_, rfl⟩) ps

@[simp]
theorem blanks_linkFields (fs : List Field) : blanks (linkFields τ fs) = blanks fs :=
  blanks_partwise rfl (fun _ _ => ⟨_, rfl⟩) fs

@[simp]
theorem blanks_linkMembers (ms : List Member) : blanks (linkMembers τ ms) = blanks ms :=
  blanks_partwise rfl (fun _ _ => ⟨_, rfl⟩) ms

@[simp]
theorem blanks_linkItems (is : List Item) : blanks (linkItems τ is) = blanks is :=
  blanks_partwise rfl (fun _ _ => ⟨_, rfl⟩) is

@[simp]
theorem blanks_linkArgs (es : Option (List Expr)) : (linkArgs τ es).map blanks = es.map blanks := by
  cases es <;> simp [linkArgs]

@[simp]
theorem blanks_linkBody (body : Option (List Item)) :
    (linkBody τ body).map blanks = body.map blanks := by
  cases body <;> simp [linkBody]

@[simp]
theorem blank?_linkTy? (t : Option Ty) : blank? (linkTy? τ t) = blank? t := by
  cases t <;> rfl

@[simp]
theorem blank?_linkExpr? (e : Option Expr) : blank? (linkExpr? τ e) = blank? e := by
  cases e <;> rfl

end Blanks

section Spots

variable (τ : Targets)

/-- What linking makes of the nodes of a piece of syntax. -/
def linkAll (spots : List Spot) : List Node := spots.map (fun s => s.node.link τ)

@[simp]
theorem linkAll_nil : linkAll τ [] = [] := rfl

@[simp]
theorem linkAll_cons (s : Spot) (spots : List Spot) :
    linkAll τ (s :: spots) = s.node.link τ :: linkAll τ spots := rfl

@[simp]
theorem linkAll_append (spots spots' : List Spot) :
    linkAll τ (spots ++ spots') = linkAll τ spots ++ linkAll τ spots' := List.map_append

-- The binders around a part play no role for its nodes, so the two places need not be the same. In
-- a conditional type they may differ: what `infer` binds in arguments that are dropped is gone.
mutual

theorem Expr.spots_link (a b : List String) (e : Expr) :
    ((e.link τ).spots b).map Spot.node = linkAll τ (e.spots a) := by
  cases e with
  | template chunks parts =>
    simp [Expr.link, Expr.spots, Node.link, exprs_spots_link a b parts]
  | spread e => simp [Expr.link, Expr.spots, Node.link, Expr.spots_link a b e]
  | keyed key value =>
    simp [Expr.link, Expr.spots, Node.link, Key.spots_link a b key, Expr.spots_link a b value]
  | array elems => simp [Expr.link, Expr.spots, Node.link, exprs_spots_link a b elems]
  | object props => simp [Expr.link, Expr.spots, Node.link, exprs_spots_link a b props]
  | paren e => simp [Expr.link, Expr.spots, Node.link, Expr.spots_link a b e]
  | member obj optional name => simp [Expr.link, Expr.spots, Node.link, Expr.spots_link a b obj]
  | index obj optional idx =>
    simp [Expr.link, Expr.spots, Node.link, Expr.spots_link a b obj, Expr.spots_link a b idx]
  | call callee optional targs args =>
    simp [Expr.link, Expr.spots, Node.link, Expr.spots_link a b callee, tys_spots_link a b targs,
      exprs_spots_link a b args]
  | construct callee targs args =>
    simp [Expr.link, Expr.spots, Node.link, Expr.spots_link a b callee, tys_spots_link a b targs,
      args_spots_link a b args]
  | instantiate e targs =>
    simp [Expr.link, Expr.spots, Node.link, Expr.spots_link a b e, tys_spots_link a b targs]
  | unary op e => simp [Expr.link, Expr.spots, Node.link, Expr.spots_link a b e]
  | postfixed e op => simp [Expr.link, Expr.spots, Node.link, Expr.spots_link a b e]
  | binary op left right =>
    simp [Expr.link, Expr.spots, Node.link, Expr.spots_link a b left, Expr.spots_link a b right]
  | cond test yes no =>
    simp [Expr.link, Expr.spots, Node.link, Expr.spots_link a b test, Expr.spots_link a b yes,
      Expr.spots_link a b no]
  | seq es => simp [Expr.link, Expr.spots, Node.link, exprs_spots_link a b es]
  | cast op e ty =>
    simp [Expr.link, Expr.spots, Node.link, Expr.spots_link a b e, Ty.spots_link a b ty]
  | _ => simp [Expr.link, Expr.spots, Node.link]

theorem exprs_spots_link (a b : List String) (es : List Expr) :
    (exprsSpots b (linkExprs τ es)).map Spot.node = linkAll τ (exprsSpots a es) := by
  cases es with
  | nil => rfl
  | cons e es =>
    simp [linkExprs, exprsSpots, Expr.spots_link a b e, exprs_spots_link a b es]

theorem args_spots_link (a b : List String) (es : Option (List Expr)) :
    (argsSpots b (linkArgs τ es)).map Spot.node = linkAll τ (argsSpots a es) := by
  cases es with
  | none => rfl
  | some es => simpa [linkArgs, argsSpots] using exprs_spots_link a b es

theorem expr?_spots_link (a b : List String) (e : Option Expr) :
    (expr?Spots b (linkExpr? τ e)).map Spot.node = linkAll τ (expr?Spots a e) := by
  cases e with
  | none => rfl
  | some e => simpa [linkExpr?, expr?Spots] using Expr.spots_link a b e

theorem Key.spots_link (a b : List String) (k : Key) :
    ((k.link τ).spots b).map Spot.node = linkAll τ (k.spots a) := by
  cases k with
  | computed e => simp [Key.link, Key.spots, Node.link, Expr.spots_link a b e]
  | _ => simp [Key.link, Key.spots, Node.link]

theorem Ty.spots_link (a b : List String) (t : Ty) :
    ((t.link τ).spots b).map Spot.node = linkAll τ (t.spots a) := by
  cases t with
  | template chunks parts => simp [Ty.link, Ty.spots, Node.link, tys_spots_link a b parts]
  | ref name args => simp [Ty.link, Ty.spots, Node.link, tys_spots_link a b args]
  | query name args => simp [Ty.link, Ty.spots, Node.link, tys_spots_link a b args]
  | imported arg attrs qualifier args =>
    have hargs := tys_spots_link a b args
    simp only [Ty.link, Ty.spots, linkAll_cons, Node.link, linkImported]
    split
    · split <;> simp [Ty.spots, hargs]
    · simp [Ty.spots, hargs]
    · simp [Ty.spots, hargs]
  | importQuery arg attrs qualifier args outer =>
    have hargs := tys_spots_link a b args
    have houter := tys_spots_link a b outer
    cases hempty : outer.isEmpty
    all_goals
      simp only [Ty.link, Ty.spots, linkQuery, hempty]
      split <;> simp [Ty.spots, Node.link, linkQuery, *]
  | array elem => simp [Ty.link, Ty.spots, Node.link, Ty.spots_link a b elem]
  | tuple elems => simp [Ty.link, Ty.spots, Node.link, tys_spots_link a b elems]
  | labeled isRest label isOptional ty =>
    simp [Ty.link, Ty.spots, Node.link, Ty.spots_link a b ty]
  | optional ty => simp [Ty.link, Ty.spots, Node.link, Ty.spots_link a b ty]
  | rest ty => simp [Ty.link, Ty.spots, Node.link, Ty.spots_link a b ty]
  | union parts => simp [Ty.link, Ty.spots, Node.link, tys_spots_link a b parts]
  | inter parts => simp [Ty.link, Ty.spots, Node.link, tys_spots_link a b parts]
  | conditional check bound yes no =>
    simp [Ty.link, Ty.spots, Node.link,
      Ty.spots_link (infers bound ++ a) (infers (bound.link τ) ++ b) check,
      Ty.spots_link (infers bound ++ a) (infers (bound.link τ) ++ b) bound,
      Ty.spots_link (infers bound ++ a) (infers (bound.link τ) ++ b) yes,
      Ty.spots_link (infers bound ++ a) (infers (bound.link τ) ++ b) no]
  | infer name bound => simp [Ty.link, Ty.spots, Node.link, ty?_spots_link a b bound]
  | paren ty => simp [Ty.link, Ty.spots, Node.link, Ty.spots_link a b ty]
  | operator op ty => simp [Ty.link, Ty.spots, Node.link, Ty.spots_link a b ty]
  | indexed obj idx =>
    simp [Ty.link, Ty.spots, Node.link, Ty.spots_link a b obj, Ty.spots_link a b idx]
  | mapped readonly key domain rename optional value =>
    simp [Ty.link, Ty.spots, Node.link, Ty.spots_link (key :: a) (key :: b) domain,
      ty?_spots_link (key :: a) (key :: b) rename, ty?_spots_link (key :: a) (key :: b) value]
  | func sig => simp [Ty.link, Ty.spots, Node.link, Signature.spots_link a b sig]
  | ctor isAbstract sig => simp [Ty.link, Ty.spots, Node.link, Signature.spots_link a b sig]
  | record members => simp [Ty.link, Ty.spots, Node.link, members_spots_link a b members]
  | predicate asserts subject ty =>
    simp [Ty.link, Ty.spots, Node.link, ty?_spots_link a b ty]
  | _ => simp [Ty.link, Ty.spots, Node.link]

theorem tys_spots_link (a b : List String) (ts : List Ty) :
    (tysSpots b (linkTys τ ts)).map Spot.node = linkAll τ (tysSpots a ts) := by
  cases ts with
  | nil => rfl
  | cons t ts => simp [linkTys, tysSpots, Ty.spots_link a b t, tys_spots_link a b ts]

theorem ty?_spots_link (a b : List String) (t : Option Ty) :
    (ty?Spots b (linkTy? τ t)).map Spot.node = linkAll τ (ty?Spots a t) := by
  cases t with
  | none => rfl
  | some t => simpa [linkTy?, ty?Spots] using Ty.spots_link a b t

theorem TypeParam.spots_link (a b : List String) (t : TypeParam) :
    ((t.link τ).spots b).map Spot.node = linkAll τ (t.spots a) := by
  cases t with
  | mk mods name bound default =>
    simp [TypeParam.link, TypeParam.spots, Node.link, ty?_spots_link a b bound,
      ty?_spots_link a b default]

theorem typeParams_spots_link (a b : List String) (ts : List TypeParam) :
    (typeParamsSpots b (linkTypeParams τ ts)).map Spot.node =
      linkAll τ (typeParamsSpots a ts) := by
  cases ts with
  | nil => rfl
  | cons t ts =>
    simp [linkTypeParams, typeParamsSpots, TypeParam.spots_link a b t,
      typeParams_spots_link a b ts]

theorem Pat.spots_link (a b : List String) (p : Pat) :
    ((p.link τ).spots b).map Spot.node = linkAll τ (p.spots a) := by
  cases p with
  | ident id isOptional ann => simp [Pat.link, Pat.spots, Node.link, ty?_spots_link a b ann]
  | hole => simp [Pat.link, Pat.spots, Node.link]
  | array elems isOptional ann =>
    simp [Pat.link, Pat.spots, Node.link, pats_spots_link a b elems, ty?_spots_link a b ann]
  | object fields isOptional ann =>
    simp [Pat.link, Pat.spots, Node.link, fields_spots_link a b fields, ty?_spots_link a b ann]
  | rest arg ann =>
    simp [Pat.link, Pat.spots, Node.link, Pat.spots_link a b arg, ty?_spots_link a b ann]
  | assign left right =>
    simp [Pat.link, Pat.spots, Node.link, Pat.spots_link a b left, Expr.spots_link a b right]

theorem pats_spots_link (a b : List String) (ps : List Pat) :
    (patsSpots b (linkPats τ ps)).map Spot.node = linkAll τ (patsSpots a ps) := by
  cases ps with
  | nil => rfl
  | cons p ps => simp [linkPats, patsSpots, Pat.spots_link a b p, pats_spots_link a b ps]

theorem Field.spots_link (a b : List String) (f : Field) :
    ((f.link τ).spots b).map Spot.node = linkAll τ (f.spots a) := by
  cases f with
  | keyed key value =>
    simp [Field.link, Field.spots, Node.link, Key.spots_link a b key, Pat.spots_link a b value]
  | short id default => simp [Field.link, Field.spots, Node.link, expr?_spots_link a b default]
  | rest arg => simp [Field.link, Field.spots, Node.link, Pat.spots_link a b arg]

theorem fields_spots_link (a b : List String) (fs : List Field) :
    (fieldsSpots b (linkFields τ fs)).map Spot.node = linkAll τ (fieldsSpots a fs) := by
  cases fs with
  | nil => rfl
  | cons f fs => simp [linkFields, fieldsSpots, Field.spots_link a b f, fields_spots_link a b fs]

theorem Signature.spots_link (a b : List String) (s : Signature) :
    ((s.link τ).spots b).map Spot.node = linkAll τ (s.spots a) := by
  cases s with
  | mk tparams params result =>
    simp [Signature.link, Signature.spots, Node.link,
      typeParams_spots_link (typeParamNames tparams ++ a)
        (typeParamNames (linkTypeParams τ tparams) ++ b) tparams,
      pats_spots_link (typeParamNames tparams ++ a)
        (typeParamNames (linkTypeParams τ tparams) ++ b) params,
      ty?_spots_link (typeParamNames tparams ++ a)
        (typeParamNames (linkTypeParams τ tparams) ++ b) result]

theorem Member.spots_link (a b : List String) (m : Member) :
    ((m.link τ).spots b).map Spot.node = linkAll τ (m.spots a) := by
  cases m with
  | property isReadonly key isOptional ann =>
    simp [Member.link, Member.spots, Node.link, Key.spots_link a b key, ty?_spots_link a b ann]
  | getter key ann =>
    simp [Member.link, Member.spots, Node.link, Key.spots_link a b key, ty?_spots_link a b ann]
  | setter key param =>
    simp [Member.link, Member.spots, Node.link, Key.spots_link a b key, Pat.spots_link a b param]
  | method key isOptional sig =>
    simp [Member.link, Member.spots, Node.link, Key.spots_link a b key,
      Signature.spots_link a b sig]
  | call sig => simp [Member.link, Member.spots, Node.link, Signature.spots_link a b sig]
  | construct sig => simp [Member.link, Member.spots, Node.link, Signature.spots_link a b sig]
  | index isReadonly param ann =>
    simp [Member.link, Member.spots, Node.link, Pat.spots_link a b param, ty?_spots_link a b ann]

theorem members_spots_link (a b : List String) (ms : List Member) :
    (membersSpots b (linkMembers τ ms)).map Spot.node = linkAll τ (membersSpots a ms) := by
  cases ms with
  | nil => rfl
  | cons m ms =>
    simp [linkMembers, membersSpots, Member.spots_link a b m, members_spots_link a b ms]

end

/-- Parts that are linked one by one. -/
theorem flatMap_spots_link {α : Type} {link : α → α} {spots spots' : α → List Spot}
    (h : ∀ x, (spots' (link x)).map Spot.node = linkAll τ (spots x)) (parts : List α) :
    ((parts.map link).flatMap spots').map Spot.node = linkAll τ (parts.flatMap spots) := by
  induction parts with
  | nil => rfl
  | cons x parts ih =>
    rw [List.map_cons, List.flatMap_cons, List.map_append, h, ih, List.flatMap_cons, linkAll_append]

theorem Heritage.spots_link (a b : List String) (h : Heritage) :
    ((h.link τ).spots b).map Spot.node = linkAll τ (h.spots a) := by
  simp [Heritage.link, Heritage.spots, Node.link, Expr.spots_link τ a b h.expr,
    tys_spots_link τ a b h.args]

theorem CtorParam.spots_link (a b : List String) (p : CtorParam) :
    ((p.link τ).spots b).map Spot.node = linkAll τ (p.spots a) := by
  simp [CtorParam.link, CtorParam.spots, Node.link, Pat.spots_link τ a b p.pat]

theorem ClassMember.spots_link (a b : List String) (m : ClassMember) :
    ((m.link τ).spots b).map Spot.node = linkAll τ (m.spots a) := by
  cases m with
  | ctor mods isOptional params =>
    have hparams := flatMap_spots_link τ (CtorParam.spots_link τ a b) params
    simp only [ClassMember.link, ClassMember.spots, Node.link, List.map_cons, linkAll_cons,
      blanks_map, hparams]
  | method mods fn kind key isOptional sig =>
    simp [ClassMember.link, ClassMember.spots, Node.link, Key.spots_link τ a b key,
      Signature.spots_link τ a b sig]
  | property mods isAccessor key mark ann value =>
    simp [ClassMember.link, ClassMember.spots, Node.link, Key.spots_link τ a b key,
      ty?_spots_link τ a b ann, expr?_spots_link τ a b value]
  | index mods param ann =>
    simp [ClassMember.link, ClassMember.spots, Node.link, Pat.spots_link τ a b param,
      ty?_spots_link τ a b ann]
  | empty => simp [ClassMember.link, ClassMember.spots, Node.link]

theorem ClassBody.spots_link (a b : List String) (c : ClassBody) :
    ((c.link τ).spots b).map Spot.node = linkAll τ (c.spots a) := by
  let inner := typeParamNames c.tparams ++ a
  let inner' := typeParamNames (linkTypeParams τ c.tparams) ++ b
  have hbase := flatMap_spots_link τ (Heritage.spots_link τ inner inner') c.base.toList
  have himplements := flatMap_spots_link τ (Heritage.spots_link τ inner inner') c.implements
  have hmembers := flatMap_spots_link τ (ClassMember.spots_link τ inner inner') c.members
  simp only [ClassBody.link, ClassBody.spots, Node.link, List.map_cons, List.map_append,
    linkAll_cons, linkAll_append, blanks_map, blank?_map, blanks_linkTypeParams, Option.toList_map,
    typeParams_spots_link τ inner inner' c.tparams, hbase, himplements, hmembers, inner, inner']

theorem Func.spots_link (a b : List String) (f : Func) :
    ((f.link τ).spots b).map Spot.node = linkAll τ (f.spots a) := by
  simp [Func.link, Func.spots, Node.link, Signature.spots_link τ a b f.sig]

theorem Interface.spots_link (a b : List String) (i : Interface) :
    ((i.link τ).spots b).map Spot.node = linkAll τ (i.spots a) := by
  let inner := typeParamNames i.tparams ++ a
  let inner' := typeParamNames (linkTypeParams τ i.tparams) ++ b
  have hbases := flatMap_spots_link τ (Heritage.spots_link τ inner inner') i.bases
  simp only [Interface.link, Interface.spots, Node.link, List.map_cons, List.map_append,
    linkAll_cons, linkAll_append, blanks_map, blanks_linkTypeParams, blanks_linkMembers,
    typeParams_spots_link τ inner inner' i.tparams, hbases,
    members_spots_link τ inner inner' i.members, inner, inner']

theorem Declarator.spots_link (a b : List String) (d : Declarator) :
    ((d.link τ).spots b).map Spot.node = linkAll τ (d.spots a) := by
  simp [Declarator.link, Declarator.spots, Node.link, Pat.spots_link τ a b d.pat,
    expr?_spots_link τ a b d.init]

theorem EnumMember.spots_link (a b : List String) (m : EnumMember) :
    ((m.link τ).spots b).map Spot.node = linkAll τ (m.spots a) := by
  simp [EnumMember.link, EnumMember.spots, Node.link, Key.spots_link τ a b m.key,
    expr?_spots_link τ a b m.init]

theorem DefaultDecl.spots_link (a b : List String) (d : DefaultDecl) :
    ((d.link τ).spots b).map Spot.node = linkAll τ (d.spots a) := by
  cases d with
  | cls name body =>
    simp [DefaultDecl.link, DefaultDecl.spots, Node.link, ClassBody.spots_link τ a b body]
  | func name body =>
    simp [DefaultDecl.link, DefaultDecl.spots, Node.link, Func.spots_link τ a b body]
  | interface body =>
    simp [DefaultDecl.link, DefaultDecl.spots, Node.link, Interface.spots_link τ a b body]

mutual

theorem Decl.spots_link (a b : List String) (d : Decl) :
    ((d.link τ).spots b).map Spot.node = linkAll τ (d.spots a) := by
  cases d with
  | cls id declare body =>
    simp [Decl.link, Decl.spots, Node.link, ClassBody.spots_link τ a b body]
  | func id declare body => simp [Decl.link, Decl.spots, Node.link, Func.spots_link τ a b body]
  | var kind declare decls =>
    have hdecls := flatMap_spots_link τ (Declarator.spots_link τ a b) decls
    simp only [Decl.link, Decl.spots, Node.link, List.map_cons, linkAll_cons, blanks_map, hdecls]
  | resource isAwait decls =>
    have hdecls := flatMap_spots_link τ (Declarator.spots_link τ a b) decls
    simp only [Decl.link, Decl.spots, Node.link, List.map_cons, linkAll_cons, blanks_map, hdecls]
  | interface body =>
    simp [Decl.link, Decl.spots, Node.link, Interface.spots_link τ a b body]
  | typeAlias id declare tparams ty =>
    simp [Decl.link, Decl.spots, Node.link,
      typeParams_spots_link τ (typeParamNames tparams ++ a)
        (typeParamNames (linkTypeParams τ tparams) ++ b) tparams,
      Ty.spots_link τ (typeParamNames tparams ++ a)
        (typeParamNames (linkTypeParams τ tparams) ++ b) ty]
  | enum id declare isConst members =>
    have hmembers := flatMap_spots_link τ (EnumMember.spots_link τ a b) members
    simp only [Decl.link, Decl.spots, Node.link, List.map_cons, linkAll_cons, blanks_map, hmembers]
  | space declare name inner body =>
    simp [Decl.link, Decl.spots, Node.link, body_spots_link a b body]

theorem Item.spots_link (a b : List String) (i : Item) :
    ((i.link τ).spots b).map Spot.node = linkAll τ (i.spots a) := by
  cases i with
  | expr e => simp [Item.link, Item.spots, Node.link, Expr.spots_link τ a b e]
  | decl d => simp [Item.link, Item.spots, Node.link, Decl.spots_link a b d]
  | exportDecl d => simp [Item.link, Item.spots, Node.link, Decl.spots_link a b d]
  | exportDefaultDecl d =>
    simp [Item.link, Item.spots, Node.link, DefaultDecl.spots_link τ a b d]
  | exportDefaultExpr e => simp [Item.link, Item.spots, Node.link, Expr.spots_link τ a b e]
  | exportAssign e => simp [Item.link, Item.spots, Node.link, Expr.spots_link τ a b e]
  | _ => simp [Item.link, Item.spots, Node.link]

theorem items_spots_link (a b : List String) (is : List Item) :
    (itemsSpots b (linkItems τ is)).map Spot.node = linkAll τ (itemsSpots a is) := by
  cases is with
  | nil => rfl
  | cons i is => simp [linkItems, itemsSpots, Item.spots_link a b i, items_spots_link a b is]

theorem body_spots_link (a b : List String) (body : Option (List Item)) :
    (bodySpots b (linkBody τ body)).map Spot.node = linkAll τ (bodySpots a body) := by
  cases body with
  | none => rfl
  | some items =>
    simp only [linkBody, bodySpots]
    exact items_spots_link _ _ items

end

/-- Linking takes a statement node by node: each import type becomes what its target asks for, also
inside the arguments of others, and everything else stays as it is. -/
theorem Item.becomes_link (a b : List String) (i : Item) :
    List.Forall₂ (fun s s' => s.node.Becomes τ s'.node) (i.spots a) ((i.link τ).spots b) := by
  have hnodes : List.Forall₂ (· = ·) (linkAll τ (i.spots a))
      (((i.link τ).spots b).map Spot.node) := by
    rw [List.forall₂_eq_eq_eq]
    exact (Item.spots_link τ a b i).symm
  have hpairs : List.Forall₂ (fun s s' => s.node.link τ = s'.node) (i.spots a)
      ((i.link τ).spots b) :=
    List.forall₂_map_right_iff.1 (List.forall₂_map_left_iff.1 hnodes)
  exact hpairs.imp (fun s s' h => h ▸ s.node.becomes_link τ)

end Spots

end AmbientBundle.Syntax
