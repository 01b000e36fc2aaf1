import AmbientBundle.Proofs.Syntax.Keys
/-!
Linking import types and what is collected from the types of a piece of syntax: nothing comes in but
what stands for something that was collected before.
-/
namespace AmbientBundle.Syntax

open ImportTypes

/-- Each element of the second list may stand there anyway, or it comes from one of the first. -/
def Covers {α : Type} (ok : α → Prop) (R : α → α → Prop) (old new : List α) : Prop :=
  ∀ x ∈ new, ok x ∨ ∃ y ∈ old, R y x

namespace Covers

variable {α β : Type} {ok : α → Prop} {R : α → α → Prop} {old old' new new' : List α}

theorem nil (old : List α) : Covers ok R old [] := by simp [Covers]

theorem append (h : Covers ok R old new) (h' : Covers ok R old' new') :
    Covers ok R (old ++ old') (new ++ new') := by
  intro x hx
  rcases List.mem_append.1 hx with hx | hx
  · exact (h x hx).imp_right (fun ⟨y, hy, hr⟩ => ⟨y, List.mem_append_left _ hy, hr⟩)
  · exact (h' x hx).imp_right (fun ⟨y, hy, hr⟩ => ⟨y, List.mem_append_right _ hy, hr⟩)

theorem cons {x y : α} (hr : R y x) (h : Covers ok R old new) :
    Covers ok R (y :: old) (x :: new) :=
  have hfirst : Covers ok R [y] [x] := fun _ hz =>
    Or.inr ⟨y, List.mem_singleton_self y, List.mem_singleton.1 hz ▸ hr⟩
  hfirst.append h

theorem widen (h : Covers ok R old new) (hs : old ⊆ old') : Covers ok R old' new :=
  fun x hx => (h x hx).imp_right (fun ⟨y, hy, hr⟩ => ⟨y, hs hy, hr⟩)

theorem flatMap {f f' : β → List α} {bs : List β}
    (h : ∀ b ∈ bs, Covers ok R (f b) (f' b)) :
    Covers ok R (bs.flatMap f) (bs.flatMap f') := by
  induction bs with
  | nil => exact nil _
  | cons b bs ih =>
    rw [List.flatMap_cons, List.flatMap_cons]
    exact (h b List.mem_cons_self).append (ih (fun b hb => h b (List.mem_cons_of_mem _ hb)))

/-- What a type gives by itself, and what its parts give. -/
theorem picked {own own' : List α × Bool} (hall : own.2 = true) (h : Covers ok R own.1 own'.1)
    (h' : Covers ok R old new) : Covers ok R (Pick.at own old) (Pick.at own' new) := by
  unfold Pick.at
  rw [hall, if_pos rfl]
  refine h.append ?_
  split
  · exact h'
  · exact nil _

end Covers

section Collected

variable {α : Type} {pick : Pick α} {ok : α → Prop} {R : α → α → Prop} {τ : Targets}

section Imports

variable (pick) (τ) (arg : StrLit) (attrs : Option Attributes) (qualifier : Option EntityName)
  (args outer : List Ty)

theorem collect_linkImported : (linkImported τ arg attrs qualifier args).collect pick =
    Pick.at (pick (linkImported τ arg attrs qualifier args)) (collectTys pick args) := by
  unfold linkImported
  split
  · split <;> simp only [Ty.collect]
  · simp only [Ty.collect]
  · simp only [Ty.collect]

/-- Of a query that stands for a binding only the arguments that count are left. -/
theorem collect_linkQuery : ∃ parts ⊆ collectTys pick args ++ collectTys pick outer,
    (linkQuery τ arg attrs qualifier args outer).collect pick =
      Pick.at (pick (linkQuery τ arg attrs qualifier args outer)) parts := by
  unfold linkQuery
  split
  · split
    · exact ⟨_, List.subset_append_left _ _, by rw [Ty.collect]⟩
    · exact ⟨_, List.subset_append_right _ _, by rw [Ty.collect]⟩
  · exact ⟨_, List.Subset.refl _, by rw [Ty.collect]⟩
  · exact ⟨_, List.Subset.refl _, by rw [Ty.collect]⟩

end Imports

variable (hall : ∀ t, (pick t).2 = true)
  (hlink : ∀ t, Covers ok R (pick t).1 (pick (t.link τ)).1)

include hall hlink

/-- A type gives what it gives by itself, before and behind the linking, and what its parts give. -/
theorem Ty.collect_link_of_parts {t : Ty} {old new : List α} (h : Covers ok R old new) :
    Covers ok R (Pick.at (pick t) old) (Pick.at (pick (t.link τ)) new) :=
  .picked (hall t) (hlink t) h

-- Most members of the two inductions use the hypotheses through each other only.
set_option linter.unusedSectionVars false

mutual

theorem Expr.collect_link (e : Expr) :
    Covers ok R (e.collect pick) ((e.link τ).collect pick) := by
  cases e with
  | template chunks parts =>
    simp only [Expr.link, Expr.collect]
    exact exprs_collect_link parts
  | spread e =>
    simp only [Expr.link, Expr.collect]
    exact Expr.collect_link e
  | keyed key value =>
    simp only [Expr.link, Expr.collect]
    exact (Key.collect_link key).append (Expr.collect_link value)
  | array elems =>
    simp only [Expr.link, Expr.collect]
    exact exprs_collect_link elems
  | object props =>
    simp only [Expr.link, Expr.collect]
    exact exprs_collect_link props
  | paren e =>
    simp only [Expr.link, Expr.collect]
    exact Expr.collect_link e
  | member obj optional name =>
    simp only [Expr.link, Expr.collect]
    exact Expr.collect_link obj
  | index obj optional idx =>
    simp only [Expr.link, Expr.collect]
    exact (Expr.collect_link obj).append (Expr.collect_link idx)
  | call callee optional targs args =>
    simp only [Expr.link, Expr.collect]
    exact ((Expr.collect_link callee).append (exprs_collect_link args)).append
      (tys_collect_link targs)
  | construct callee targs args =>
    simp only [Expr.link, Expr.collect]
    exact ((Expr.collect_link callee).append (args_collect_link args)).append
      (tys_collect_link targs)
  | instantiate e targs =>
    simp only [Expr.link, Expr.collect]
    exact (Expr.collect_link e).append (tys_collect_link targs)
  | unary op e =>
    simp only [Expr.link, Expr.collect]
    exact Expr.collect_link e
  | postfixed e op =>
    simp only [Expr.link, Expr.collect]
    exact Expr.collect_link e
  | binary op left right =>
    simp only [Expr.link, Expr.collect]
    exact (Expr.collect_link left).append (Expr.collect_link right)
  | cond test yes no =>
    simp only [Expr.link, Expr.collect]
    exact ((Expr.collect_link test).append (Expr.collect_link yes)).append (Expr.collect_link no)
  | seq es =>
    simp only [Expr.link, Expr.collect]
    exact exprs_collect_link es
  | cast op e ty =>
    simp only [Expr.link, Expr.collect]
    exact (Expr.collect_link e).append (Ty.collect_link ty)
  | _ => exact .nil _

theorem exprs_collect_link (es : List Expr) :
    Covers ok R (collectExprs pick es) (collectExprs pick (linkExprs τ es)) := by
  cases es with
  | nil => exact .nil _
  | cons e es =>
    simp only [linkExprs, collectExprs]
    exact (Expr.collect_link e).append (exprs_collect_link es)

theorem args_collect_link (es : Option (List Expr)) :
    Covers ok R (collectArgs pick es) (collectArgs pick (linkArgs τ es)) := by
  cases es with
  | none => exact .nil _
  | some es =>
    simp only [linkArgs, collectArgs]
    exact exprs_collect_link es

theorem expr?_collect_link (e : Option Expr) :
    Covers ok R (collectExpr? pick e) (collectExpr? pick (linkExpr? τ e)) := by
  cases e with
  | none => exact .nil _
  | some e =>
    simp only [linkExpr?, collectExpr?]
    exact Expr.collect_link e

theorem Key.collect_link (k : Key) :
    Covers ok R (k.collect pick) ((k.link τ).collect pick) := by
  cases k with
  | computed e =>
    simp only [Key.link, Key.collect]
    exact Expr.collect_link e
  | _ => exact .nil _

theorem Ty.collect_link (t : Ty) :
    Covers ok R (t.collect pick) ((t.link τ).collect pick) := by
  cases t with
  | word text =>
    exact Ty.collect_link_of_parts hall hlink (.nil _)
  | str lit =>
    exact Ty.collect_link_of_parts hall hlink (.nil _)
  | template chunks parts =>
    exact Ty.collect_link_of_parts hall hlink (tys_collect_link parts)
  | ref name args =>
    exact Ty.collect_link_of_parts hall hlink (tys_collect_link args)
  | query name args =>
    exact Ty.collect_link_of_parts hall hlink (tys_collect_link args)
  | imported arg attrs qualifier args =>
    rw [Ty.link, collect_linkImported]
    exact Ty.collect_link_of_parts hall hlink (tys_collect_link args)
  | importQuery arg attrs qualifier args outer =>
    obtain ⟨parts, hparts, hquery⟩ :=
      collect_linkQuery pick τ arg attrs qualifier (linkTys τ args) (linkTys τ outer)
    rw [Ty.link, hquery]
    refine Ty.collect_link_of_parts hall hlink (fun x hx => ?_)
    exact ((tys_collect_link args).append (tys_collect_link outer)) x (hparts hx)
  | array elem =>
    exact Ty.collect_link_of_parts hall hlink (Ty.collect_link elem)
  | tuple elems =>
    exact Ty.collect_link_of_parts hall hlink (tys_collect_link elems)
  | labeled isRest label isOptional ty =>
    exact Ty.collect_link_of_parts hall hlink (Ty.collect_link ty)
  | optional ty =>
    exact Ty.collect_link_of_parts hall hlink (Ty.collect_link ty)
  | rest ty =>
    exact Ty.collect_link_of_parts hall hlink (Ty.collect_link ty)
  | union parts =>
    exact Ty.collect_link_of_parts hall hlink (tys_collect_link parts)
  | inter parts =>
    exact Ty.collect_link_of_parts hall hlink (tys_collect_link parts)
  | conditional check bound yes no =>
    refine Ty.collect_link_of_parts hall hlink (.append ?_ (Ty.collect_link no))
    exact ((Ty.collect_link check).append (Ty.collect_link bound)).append (Ty.collect_link yes)
  | infer name bound =>
    exact Ty.collect_link_of_parts hall hlink (ty?_collect_link bound)
  | paren ty =>
    exact Ty.collect_link_of_parts hall hlink (Ty.collect_link ty)
  | operator op ty =>
    exact Ty.collect_link_of_parts hall hlink (Ty.collect_link ty)
  | indexed obj idx =>
    exact Ty.collect_link_of_parts hall hlink
      ((Ty.collect_link obj).append (Ty.collect_link idx))
  | mapped readonly key domain rename optional value =>
    exact Ty.collect_link_of_parts hall hlink
      (((Ty.collect_link domain).append (ty?_collect_link rename)).append (ty?_collect_link value))
  | func sig =>
    exact Ty.collect_link_of_parts hall hlink (Signature.collect_link sig)
  | ctor isAbstract sig =>
    exact Ty.collect_link_of_parts hall hlink (Signature.collect_link sig)
  | record members =>
    exact Ty.collect_link_of_parts hall hlink (members_collect_link members)
  | predicate asserts subject ty =>
    exact Ty.collect_link_of_parts hall hlink (ty?_collect_link ty)

theorem tys_collect_link (ts : List Ty) :
    Covers ok R (collectTys pick ts) (collectTys pick (linkTys τ ts)) := by
  cases ts with
  | nil => exact .nil _
  | cons t ts =>
    simp only [linkTys, collectTys]
    exact (Ty.collect_link t).append (tys_collect_link ts)

theorem ty?_collect_link (t : Option Ty) :
    Covers ok R (collectTy? pick t) (collectTy? pick (linkTy? τ t)) := by
  cases t with
  | none => exact .nil _
  | some t =>
    simp only [linkTy?, collectTy?]
    exact Ty.collect_link t

theorem TypeParam.collect_link (t : TypeParam) :
    Covers ok R (t.collect pick) ((t.link τ).collect pick) := by
  cases t with
  | mk mods name bound default =>
    simp only [TypeParam.link, TypeParam.collect]
    exact (ty?_collect_link bound).append (ty?_collect_link default)

theorem typeParams_collect_link (ts : List TypeParam) :
    Covers ok R (collectTypeParams pick ts) (collectTypeParams pick (linkTypeParams τ ts)) := by
  cases ts with
  | nil => exact .nil _
  | cons t ts =>
    simp only [linkTypeParams, collectTypeParams]
    exact (TypeParam.collect_link t).append (typeParams_collect_link ts)

theorem Pat.collect_link (p : Pat) :
    Covers ok R (p.collect pick) ((p.link τ).collect pick) := by
  cases p with
  | ident id isOptional ann =>
    simp only [Pat.link, Pat.collect]
    exact ty?_collect_link ann
  | hole => exact .nil _
  | array elems isOptional ann =>
    simp only [Pat.link, Pat.collect]
    exact (pats_collect_link elems).append (ty?_collect_link ann)
  | object fields isOptional ann =>
    simp only [Pat.link, Pat.collect]
    exact (fields_collect_link fields).append (ty?_collect_link ann)
  | rest arg ann =>
    simp only [Pat.link, Pat.collect]
    exact (Pat.collect_link arg).append (ty?_collect_link ann)
  | assign left right =>
    simp only [Pat.link, Pat.collect]
    exact (Pat.collect_link left).append (Expr.collect_link right)

theorem pats_collect_link (ps : List Pat) :
    Covers ok R (collectPats pick ps) (collectPats pick (linkPats τ ps)) := by
  cases ps with
  | nil => exact .nil _
  | cons p ps =>
    simp only [linkPats, collectPats]
    exact (Pat.collect_link p).append (pats_collect_link ps)

theorem Field.collect_link (f : Field) :
    Covers ok R (f.collect pick) ((f.link τ).collect pick) := by
  cases f with
  | keyed key value =>
    simp only [Field.link, Field.collect]
    exact (Key.collect_link key).append (Pat.collect_link value)
  | short id default =>
    simp only [Field.link, Field.collect]
    exact expr?_collect_link default
  | rest arg =>
    simp only [Field.link, Field.collect]
    exact Pat.collect_link arg

theorem fields_collect_link (fs : List Field) :
    Covers ok R (collectFields pick fs) (collectFields pick (linkFields τ fs)) := by
  cases fs with
  | nil => exact .nil _
  | cons f fs =>
    simp only [linkFields, collectFields]
    exact (Field.collect_link f).append (fields_collect_link fs)

theorem Signature.collect_link (s : Signature) :
    Covers ok R (s.collect pick) ((s.link τ).collect pick) := by
  cases s with
  | mk tparams params result =>
    simp only [Signature.link, Signature.collect]
    exact ((pats_collect_link params).append (typeParams_collect_link tparams)).append
      (ty?_collect_link result)

theorem Member.collect_link (m : Member) :
    Covers ok R (m.collect pick) ((m.link τ).collect pick) := by
  cases m with
  | property isReadonly key isOptional ann =>
    simp only [Member.link, Member.collect]
    exact (Key.collect_link key).append (ty?_collect_link ann)
  | getter key ann =>
    simp only [Member.link, Member.collect]
    exact (Key.collect_link key).append (ty?_collect_link ann)
  | setter key param =>
    simp only [Member.link, Member.collect]
    exact (Key.collect_link key).append (Pat.collect_link param)
  | method key isOptional sig =>
    cases sig with
    | mk tparams params result =>
      simp only [Member.link, Signature.link, Member.collect]
      refine .append ?_ (typeParams_collect_link tparams)
      exact ((Key.collect_link key).append (pats_collect_link params)).append
        (ty?_collect_link result)
  | call sig =>
    cases sig with
    | mk tparams params result =>
      simp only [Member.link, Signature.link, Member.collect]
      exact ((pats_collect_link params).append (ty?_collect_link result)).append
        (typeParams_collect_link tparams)
  | construct sig =>
    cases sig with
    | mk tparams params result =>
      simp only [Member.link, Signature.link, Member.collect]
      exact ((pats_collect_link params).append (ty?_collect_link result)).append
        (typeParams_collect_link tparams)
  | index isReadonly param ann =>
    simp only [Member.link, Member.collect]
    exact (Pat.collect_link param).append (ty?_collect_link ann)

theorem members_collect_link (ms : List Member) :
    Covers ok R (collectMembers pick ms) (collectMembers pick (linkMembers τ ms)) := by
  cases ms with
  | nil => exact .nil _
  | cons m ms =>
    simp only [linkMembers, collectMembers]
    exact (Member.collect_link m).append (members_collect_link ms)

end

theorem Heritage.collect_link (h : Heritage) :
    Covers ok R (h.collect pick) ((h.link τ).collect pick) :=
  (Expr.collect_link hall hlink h.expr).append (tys_collect_link hall hlink h.args)

theorem ClassMember.collect_link (m : ClassMember) :
    Covers ok R (m.collect pick) ((m.link τ).collect pick) := by
  cases m with
  | ctor mods isOptional params =>
    simp only [ClassMember.link, ClassMember.collect, List.flatMap_map]
    exact .flatMap (fun p _ => Pat.collect_link hall hlink p.pat)
  | method mods fn kind key isOptional sig =>
    exact (Key.collect_link hall hlink key).append (Signature.collect_link hall hlink sig)
  | property mods isAccessor key mark ann value =>
    exact ((Key.collect_link hall hlink key).append (expr?_collect_link hall hlink value)).append
      (ty?_collect_link hall hlink ann)
  | index mods param ann =>
    exact (Pat.collect_link hall hlink param).append (ty?_collect_link hall hlink ann)
  | empty => exact .nil _

theorem ClassBody.collect_link (c : ClassBody) :
    Covers ok R (c.collect pick) ((c.link τ).collect pick) := by
  simp only [ClassBody.link, ClassBody.collect, List.flatMap_map, Option.toList_map]
  have hmembers :=
    Covers.flatMap (fun m (_ : m ∈ c.members) => ClassMember.collect_link hall hlink m)
  have hbase :=
    Covers.flatMap (fun h (_ : h ∈ c.base.toList) => Expr.collect_link hall hlink h.expr)
  have hargs :=
    Covers.flatMap (fun h (_ : h ∈ c.base.toList) => tys_collect_link hall hlink h.args)
  have himplements :=
    Covers.flatMap (fun h (_ : h ∈ c.implements) => Heritage.collect_link hall hlink h)
  exact (((hmembers.append hbase).append (typeParams_collect_link hall hlink c.tparams)).append
    hargs).append himplements

theorem Interface.collect_link (i : Interface) :
    Covers ok R (i.collect pick) ((i.link τ).collect pick) := by
  simp only [Interface.link, Interface.collect, List.flatMap_map]
  have hbases := Covers.flatMap (fun h (_ : h ∈ i.bases) => Heritage.collect_link hall hlink h)
  exact ((typeParams_collect_link hall hlink i.tparams).append hbases).append
    (members_collect_link hall hlink i.members)

theorem Declarator.collect_link (d : Declarator) :
    Covers ok R (d.collect pick) ((d.link τ).collect pick) :=
  (Pat.collect_link hall hlink d.pat).append (expr?_collect_link hall hlink d.init)

theorem EnumMember.collect_link (m : EnumMember) :
    Covers ok R (m.collect pick) ((m.link τ).collect pick) :=
  (Key.collect_link hall hlink m.key).append (expr?_collect_link hall hlink m.init)

theorem DefaultDecl.collect_link (d : DefaultDecl) :
    Covers ok R (d.collect pick) ((d.link τ).collect pick) := by
  cases d with
  | cls name body => exact ClassBody.collect_link hall hlink body
  | func name body => exact Signature.collect_link hall hlink body.sig
  | interface body => exact Interface.collect_link hall hlink body

mutual

theorem Decl.collect_link (d : Decl) :
    Covers ok R (d.collect pick) ((d.link τ).collect pick) := by
  cases d with
  | cls id declare body => exact ClassBody.collect_link hall hlink body
  | func id declare body => exact Signature.collect_link hall hlink body.sig
  | var kind declare decls =>
    simp only [Decl.link, Decl.collect, List.flatMap_map]
    exact .flatMap (fun d _ => Declarator.collect_link hall hlink d)
  | resource isAwait decls =>
    simp only [Decl.link, Decl.collect, List.flatMap_map]
    exact .flatMap (fun d _ => Declarator.collect_link hall hlink d)
  | interface body => exact Interface.collect_link hall hlink body
  | typeAlias id declare tparams ty =>
    exact (typeParams_collect_link hall hlink tparams).append (Ty.collect_link hall hlink ty)
  | enum id declare isConst members =>
    simp only [Decl.link, Decl.collect, List.flatMap_map]
    exact .flatMap (fun m _ => EnumMember.collect_link hall hlink m)
  | space declare name inner body =>
    simp only [Decl.link, Decl.collect]
    exact body_collect_link body

theorem Item.collect_link (i : Item) :
    Covers ok R (i.collect pick) ((i.link τ).collect pick) := by
  cases i with
  | expr e => exact Expr.collect_link hall hlink e
  | decl d =>
    simp only [Item.link, Item.collect]
    exact Decl.collect_link d
  | exportDecl d =>
    simp only [Item.link, Item.collect]
    exact Decl.collect_link d
  | exportDefaultDecl d => exact DefaultDecl.collect_link hall hlink d
  | exportDefaultExpr e => exact Expr.collect_link hall hlink e
  | exportAssign e => exact Expr.collect_link hall hlink e
  | _ => exact .nil _

theorem items_collect_link (is : List Item) :
    Covers ok R (collectItems pick is) (collectItems pick (linkItems τ is)) := by
  cases is with
  | nil => exact .nil _
  | cons i is =>
    simp only [linkItems, collectItems]
    exact (Item.collect_link i).append (items_collect_link is)

theorem body_collect_link (b : Option (List Item)) :
    Covers ok R (collectBody pick b) (collectBody pick (linkBody τ b)) := by
  cases b with
  | none => exact .nil _
  | some is =>
    simp only [linkBody, collectBody]
    exact items_collect_link is

end

end Collected

/-- An import type that is left asks for the same name. It is given a place, or it stands for itself as
nothing is found. -/
structure LeavesType (τ : Targets) (key key' : ImportTypeKey) : Prop where
  head : key'.head = key.head
  target : τ key = some (.specifier key'.specifier) ∨ τ key = none ∧ key' = key

theorem Item.keys_link (τ : Targets) (i : Item) :
    Covers (fun _ => False) (LeavesType τ) (i.collect pickKey) ((i.link τ).collect pickKey) := by
  refine Item.collect_link (fun t => by cases t <;> rfl) (fun t => ?_) i
  cases t with
  | imported arg attrs qualifier args =>
    simp only [Ty.link, linkImported]
    cases h : τ (keyOf arg qualifier) with
    | none => exact .cons ⟨rfl, Or.inr ⟨h, rfl⟩⟩ (.nil _)
    | some target => cases target with
      | binding name => cases qualifier <;> exact .nil _
      | specifier text => exact .cons ⟨rfl, Or.inl h⟩ (.nil _)
  | importQuery arg attrs qualifier args outer =>
    simp only [Ty.link, linkQuery]
    cases h : τ (keyOf arg qualifier) with
    | none => exact .cons ⟨rfl, Or.inr ⟨h, rfl⟩⟩ (.nil _)
    | some target => cases target with
      | binding name => exact .nil _
      | specifier text => exact .cons ⟨rfl, Or.inl h⟩ (.nil _)
  | _ => exact .nil _

end AmbientBundle.Syntax
