import AmbientBundle.Proofs.Rename.Occurrences
import AmbientBundle.Proofs.Syntax.Bound
import AmbientBundle.Proofs.Syntax.LinkedTypes
/-!
Linking import types and the identifiers of a piece of syntax: no identifier comes in but the
bindings that take the place of imports.
-/
namespace AmbientBundle.Syntax

open Rename ImportTypes

section Identifiers

variable {τ : Targets}

/-- The identifier is a binding that takes the place of an import. -/
def TakesPlace (τ : Targets) (o : Occurrence) : Prop := ∃ key, τ key = some (.binding o.name)

def SameName (o o' : Occurrence) : Prop := o'.name = o.name

theorem labels_place (a a' : Place) (names : List String) :
    Covers (TakesPlace τ) SameName (names.map (fun name => (⟨.label, name, a⟩ : Occurrence)))
      (names.map (fun name => (⟨.label, name, a'⟩ : Occurrence))) := by
  intro o ho
  obtain ⟨name, hname, rfl⟩ := List.mem_map.1 ho
  exact Or.inr ⟨_, List.mem_map_of_mem hname, rfl⟩

theorem EntityName.occurrences_place (a a' : Place) (n : EntityName) :
    Covers (TakesPlace τ) SameName (n.occurrences a) (n.occurrences a') :=
  .cons rfl (labels_place a a' n.tail)

theorem qualifierOccurrences_place (a a' : Place) (n : Option EntityName) :
    Covers (TakesPlace τ) SameName (qualifierOccurrences a n) (qualifierOccurrences a' n) :=
  .flatMap (fun n _ => labels_place a a' (n.head :: n.tail))

/-- The binding stands before the names that were behind the first one of the qualifier. -/
theorem entity_occurrences {name : String} {key : ImportTypeKey}
    (hτ : τ key = some (.binding name)) (a a' : Place) (qualifier : Option EntityName) :
    Covers (TakesPlace τ) SameName (qualifierOccurrences a qualifier)
      ((entity name qualifier).occurrences a') := by
  intro o ho
  cases qualifier with
  | none =>
    obtain rfl := List.mem_singleton.1 ho
    exact Or.inl ⟨key, hτ⟩
  | some q =>
    rcases List.mem_cons.1 ho with rfl | ho
    · exact Or.inl ⟨key, hτ⟩
    · obtain ⟨x, hx, rfl⟩ := List.mem_map.1 ho
      refine Or.inr ⟨⟨.label, x, a⟩, ?_, rfl⟩
      simp only [qualifierOccurrences, Option.toList_some, List.flatMap_singleton]
      exact List.mem_map.2 ⟨x, List.mem_cons_of_mem _ hx, rfl⟩

/-- The property of an object is an identifier afterwards if it was one. -/
theorem asProperty_link {a a' : Place} (e : Expr)
    (h : Covers (TakesPlace τ) SameName (e.occurrences a) ((e.link τ).occurrences a')) :
    Covers (TakesPlace τ) SameName (asProperty e (e.occurrences a))
      (asProperty (e.link τ) ((e.link τ).occurrences a')) := by
  cases e with
  | ident name =>
    simp only [Expr.link, asProperty, Expr.occurrences, List.map_cons, List.map_nil]
    exact .cons rfl (.nil _)
  | _ =>
    simp only [Expr.link] at h
    simpa only [Expr.link, asProperty] using h

mutual

theorem Expr.occurrences_link (e : Expr) (a a' : Place) :
    Covers (TakesPlace τ) SameName (e.occurrences a)
      ((e.link τ).occurrences a') := by
  cases e with
  | ident name => exact .cons rfl (.nil _)
  | template chunks parts =>
    simp only [Expr.link, Expr.occurrences]
    exact exprsOccurrences_link parts _ _
  | spread e =>
    simp only [Expr.link, Expr.occurrences]
    exact Expr.occurrences_link e _ _
  | keyed key value =>
    simp only [Expr.link, Expr.occurrences]
    exact (Key.occurrences_link key _ _).append (Expr.occurrences_link value _ _)
  | array elems =>
    simp only [Expr.link, Expr.occurrences]
    exact exprsOccurrences_link elems _ _
  | object props =>
    simp only [Expr.link, Expr.occurrences]
    exact propsOccurrences_link props _ _
  | paren e =>
    simp only [Expr.link, Expr.occurrences]
    exact Expr.occurrences_link e _ _
  | member obj optional name =>
    simp only [Expr.link, Expr.occurrences]
    exact (Expr.occurrences_link obj _ _).append (.cons rfl (.nil _))
  | index obj optional idx =>
    simp only [Expr.link, Expr.occurrences]
    exact (Expr.occurrences_link obj _ _).append (Expr.occurrences_link idx _ _)
  | call callee optional targs args =>
    simp only [Expr.link, Expr.occurrences]
    exact ((Expr.occurrences_link callee _ _).append (tysOccurrences_link targs _ _)).append
      (exprsOccurrences_link args _ _)
  | construct callee targs args =>
    simp only [Expr.link, Expr.occurrences]
    exact ((Expr.occurrences_link callee _ _).append (tysOccurrences_link targs _ _)).append
      (argsOccurrences_link args _ _)
  | instantiate e targs =>
    simp only [Expr.link, Expr.occurrences]
    exact (Expr.occurrences_link e _ _).append (tysOccurrences_link targs _ _)
  | unary op e =>
    simp only [Expr.link, Expr.occurrences]
    exact Expr.occurrences_link e _ _
  | postfixed e op =>
    simp only [Expr.link, Expr.occurrences]
    exact Expr.occurrences_link e _ _
  | binary op left right =>
    simp only [Expr.link, Expr.occurrences]
    exact (Expr.occurrences_link left _ _).append (Expr.occurrences_link right _ _)
  | cond test yes no =>
    simp only [Expr.link, Expr.occurrences]
    exact ((Expr.occurrences_link test _ _).append (Expr.occurrences_link yes _ _)).append
      (Expr.occurrences_link no _ _)
  | seq es =>
    simp only [Expr.link, Expr.occurrences]
    exact exprsOccurrences_link es _ _
  | cast op e ty =>
    simp only [Expr.link, Expr.occurrences]
    exact (Expr.occurrences_link e _ _).append (Ty.occurrences_link ty _ _)
  | _ => exact .nil _

theorem exprsOccurrences_link (es : List Expr) (a a' : Place) :
    Covers (TakesPlace τ) SameName (exprsOccurrences a es)
      (exprsOccurrences a' (linkExprs τ es)) := by
  cases es with
  | nil => exact .nil _
  | cons e es =>
    simp only [linkExprs, exprsOccurrences]
    exact (Expr.occurrences_link e _ _).append (exprsOccurrences_link es _ _)

theorem propsOccurrences_link (es : List Expr) (a a' : Place) :
    Covers (TakesPlace τ) SameName (propsOccurrences a es)
      (propsOccurrences a' (linkExprs τ es)) := by
  cases es with
  | nil => exact .nil _
  | cons e es =>
    simp only [linkExprs, propsOccurrences]
    exact (asProperty_link e (Expr.occurrences_link e _ _)).append (propsOccurrences_link es _ _)

theorem argsOccurrences_link (es : Option (List Expr)) (a a' : Place) :
    Covers (TakesPlace τ) SameName (argsOccurrences a es)
      (argsOccurrences a' (linkArgs τ es)) := by
  cases es with
  | none => exact .nil _
  | some es =>
    simp only [linkArgs, argsOccurrences]
    exact exprsOccurrences_link es _ _

theorem expr?Occurrences_link (e : Option Expr) (a a' : Place) :
    Covers (TakesPlace τ) SameName (expr?Occurrences a e)
      (expr?Occurrences a' (linkExpr? τ e)) := by
  cases e with
  | none => exact .nil _
  | some e =>
    simp only [linkExpr?, expr?Occurrences]
    exact Expr.occurrences_link e _ _

theorem Key.occurrences_link (k : Key) (a a' : Place) :
    Covers (TakesPlace τ) SameName (k.occurrences a)
      ((k.link τ).occurrences a') := by
  cases k with
  | computed e =>
    simp only [Key.link, Key.occurrences]
    exact Expr.occurrences_link e _ _
  | word text => exact .cons rfl (.nil _)
  | hidden text => exact .cons rfl (.nil _)
  | str lit => exact .nil _
  | number text => exact .nil _

theorem Ty.occurrences_link (t : Ty) (a a' : Place) :
    Covers (TakesPlace τ) SameName (t.occurrences a)
      ((t.link τ).occurrences a') := by
  cases t with
  | word text => exact .nil _
  | str lit => exact .nil _
  | template chunks parts =>
    simp only [Ty.link, Ty.occurrences]
    exact tysOccurrences_link parts _ _
  | ref name args =>
    simp only [Ty.link, Ty.occurrences]
    exact (name.occurrences_place _ _).append (tysOccurrences_link args _ _)
  | query name args =>
    simp only [Ty.link, Ty.occurrences]
    exact (name.occurrences_place _ _).append (tysOccurrences_link args _ _)
  | imported arg attrs qualifier args =>
    have same := (qualifierOccurrences_place (τ := τ) a a' qualifier).append
      (tysOccurrences_link args a a')
    simp only [Ty.link, linkImported]
    split
    · rename_i hτ
      split
      · exact (entity_occurrences hτ _ _ qualifier).append (tysOccurrences_link args _ _)
      · rename_i hq
        obtain rfl : qualifier = none := by simpa using hq
        exact (entity_occurrences hτ _ _ none).append (tysOccurrences_link args _ _)
    · simpa only [Ty.occurrences] using same
    · simpa only [Ty.occurrences] using same
  | importQuery arg attrs qualifier args outer =>
    have same := ((qualifierOccurrences_place (τ := τ) a a' qualifier).append
      (tysOccurrences_link args a a')).append (tysOccurrences_link outer a a')
    simp only [Ty.link, linkQuery]
    split
    · rename_i hτ
      simp only [Ty.occurrences]
      rw [List.append_assoc]
      refine (entity_occurrences hτ _ _ qualifier).append ?_
      split
      · exact (tysOccurrences_link args _ _).widen (List.subset_append_left _ _)
      · exact (tysOccurrences_link outer _ _).widen (List.subset_append_right _ _)
    · simpa only [Ty.occurrences] using same
    · simpa only [Ty.occurrences] using same
  | array elem =>
    simp only [Ty.link, Ty.occurrences]
    exact Ty.occurrences_link elem _ _
  | tuple elems =>
    simp only [Ty.link, Ty.occurrences]
    exact tysOccurrences_link elems _ _
  | labeled isRest label isOptional ty =>
    simp only [Ty.link, Ty.occurrences]
    exact .cons rfl (Ty.occurrences_link ty _ _)
  | optional ty =>
    simp only [Ty.link, Ty.occurrences]
    exact Ty.occurrences_link ty _ _
  | rest ty =>
    simp only [Ty.link, Ty.occurrences]
    exact Ty.occurrences_link ty _ _
  | union parts =>
    simp only [Ty.link, Ty.occurrences]
    exact tysOccurrences_link parts _ _
  | inter parts =>
    simp only [Ty.link, Ty.occurrences]
    exact tysOccurrences_link parts _ _
  | conditional check bound yes no =>
    simp only [Ty.link, Ty.occurrences]
    refine .append ?_ (Ty.occurrences_link no _ _)
    exact ((Ty.occurrences_link check _ _).append (Ty.occurrences_link bound _ _)).append
      (Ty.occurrences_link yes _ _)
  | infer name bound =>
    simp only [Ty.link, Ty.occurrences]
    exact .cons rfl (ty?Occurrences_link bound _ _)
  | paren ty =>
    simp only [Ty.link, Ty.occurrences]
    exact Ty.occurrences_link ty _ _
  | operator op ty =>
    simp only [Ty.link, Ty.occurrences]
    exact Ty.occurrences_link ty _ _
  | indexed obj idx =>
    simp only [Ty.link, Ty.occurrences]
    exact (Ty.occurrences_link obj _ _).append (Ty.occurrences_link idx _ _)
  | mapped readonly key domain rename optional value =>
    simp only [Ty.link, Ty.occurrences]
    refine .cons rfl ?_
    exact ((Ty.occurrences_link domain _ _).append (ty?Occurrences_link rename _ _)).append
      (ty?Occurrences_link value _ _)
  | func sig =>
    simp only [Ty.link, Ty.occurrences]
    exact Signature.occurrences_link sig _ _
  | ctor isAbstract sig =>
    simp only [Ty.link, Ty.occurrences]
    exact Signature.occurrences_link sig _ _
  | record members =>
    simp only [Ty.link, Ty.occurrences]
    exact membersOccurrences_link members _ _
  | predicate asserts subject ty =>
    simp only [Ty.link, Ty.occurrences]
    exact .cons rfl (ty?Occurrences_link ty _ _)

theorem tysOccurrences_link (ts : List Ty) (a a' : Place) :
    Covers (TakesPlace τ) SameName (tysOccurrences a ts)
      (tysOccurrences a' (linkTys τ ts)) := by
  cases ts with
  | nil => exact .nil _
  | cons t ts =>
    simp only [linkTys, tysOccurrences]
    exact (Ty.occurrences_link t _ _).append (tysOccurrences_link ts _ _)

theorem ty?Occurrences_link (t : Option Ty) (a a' : Place) :
    Covers (TakesPlace τ) SameName (ty?Occurrences a t)
      (ty?Occurrences a' (linkTy? τ t)) := by
  cases t with
  | none => exact .nil _
  | some t =>
    simp only [linkTy?, ty?Occurrences]
    exact Ty.occurrences_link t _ _

theorem TypeParam.occurrences_link (t : TypeParam) (a a' : Place) :
    Covers (TakesPlace τ) SameName (t.occurrences a)
      ((t.link τ).occurrences a') := by
  cases t with
  | mk mods name bound default =>
    simp only [TypeParam.link, TypeParam.occurrences]
    exact .cons rfl ((ty?Occurrences_link bound _ _).append (ty?Occurrences_link default _ _))

theorem typeParamsOccurrences_link (ts : List TypeParam) (a a' : Place) :
    Covers (TakesPlace τ) SameName (typeParamsOccurrences a ts)
      (typeParamsOccurrences a' (linkTypeParams τ ts)) := by
  cases ts with
  | nil => exact .nil _
  | cons t ts =>
    simp only [linkTypeParams, typeParamsOccurrences]
    exact (TypeParam.occurrences_link t _ _).append (typeParamsOccurrences_link ts _ _)

theorem Pat.occurrences_link (p : Pat) (declares : Bool) (a a' : Place) :
    Covers (TakesPlace τ) SameName (p.occurrences a declares)
      ((p.link τ).occurrences a' declares) := by
  cases p with
  | ident id isOptional ann =>
    simp only [Pat.link, Pat.occurrences]
    exact .cons rfl (ty?Occurrences_link ann _ _)
  | hole => exact .nil _
  | array elems isOptional ann =>
    simp only [Pat.link, Pat.occurrences]
    exact (patsOccurrences_link elems declares _ _).append (ty?Occurrences_link ann _ _)
  | object fields isOptional ann =>
    simp only [Pat.link, Pat.occurrences]
    exact (fieldsOccurrences_link fields declares _ _).append (ty?Occurrences_link ann _ _)
  | rest arg ann =>
    simp only [Pat.link, Pat.occurrences]
    exact (Pat.occurrences_link arg declares _ _).append (ty?Occurrences_link ann _ _)
  | assign left right =>
    simp only [Pat.link, Pat.occurrences]
    exact (Pat.occurrences_link left declares _ _).append (Expr.occurrences_link right _ _)

theorem patsOccurrences_link (ps : List Pat) (declares : Bool) (a a' : Place) :
    Covers (TakesPlace τ) SameName (patsOccurrences a declares ps)
      (patsOccurrences a' declares (linkPats τ ps)) := by
  cases ps with
  | nil => exact .nil _
  | cons p ps =>
    simp only [linkPats, patsOccurrences]
    exact (Pat.occurrences_link p declares _ _).append (patsOccurrences_link ps declares _ _)

theorem Field.occurrences_link (f : Field) (declares : Bool) (a a' : Place) :
    Covers (TakesPlace τ) SameName (f.occurrences a declares)
      ((f.link τ).occurrences a' declares) := by
  cases f with
  | keyed key value =>
    simp only [Field.link, Field.occurrences]
    exact (Key.occurrences_link key _ _).append (Pat.occurrences_link value declares _ _)
  | short id default =>
    simp only [Field.link, Field.occurrences]
    exact .cons rfl (expr?Occurrences_link default _ _)
  | rest arg =>
    simp only [Field.link, Field.occurrences]
    exact Pat.occurrences_link arg declares _ _

theorem fieldsOccurrences_link (fs : List Field) (declares : Bool) (a a' : Place) :
    Covers (TakesPlace τ) SameName (fieldsOccurrences a declares fs)
      (fieldsOccurrences a' declares (linkFields τ fs)) := by
  cases fs with
  | nil => exact .nil _
  | cons f fs =>
    simp only [linkFields, fieldsOccurrences]
    exact (Field.occurrences_link f declares _ _).append (fieldsOccurrences_link fs declares _ _)

theorem Signature.occurrences_link (s : Signature) (a a' : Place) :
    Covers (TakesPlace τ) SameName (s.occurrences a)
      ((s.link τ).occurrences a') := by
  cases s with
  | mk tparams params result =>
    simp only [Signature.link, Signature.occurrences]
    exact ((typeParamsOccurrences_link tparams _ _).append
      (patsOccurrences_link params _ _ _)).append (ty?Occurrences_link result _ _)

theorem Member.occurrences_link (m : Member) (a a' : Place) :
    Covers (TakesPlace τ) SameName (m.occurrences a)
      ((m.link τ).occurrences a') := by
  cases m with
  | property isReadonly key isOptional ann =>
    simp only [Member.link, Member.occurrences]
    exact (Key.occurrences_link key _ _).append (ty?Occurrences_link ann _ _)
  | getter key ann =>
    simp only [Member.link, Member.occurrences]
    exact (Key.occurrences_link key _ _).append (ty?Occurrences_link ann _ _)
  | setter key param =>
    simp only [Member.link, Member.occurrences]
    exact (Key.occurrences_link key _ _).append (Pat.occurrences_link param _ _ _)
  | method key isOptional sig =>
    simp only [Member.link, Member.occurrences]
    exact (Key.occurrences_link key _ _).append (Signature.occurrences_link sig _ _)
  | call sig =>
    simp only [Member.link, Member.occurrences]
    exact Signature.occurrences_link sig _ _
  | construct sig =>
    simp only [Member.link, Member.occurrences]
    exact Signature.occurrences_link sig _ _
  | index isReadonly param ann =>
    simp only [Member.link, Member.occurrences]
    exact (Pat.occurrences_link param _ _ _).append (ty?Occurrences_link ann _ _)

theorem membersOccurrences_link (ms : List Member) (a a' : Place) :
    Covers (TakesPlace τ) SameName (membersOccurrences a ms)
      (membersOccurrences a' (linkMembers τ ms)) := by
  cases ms with
  | nil => exact .nil _
  | cons m ms =>
    simp only [linkMembers, membersOccurrences]
    exact (Member.occurrences_link m _ _).append (membersOccurrences_link ms _ _)

end

theorem Heritage.occurrences_link (h : Heritage) (a a' : Place) :
    Covers (TakesPlace τ) SameName (h.occurrences a) ((h.link τ).occurrences a') :=
  (Expr.occurrences_link h.expr _ _).append (tysOccurrences_link h.args _ _)

theorem ClassMember.occurrences_link (m : ClassMember) (a a' : Place) :
    Covers (TakesPlace τ) SameName (m.occurrences a) ((m.link τ).occurrences a') := by
  cases m with
  | ctor mods isOptional params =>
    simp only [ClassMember.link, ClassMember.occurrences, List.flatMap_map]
    exact .flatMap (fun p _ => Pat.occurrences_link p.pat _ _ _)
  | method mods fn kind key isOptional sig =>
    exact (Key.occurrences_link key _ _).append (Signature.occurrences_link sig _ _)
  | property mods isAccessor key mark ann value =>
    exact ((Key.occurrences_link key _ _).append (ty?Occurrences_link ann _ _)).append
      (expr?Occurrences_link value _ _)
  | index mods param ann =>
    exact (Pat.occurrences_link param _ _ _).append (ty?Occurrences_link ann _ _)
  | empty => exact .nil _

theorem ClassBody.occurrences_link (c : ClassBody) (a a' : Place) :
    Covers (TakesPlace τ) SameName (c.occurrences a) ((c.link τ).occurrences a') := by
  simp only [ClassBody.link, ClassBody.occurrences, List.flatMap_map, Option.toList_map]
  refine ((typeParamsOccurrences_link c.tparams _ _).append ?_).append ?_ |>.append ?_
  · exact .flatMap (fun h _ => Heritage.occurrences_link h _ _)
  · exact .flatMap (fun h _ => Heritage.occurrences_link h _ _)
  · exact .flatMap (fun m _ => ClassMember.occurrences_link m _ _)

theorem Interface.occurrences_link (i : Interface) (a a' : Place) :
    Covers (TakesPlace τ) SameName (i.occurrences a) ((i.link τ).occurrences a') := by
  simp only [Interface.link, Interface.occurrences, List.flatMap_map]
  refine .cons rfl (((typeParamsOccurrences_link i.tparams _ _).append ?_).append
    (membersOccurrences_link i.members _ _))
  exact .flatMap (fun h _ => Heritage.occurrences_link h _ _)

theorem Declarator.occurrences_link (d : Declarator) (a a' : Place) :
    Covers (TakesPlace τ) SameName (d.occurrences a) ((d.link τ).occurrences a') :=
  (Pat.occurrences_link d.pat _ _ _).append (expr?Occurrences_link d.init _ _)

theorem EnumMember.occurrences_link (m : EnumMember) (a a' : Place) :
    Covers (TakesPlace τ) SameName (m.occurrences a) ((m.link τ).occurrences a') := by
  refine Covers.append ?_ (expr?Occurrences_link m.init _ _)
  cases hk : m.key with
  | word text =>
    simp only [EnumMember.link, hk, Key.link]
    exact .cons rfl (.nil _)
  | _ => simp only [EnumMember.link, hk, Key.link]; exact .nil _

theorem ExportName.occurrences_place (a a' : Place) (n : ExportName) :
    Covers (TakesPlace τ) SameName (n.occurrences a) (n.occurrences a') := by
  cases n with
  | word text => exact .cons rfl (.nil _)
  | str lit => exact .nil _

theorem ImportSpecifier.occurrences_place (a a' : Place) (s : ImportSpecifier) :
    Covers (TakesPlace τ) SameName (s.occurrences a) (s.occurrences a') := by
  cases s with
  | named imported loc typeOnly =>
    exact (Covers.flatMap (fun n _ => n.occurrences_place a a')).append (.cons rfl (.nil _))
  | default loc => exact .cons rfl (.nil _)
  | all loc => exact .cons rfl (.nil _)

theorem ExportSpecifier.occurrences_place (a a' : Place) (s : ExportSpecifier) :
    Covers (TakesPlace τ) SameName (s.occurrences a) (s.occurrences a') := by
  cases s with
  | named orig exported typeOnly =>
    cases orig with
    | word name => exact .cons rfl (ExportName.occurrences_place a a' _)
    | str lit => exact .flatMap (fun n _ => n.occurrences_place a a')
  | all name => exact name.occurrences_place a a'

theorem ExportList.occurrences_place (a a' : Place) (d : ExportList) :
    Covers (TakesPlace τ) SameName (d.occurrences a) (d.occurrences a') := by
  have hlist : Covers (TakesPlace τ) SameName (d.specifiers.flatMap (ExportSpecifier.occurrences a))
      (d.specifiers.flatMap (ExportSpecifier.occurrences a')) :=
    .flatMap (fun s _ => s.occurrences_place a a')
  unfold ExportList.occurrences
  dsimp only
  split
  · intro o ho
    obtain ⟨o', ho', rfl⟩ := List.mem_map.1 ho
    refine (hlist o' ho').imp_right (fun ⟨b, hb, hsame⟩ => ?_)
    exact ⟨_, List.mem_map_of_mem hb, hsame⟩
  · exact hlist

theorem DefaultName.occurrences_place (a a' : Place) (n : DefaultName) :
    Covers (TakesPlace τ) SameName (n.occurrences a) (n.occurrences a') := by
  cases n with
  | named id => exact .cons rfl (.nil _)
  | anonymous start => exact .nil _

theorem ModuleName.occurrences_place (a a' : Place) (n : ModuleName) :
    Covers (TakesPlace τ) SameName (n.occurrences a) (n.occurrences a') := by
  cases n with
  | ident id => exact .cons rfl (.nil _)
  | str lit => exact .nil _
  | global => exact .nil _

theorem ImportTarget.occurrences_place (a a' : Place) (t : ImportTarget) :
    Covers (TakesPlace τ) SameName (t.occurrences a) (t.occurrences a') := by
  cases t with
  | entity name => exact name.occurrences_place a a'
  | require src => exact .nil _

theorem DefaultDecl.occurrences_link (d : DefaultDecl) (a a' : Place) :
    Covers (TakesPlace τ) SameName (d.occurrences a) ((d.link τ).occurrences a') := by
  cases d with
  | cls name body =>
    exact (name.occurrences_place a a').append (ClassBody.occurrences_link body _ _)
  | func name body =>
    exact (name.occurrences_place a a').append (Signature.occurrences_link body.sig _ _)
  | interface body => exact Interface.occurrences_link body _ _

mutual

theorem Decl.occurrences_link (d : Decl) (a a' : Place) :
    Covers (TakesPlace τ) SameName (d.occurrences a) ((d.link τ).occurrences a') := by
  cases d with
  | cls id declare body => exact .cons rfl (ClassBody.occurrences_link body _ _)
  | func id declare body => exact .cons rfl (Signature.occurrences_link body.sig _ _)
  | var kind declare decls =>
    simp only [Decl.link, Decl.occurrences, List.flatMap_map]
    exact .flatMap (fun d _ => Declarator.occurrences_link d _ _)
  | resource isAwait decls =>
    simp only [Decl.link, Decl.occurrences, List.flatMap_map]
    exact .flatMap (fun d _ => Declarator.occurrences_link d _ _)
  | interface body => exact Interface.occurrences_link body _ _
  | typeAlias id declare tparams ty =>
    simp only [Decl.link, Decl.occurrences]
    exact .cons rfl ((typeParamsOccurrences_link tparams _ _).append (Ty.occurrences_link ty _ _))
  | enum id declare isConst members =>
    simp only [Decl.link, Decl.occurrences, List.flatMap_map]
    exact .cons rfl (.flatMap (fun m _ => EnumMember.occurrences_link m _ _))
  | space declare name inner body =>
    simp only [Decl.link, Decl.occurrences]
    exact ((name.occurrences_place a a').append (labels_place a a' inner)).append
      (bodyOccurrences_link body a a')

theorem Item.occurrences_link (i : Item) (a a' : Place) :
    Covers (TakesPlace τ) SameName (i.occurrences a) ((i.link τ).occurrences a') := by
  cases i with
  | empty => exact .nil _
  | expr e => exact Expr.occurrences_link e _ _
  | decl d =>
    simp only [Item.link, Item.occurrences]
    exact Decl.occurrences_link d a a'
  | importDecl d => exact .flatMap (fun s _ => s.occurrences_place a a')
  | importEquals d => exact .cons rfl (d.target.occurrences_place a a')
  | exportDecl d =>
    simp only [Item.link, Item.occurrences]
    exact Decl.occurrences_link d a a'
  | exportDefaultDecl d => exact DefaultDecl.occurrences_link d a a'
  | exportDefaultExpr e => exact Expr.occurrences_link e _ _
  | exportList d => exact d.occurrences_place a a'
  | exportAll d => exact .nil _
  | exportAssign e => exact Expr.occurrences_link e _ _
  | exportAsNamespace name => exact .cons rfl (.nil _)

theorem itemsOccurrences_link (is : List Item) (a a' : Place) :
    Covers (TakesPlace τ) SameName (itemsOccurrences a is)
      (itemsOccurrences a' (linkItems τ is)) := by
  cases is with
  | nil => exact .nil _
  | cons i is =>
    simp only [linkItems, itemsOccurrences]
    exact (Item.occurrences_link i a a').append (itemsOccurrences_link is a a')

theorem bodyOccurrences_link (b : Option (List Item)) (a a' : Place) :
    Covers (TakesPlace τ) SameName (bodyOccurrences a b)
      (bodyOccurrences a' (linkBody τ b)) := by
  cases b with
  | none => exact .nil _
  | some is =>
    simp only [linkBody, bodyOccurrences]
    exact itemsOccurrences_link is _ _

end

end Identifiers

end AmbientBundle.Syntax
