import AmbientBundle.Proofs.Rename.Occurrences
import AmbientBundle.Proofs.Syntax.Bound
import AmbientBundle.Proofs.Syntax.Keys
/-!
Renaming and the identifiers of a piece of syntax. What is renamed has the same identifiers in the
same places; those that are looked up get new names as far as no binder around them binds the old
one.
-/
namespace AmbientBundle.Rename

open Syntax

@[simp]
theorem hide_nil (ρ : Renaming) : hide [] ρ = ρ := by
  funext n
  simp [hide]

@[simp]
theorem hide_hide (names outer : List String) (ρ : Renaming) :
    hide names (hide outer ρ) = hide (names ++ outer) ρ := by
  funext n
  by_cases h : n ∈ names <;> simp [hide, h]

@[simp]
theorem Place.under_mk (bound names : List String) (b : Bool) :
    Place.under ⟨bound, b⟩ names = ⟨names ++ bound, b⟩ := rfl

@[simp]
theorem Place.into_mk (bound : List String) (b declares : Bool) :
    Place.into ⟨bound, b⟩ declares = ⟨bound, declares || b⟩ := rfl

@[simp]
theorem Place.plain_mk (bound : List String) (b : Bool) :
    Place.plain ⟨bound, b⟩ = ⟨bound, false⟩ := rfl

/-- Parameters are looked up in the annotations, keys and defaults of a variable's pattern too. -/
def Occurrence.isLookedUp (o : Occurrence) : Bool :=
  match o.kind with
  | .reference | .shorthand => true
  | .parameter => o.place.inPattern
  | .binder | .label => false

def Occurrence.rename (ρ : Renaming) (o : Occurrence) : Occurrence :=
  if o.isLookedUp then { o with name := hide o.place.bound ρ o.name } else o

section Kinds

variable (ρ : Renaming) (name : String) (a : Place)

@[simp]
theorem Occurrence.rename_reference : Occurrence.rename ρ ⟨.reference, name, a⟩ =
    ⟨.reference, hide a.bound ρ name, a⟩ := rfl

@[simp]
theorem Occurrence.rename_shorthand : Occurrence.rename ρ ⟨.shorthand, name, a⟩ =
    ⟨.shorthand, hide a.bound ρ name, a⟩ := rfl

@[simp]
theorem Occurrence.rename_parameter : Occurrence.rename ρ ⟨.parameter, name, a⟩ =
    ⟨.parameter, if a.inPattern then hide a.bound ρ name else name, a⟩ := by
  cases h : a.inPattern <;> simp [Occurrence.rename, Occurrence.isLookedUp, h]

@[simp]
theorem Occurrence.rename_binder : Occurrence.rename ρ ⟨.binder, name, a⟩ = ⟨.binder, name, a⟩ :=
  rfl

@[simp]
theorem Occurrence.rename_label : Occurrence.rename ρ ⟨.label, name, a⟩ = ⟨.label, name, a⟩ := rfl

end Kinds

/-- Labels are not renamed. -/
theorem map_rename_labels (ρ : Renaming) (os : List Occurrence) (h : ∀ o ∈ os, o.kind = .label) :
    os.map (Occurrence.rename ρ) = os := by
  have hid : ∀ o ∈ os, Occurrence.rename ρ o = id o := by
    intro o ho
    simp [Occurrence.rename, Occurrence.isLookedUp, h o ho]
  rw [List.map_congr_left hid, List.map_id]

theorem asProperty_rename (ρ : Renaming) (bound : List String) (b : Bool) (e : Expr)
    (h : (e.rename (hide bound ρ) b).occurrences ⟨bound, b⟩ =
      (e.occurrences ⟨bound, b⟩).map (Occurrence.rename ρ)) :
    asProperty (e.rename (hide bound ρ) b)
        ((e.rename (hide bound ρ) b).occurrences ⟨bound, b⟩) =
      (asProperty e (e.occurrences ⟨bound, b⟩)).map (Occurrence.rename ρ) := by
  cases e with
  | ident name => simp [Expr.rename, Expr.occurrences, asProperty]
  | _ => simpa [Expr.rename, asProperty] using h

theorem infers_rename (ρ : Renaming) (b : Bool) (t : Ty) : infers (t.rename ρ b) = infers t :=
  Ty.collect_rename pickInfer_blind ρ b t

theorem typeParamNames_rename (ρ : Renaming) (b : Bool) (ts : List TypeParam) :
    typeParamNames (renameTypeParams ρ b ts) = typeParamNames ts := by
  induction ts with
  | nil => rfl
  | cons t ts ih =>
    cases t
    simpa [typeParamNames, renameTypeParams, TypeParam.rename, TypeParam.name] using ih

/-- The names that a body binds for itself are hidden from the renaming, so it binds them still. -/
theorem bodyNames_rename (ρ : Renaming) (items : List Item) :
    bodyNames (renameItems (hide (bodyNames items) ρ) items) = bodyNames items := by
  have hsame : ∀ names : List String, (∀ n ∈ names, n ∈ bodyNames items) →
      names.map (hide (bodyNames items) ρ) = names := by
    intro names hnames
    have hid : ∀ n ∈ names, hide (bodyNames items) ρ n = id n :=
      fun n hn => hide_of_mem ρ (hnames n hn)
    rw [List.map_congr_left hid, List.map_id]
  have hall : bodyNames (renameItems (hide (bodyNames items) ρ) items) =
      (bodyNames items).map (hide (bodyNames items) ρ) := by
    simp [bodyNames, renameItems_eq_map, List.flatMap_map, Item.declared_rename,
      List.map_flatMap, Function.comp_def, Ident.rename]
  rw [hall, hsame _ (fun _ hn => hn)]

end AmbientBundle.Rename

namespace AmbientBundle.Syntax

open Rename

@[simp]
theorem EntityName.occurrences_mapHead (ρ : Renaming) (bound : List String) (b : Bool)
    (n : EntityName) : (n.mapHead (hide bound ρ)).occurrences ⟨bound, b⟩ =
      (n.occurrences ⟨bound, b⟩).map (Occurrence.rename ρ) := by
  simp [EntityName.mapHead, EntityName.occurrences, Function.comp_def]

@[simp]
theorem qualifierOccurrences_rename (ρ : Renaming) (a : Place) (n : Option EntityName) :
    (qualifierOccurrences a n).map (Occurrence.rename ρ) = qualifierOccurrences a n := by
  refine map_rename_labels ρ _ (fun o ho => ?_)
  simp only [qualifierOccurrences, List.mem_flatMap, List.mem_map] at ho
  obtain ⟨_, _, _, _, rfl⟩ := ho
  rfl

mutual

theorem Expr.occurrences_rename (ρ : Renaming) (bound : List String) (b : Bool) (e : Expr) :
    (e.rename (hide bound ρ) b).occurrences ⟨bound, b⟩ =
      (e.occurrences ⟨bound, b⟩).map (Occurrence.rename ρ) := by
  cases e with
  | ident name => simp [Expr.rename, Expr.occurrences]
  | word text => rfl
  | str lit => rfl
  | template chunks parts =>
    simp [Expr.rename, Expr.occurrences, exprsOccurrences_rename ρ bound b parts]
  | hole => rfl
  | spread e => simp [Expr.rename, Expr.occurrences, Expr.occurrences_rename ρ bound b e]
  | keyed key value =>
    simp [Expr.rename, Expr.occurrences, Key.occurrences_rename ρ bound b key,
      Expr.occurrences_rename ρ bound b value]
  | array elems => simp [Expr.rename, Expr.occurrences, exprsOccurrences_rename ρ bound b elems]
  | object props => simp [Expr.rename, Expr.occurrences, propsOccurrences_rename ρ bound b props]
  | paren e => simp [Expr.rename, Expr.occurrences, Expr.occurrences_rename ρ bound b e]
  | member obj optional name =>
    simp [Expr.rename, Expr.occurrences, Expr.occurrences_rename ρ bound b obj]
  | index obj optional idx =>
    simp [Expr.rename, Expr.occurrences, Expr.occurrences_rename ρ bound b obj,
      Expr.occurrences_rename ρ bound b idx]
  | call callee optional targs args =>
    simp [Expr.rename, Expr.occurrences, Expr.occurrences_rename ρ bound b callee,
      tysOccurrences_rename ρ bound b targs, exprsOccurrences_rename ρ bound b args]
  | construct callee targs args =>
    simp [Expr.rename, Expr.occurrences, Expr.occurrences_rename ρ bound b callee,
      tysOccurrences_rename ρ bound b targs, argsOccurrences_rename ρ bound b args]
  | instantiate e targs =>
    simp [Expr.rename, Expr.occurrences, Expr.occurrences_rename ρ bound b e,
      tysOccurrences_rename ρ bound b targs]
  | unary op e => simp [Expr.rename, Expr.occurrences, Expr.occurrences_rename ρ bound b e]
  | postfixed e op => simp [Expr.rename, Expr.occurrences, Expr.occurrences_rename ρ bound b e]
  | binary op left right =>
    simp [Expr.rename, Expr.occurrences, Expr.occurrences_rename ρ bound b left,
      Expr.occurrences_rename ρ bound b right]
  | cond test yes no =>
    simp [Expr.rename, Expr.occurrences, Expr.occurrences_rename ρ bound b test,
      Expr.occurrences_rename ρ bound b yes, Expr.occurrences_rename ρ bound b no]
  | seq es => simp [Expr.rename, Expr.occurrences, exprsOccurrences_rename ρ bound b es]
  | cast op e ty =>
    simp [Expr.rename, Expr.occurrences, Expr.occurrences_rename ρ bound b e,
      Ty.occurrences_rename ρ bound b ty]

theorem exprsOccurrences_rename (ρ : Renaming) (bound : List String) (b : Bool)
    (es : List Expr) : exprsOccurrences ⟨bound, b⟩ (renameExprs (hide bound ρ) b es) =
      (exprsOccurrences ⟨bound, b⟩ es).map (Occurrence.rename ρ) := by
  cases es with
  | nil => rfl
  | cons e es =>
    simp [renameExprs, exprsOccurrences, Expr.occurrences_rename ρ bound b e,
      exprsOccurrences_rename ρ bound b es]

theorem propsOccurrences_rename (ρ : Renaming) (bound : List String) (b : Bool)
    (es : List Expr) : propsOccurrences ⟨bound, b⟩ (renameExprs (hide bound ρ) b es) =
      (propsOccurrences ⟨bound, b⟩ es).map (Occurrence.rename ρ) := by
  cases es with
  | nil => rfl
  | cons e es =>
    simp only [renameExprs, propsOccurrences, List.map_append,
      asProperty_rename ρ bound b e (Expr.occurrences_rename ρ bound b e),
      propsOccurrences_rename ρ bound b es]

theorem argsOccurrences_rename (ρ : Renaming) (bound : List String) (b : Bool)
    (es : Option (List Expr)) : argsOccurrences ⟨bound, b⟩ (renameArgs (hide bound ρ) b es) =
      (argsOccurrences ⟨bound, b⟩ es).map (Occurrence.rename ρ) := by
  cases es with
  | none => rfl
  | some es => simp [renameArgs, argsOccurrences, exprsOccurrences_rename ρ bound b es]

theorem expr?Occurrences_rename (ρ : Renaming) (bound : List String) (b : Bool)
    (e : Option Expr) : expr?Occurrences ⟨bound, b⟩ (renameExpr? (hide bound ρ) b e) =
      (expr?Occurrences ⟨bound, b⟩ e).map (Occurrence.rename ρ) := by
  cases e with
  | none => rfl
  | some e => simp [renameExpr?, expr?Occurrences, Expr.occurrences_rename ρ bound b e]

theorem Key.occurrences_rename (ρ : Renaming) (bound : List String) (b : Bool) (k : Key) :
    (k.rename (hide bound ρ) b).occurrences ⟨bound, b⟩ =
      (k.occurrences ⟨bound, b⟩).map (Occurrence.rename ρ) := by
  cases k with
  | computed e => simp [Key.rename, Key.occurrences, Expr.occurrences_rename ρ bound b e]
  | word text => simp [Key.rename, Key.occurrences]
  | hidden text => simp [Key.rename, Key.occurrences]
  | str lit => rfl
  | number text => rfl

theorem Ty.occurrences_rename (ρ : Renaming) (bound : List String) (b : Bool) (t : Ty) :
    (t.rename (hide bound ρ) b).occurrences ⟨bound, b⟩ =
      (t.occurrences ⟨bound, b⟩).map (Occurrence.rename ρ) := by
  cases t with
  | word text => rfl
  | str lit => rfl
  | template chunks parts =>
    simp [Ty.rename, Ty.occurrences, tysOccurrences_rename ρ bound b parts]
  | ref name args => simp [Ty.rename, Ty.occurrences, tysOccurrences_rename ρ bound b args]
  | query name args => simp [Ty.rename, Ty.occurrences, tysOccurrences_rename ρ bound b args]
  | imported arg attrs qualifier args =>
    simp [Ty.rename, Ty.occurrences, tysOccurrences_rename ρ bound b args]
  | importQuery arg attrs qualifier args outer =>
    simp [Ty.rename, Ty.occurrences, tysOccurrences_rename ρ bound b args,
      tysOccurrences_rename ρ bound b outer]
  | array elem => simp [Ty.rename, Ty.occurrences, Ty.occurrences_rename ρ bound b elem]
  | tuple elems => simp [Ty.rename, Ty.occurrences, tysOccurrences_rename ρ bound b elems]
  | labeled isRest label isOptional ty =>
    simp [Ty.rename, Ty.occurrences, Ty.occurrences_rename ρ bound b ty]
  | optional ty => simp [Ty.rename, Ty.occurrences, Ty.occurrences_rename ρ bound b ty]
  | rest ty => simp [Ty.rename, Ty.occurrences, Ty.occurrences_rename ρ bound b ty]
  | union parts => simp [Ty.rename, Ty.occurrences, tysOccurrences_rename ρ bound b parts]
  | inter parts => simp [Ty.rename, Ty.occurrences, tysOccurrences_rename ρ bound b parts]
  | conditional check extended yes no =>
    simp [Ty.rename, Ty.occurrences, infers_rename,
      Ty.occurrences_rename ρ (infers extended ++ bound) b check,
      Ty.occurrences_rename ρ (infers extended ++ bound) b extended,
      Ty.occurrences_rename ρ (infers extended ++ bound) b yes,
      Ty.occurrences_rename ρ (infers extended ++ bound) b no]
  | infer name extended =>
    simp [Ty.rename, Ty.occurrences, ty?Occurrences_rename ρ bound b extended]
  | paren ty => simp [Ty.rename, Ty.occurrences, Ty.occurrences_rename ρ bound b ty]
  | operator op ty => simp [Ty.rename, Ty.occurrences, Ty.occurrences_rename ρ bound b ty]
  | indexed obj idx =>
    simp [Ty.rename, Ty.occurrences, Ty.occurrences_rename ρ bound b obj,
      Ty.occurrences_rename ρ bound b idx]
  | mapped readonly key domain rename optional value =>
    have hdomain := Ty.occurrences_rename ρ (key :: bound) b domain
    have hrename := ty?Occurrences_rename ρ (key :: bound) b rename
    have hvalue := ty?Occurrences_rename ρ (key :: bound) b value
    simp [Ty.rename, Ty.occurrences, hdomain, hrename, hvalue]
  | func sig => simp [Ty.rename, Ty.occurrences, Signature.occurrences_rename ρ bound b sig]
  | ctor isAbstract sig =>
    simp [Ty.rename, Ty.occurrences, Signature.occurrences_rename ρ bound b sig]
  | record members =>
    simp [Ty.rename, Ty.occurrences, membersOccurrences_rename ρ bound b members]
  | predicate asserts subject ty =>
    simp [Ty.rename, Ty.occurrences, ty?Occurrences_rename ρ bound b ty]

theorem tysOccurrences_rename (ρ : Renaming) (bound : List String) (b : Bool) (ts : List Ty) :
    tysOccurrences ⟨bound, b⟩ (renameTys (hide bound ρ) b ts) =
      (tysOccurrences ⟨bound, b⟩ ts).map (Occurrence.rename ρ) := by
  cases ts with
  | nil => rfl
  | cons t ts =>
    simp [renameTys, tysOccurrences, Ty.occurrences_rename ρ bound b t,
      tysOccurrences_rename ρ bound b ts]

theorem ty?Occurrences_rename (ρ : Renaming) (bound : List String) (b : Bool)
    (t : Option Ty) : ty?Occurrences ⟨bound, b⟩ (renameTy? (hide bound ρ) b t) =
      (ty?Occurrences ⟨bound, b⟩ t).map (Occurrence.rename ρ) := by
  cases t with
  | none => rfl
  | some t => simp [renameTy?, ty?Occurrences, Ty.occurrences_rename ρ bound b t]

theorem TypeParam.occurrences_rename (ρ : Renaming) (bound : List String) (b : Bool)
    (t : TypeParam) : (t.rename (hide bound ρ) b).occurrences ⟨bound, b⟩ =
      (t.occurrences ⟨bound, b⟩).map (Occurrence.rename ρ) := by
  cases t with
  | mk mods name extended default =>
    simp [TypeParam.rename, TypeParam.occurrences, ty?Occurrences_rename ρ bound b extended,
      ty?Occurrences_rename ρ bound b default]

theorem typeParamsOccurrences_rename (ρ : Renaming) (bound : List String) (b : Bool)
    (ts : List TypeParam) :
    typeParamsOccurrences ⟨bound, b⟩ (renameTypeParams (hide bound ρ) b ts) =
      (typeParamsOccurrences ⟨bound, b⟩ ts).map (Occurrence.rename ρ) := by
  cases ts with
  | nil => rfl
  | cons t ts =>
    simp [renameTypeParams, typeParamsOccurrences, TypeParam.occurrences_rename ρ bound b t,
      typeParamsOccurrences_rename ρ bound b ts]

theorem Pat.occurrences_rename (ρ : Renaming) (bound : List String) (b declares : Bool)
    (p : Pat) : (p.rename (hide bound ρ) (declares || b)).occurrences ⟨bound, b⟩ declares =
      (p.occurrences ⟨bound, b⟩ declares).map (Occurrence.rename ρ) := by
  cases p with
  | ident id isOptional ann =>
    have hann := ty?Occurrences_rename ρ bound false ann
    cases declares <;> cases b <;>
      simp [Pat.rename, Pat.occurrences, hann, Ident.renameIf, Ident.rename]
  | hole => rfl
  | array elems isOptional ann =>
    simp [Pat.rename, Pat.occurrences, patsOccurrences_rename ρ bound b declares elems,
      ty?Occurrences_rename ρ bound (declares || b) ann]
  | object fields isOptional ann =>
    simp [Pat.rename, Pat.occurrences, fieldsOccurrences_rename ρ bound b declares fields,
      ty?Occurrences_rename ρ bound (declares || b) ann]
  | rest arg ann =>
    simp [Pat.rename, Pat.occurrences, Pat.occurrences_rename ρ bound b declares arg,
      ty?Occurrences_rename ρ bound (declares || b) ann]
  | assign left right =>
    simp [Pat.rename, Pat.occurrences, Pat.occurrences_rename ρ bound b declares left,
      Expr.occurrences_rename ρ bound (declares || b) right]

theorem patsOccurrences_rename (ρ : Renaming) (bound : List String) (b declares : Bool)
    (ps : List Pat) :
    patsOccurrences ⟨bound, b⟩ declares (renamePats (hide bound ρ) (declares || b) ps) =
      (patsOccurrences ⟨bound, b⟩ declares ps).map (Occurrence.rename ρ) := by
  cases ps with
  | nil => rfl
  | cons p ps =>
    simp [renamePats, patsOccurrences, Pat.occurrences_rename ρ bound b declares p,
      patsOccurrences_rename ρ bound b declares ps]

theorem Field.occurrences_rename (ρ : Renaming) (bound : List String) (b declares : Bool)
    (f : Field) : (f.rename (hide bound ρ) (declares || b)).occurrences ⟨bound, b⟩ declares =
      (f.occurrences ⟨bound, b⟩ declares).map (Occurrence.rename ρ) := by
  cases f with
  | keyed key value =>
    simp [Field.rename, Field.occurrences, Key.occurrences_rename ρ bound (declares || b) key,
      Pat.occurrences_rename ρ bound b declares value]
  | short id default =>
    have hdefault := expr?Occurrences_rename ρ bound (declares || b) default
    cases declares <;> cases b <;>
      simpa [Field.rename, Field.occurrences, Ident.renameIf, Ident.rename] using hdefault
  | rest arg =>
    simp [Field.rename, Field.occurrences, Pat.occurrences_rename ρ bound b declares arg]

theorem fieldsOccurrences_rename (ρ : Renaming) (bound : List String) (b declares : Bool)
    (fs : List Field) :
    fieldsOccurrences ⟨bound, b⟩ declares (renameFields (hide bound ρ) (declares || b) fs) =
      (fieldsOccurrences ⟨bound, b⟩ declares fs).map (Occurrence.rename ρ) := by
  cases fs with
  | nil => rfl
  | cons f fs =>
    simp [renameFields, fieldsOccurrences, Field.occurrences_rename ρ bound b declares f,
      fieldsOccurrences_rename ρ bound b declares fs]

theorem Signature.occurrences_rename (ρ : Renaming) (bound : List String) (b : Bool)
    (s : Signature) : (s.rename (hide bound ρ) b).occurrences ⟨bound, b⟩ =
      (s.occurrences ⟨bound, b⟩).map (Occurrence.rename ρ) := by
  cases s with
  | mk tparams params result =>
    have hparams := patsOccurrences_rename ρ (typeParamNames tparams ++ bound) b false params
    rw [Bool.false_or] at hparams
    simp [Signature.rename, Signature.occurrences, typeParamNames_rename, hparams,
      typeParamsOccurrences_rename ρ (typeParamNames tparams ++ bound) b tparams,
      ty?Occurrences_rename ρ (typeParamNames tparams ++ bound) b result]

theorem Member.occurrences_rename (ρ : Renaming) (bound : List String) (b : Bool)
    (m : Member) : (m.rename (hide bound ρ) b).occurrences ⟨bound, b⟩ =
      (m.occurrences ⟨bound, b⟩).map (Occurrence.rename ρ) := by
  cases m with
  | property isReadonly key isOptional ann =>
    simp [Member.rename, Member.occurrences, Key.occurrences_rename ρ bound b key,
      ty?Occurrences_rename ρ bound b ann]
  | getter key ann =>
    simp [Member.rename, Member.occurrences, Key.occurrences_rename ρ bound b key,
      ty?Occurrences_rename ρ bound b ann]
  | setter key param =>
    have hparam := Pat.occurrences_rename ρ bound b false param
    rw [Bool.false_or] at hparam
    simp [Member.rename, Member.occurrences, Key.occurrences_rename ρ bound b key, hparam]
  | method key isOptional sig =>
    simp [Member.rename, Member.occurrences, Key.occurrences_rename ρ bound b key,
      Signature.occurrences_rename ρ bound b sig]
  | call sig => simp [Member.rename, Member.occurrences, Signature.occurrences_rename ρ bound b sig]
  | construct sig =>
    simp [Member.rename, Member.occurrences, Signature.occurrences_rename ρ bound b sig]
  | index isReadonly param ann =>
    have hparam := Pat.occurrences_rename ρ bound b false param
    rw [Bool.false_or] at hparam
    simp [Member.rename, Member.occurrences, hparam, ty?Occurrences_rename ρ bound b ann]

theorem membersOccurrences_rename (ρ : Renaming) (bound : List String) (b : Bool)
    (ms : List Member) : membersOccurrences ⟨bound, b⟩ (renameMembers (hide bound ρ) b ms) =
      (membersOccurrences ⟨bound, b⟩ ms).map (Occurrence.rename ρ) := by
  cases ms with
  | nil => rfl
  | cons m ms =>
    simp [renameMembers, membersOccurrences, Member.occurrences_rename ρ bound b m,
      membersOccurrences_rename ρ bound b ms]

end

section Declarations

variable (ρ : Renaming) (bound : List String)

/-- Parameters, members and clauses that are renamed one by one. -/
theorem flatMap_occurrences_rename {α : Type} (rename : α → α) (os : α → List Occurrence)
    (h : ∀ x, os (rename x) = (os x).map (Occurrence.rename ρ)) (xs : List α) :
    (xs.map rename).flatMap os = (xs.flatMap os).map (Occurrence.rename ρ) := by
  simp [List.flatMap_map, List.map_flatMap, h]

theorem Pat.occurrences_rename_param (p : Pat) :
    (p.rename (hide bound ρ) false).occurrences ⟨bound, false⟩ false =
      (p.occurrences ⟨bound, false⟩ false).map (Occurrence.rename ρ) :=
  Pat.occurrences_rename ρ bound false false p

theorem Heritage.occurrences_rename (h : Heritage) :
    (h.rename (hide bound ρ)).occurrences ⟨bound, false⟩ =
      (h.occurrences ⟨bound, false⟩).map (Occurrence.rename ρ) := by
  simp [Heritage.rename, Heritage.occurrences, Expr.occurrences_rename, tysOccurrences_rename]

theorem ClassMember.occurrences_rename (m : ClassMember) :
    (m.rename (hide bound ρ)).occurrences ⟨bound, false⟩ =
      (m.occurrences ⟨bound, false⟩).map (Occurrence.rename ρ) := by
  cases m with
  | ctor mods isOptional params =>
    exact flatMap_occurrences_rename ρ (CtorParam.rename (hide bound ρ)) _
      (fun p => Pat.occurrences_rename_param ρ bound p.pat) params
  | method mods fn kind key isOptional sig =>
    simp [ClassMember.rename, ClassMember.occurrences, Key.occurrences_rename,
      Signature.occurrences_rename]
  | property mods isAccessor key mark ann value =>
    simp [ClassMember.rename, ClassMember.occurrences, Key.occurrences_rename,
      ty?Occurrences_rename, expr?Occurrences_rename]
  | index mods param ann =>
    simp [ClassMember.rename, ClassMember.occurrences, Pat.occurrences_rename_param,
      ty?Occurrences_rename]
  | empty => rfl

theorem ClassBody.occurrences_rename (c : ClassBody) :
    (c.rename (hide bound ρ)).occurrences ⟨bound, false⟩ =
      (c.occurrences ⟨bound, false⟩).map (Occurrence.rename ρ) := by
  have hmembers := flatMap_occurrences_rename ρ _ _
    (ClassMember.occurrences_rename ρ (typeParamNames c.tparams ++ bound)) c.members
  have hbases := flatMap_occurrences_rename ρ _ _
    (Heritage.occurrences_rename ρ (typeParamNames c.tparams ++ bound))
  simp [ClassBody.rename, ClassBody.occurrences, typeParamNames_rename,
    typeParamsOccurrences_rename, hmembers, hbases, Option.toList_map]

theorem Interface.occurrences_rename (i : Interface) :
    (i.rename (hide bound ρ)).occurrences ⟨bound, false⟩ =
      (i.occurrences ⟨bound, false⟩).map (Occurrence.rename ρ) := by
  have hbases := flatMap_occurrences_rename ρ _ _
    (Heritage.occurrences_rename ρ (typeParamNames i.tparams ++ bound)) i.bases
  simp [Interface.rename, Interface.occurrences, typeParamNames_rename, Ident.rename,
    typeParamsOccurrences_rename, membersOccurrences_rename, hbases]

theorem Declarator.occurrences_rename (d : Declarator) :
    (d.rename (hide bound ρ)).occurrences ⟨bound, false⟩ =
      (d.occurrences ⟨bound, false⟩).map (Occurrence.rename ρ) := by
  have hpat := Pat.occurrences_rename ρ bound false true d.pat
  rw [Bool.true_or] at hpat
  simp [Declarator.rename, Declarator.occurrences, hpat, expr?Occurrences_rename]

theorem EnumMember.occurrences_rename (m : EnumMember) :
    (m.rename (hide bound ρ)).occurrences ⟨bound, false⟩ =
      (m.occurrences ⟨bound, false⟩).map (Occurrence.rename ρ) := by
  cases m with
  | mk key init =>
    cases key <;> simp [EnumMember.rename, EnumMember.occurrences, expr?Occurrences_rename]

theorem ExportName.map_rename_occurrences (a : Place) (n : ExportName) :
    (n.occurrences a).map (Occurrence.rename ρ) = n.occurrences a := by
  cases n <;> simp [ExportName.occurrences]

theorem ExportSpecifier.occurrences_rename (s : ExportSpecifier) :
    (s.rename (hide bound ρ)).occurrences ⟨bound, false⟩ =
      (s.occurrences ⟨bound, false⟩).map (Occurrence.rename ρ) := by
  cases s with
  | named orig exported typeOnly =>
    cases orig with
    | word name =>
      by_cases h : hide bound ρ name = name <;>
        simp [ExportSpecifier.rename, ExportSpecifier.occurrences, h,
          ExportName.map_rename_occurrences]
    | str lit =>
      simp [ExportSpecifier.rename, ExportSpecifier.occurrences, List.map_flatMap,
        ExportName.map_rename_occurrences]
  | all name =>
    simp [ExportSpecifier.rename, ExportSpecifier.occurrences, ExportName.map_rename_occurrences]

theorem ExportList.occurrences_rename (d : ExportList) :
    (d.rename (hide bound ρ)).occurrences ⟨bound, false⟩ =
      (d.occurrences ⟨bound, false⟩).map (Occurrence.rename ρ) := by
  by_cases hsrc : d.src.isSome = true
  · rw [ExportList.rename, if_pos hsrc, map_rename_labels]
    intro o ho
    simp only [ExportList.occurrences, if_pos hsrc, List.mem_map] at ho
    obtain ⟨_, _, rfl⟩ := ho
    rfl
  · have hspecs := flatMap_occurrences_rename ρ _ _
      (ExportSpecifier.occurrences_rename ρ bound) d.specifiers
    simp [ExportList.rename, ExportList.occurrences, hsrc, hspecs]

theorem DefaultName.occurrences_rename (n : DefaultName) :
    (n.rename (hide bound ρ)).occurrences ⟨bound, false⟩ =
      (n.occurrences ⟨bound, false⟩).map (Occurrence.rename ρ) := by
  cases n <;> simp [DefaultName.rename, DefaultName.occurrences, DefaultName.ident?, Ident.rename]

theorem DefaultDecl.occurrences_rename (d : DefaultDecl) :
    (d.rename (hide bound ρ)).occurrences ⟨bound, false⟩ =
      (d.occurrences ⟨bound, false⟩).map (Occurrence.rename ρ) := by
  cases d with
  | cls name body =>
    simp [DefaultDecl.rename, DefaultDecl.occurrences, DefaultName.occurrences_rename,
      ClassBody.occurrences_rename]
  | func name body =>
    simp [DefaultDecl.rename, DefaultDecl.occurrences, DefaultName.occurrences_rename,
      Func.rename, Signature.occurrences_rename]
  | interface body => exact Interface.occurrences_rename ρ bound body

theorem ImportSpecifier.map_rename_occurrences (a : Place) (s : ImportSpecifier) :
    (s.occurrences a).map (Occurrence.rename ρ) = s.occurrences a := by
  cases s <;> simp [ImportSpecifier.occurrences, List.map_flatMap,
    ExportName.map_rename_occurrences]

theorem ModuleName.occurrences_rename (n : ModuleName) :
    (n.rename (hide bound ρ)).occurrences ⟨bound, false⟩ =
      (n.occurrences ⟨bound, false⟩).map (Occurrence.rename ρ) := by
  cases n <;> simp [ModuleName.rename, ModuleName.occurrences, Ident.rename]

theorem ImportTarget.occurrences_rename (t : ImportTarget) :
    (t.rename (hide bound ρ)).occurrences ⟨bound, false⟩ =
      (t.occurrences ⟨bound, false⟩).map (Occurrence.rename ρ) := by
  cases t <;> simp [ImportTarget.rename, ImportTarget.occurrences]

end Declarations

mutual

theorem Decl.occurrences_rename (ρ : Renaming) (bound : List String) (d : Decl) :
    (d.rename (hide bound ρ)).occurrences ⟨bound, false⟩ =
      (d.occurrences ⟨bound, false⟩).map (Occurrence.rename ρ) := by
  cases d with
  | cls id declare body =>
    simp [Decl.rename, Decl.occurrences, Ident.rename, ClassBody.occurrences_rename]
  | func id declare body =>
    simp [Decl.rename, Decl.occurrences, Ident.rename, Func.rename, Signature.occurrences_rename]
  | var kind declare decls =>
    exact flatMap_occurrences_rename ρ _ _ (Declarator.occurrences_rename ρ bound) decls
  | resource isAwait decls =>
    exact flatMap_occurrences_rename ρ _ _ (Declarator.occurrences_rename ρ bound) decls
  | interface body => exact Interface.occurrences_rename ρ bound body
  | typeAlias id declare tparams ty =>
    simp [Decl.rename, Decl.occurrences, Ident.rename, typeParamNames_rename,
      typeParamsOccurrences_rename, Ty.occurrences_rename]
  | enum id declare isConst members =>
    have hmembers := flatMap_occurrences_rename ρ _ _ (EnumMember.occurrences_rename ρ bound)
      members
    simp [Decl.rename, Decl.occurrences, Ident.rename, hmembers]
  | space declare name inner body =>
    simp [Decl.rename, Decl.occurrences, ModuleName.occurrences_rename, Function.comp_def,
      bodyOccurrences_rename ρ bound body]

theorem Item.occurrences_rename (ρ : Renaming) (bound : List String) (i : Item) :
    (i.rename (hide bound ρ)).occurrences ⟨bound, false⟩ =
      (i.occurrences ⟨bound, false⟩).map (Occurrence.rename ρ) := by
  cases i with
  | empty => rfl
  | expr e => exact Expr.occurrences_rename ρ bound false e
  | decl d => simp [Item.rename, Item.occurrences, Decl.occurrences_rename ρ bound d]
  | importDecl d =>
    simp [Item.rename, Item.occurrences, List.map_flatMap, ImportSpecifier.map_rename_occurrences]
  | importEquals d =>
    simp [Item.rename, Item.occurrences, Ident.rename, ImportTarget.occurrences_rename]
  | exportDecl d => simp [Item.rename, Item.occurrences, Decl.occurrences_rename ρ bound d]
  | exportDefaultDecl d => exact DefaultDecl.occurrences_rename ρ bound d
  | exportDefaultExpr e => exact Expr.occurrences_rename ρ bound false e
  | exportList d => exact ExportList.occurrences_rename ρ bound d
  | exportAll d => rfl
  | exportAssign e => exact Expr.occurrences_rename ρ bound false e
  | exportAsNamespace name => simp [Item.rename, Item.occurrences]

theorem itemsOccurrences_rename (ρ : Renaming) (bound : List String) (is : List Item) :
    itemsOccurrences ⟨bound, false⟩ (renameItems (hide bound ρ) is) =
      (itemsOccurrences ⟨bound, false⟩ is).map (Occurrence.rename ρ) := by
  cases is with
  | nil => rfl
  | cons i is =>
    simp [renameItems, itemsOccurrences, Item.occurrences_rename ρ bound i,
      itemsOccurrences_rename ρ bound is]

theorem bodyOccurrences_rename (ρ : Renaming) (bound : List String) (body : Option (List Item)) :
    bodyOccurrences ⟨bound, false⟩ (renameBody (hide bound ρ) body) =
      (bodyOccurrences ⟨bound, false⟩ body).map (Occurrence.rename ρ) := by
  cases body with
  | none => rfl
  | some is =>
    have hnames := bodyNames_rename (hide bound ρ) is
    simp only [hide_hide] at hnames
    simp [renameBody, bodyOccurrences, hnames,
      itemsOccurrences_rename ρ (bodyNames is ++ bound) is]

end

end AmbientBundle.Syntax
