import AmbientBundle.Declare
/-!
The passes that give declarations their `declare` modifier or take it away. A pass answers the
items one by one, and answers anything only where one of them changes. Main statement: what it
changes is a modifier, it changes nothing the second time, and of the two passes the last one
counts, but that an exported declaration does not get back what it has lost.
-/
namespace AmbientBundle.Declare

open Syntax

section Loop

variable {f : Item → Option Item}

/-- The image of items of which one changes at least. -/
def image? (f : Item → Option Item) (items : List Item) : Option (List Item) :=
  if items.any (fun i => (f i).isSome) then some (items.map (fun i => (f i).getD i)) else none

theorem image?_getD (f : Item → Option Item) (items : List Item) :
    (image? f items).getD items = items.map (fun i => (f i).getD i) := by
  unfold image?
  split
  · rfl
  · rename_i h
    have hnone : ∀ i ∈ items, f i = none := by simpa using h
    refine (List.map_id' items).symm.trans (List.map_congr_left (fun i hi => ?_))
    rw [hnone i hi, Option.getD_none]

/-- An item that does not change goes behind the copy, if there is one; the first one that does
brings along those in front of it, none of which changed. -/
theorem advance_image? (seen rest : List Item) (i : Item) :
    advance f (seen ++ i :: rest) ((image? f seen).map List.toArray) (i, seen.length) =
      (image? f (seen ++ [i])).map List.toArray := by
  unfold advance
  cases hi : f i with
  | none => by_cases h : seen.any (fun i => (f i).isSome) <;> simp [image?, h, hi]
  | some j =>
    have hcopied : ((image? f seen).map List.toArray).getD seen.toArray =
        (seen.map (fun i => (f i).getD i)).toArray := by
      rw [Option.getD_map, image?_getD]
    have hbehind : image? f (seen ++ [i]) = some (seen.map (fun i => (f i).getD i) ++ [j]) := by
      simp [image?, hi]
    dsimp only
    rw [List.take_left, hcopied, hbehind, List.push_toArray, Option.map_some]

theorem foldl_advance (seen rest : List Item) :
    (rest.zipIdx seen.length).foldl (advance f (seen ++ rest)) ((image? f seen).map List.toArray) =
      (image? f (seen ++ rest)).map List.toArray := by
  induction rest generalizing seen with
  | nil => simp
  | cons i rest ih =>
    rw [List.zipIdx_cons, List.foldl_cons, advance_image?]
    have hrest := ih (seen ++ [i])
    rwa [List.length_append, List.length_singleton, List.append_assoc] at hrest

theorem mapItems?_eq (f : Item → Option Item) (items : List Item) :
    mapItems? f items = image? f items := by
  have h : items.zipIdx.foldl (advance f items) none = (image? f items).map List.toArray :=
    foldl_advance [] items
  rw [mapItems?, h, Option.map_map]
  cases image? f items <;> rfl

theorem mapItems?_eq_none_iff {items : List Item} :
    mapItems? f items = none ↔ ∀ i ∈ items, f i = none := by
  simp [mapItems?_eq, image?]

theorem mapItems?_getD (f : Item → Option Item) (is : List Item) :
    (mapItems? f is).getD is = is.map (fun i => (f i).getD i) := by
  rw [mapItems?_eq, image?_getD]

end Loop

/-- `Marks declare d e`: the declarations are alike but for their modifier, which `e` has and `d`
has not, or the other way about. -/
inductive Marks (declare : Bool) : Decl → Decl → Prop where
  | cls (id : Ident) (body : ClassBody) : Marks declare (.cls id (!declare) body) (.cls id declare body)
  | func (id : Ident) (body : Func) : Marks declare (.func id (!declare) body) (.func id declare body)
  | var (kind : VarKind) (decls : List Declarator) :
      Marks declare (.var kind (!declare) decls) (.var kind declare decls)
  | enum (id : Ident) (isConst : Bool) (members : List EnumMember) :
      Marks declare (.enum id (!declare) isConst members) (.enum id declare isConst members)
  | space (id : Ident) (inner : List String) (body : Option (List Item)) :
      Marks declare (.space (!declare) (.ident id) inner body) (.space declare (.ident id) inner body)

section Declarations

variable {declare : Bool} {d e : Decl}

theorem modifier?_setModifier (declare : Bool) (h : modifier? d ≠ none) :
    modifier? (setModifier declare d) = some declare := by
  cases d with
  | space declare' name inner body => cases name with
    | ident id => rfl
    | str lit => exact absurd rfl h
    | global => exact absurd rfl h
  | _ => first | rfl | exact absurd rfl h

theorem Marks.change? (h : Marks declare d e) : Declare.change? declare d = some e := by
  cases h <;> simp [Declare.change?, modifier?, setModifier]

theorem marks_setModifier (h : modifier? d = some (!declare)) :
    Marks declare d (setModifier declare d) := by
  cases d with
  | cls id declare' body => obtain rfl := Option.some.inj h; exact .cls id body
  | func id declare' body => obtain rfl := Option.some.inj h; exact .func id body
  | var kind declare' decls => obtain rfl := Option.some.inj h; exact .var kind decls
  | enum id declare' isConst members => obtain rfl := Option.some.inj h; exact .enum id isConst members
  | space declare' name inner body =>
    cases name with
    | ident id => obtain rfl := Option.some.inj h; exact .space id inner body
    | _ => cases h
  | _ => cases h

/-- A declaration changes if it has the other modifier, and in that modifier only. -/
theorem change?_eq_some_iff : change? declare d = some e ↔ Marks declare d e := by
  constructor
  · intro h
    unfold change? at h
    split at h
    · rename_i hm
      exact Option.some.inj h ▸ marks_setModifier hm
    · cases h
  · exact Marks.change?

/-- A declaration of a known kind gets the modifier; others stay as they are. -/
theorem ensure_cases (declare : Bool) (d : Decl) :
    modifier? d = none ∧ ensure declare d = d ∨ modifier? (ensure declare d) = some declare := by
  unfold ensure change?
  cases hm : modifier? d with
  | none => exact Or.inl ⟨rfl, rfl⟩
  | some b =>
    right
    by_cases hb : b = declare
    · subst hb
      have hne : some b ≠ some (!b) := by cases b <;> simp
      rw [if_neg hne]
      exact hm
    · have heq : some b = some (!declare) := by cases b <;> cases declare <;> simp_all
      rw [if_pos heq]
      exact modifier?_setModifier declare (by simp [hm])

/-- What does not depend on the modifier stays as it is. -/
theorem ensure_keeps {β : Type} {f : Decl → β} {declare : Bool}
    (h : ∀ d, f (setModifier declare d) = f d) (d : Decl) : f (ensure declare d) = f d := by
  unfold ensure change?
  split
  · exact h d
  · rfl

/-- Of two changes of the modifier the last one counts. -/
theorem ensure_ensure (a b : Bool) (d : Decl) : ensure a (ensure b d) = ensure a d := by
  cases d with
  | space declare name inner body =>
    cases name <;> cases declare <;> cases a <;> cases b <;> rfl
  | cls id declare body => cases declare <;> cases a <;> cases b <;> rfl
  | func id declare body => cases declare <;> cases a <;> cases b <;> rfl
  | var kind declare decls => cases declare <;> cases a <;> cases b <;> rfl
  | enum id declare isConst members => cases declare <;> cases a <;> cases b <;> rfl
  | _ => cases a <;> cases b <;> rfl

theorem change?_ensure (declare : Bool) (d : Decl) : change? declare (ensure declare d) = none := by
  rw [change?, if_neg]
  rcases ensure_cases declare d with ⟨hnone, hsame⟩ | hset
  · simp [hsame, hnone]
  · cases declare <;> simp [hset]

end Declarations

/-- The modifier that declarations have behind the pass. -/
def Pass.declares : Pass → Bool
  | .add => true
  | .drop => false

/-- `Rewrites p i j`: the pass changes the statement `i`, and `j` is what it makes of it. -/
inductive Rewrites : Pass → Item → Item → Prop where
  | decl {p : Pass} {d e : Decl} (h : Marks p.declares d e) : Rewrites p (.decl d) (.decl e)
  | exported {d e : Decl} (h : Marks false d e) : Rewrites .drop (.exportDecl d) (.exportDecl e)

namespace Pass

variable {p : Pass} {i j : Item}

theorem onItem?_decl (p : Pass) (d : Decl) :
    p.onItem? (.decl d) = (change? p.declares d).map .decl := by
  cases p <;> rfl

@[simp] theorem decl_onItem? (p : Pass) (d : Decl) :
    (p.onItem? (.decl d)).getD (.decl d) = .decl (ensure p.declares d) := by
  rw [onItem?_decl, Option.getD_map]
  rfl

@[simp] theorem exportDecl_onItem? (d : Decl) :
    (onItem? .drop (.exportDecl d)).getD (.exportDecl d) = .exportDecl (ensure false d) := by
  rw [onItem?, dropFromItem?, Option.getD_map]
  rfl

/-- A pass changes declarations only, and nothing but the modifier. -/
theorem onItem?_eq_some_iff : p.onItem? i = some j ↔ Rewrites p i j := by
  constructor
  · intro h
    cases i with
    | decl d =>
      rw [onItem?_decl, Option.map_eq_some_iff] at h
      obtain ⟨e, he, rfl⟩ := h
      exact .decl (change?_eq_some_iff.1 he)
    | exportDecl d =>
      cases p with
      | add => cases h
      | drop =>
        rw [onItem?, dropFromItem?, Option.map_eq_some_iff] at h
        obtain ⟨e, he, rfl⟩ := h
        exact .exported (change?_eq_some_iff.1 he)
    | _ => cases p <;> cases h
  · intro h
    cases h with
    | decl h => rw [onItem?_decl, h.change?, Option.map_some]
    | exported h => rw [onItem?, dropFromItem?, h.change?, Option.map_some]

theorem onItem?_cases (p : Pass) (i : Item) :
    (p.onItem? i).getD i = i ∨ Rewrites p i ((p.onItem? i).getD i) := by
  cases h : p.onItem? i with
  | none => exact Or.inl rfl
  | some j => exact Or.inr (onItem?_eq_some_iff.1 h)

/-- A pass changes declarations only. -/
theorem eq_of_onItem? (h : (p.onItem? i).getD i = j) :
    i = j ∨ (∃ d e, i = .decl d ∧ j = .decl e) ∨ ∃ d e, i = .exportDecl d ∧ j = .exportDecl e := by
  rcases p.onItem?_cases i with hsame | hrewrites
  · exact Or.inl (hsame.symm.trans h)
  · rw [h] at hrewrites
    cases hrewrites with
    | decl => exact Or.inr (Or.inl ⟨_, _, rfl, rfl⟩)
    | exported => exact Or.inr (Or.inr ⟨_, _, rfl, rfl⟩)

/-- A pass only sets modifiers: what does not depend on them stays. -/
theorem apply_onItem? {α : Type} (f : Item → α)
    (hdecl : ∀ b d, f (.decl (setModifier b d)) = f (.decl d))
    (hexport : ∀ b d, f (.exportDecl (setModifier b d)) = f (.exportDecl d)) (p : Pass)
    (i : Item) : f ((p.onItem? i).getD i) = f i := by
  cases i with
  | decl d => rw [decl_onItem?]; exact ensure_keeps (f := fun e => f (.decl e)) (hdecl _) d
  | exportDecl d =>
    cases p with
    | add => rfl
    | drop => rw [exportDecl_onItem?]; exact ensure_keeps (f := fun e => f (.exportDecl e)) (hexport _) d
  | _ => cases p <;> rfl

theorem onItem?_onItem? (p : Pass) (i : Item) : p.onItem? ((p.onItem? i).getD i) = none := by
  cases i with
  | decl d => rw [decl_onItem?, onItem?_decl, change?_ensure, Option.map_none]
  | exportDecl d =>
    cases p with
    | add => rfl
    | drop => rw [exportDecl_onItem?, onItem?, dropFromItem?, change?_ensure, Option.map_none]
  | _ => cases p <;> rfl

/-- Both passes change the declarations that are statements, so that the last pass counts there. -/
theorem onItem?_of_pass (h : ∀ d, i ≠ .exportDecl d) (p q : Pass) :
    (p.onItem? ((q.onItem? i).getD i)).getD ((q.onItem? i).getD i) = (p.onItem? i).getD i := by
  cases i with
  | decl d => simp only [decl_onItem?, ensure_ensure]
  | exportDecl d => exact absurd rfl (h d)
  | _ => cases p <;> cases q <;> rfl

/-- The pass that adds modifiers leaves exported declarations to the one that drops them. -/
theorem drop_add_onItem? (i : Item) :
    (onItem? .drop ((onItem? .add i).getD i)).getD ((onItem? .add i).getD i) =
      (onItem? .drop i).getD i := by
  by_cases h : ∃ d, i = .exportDecl d
  · obtain ⟨d, rfl⟩ := h
    rfl
  · exact onItem?_of_pass (fun d hd => h ⟨d, hd⟩) .drop .add

theorem onBody_eq (p : Pass) (items : List Item) :
    p.onBody items = items.map (fun i => (p.onItem? i).getD i) :=
  mapItems?_getD p.onItem? items

theorem body_run (p : Pass) (m : Module) :
    (p.run m).body = m.body.map (fun i => (p.onItem? i).getD i) :=
  p.onBody_eq m.body

end Pass

/-- What a pass does to the statements of a body: in order, each becomes what the pass makes of it.
Nothing is answered where none changes; one that does gets another modifier; and a second time none
changes. -/
structure Normalizes (p : Pass) (body : List Item) : Prop where
  inOrder : p.onBody body = body.map (fun i => (p.onItem? i).getD i)
  same : mapItems? p.onItem? body = none ↔ ∀ i ∈ body, p.onItem? i = none
  rewrites : ∀ i ∈ body, ∀ j, p.onItem? i = some j → Rewrites p i j
  again : mapItems? p.onItem? (p.onBody body) = none

theorem normalizes (p : Pass) (body : List Item) : Normalizes p body where
  inOrder := p.onBody_eq body
  same := mapItems?_eq_none_iff
  rewrites _ _ _ h := Pass.onItem?_eq_some_iff.1 h
  again := by
    rw [mapItems?_eq_none_iff, p.onBody_eq, List.forall_mem_map]
    exact fun i _ => p.onItem?_onItem? i

/-- Each pass is a stable rewriting of modifiers. Behind the other one the pass that drops them
gives what it gives alone, and so does the one that adds them where no declaration is exported. -/
theorem passes_normalize (body : List Item) :
    (∀ p, Normalizes p body) ∧
    Pass.onBody .drop (Pass.onBody .add body) = Pass.onBody .drop body ∧
    ∀ (k : Nat) (i : Item), body[k]? = some i → (∀ d, i ≠ .exportDecl d) →
      (Pass.onBody .add (Pass.onBody .drop body))[k]? = (Pass.onBody .add body)[k]? := by
  refine ⟨fun p => normalizes p body, ?_, fun k i hk hi => ?_⟩
  · simp only [Pass.onBody_eq, List.map_map]
    exact List.map_congr_left (fun i _ => Pass.drop_add_onItem? i)
  · simp only [Pass.onBody_eq, List.getElem?_map, hk, Option.map_some]
    exact congrArg some (Pass.onItem?_of_pass hi .add .drop)

/-- An enumeration without the modifier, one with it, and an exported one. -/
def threeEnums : List Item :=
  [.decl (.enum ⟨"A", 0⟩ false false []), .decl (.enum ⟨"B", 10⟩ true false []),
    .exportDecl (.enum ⟨"C", 20⟩ true false [])]

/-- The second enumeration has its modifier again behind both passes; the exported one has not. -/
theorem threeEnums_normalize :
    threeEnums[1]? = some (.decl (.enum ⟨"B", 10⟩ true false [])) ∧
    (∀ d, Item.decl (.enum ⟨"B", 10⟩ true false []) ≠ .exportDecl d) ∧
    (Pass.onBody .add (Pass.onBody .drop threeEnums))[1]? = (Pass.onBody .add threeEnums)[1]? ∧
    (Pass.onBody .add (Pass.onBody .drop threeEnums))[2]? ≠ (Pass.onBody .add threeEnums)[2]? :=
  ⟨rfl, by simp, (passes_normalize threeEnums).2.2 1 _ rfl (by simp), by
    simp [Pass.onBody_eq, threeEnums, Pass.onItem?, dropFromItem?, addToItem?, change?, modifier?,
      setModifier]⟩

end AmbientBundle.Declare
