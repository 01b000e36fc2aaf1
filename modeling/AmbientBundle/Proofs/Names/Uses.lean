import AmbientBundle.Proofs.Names.Chosen
/-!
The final names that a fresh environment gives when a chunk claims names in it and files bind their
declarations, in any order. A declaration keeps its name, or gets a numbered form of it where
something else owns the name. Main statement: two names of one file get the same final name if and
only if one of them is the form that was made up for the other.
-/
namespace AmbientBundle.Names

open Environment Syntax

/-- What an environment is used for. -/
inductive Use where
  | claim (name : String)
  | declare (file : Url) (items : List Item)

def Use.run (s : Environment × Bindings) : Use → Environment × Bindings
  | .claim name => (s.1.claim name, s.2)
  | .declare file items => bindDeclarations items file s.1 s.2

/-- A fresh environment behind some uses, with the final names of all declarations. -/
def useAll (us : List Use) : Environment × Bindings :=
  us.foldl Use.run (Environment.empty, OrderedMap.empty)

def Use.declared (file : Url) : Use → List Ident
  | .claim _ => []
  | .declare g items => if g = file then items.flatMap Item.declared else []

/-- The identifiers that a file declares. -/
def declaredIn (us : List Use) (file : Url) : List Ident := us.flatMap (Use.declared file)

/-- What holds of an environment of one frame that is only used to claim names and to bind
declarations. -/
structure Assigned (env : Environment) : Prop where
  flat : env.outer = []
  own : ∀ g n v, env.lookup g n = some v → env.owner? v = some (.file g)
  form : ∀ g n v, env.lookup g n = some v → v = n ∨
    (∃ k, v = numbered (unreserved n) k) ∧ ∃ o, env.owner? n = some o ∧ o ≠ .file g
  shared : ∀ g m n v, m ≠ n → env.lookup g m = some v → env.lookup g n = some v → v = m ∨ v = n
  kept : ∀ g m n v, env.lookup g m = some n → env.lookup g n = some v → v = n

namespace Assigned

variable {env : Environment}

theorem empty : Assigned Environment.empty :=
  ⟨rfl, fun _ _ _ h => (by cases h), fun _ _ _ h => (by cases h),
    fun _ _ _ _ _ h => (by cases h), fun _ _ _ _ h => (by cases h)⟩

theorem ownNames (h : Assigned env) (g : Url) : OwnNames g env := ⟨h.flat, h.own g⟩

theorem chosen (h : Assigned env) (g : Url) : Chosen g env where
  taken n v hv := taken_of_owner? (h.own g n v ((lookup_eq_lookupInner h.flat g n).trans hv))
  free n v hv := by
    have ho := h.own g n v ((lookup_eq_lookupInner h.flat g n).trans hv)
    refine isFree_iff.2 (fun o ho' => ?_)
    exact Option.some.inj (((owns_iff_owner? h.flat).1 ho').symm.trans ho)
  form n v hv := by
    refine (h.form g n v ((lookup_eq_lookupInner h.flat g n).trans hv)).imp_right (And.imp_right ?_)
    rintro ⟨o, ho, hne⟩
    rw [← Bool.not_eq_true, isFree_iff]
    exact fun hfree => hne (hfree o ((owns_iff_owner? h.flat).2 ho))
  shared m n v hne hm hn := h.shared g m n v hne ((lookup_eq_lookupInner h.flat g m).trans hm)
    ((lookup_eq_lookupInner h.flat g n).trans hn)
  kept m n v hm hn := h.kept g m n v ((lookup_eq_lookupInner h.flat g m).trans hm)
    ((lookup_eq_lookupInner h.flat g n).trans hn)

/-- The names of each file are chosen one after the other. -/
theorem of_chosen (hflat : env.outer = []) (h : ∀ g, Chosen g env) : Assigned env := by
  have hl := lookup_eq_lookupInner hflat
  refine ⟨hflat, fun g n v hv => ?_, fun g n v hv => ?_, fun g m n v hne hm hn => ?_,
    fun g m n v hm hn => ?_⟩
  · obtain ⟨o, ho⟩ := (h g).taken n v (hl g n ▸ hv)
    obtain rfl := isFree_iff.1 ((h g).free n v (hl g n ▸ hv)) o ho
    exact (owns_iff_owner? hflat).1 ho
  · refine ((h g).form n v (hl g n ▸ hv)).imp_right (And.imp_right (fun hfree => ?_))
    rw [← Bool.not_eq_true, isFree_iff, not_forall] at hfree
    obtain ⟨o, ho⟩ := hfree
    rw [Classical.not_imp, owns_iff_owner? hflat] at ho
    exact ⟨o, ho⟩
  · exact (h g).shared m n v hne (hl g m ▸ hm) (hl g n ▸ hn)
  · exact (h g).kept m n v (hl g m ▸ hm) (hl g n ▸ hn)

/-- A file keeps its names where no name gets another owner. -/
theorem chosen_of_owners (h : Assigned env) (env' : Environment) (hflat : env'.outer = []) {g : Url}
    (hl : ∀ n, env'.lookupInner g n = env.lookupInner g n)
    (ho : ∀ x o, env.owner? x = some o → env'.owner? x = some o) : Chosen g env' := by
  refine (h.chosen g).congr hl (fun x hx => ?_) (fun x hx => ?_)
  · exact hx.imp (fun o hx => (owns_iff_owner? hflat).2 (ho x o ((owns_iff_owner? h.flat).1 hx)))
  · obtain ⟨o, hx⟩ := hx
    have hx := (owns_iff_owner? h.flat).1 hx
    exact isFree_eq_of_owner? h.flat hflat ((ho x o hx).trans hx.symm)

theorem claim (h : Assigned env) (name : String) : Assigned (env.claim name) := by
  refine of_chosen h.flat (fun g => h.chosen_of_owners (env.claim name) h.flat (fun _ => rfl)
    (fun x o hx => ?_))
  rw [owner?_claim]
  split <;> simp [hx]

theorem bindIdent {p : Environment × Bindings} (h : Assigned p.1) (origin : Url) (id : Ident) :
    Assigned (bindIdent origin p id).1 := by
  refine of_chosen h.flat (fun g => ?_)
  by_cases hg : g = origin
  · subst hg
    exact (h.chosen g).bindIdent id
  · refine h.chosen_of_owners (Names.bindIdent origin p id).1 h.flat (fun n => ?_) (fun x o hx => ?_)
    · rw [bindIdent_fst, lookupInner_bind, if_neg (fun he => hg (congrArg Prod.fst he).symm)]
    · rw [bindIdent_fst, owner?_bind]
      split <;> simp [hx]

end Assigned

/-- The final name of a declaration of a file: the environment has it, and it is recorded unless
the file declares another name at the same place. -/
structure HasFinal (us : List Use) (file : Url) (id : Ident) (final : String) : Prop where
  lookup : (useAll us).1.lookup file id.name = some final
  recorded : (∀ d ∈ declaredIn us file, d.start = id.start → d.name = id.name) →
    (useAll us).2.get? ⟨file, id.start⟩ = some final

/-- What is known of an environment and of the recorded names when each file has declared the given
identifiers. -/
structure Told (declared : Url → List Ident) (s : Environment × Bindings) : Prop where
  assigned : Assigned s.1
  lookup : ∀ f, ∀ id ∈ declared f, ∃ v, s.1.lookup f id.name = some v
  recorded : ∀ f, ∀ id ∈ declared f, ∃ d ∈ declared f, d.start = id.start ∧
    s.2.get? ⟨f, id.start⟩ = s.1.lookup f d.name

namespace Told

variable {declared : Url → List Ident} {s : Environment × Bindings}

theorem bindIdent (h : Told declared s) (origin : Url) (id : Ident) :
    Told (fun f => if f = origin then declared f ++ [id] else declared f)
      (bindIdent origin s id) := by
  have hlookup : ∀ f n v, s.1.lookup f n = some v →
      (Names.bindIdent origin s id).1.lookup f n = some v := by
    intro f n v hv
    by_cases hf : origin = f
    · subst hf
      exact lookup_bindIdent (h.assigned.ownNames origin) hv
    · rw [bindIdent_fst, lookup_bind, if_neg (fun he => hf (congrArg Prod.fst he)), hv]
  have hself : (Names.bindIdent origin s id).1.lookup origin id.name =
      some (finalName s.1 origin id.name) := by
    rw [bindIdent_fst, lookup_bind, if_pos rfl]
  have hmem : ∀ f d, d ∈ (if f = origin then declared f ++ [id] else declared f) ↔
      d ∈ declared f ∨ f = origin ∧ d = id := by
    intro f d
    split <;> simp [*]
  refine ⟨h.assigned.bindIdent origin id, fun f d hd => ?_, fun f d hd => ?_⟩
  · rcases (hmem f d).1 hd with hd | ⟨rfl, rfl⟩
    · obtain ⟨v, hv⟩ := h.lookup f d hd
      exact ⟨v, hlookup f _ v hv⟩
    · exact ⟨_, hself⟩
  · have hget : (Names.bindIdent origin s id).2.get? ⟨f, d.start⟩ =
        if (⟨origin, id.start⟩ : DeclId) = ⟨f, d.start⟩ then
          some (finalName s.1 origin id.name) else s.2.get? ⟨f, d.start⟩ :=
      OrderedMap.get?_put _ _ _ _
    by_cases he : (⟨origin, id.start⟩ : DeclId) = ⟨f, d.start⟩
    · obtain ⟨rfl, hstart⟩ := DeclId.mk.inj he
      exact ⟨id, (hmem _ _).2 (Or.inr ⟨rfl, rfl⟩), hstart, by rw [hget, if_pos he, hself]⟩
    · rcases (hmem f d).1 hd with hd | ⟨rfl, rfl⟩
      · obtain ⟨e, hed, hstart, hrec⟩ := h.recorded f d hd
        obtain ⟨v, hv⟩ := h.lookup f e hed
        exact ⟨e, (hmem f e).2 (Or.inl hed), hstart, by
          rw [hget, if_neg he, hrec, hv, hlookup f _ v hv]⟩
      · exact absurd rfl he

theorem bindIdents (h : Told declared s) (origin : Url) (ids : List Ident) :
    Told (fun f => if f = origin then declared f ++ ids else declared f)
      (ids.foldl (Names.bindIdent origin) s) := by
  induction ids generalizing declared s with
  | nil => simpa using h
  | cons id ids ih =>
    have hids := ih (h.bindIdent origin id)
    have hdeclared : (fun f => if f = origin then
        (if f = origin then declared f ++ [id] else declared f) ++ ids else
        if f = origin then declared f ++ [id] else declared f) =
          fun f => if f = origin then declared f ++ (id :: ids) else declared f := by
      funext f
      split <;> simp
    rwa [hdeclared] at hids

theorem useAll (us : List Use) : Told (declaredIn us) (useAll us) := by
  suffices H : ∀ (us : List Use) (declared : Url → List Ident) (s : Environment × Bindings),
      Told declared s → Told (fun f => declared f ++ declaredIn us f) (us.foldl Use.run s) by
    have hempty : Told (fun _ => []) (Environment.empty, (OrderedMap.empty : Bindings)) :=
      ⟨.empty, by simp, by simp⟩
    exact H us _ _ hempty
  intro us
  induction us with
  | nil => intro declared s h; simpa [declaredIn] using h
  | cons u us ih =>
    intro declared s h
    cases u with
    | claim name =>
      have hclaim : Told declared (s.1.claim name, s.2) := ⟨h.assigned.claim name, h.lookup, h.recorded⟩
      simpa [declaredIn, Use.declared, Use.run] using ih declared _ hclaim
    | declare file items =>
      have hfile := ih _ _ (h.bindIdents file (items.flatMap Item.declared))
      have hdeclared : (fun f => (if f = file then declared f ++ items.flatMap Item.declared
          else declared f) ++ declaredIn us f) =
            fun f => declared f ++ declaredIn (.declare file items :: us) f := by
        funext f
        simp only [declaredIn, List.flatMap_cons, Use.declared]
        by_cases hf : f = file
        · simp [hf]
        · simp [hf, Ne.symm hf]
      rwa [hdeclared] at hfile

theorem hasFinal (us : List Use) {file : Url} {id : Ident} (hid : id ∈ declaredIn us file) :
    ∃ v, HasFinal us file id v := by
  have h := Told.useAll us
  obtain ⟨v, hv⟩ := h.lookup file id hid
  refine ⟨v, hv, fun hplace => ?_⟩
  obtain ⟨d, hd, hstart, hrec⟩ := h.recorded file id hid
  rw [hrec, hplace d hd hstart, hv]

end Told

/-- The final name `n` was made up for the name `m` of a file, since something else owns `m`. -/
structure MadeUpFor (us : List Use) (file : Url) (m n : String) : Prop where
  final : (useAll us).1.lookup file m = some n
  ne : n ≠ m
  form : ∃ k, n = numbered (unreserved m) k
  owner : ∃ o, (useAll us).1.owner? m = some o ∧ o ≠ .file file

/-- All declarations of a file have final names, and two that are named differently share theirs if
and only if the name of one was made up for the other. -/
theorem shares_final_iff (us : List Use) {file : Url} {a b : Ident}
    (ha : a ∈ declaredIn us file) (hb : b ∈ declaredIn us file) (hne : a.name ≠ b.name) :
    ∃ v w, HasFinal us file a v ∧ HasFinal us file b w ∧
      (v = w ↔ MadeUpFor us file a.name b.name ∨ MadeUpFor us file b.name a.name) := by
  have h := (Told.useAll us).assigned
  obtain ⟨v, hv⟩ := Told.hasFinal us ha
  obtain ⟨w, hw⟩ := Told.hasFinal us hb
  refine ⟨v, w, hv, hw, ?_, ?_⟩
  · rintro rfl
    have hmade : ∀ {m n : String}, m ≠ n → (useAll us).1.lookup file m = some n →
        MadeUpFor us file m n := by
      intro m n hmn hl
      obtain ⟨hform, howner⟩ := (h.form file m n hl).resolve_left (Ne.symm hmn)
      exact ⟨hl, Ne.symm hmn, hform, howner⟩
    rcases h.shared file a.name b.name v hne hv.lookup hw.lookup with he | he
    · exact Or.inr (hmade (Ne.symm hne) (he ▸ hw.lookup))
    · exact Or.inl (hmade hne (he ▸ hv.lookup))
  · rintro (hmade | hmade)
    · rw [Option.some.inj (hv.lookup.symm.trans hmade.final)]
      exact (h.kept file a.name b.name w hmade.final hw.lookup).symm
    · rw [Option.some.inj (hw.lookup.symm.trans hmade.final)]
      exact h.kept file b.name a.name v hmade.final hv.lookup

/-- `declare type name = any;` -/
def anyType (name : String) (start : Nat) : Item :=
  .decl (.typeAlias ⟨name, start⟩ true [] (.word "any"))

def fileOf (path : String) : Url := ⟨"file", none, path, none, none⟩

/-- `/a.d.ts` declares `Foo`, and `/b.d.ts` declares `Foo` and behind it `Foo_1`. -/
def fooTwice : List Use :=
  [.declare (fileOf "/a.d.ts") [anyType "Foo" 14],
    .declare (fileOf "/b.d.ts") [anyType "Foo" 14, anyType "Foo_1" 38]]

theorem shares_final_iff_fooTwice :
    ⟨"Foo", 14⟩ ∈ declaredIn fooTwice (fileOf "/b.d.ts") ∧
      ⟨"Foo_1", 38⟩ ∈ declaredIn fooTwice (fileOf "/b.d.ts") ∧ "Foo" ≠ "Foo_1" ∧
      ∃ v, HasFinal fooTwice (fileOf "/b.d.ts") ⟨"Foo", 14⟩ v ∧
        HasFinal fooTwice (fileOf "/b.d.ts") ⟨"Foo_1", 38⟩ v := by
  have ha : (⟨"Foo", 14⟩ : Ident) ∈ declaredIn fooTwice (fileOf "/b.d.ts") := by decide
  have hb : (⟨"Foo_1", 38⟩ : Ident) ∈ declaredIn fooTwice (fileOf "/b.d.ts") := by decide
  have hmade : MadeUpFor fooTwice (fileOf "/b.d.ts") "Foo" "Foo_1" :=
    ⟨by decide +kernel, by decide, ⟨1, by decide +kernel⟩,
      .file (fileOf "/a.d.ts"), by decide +kernel, by decide⟩
  obtain ⟨v, w, hv, hw, heq⟩ := shares_final_iff fooTwice ha hb (by decide)
  obtain rfl := heq.2 (Or.inl hmade)
  exact ⟨ha, hb, by decide, v, hv, hw⟩

/-- Differently named declarations of one file can get one final name. -/
theorem final_shared : ¬∀ (us : List Use) (file : Url) (a b : Ident) (v w : String),
    a ∈ declaredIn us file → b ∈ declaredIn us file → a.name ≠ b.name →
      HasFinal us file a v → HasFinal us file b w → v ≠ w := by
  intro h
  have hget : (useAll fooTwice).2.get? ⟨fileOf "/b.d.ts", 14⟩ = some "Foo_1" ∧
      (useAll fooTwice).2.get? ⟨fileOf "/b.d.ts", 38⟩ = some "Foo_1" := by decide +kernel
  exact h fooTwice (fileOf "/b.d.ts") ⟨"Foo", 14⟩ ⟨"Foo_1", 38⟩ "Foo_1" "Foo_1" (by decide)
    (by decide) (by decide) ⟨by decide +kernel, fun _ => hget.1⟩
    ⟨by decide +kernel, fun _ => hget.2⟩ rfl

end AmbientBundle.Names
