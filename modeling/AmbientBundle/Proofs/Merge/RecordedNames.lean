import AmbientBundle.Proofs.Merge.Declarations
import AmbientBundle.Proofs.Merge.ImportLinks
import AmbientBundle.Proofs.Merge.Moves
import AmbientBundle.Proofs.Names.Recorded
/-!
The record of final names that a merged chunk carries. A declaration's name is put on record when
its file begins, at the root or in a block, and the first name stays. So the record tells the name at
the root, unless a block was opened for the file before it was inlined at the root; then it tells
the name from the first of these blocks.
-/
namespace AmbientBundle.Merge

open Names Syntax

/-- The identifiers that a file declares at its top level. -/
def Context.declared (cx : Context) (file : Url) : List Ident :=
  (cx.statements file).flatMap Item.declared

section Moves

variable {cx : Context} {c c' : Moment} {s : State} {f : Url} {id : Ident}

/-- When a file begins in the current scope its declarations have names there, and names are on
record for them. A name that was on record before stays. -/
theorem State.recorded_bindFile (s : State) {is : List Item}
    (hone : StartsApart (is.flatMap Item.declared)) (hid : id ∈ is.flatMap Item.declared) :
    ∃ v, (s.bindFile is f).lookup f id.name = some v ∧
      (s.bindFile is f).bindings.get? ⟨f, id.start⟩ =
        some ((s.bindings.get? ⟨f, id.start⟩).getD v) := by
  have hrecorded : Recorded f (is.flatMap Item.declared ++ [])
      (bindDeclarations is f s.scope.env OrderedMap.empty) :=
    Recorded.bindIdents (fun _ h => (by cases h)) (by rwa [List.append_nil])
  obtain ⟨v, hv, hget⟩ := hrecorded id (by simpa using hid)
  refine ⟨v, ?_, ?_⟩
  · rw [State.lookup, State.scope_bindFile_env, Environment.lookup_eq_or, hv]
    rfl
  · rw [State.bindings_bindFile, OrderedMap.get?_foldl_putNew]
    change (s.bindings.get? _).or ((bindDeclarations is f s.scope.env OrderedMap.empty).2.get? _) = _
    rw [hget]
    cases s.bindings.get? ⟨f, id.start⟩ <;> rfl

theorem State.bindings_bindFile_of_ne (s : State) {is : List Item} {g : Url} {d : DeclId}
    (hd : d.file ≠ g) : (s.bindFile is g).bindings.get? d = s.bindings.get? d := by
  rw [State.bindings_bindFile, OrderedMap.get?_foldl_putNew]
  change (s.bindings.get? d).or
    ((bindDeclarations is g s.scope.env OrderedMap.empty).2.get? d) = _
  rw [bindDeclarations, get?_bindIdents_of_ne hd]
  exact Option.or_none

/-- The record changes only when a file begins, at the root or in a block. -/
theorem Move.record (h : Move cx c c') :
    (c'.state.bindings = c.state.bindings ∧ c'.state.included = c.state.included) ∨
      (∃ file, c.state.inBlock = false ∧ c.state.included.contains file = false ∧
        c' = ⟨c.state.beginFile cx file, c.pauses⟩) ∨
      ∃ target wanted, c' = ⟨c.state.beginBlock cx target wanted, c.pauses⟩ := by
  cases h with
  | warn w => exact Or.inl ⟨rfl, rfl⟩
  | keepRun module => exact Or.inl ⟨rfl, rfl⟩
  | keep key p => exact Or.inl ⟨rfl, rfl⟩
  | claim wanted => exact Or.inl ⟨rfl, rfl⟩
  | addItems items => exact Or.inl ⟨State.bindings_addItems _ _, State.included_addItems _ _⟩
  | takeItems n => exact Or.inl ⟨State.bindings_takeItems _ _, State.included_takeItems _ _⟩
  | link v _ _ => exact Or.inl ⟨State.bindings_link _ _ _ _, State.included_link _ _ _ _⟩
  | beginFile hroot hnew _ => exact Or.inr (Or.inl ⟨_, hroot, hnew, rfl⟩)
  | beginBlock wanted _ => exact Or.inr (Or.inr ⟨_, wanted, rfl⟩)
  | closeBlock _ => exact Or.inl ⟨State.bindings_closeBlock _, State.included_closeBlock _⟩
  | suspend _ => exact Or.inl ⟨rfl, rfl⟩
  | proceed _ =>
    exact Or.inl ⟨State.bindings_inheritFromRoot _ _, State.included_inheritFromRoot _ _⟩

/-- `w` is the name that the declaration got in a block that was opened for its file before there was
a name on record for it, and so before the file was inlined at the root. -/
def NamedInBlock (cx : Context) (included : SeenSet Url) (c : Moment) (f : Url) (id : Ident)
    (w : String) : Prop :=
  ∃ s ps wanted, Moves cx (.start included) ⟨s, ps⟩ ∧
    Moves cx ⟨s.beginBlock cx f wanted, ps⟩ c ∧ s.included.contains f = false ∧
    s.bindings.get? ⟨f, id.start⟩ = none ∧
    (s.beginBlock cx f wanted).lookup f id.name = some w

/-- `w` is the name of the declaration at the root, or in a block. -/
def Told (cx : Context) (included : SeenSet Url) (c : Moment) (f : Url) (id : Ident) (w : String) :
    Prop :=
  c.state.included.contains f = true ∧ c.state.root.env.lookup f id.name = some w ∨
    NamedInBlock cx included c f id w

theorem Told.move {included : SeenSet Url} {w : String} (h : Told cx included c f id w)
    (hmove : Move cx c c') (hk : ¬cx.Imports f id.name) : Told cx included c' f id w := by
  rcases h with ⟨hf, hroot⟩ | ⟨s, ps, wanted, hs, hc, hblock⟩
  · exact Or.inl ⟨hmove.grows.contains hf, (hmove.lookup_root hf hk).trans hroot⟩
  · exact Or.inr ⟨s, ps, wanted, hs, hc.tail hmove, hblock⟩

/-- What is on record for a declaration is a name of it, and if its file is inlined at the root, there
is a name on record. -/
structure OnRecord (cx : Context) (included : SeenSet Url) (c : Moment) (f : Url) (id : Ident) :
    Prop where
  told : ∀ w, c.state.bindings.get? ⟨f, id.start⟩ = some w → Told cx included c f id w
  present : c.state.included.contains f = true →
    ∃ w, c.state.bindings.get? ⟨f, id.start⟩ = some w

namespace OnRecord

variable {included : SeenSet Url}

theorem start (hold : included.contains f = false) : OnRecord cx included (.start included) f id :=
  ⟨fun w h => (by cases h), fun h => absurd h (by simpa [Moment.start, State.start] using hold)⟩

/-- A move that does not change the record for the declaration keeps what is said of it. -/
theorem keep (h : OnRecord cx included c f id) (hmove : Move cx c c')
    (hk : ¬cx.Imports f id.name)
    (hrecord : c'.state.bindings.get? ⟨f, id.start⟩ = c.state.bindings.get? ⟨f, id.start⟩)
    (hincluded : c'.state.included.contains f = c.state.included.contains f) :
    OnRecord cx included c' f id :=
  ⟨fun w hw => (h.told w (hrecord ▸ hw)).move hmove hk,
    fun hf => hrecord ▸ h.present (hincluded ▸ hf)⟩

/-- When the file begins in a scope, the name that is on record stays, or the name in the scope comes
on record. -/
theorem begin (h : OnRecord cx included c f id) (hmove : Move cx c c') (hk : ¬cx.Imports f id.name)
    {v : String}
    (hget : c'.state.bindings.get? ⟨f, id.start⟩ =
      some ((c.state.bindings.get? ⟨f, id.start⟩).getD v))
    (hv : c.state.bindings.get? ⟨f, id.start⟩ = none → Told cx included c' f id v) :
    OnRecord cx included c' f id := by
  refine ⟨fun w hw => ?_, fun _ => ⟨_, hget⟩⟩
  obtain rfl := Option.some.inj (hget.symm.trans hw)
  cases hold : c.state.bindings.get? ⟨f, id.start⟩ with
  | none => exact hv hold
  | some u => exact (h.told u hold).move hmove hk

theorem move (h : OnRecord cx included c f id) (hc : Moves cx (.start included) c)
    (hmove : Move cx c c') (hone : StartsApart (cx.declared f)) (hid : id ∈ cx.declared f)
    (hk : ¬cx.Imports f id.name) : OnRecord cx included c' f id := by
  rcases hmove.record with ⟨hrecord, hincluded⟩ | ⟨file, hroot, hnew, rfl⟩ | ⟨target, wanted, rfl⟩
  · exact h.keep hmove hk (by rw [hrecord]) (by rw [hincluded])
  · have hincluded (g : Url) : (c.state.beginFile cx file).included.contains g =
        (c.state.included.contains g || decide (g = file)) := by
      rw [State.beginFile, State.included_bindFile, State.addFile, SeenSet.contains_insert]
    by_cases hf : file = f
    · subst hf
      obtain ⟨v, hv, hget⟩ := State.recorded_bindFile (c.state.addFile file) hone hid
      refine h.begin hmove hk hget (fun _ => Or.inl ⟨by simp [hincluded], ?_⟩)
      rwa [State.lookup, State.scope_of_root] at hv
      exact (State.inBlock_begunFile _ _ _).trans hroot
    · exact h.keep hmove hk (State.bindings_bindFile_of_ne _ (Ne.symm hf))
        (by simp [hincluded, Ne.symm hf])
  · have hrecord : ((c.state.claim (c.state.freshName wanted)).openBlock target
        (c.state.freshName wanted)).bindings = c.state.bindings := by simp
    by_cases hf : target = f
    · subst hf
      obtain ⟨v, hv, hget⟩ := State.recorded_bindFile
        ((c.state.claim (c.state.freshName wanted)).openBlock target (c.state.freshName wanted))
        hone hid
      rw [hrecord] at hget
      refine h.begin hmove hk hget (fun hnone => Or.inr ?_)
      refine ⟨c.state, c.pauses, wanted, hc, .refl, ?_, hnone, hv⟩
      rw [← Bool.not_eq_true]
      intro hin
      obtain ⟨w, hw⟩ := h.present hin
      cases hnone.symm.trans hw
    · refine h.keep hmove hk ?_ ?_
      · rw [State.beginBlock, State.bindings_bindFile_of_ne _ (Ne.symm hf), hrecord]
      · simp [State.beginBlock]

theorem moves (hold : included.contains f = false) (h : Moves cx (.start included) c)
    (hone : StartsApart (cx.declared f)) (hid : id ∈ cx.declared f)
    (hk : ¬cx.Imports f id.name) : OnRecord cx included c f id := by
  induction h with
  | refl => exact .start hold
  | tail h hmove ih => exact ih.move h hmove hone hid hk

end OnRecord

end Moves

section Merged

variable {cx : Context} {included included' : SeenSet Url} {m : Merged} {warnings : List Warning}
  {f : Url}

/-- The identifiers that the statements of a file declare among the given ones. -/
def identifiersOf (f : Url) (ps : List Piece) : List Ident :=
  (declarationsOf f ps).flatMap Item.declared

/-- A statement and its declaration declare the same. -/
theorem declared_declaration {i : Item} (h : Exports.isAnonymousDefault i = false) :
    (i.declaration f).flatMap Item.declared = i.declared := by
  cases i with
  | decl d => simp [Item.declaration, Item.declared, Decl.bound_setModifier]
  | exportDecl d => simp [Item.declaration, Item.declared, Decl.bound_setModifier]
  | exportDefaultDecl d =>
    have hbound : (Exports.plainDefault f d).bound = d.ident?.toList := by
      cases d with
      | cls name body => cases name <;> first | rfl | cases h
      | func name body => cases name <;> first | rfl | cases h
      | interface body => rfl
    simp [Item.declaration, Item.declared, Decl.bound_setModifier, hbound]
  | importEquals d => simp [Item.declaration, Item.declared]
  | _ => rfl

/-- The statements that stand for a file's at the root of a chunk declare what the file declares,
under the final names that its names have there. -/
theorem identifiersOf_inlined (h : mergeChunk? cx included = some (m, included', warnings))
    (hold : included.contains f = false) (hin : included'.contains f = true) :
    identifiersOf f m.pieces =
      (cx.declared f).map (Ident.rename (Rename.ofEnvironment m.names f)) := by
  have hdeclared : (cx.declarations f).flatMap Item.declared = cx.declared f := by
    rw [Context.declarations_eq, List.flatMap_assoc, Context.declared]
    exact List.flatMap_congr (fun i hi =>
      declared_declaration (Context.isAnonymousDefault_of_mem_statements hi))
  have hall := declarationsOf_inlined h hold hin
  rw [← hdeclared, identifiersOf]
  generalize cx.declarations f = ds, declarationsOf f m.pieces = js at hall
  induction hall with
  | nil => rfl
  | @cons d j ds js hj _ ih =>
    obtain ⟨τ, rfl⟩ := hj
    have hplaced : (placed cx f d).declared = d.declared := by
      cases d <;> rfl
    rw [List.flatMap_cons, List.flatMap_cons, List.map_append, ih, Item.declared_link,
      Item.declared_rename, hplaced]

/-- The record of a merged chunk, for a file that is inlined at its root and imports nothing that it
declares: each declaration is on record, under the name that it has at the root unless it got another
one in a block before. -/
theorem bindings_tell_root (h : mergeChunk? cx included = some (m, included', warnings))
    (hold : included.contains f = false) (hin : included'.contains f = true)
    (hone : StartsApart (cx.declared f)) (hd : ∀ id ∈ cx.declared f, ¬cx.Imports f id.name) :
    identifiersOf f m.pieces =
        (cx.declared f).map (Ident.rename (Rename.ofEnvironment m.names f)) ∧
      ∃ s, Moves cx (.start included) ⟨s, []⟩ ∧ m = finish cx.chunk s ∧ ∀ id ∈ cx.declared f,
        ∃ w, m.bindings.get? ⟨f, id.start⟩ = some w ∧
          (w = Rename.ofEnvironment m.names f id.name ∨
            NamedInBlock cx included ⟨s, []⟩ f id w) := by
  obtain ⟨s, hs, -, -, hmoves⟩ := mergeChunk_moves cx included
  obtain ⟨rfl, rfl, rfl⟩ : m = finish cx.chunk s ∧ included' = s.included ∧ warnings = s.warnings := by
    simpa using h.symm.trans hs
  refine ⟨identifiersOf_inlined h hold hin, s, hmoves, rfl, fun id hid => ?_⟩
  have hrecord := OnRecord.moves hold hmoves hone hid (hd id hid)
  obtain ⟨w, hw⟩ := hrecord.present hin
  refine ⟨w, hw, (hrecord.told w hw).imp_left (fun hroot => ?_)⟩
  have hlookup : (finish cx.chunk s).names.lookup f id.name = some w := hroot.2
  rw [Rename.ofEnvironment, hlookup, Option.getD_some]

/-- `/i.d.ts`, the entry, exports all of `/t.d.ts` as a namespace. That file and `/b.d.ts` import from
each other, and both declare a class `A`. -/
def recordedInBlock : Context := .ofFiles
  [("/t.d.ts", [.importDecl (oneImport "Z" "Z" "/b.d.ts").1,
      .exportDecl (.cls ⟨"A", 1⟩ true ⟨false, [], none, [], []⟩)]),
    ("/b.d.ts", [.importDecl (oneImport "A" "T" "/t.d.ts").1,
      .exportDecl (.cls ⟨"A", 1⟩ true ⟨false, [], none, [], []⟩),
      .exportDecl (.cls ⟨"Z", 2⟩ true ⟨false, [], none, [], []⟩)]),
    ("/i.d.ts", [.exportList ⟨[.all (.word "NS")], some (StrLit.made "/t.d.ts"), false, none⟩])]

set_option maxRecDepth 100000 in
/-- The classes of `/b.d.ts` are on record. -/
theorem bindings_tell_root_ownBlock : ∃ m included' warnings,
    mergeChunk? recordedInBlock ∅ = some (m, included', warnings) ∧
      (identifiersOf (.ofPath "/b.d.ts") m.pieces).map Ident.name = ["A", "Z"] ∧
      ∃ s, Moves recordedInBlock (.start ∅) ⟨s, []⟩ ∧ m = finish recordedInBlock.chunk s ∧
        ∀ id ∈ recordedInBlock.declared (.ofPath "/b.d.ts"),
          ∃ w, m.bindings.get? ⟨.ofPath "/b.d.ts", id.start⟩ = some w ∧
            (w = Rename.ofEnvironment m.names (.ofPath "/b.d.ts") id.name ∨
              NamedInBlock recordedInBlock ∅ ⟨s, []⟩ (.ofPath "/b.d.ts") id w) := by
  have hcheck : (mergeChunk? recordedInBlock ∅).any (fun r =>
      r.2.1.contains (.ofPath "/b.d.ts") &&
        (identifiersOf (.ofPath "/b.d.ts") r.1.pieces).map Ident.name == ["A", "Z"]) := by
    decide +kernel
  obtain ⟨⟨m, included', warnings⟩, hm, hr⟩ := (Option.any_eq_true _ _).1 hcheck
  rw [Bool.and_eq_true, beq_iff_eq] at hr
  exact ⟨m, included', warnings, hm, hr.2,
    (bindings_tell_root hm rfl hr.1 (by decide +kernel) (by decide +kernel)).2⟩

set_option maxRecDepth 100000 in
/-- For the class of `/t.d.ts` the record tells the name that another class has at the root. -/
theorem recorded_before_root :
    ¬∀ m included' warnings,
      mergeChunk? recordedInBlock ∅ = some (m, included', warnings) →
        included'.contains (.ofPath "/t.d.ts") = true →
        (∀ id ∈ recordedInBlock.declared (.ofPath "/t.d.ts"),
          ¬recordedInBlock.Imports (.ofPath "/t.d.ts") id.name) →
          ∀ id ∈ identifiersOf (.ofPath "/t.d.ts") m.pieces,
            m.bindings.get? ⟨.ofPath "/t.d.ts", id.start⟩ = some id.name := by
  intro htrue
  have hcheck : (mergeChunk? recordedInBlock ∅).any (fun r =>
      r.2.1.contains (.ofPath "/t.d.ts") && (identifiersOf (.ofPath "/t.d.ts") r.1.pieces).any
        (fun id => !(r.1.bindings.get? ⟨.ofPath "/t.d.ts", id.start⟩ == some id.name))) := by
    decide +kernel
  obtain ⟨⟨m, included', warnings⟩, hm, hr⟩ := (Option.any_eq_true _ _).1 hcheck
  simp only [Bool.and_eq_true, List.any_eq_true, Bool.not_eq_true', beq_eq_false_iff_ne] at hr
  obtain ⟨hin, id, hid, hne⟩ := hr
  exact hne (htrue m included' warnings hm hin (by decide +kernel) id hid)

end Merged

end AmbientBundle.Merge
