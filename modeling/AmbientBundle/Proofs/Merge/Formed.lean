import AmbientBundle.Proofs.Merge.Run
/-!
No name in the state of merging comes from nowhere: final names, names of namespaces, locals of
imports that stay and names that statements bind are forms of names that the chunk's files write.
-/
namespace AmbientBundle.Merge

open Names Syntax

variable {cx : Context}

def FormedPieces (cx : Context) (ps : List Piece) : Prop :=
  ∀ p ∈ ps, ∀ x ∈ p.item.binds, cx.Formed x

namespace FormedPieces

variable {ps qs : List Piece}

theorem nil : FormedPieces cx [] := by simp [FormedPieces]

theorem append (hp : FormedPieces cx ps) (hq : FormedPieces cx qs) :
    FormedPieces cx (ps ++ qs) := by
  intro p h
  rcases List.mem_append.1 h with h | h
  · exact hp p h
  · exact hq p h

theorem subset (hp : FormedPieces cx ps) (h : qs ⊆ ps) : FormedPieces cx qs :=
  fun p hq => hp p (h hq)

theorem single {p : Piece} (h : ∀ x ∈ p.item.binds, cx.Formed x) : FormedPieces cx [p] := by
  intro q hq
  rwa [List.mem_singleton.1 hq]

end FormedPieces

/-- The final name of a file's name is a form of a written one, and it is a reserved word only where
the file's name is that word, or the file imports something under its name. -/
structure Context.FinalFor (cx : Context) (k : Url × String) (x : String) : Prop where
  formed : cx.Formed x
  reserved : isReserved x = true → x = k.2 ∨ ∃ e ∈ cx.specifiers k.1, e.2.loc = k.2

structure FormedScope (cx : Context) (c : Scope) : Prop where
  names : c.env.AllFinal cx.FinalFor
  spaces : ∀ e ∈ c.spaces.entries, cx.Formed e.2
  pieces : FormedPieces cx c.items

/-- The scopes of a state: the root and all blocks. -/
def State.scopes (s : State) : List Scope := s.root :: s.blocks.map Block.scope

structure FormedState (cx : Context) (s : State) : Prop where
  scopes : ∀ c ∈ s.scopes, FormedScope cx c
  locals : ∀ e ∈ s.preserved.entries, ∀ x ∈ e.2.locals, cx.Formed x

namespace FormedState

variable {s t : State}

theorem start (included : SeenSet Url) : FormedState cx (State.start included) := by
  refine ⟨fun c hc => ?_, fun e he => ?_⟩
  · simp only [State.scopes, State.start, State.blocks, List.append_nil, List.map_nil,
      List.mem_singleton] at hc
    subst hc
    exact ⟨Environment.allFinal_empty, fun e he => (by cases he), .nil⟩
  · cases he

theorem scope (h : FormedState cx s) : FormedScope cx s.scope := by
  refine h.scopes _ ?_
  unfold State.scope State.scopes State.blocks
  cases s.nested <;> simp

/-- A state with the same names in fewer scopes. -/
theorem congr (h : FormedState cx s) (hc : t.scopes ⊆ s.scopes) (hp : t.preserved = s.preserved) :
    FormedState cx t :=
  ⟨fun c hm => h.scopes c (hc hm), hp ▸ h.locals⟩

theorem onScope (h : FormedState cx s) (f : Scope → Scope) (hf : FormedScope cx (f s.scope)) :
    FormedState cx (s.onScope f) := by
  refine ⟨fun c hc => ?_, by simpa using h.locals⟩
  unfold State.onScope at hc
  unfold State.scope at hf
  cases hn : s.nested with
  | nil =>
    simp only [State.scopes, State.blocks, hn, List.nil_append, List.mem_cons] at hc hf
    rcases hc with rfl | hc
    · exact hf
    · refine h.scopes c ?_
      simp only [State.scopes, State.blocks, hn]
      exact List.mem_cons_of_mem _ hc
  | cons b bs =>
    simp only [State.scopes, State.blocks, hn, List.cons_append, List.map_cons,
      List.mem_cons] at hc hf
    rcases hc with rfl | rfl | hc
    · exact h.scopes _ (by simp [State.scopes])
    · exact hf
    · refine h.scopes c ?_
      simp only [State.scopes, State.blocks, hn]
      exact List.mem_cons_of_mem _ (List.mem_cons_of_mem _ hc)

theorem link (h : FormedState cx s) {origin : Url} {name final : String}
    (hf : cx.FinalFor (origin, name) final) : FormedState cx (s.link origin name final) :=
  h.onScope (fun c => { c with env := c.env.link origin name final })
    ⟨h.scope.names.link hf, h.scope.spaces, h.scope.pieces⟩

theorem addItems (h : FormedState cx s) {ps : List Piece} (hp : FormedPieces cx ps) :
    FormedState cx (s.addItems ps) :=
  h.onScope _ ⟨h.scope.names, h.scope.spaces, h.scope.pieces.append hp⟩

theorem takeItems (h : FormedState cx s) (k : Nat) : FormedState cx (s.takeItems k).2 :=
  h.onScope (fun c => { c with items := c.items.take k })
    ⟨h.scope.names, h.scope.spaces, h.scope.pieces.subset (List.take_subset _ _)⟩

theorem taken (h : FormedState cx s) (k : Nat) : FormedPieces cx (s.takeItems k).1 :=
  h.scope.pieces.subset (List.drop_subset _ _)

theorem keep (h : FormedState cx s) {key : String × ImportedName} {p : Preserved}
    (hp : ∀ x ∈ p.locals, cx.Formed x) : FormedState cx (s.keep key p) := by
  refine ⟨h.scopes, fun e he => ?_⟩
  rcases OrderedMap.mem_entries_put he with rfl | he
  · exact hp
  · exact h.locals e he

/-- A change of the environments of all scopes. -/
theorem mapEnvs (h : FormedState cx s) (hp : t.preserved = s.preserved)
    (hs : ∀ c ∈ t.scopes, ∃ d ∈ s.scopes, ∃ e : Environment, c = { d with env := e } ∧
      (d.env.AllFinal cx.FinalFor → e.AllFinal cx.FinalFor)) : FormedState cx t := by
  refine ⟨fun c hc => ?_, hp ▸ h.locals⟩
  obtain ⟨d, hd, e, rfl, he⟩ := hs c hc
  have hd' := h.scopes d hd
  exact ⟨he hd'.names, hd'.spaces, hd'.pieces⟩

theorem claim (h : FormedState cx s) (name : String) : FormedState cx (s.claim name) := by
  refine h.mapEnvs rfl (fun c hc => ?_)
  simp only [State.scopes, State.blocks, State.claim, List.mem_cons, List.map_append,
    List.map_map, List.mem_append, List.mem_map] at hc ⊢
  rcases hc with rfl | ⟨b, hb, rfl⟩ | ⟨b, hb, rfl⟩
  · exact ⟨s.root, Or.inl rfl, _, rfl, Environment.AllFinal.claim⟩
  · exact ⟨b.scope, Or.inr (Or.inl ⟨b, hb, rfl⟩), _, rfl, Environment.AllFinal.claim⟩
  · exact ⟨b.scope, Or.inr (Or.inr ⟨b, hb, rfl⟩), _, rfl, Environment.AllFinal.claim⟩

theorem inheritFromRoot (h : FormedState cx s) (files : List Url) :
    FormedState cx (s.inheritFromRoot files) := by
  unfold State.inheritFromRoot
  split
  · exact h
  · refine h.mapEnvs rfl (fun c hc => ?_)
    have hroot : s.root.env.AllFinal cx.FinalFor := (h.scopes s.root (by simp [State.scopes])).names
    simp only [State.scopes, State.blocks, List.mem_cons, List.map_append, List.map_map,
      List.mem_append, List.mem_map] at hc ⊢
    rcases hc with rfl | ⟨b, hb, rfl⟩ | ⟨b, hb, rfl⟩
    · exact ⟨s.root, Or.inl rfl, s.root.env, rfl, id⟩
    · exact ⟨b.scope, Or.inr (Or.inl ⟨b, hb, rfl⟩), _, rfl, fun hb' => hb'.inherit hroot files⟩
    · exact ⟨b.scope, Or.inr (Or.inr ⟨b, hb, rfl⟩), b.scope.env, rfl, id⟩

theorem bindFile (h : FormedState cx s) {file : Url} (hf : cx.HasFile file) :
    FormedState cx (s.bindFile (cx.statements file) file) := by
  have hnames : (bindDeclarations (cx.statements file) file s.scope.env
      OrderedMap.empty).1.AllFinal cx.FinalFor := by
    refine allFinal_bindIdents h.scope.names (fun id hid => ?_) (fun id hid taken => ?_)
    · exact ⟨(Context.Writes.declared hf hid).formed, fun _ => Or.inl rfl⟩
    · refine ⟨Context.formed_fresh (Context.Writes.declared hf hid).formed taken, fun hr => ?_⟩
      rw [isReserved_fresh] at hr
      cases hr
  exact (h.onScope (fun c => { c with
      env := (bindDeclarations (cx.statements file) file s.scope.env OrderedMap.empty).1 })
    ⟨hnames, h.scope.spaces, h.scope.pieces⟩).congr (List.Subset.refl _) rfl

theorem addFile (h : FormedState cx s) (file : Url) : FormedState cx (s.addFile file) :=
  h.congr (List.Subset.refl _) rfl

theorem beginFile (h : FormedState cx s) {file : Url} (hf : cx.HasFile file) :
    FormedState cx ((s.addFile file).bindFile (cx.statements file) file) :=
  (h.addFile file).bindFile hf

theorem openBlock (h : FormedState cx s) (target : Url) {name : String} (hn : cx.Formed name) :
    FormedState cx (s.openBlock target name) := by
  have hc : FormedScope cx { s.scope with spaces := s.scope.spaces.put target name } := by
    refine ⟨h.scope.names, fun e he => ?_, h.scope.pieces⟩
    rcases OrderedMap.mem_entries_put he with rfl | he
    · exact hn
    · exact h.scope.spaces e he
  have hs := h.onScope (fun c => { c with spaces := c.spaces.put target name }) hc
  refine ⟨fun c hm => ?_, hs.locals⟩
  simp only [State.openBlock, State.scopes, State.blocks, List.cons_append, List.map_cons,
    List.mem_cons] at hm
  rcases hm with rfl | rfl | hm
  · exact hs.scopes _ (by simp [State.scopes])
  · exact ⟨hs.scope.names.child, fun e he => (by cases he), .nil⟩
  · exact hs.scopes c (by simp only [State.scopes, State.blocks]; exact List.mem_cons_of_mem _ hm)

theorem beginBlock (h : FormedState cx s) {target : Url} (hf : cx.HasFile target) {wanted : String}
    (hw : cx.Formed wanted) : FormedState cx
      (((s.claim (s.freshName wanted)).openBlock target (s.freshName wanted)).bindFile
        (cx.statements target) target) :=
  ((h.claim _).openBlock target (Context.formed_fresh hw s.takenNames)).bindFile hf

theorem closeBlock (h : FormedState cx s) : FormedState cx s.closeBlock.2 := by
  refine h.congr ?_ (by simp)
  unfold State.closeBlock State.scopes State.blocks
  cases hn : s.nested with
  | nil => simp [hn]
  | cons b bs =>
    simp only [List.cons_append, List.map_cons]
    exact List.cons_subset_cons _ (List.subset_cons_self _ _)

theorem resume (h : FormedState cx s) (depth : Nat) : FormedState cx (s.resume depth) := by
  refine h.congr ?_ rfl
  simp only [State.resume, State.scopes, State.blocks, List.take_append_drop]
  exact List.cons_subset_cons _ (List.map_subset _ (List.subset_append_right _ _))

theorem suspend (h : FormedState cx s) : FormedState cx s.suspend :=
  h.congr (List.Subset.refl _) rfl

/-- The final name of a written name is a form of a written one. -/
theorem rename (h : FormedState cx s) {origin : Url} {x : String} (hx : cx.Writes x) :
    cx.Formed (Rename.ofEnvironment s.scope.env origin x) := by
  unfold Rename.ofEnvironment
  cases hl : s.scope.env.lookup origin x with
  | none => exact hx.formed
  | some f => exact (h.scope.names.lookup hl).formed

end FormedState

/-- What stands for a statement under final names binds the final names of its declarations. -/
theorem mem_binds_printed {origin : Url} {i j : Item} (hi : i ∈ cx.statements origin)
    {inBlock keep : Bool} {env : Environment} {ρ : Rename.Renaming} {τ : ImportTypes.Targets}
    (hj : j ∈ linkItems τ (renameItems ρ (shown cx origin inBlock keep env i))) {x : String}
    (hx : x ∈ j.binds) : ∃ id ∈ i.declared, ρ id.name = x := by
  have hmem := List.mem_flatMap_of_mem hj hx
  rw [binds_printed cx origin inBlock keep env ρ τ
    (Context.isAnonymousDefault_of_mem_statements hi)] at hmem
  exact List.mem_map.1 hmem

/-- So do the pieces that a statement gives, since its export statements bind nothing. -/
theorem mem_binds_pieces {origin : Url} {i : Item} {exports : List Item}
    (hi : i ∈ cx.statements origin) (hexp : ∀ e ∈ exports, isExportStatement e = true)
    {inBlock keep : Bool} {env : Environment} {ρ : Rename.Renaming} {τ : ImportTypes.Targets}
    {p : Piece} (hp : p ∈ (linkItems τ (renameItems ρ (shown cx origin inBlock keep env i)) ++
      exports).map (Piece.ofFile origin)) {x : String} (hx : x ∈ p.item.binds) :
    p.owner = .file origin ∧ ∃ id ∈ i.declared, ρ id.name = x := by
  obtain ⟨j, hj, rfl⟩ := List.mem_map.1 hp
  refine ⟨rfl, ?_⟩
  rcases List.mem_append.1 hj with hj | hj
  · exact mem_binds_printed hi hj hx
  · rw [Piece.ofFile, binds_of_isExportStatement (hexp j hj)] at hx
    cases hx

theorem formedPieces_printed {t : State} {origin : Url} {i : Item} {exports : List Item}
    (ht : FormedState cx t) (hf : cx.HasFile origin) (hi : i ∈ cx.statements origin)
    (hexp : ∀ e ∈ exports, isExportStatement e = true) (inBlock keep : Bool) (env : Environment)
    (τ : ImportTypes.Targets) :
    FormedPieces cx ((linkItems τ (renameItems (Rename.ofEnvironment t.scope.env origin)
      (shown cx origin inBlock keep env i)) ++ exports).map (Piece.ofFile origin)) := by
  intro p hp x hx
  obtain ⟨-, id, hid, rfl⟩ := mem_binds_pieces hi hexp hp hx
  exact ht.rename (.declared hf (List.mem_flatMap.2 ⟨i, hi, hid⟩))

/-- A namespace block binds its name only. -/
theorem binds_spaceOf (declare : Bool) (name : String) (body : List Item) :
    (spaceOf declare name body).binds = [name] := rfl

theorem binds_aliasOf (name target : String) (isExport : Bool) :
    (aliasOf name target isExport).binds = [name] := rfl

namespace Preserved

variable {P : String → Prop} {p : Preserved} {x : String}

/-- An import that stays has one local at first. -/
theorem forall_locals_new (hx : P x) (typeOnly : Bool) :
    ∀ y ∈ Preserved.locals ⟨x, [], typeOnly⟩, P y :=
  List.forall_mem_singleton.2 hx

/-- Each alias adds a local to the ones that there are. -/
theorem forall_locals_alias (hp : ∀ y ∈ p.locals, P y) (hx : P x) :
    ∀ y ∈ Preserved.locals { p with others := p.others ++ [x] }, P y := by
  have hlocals : Preserved.locals { p with others := p.others ++ [x] } = p.locals ++ [x] := rfl
  rw [hlocals]
  exact List.forall_mem_append.2 ⟨hp, List.forall_mem_singleton.2 hx⟩

end Preserved

section Run

variable {n : Nat} {r : Role} {files : List Url} {s t : State} {y : Yield}

theorem Run.formed (h : Run cx n r files s y t) (hs : FormedState cx s) :
    FormedState cx t ∧ FormedPieces cx y.pieces := by
  induction h with
  | nothing => exact ⟨hs, .nil⟩
  | andThen _ _ ih₁ ih₂ =>
    obtain ⟨h₁, hp₁⟩ := ih₁ hs
    obtain ⟨h₂, hp₂⟩ := ih₂ h₁
    exact ⟨h₂, hp₁.append hp₂⟩
  | warn w => exact ⟨hs.congr (List.Subset.refl _) rfl, .nil⟩
  | keepRun module => exact ⟨hs.congr (List.Subset.refl _) rfl, .nil⟩
  | preserve typeOnly hkey hw =>
    exact ⟨(hs.claim _).keep (Preserved.forall_locals_new (Context.formed_fresh hw _) _), .nil⟩
  | preserveAgain typeOnly hkey =>
    exact ⟨hs.keep (hs.locals _ (OrderedMap.mem_entries_of_get? hkey)), .nil⟩
  | aliasImport hf hkey =>
    have hlocals := hs.locals _ (List.mem_of_find?_eq_some hkey)
    exact ⟨(hs.claim _).keep (Preserved.forall_locals_alias hlocals (Context.formed_fresh hf _)),
      .nil⟩
  | aliasBinding hf =>
    refine ⟨(hs.claim _).addItems (.single (fun x hx => ?_)), .nil⟩
    rw [Piece.made, binds_aliasOf, List.mem_singleton] at hx
    exact hx ▸ Context.formed_fresh hf _
  | link _ hsp hf _ _ ih => exact ⟨(ih hs).1.link ⟨hf, fun _ => Or.inr ⟨_, hsp, rfl⟩⟩, .nil⟩
  | unlinked w _ _ _ _ ih => exact ⟨(ih hs).1.congr (List.Subset.refl _) rfl, .nil⟩
  | print hcur hi _ _ hexp _ _ _ ih₁ ih₂ =>
    have ht := (ih₁ hs).1
    exact ⟨(ih₂ (ht.takeItems _)).1,
      (ht.taken _).append (formedPieces_printed ht hcur.file hi hexp _ _ _ _)⟩
  | @inlined r q files s t u file ps _ _ hfile _ _ _ _ ih₁ ih₂ =>
    obtain ⟨hu, hps⟩ := ih₂ (ih₁ (hs.beginFile hfile)).1
    exact ⟨hu.addItems hps, .nil⟩
  | atRoot _ _ ih => exact ⟨((ih hs.suspend).1.resume _).inheritFromRoot _, .nil⟩
  | block _ hfile _ hw _ _ _ _ _ ih₁ ih₂ ih₃ ih₄ =>
    obtain ⟨hu, hps⟩ := ih₂ (ih₁ (hs.beginBlock hfile hw)).1
    have hv := (ih₃ (hu.addItems hps)).1
    refine ⟨(ih₄ hv.closeBlock).1.addItems (.single (fun x hx => ?_)), .nil⟩
    rw [Piece.made, binds_spaceOf, List.mem_singleton] at hx
    exact hx ▸ Context.formed_fresh hw _
  | exportAgain _ _ _ _ _ _ ih =>
    refine ⟨(ih hs).1.addItems (fun p hp x hx => ?_), .nil⟩
    obtain ⟨i, hi, rfl⟩ := List.mem_map.1 hp
    rw [Piece.ofFile, binds_of_isExportStatement (isExportStatement_of_mem_items hi)] at hx
    cases hx

/-- The state stays formed while a block is built: once the imports of its file are linked, once its
statements are in it, and when it is closed. -/
theorem FormedState.throughBlock {q : Role} {target : Url} {wanted : String} {u v : State} {z : Yield}
    (hs : FormedState cx s) (hfile : cx.HasFile target) (hw : cx.Formed wanted)
    (imports : Run cx n q files (((s.claim (s.freshName wanted)).openBlock target
      (s.freshName wanted)).bindFile (cx.statements target) target) y t)
    (prints : Run cx n q files t z u) (collects : Run cx n q files (u.addItems z.pieces) ∅ v) :
    FormedState cx t ∧ FormedState cx (u.addItems z.pieces) ∧ FormedState cx v.closeBlock.2 := by
  have ht := (imports.formed (hs.beginBlock hfile hw)).1
  obtain ⟨hu, hps⟩ := prints.formed ht
  have hbody := hu.addItems hps
  exact ⟨ht, hbody, (collects.formed hbody).1.closeBlock⟩

end Run

end AmbientBundle.Merge
