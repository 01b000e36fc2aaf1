import AmbientBundle.Proofs.Merge.Presence
/-!
Names that a file refers to and does not bind. A merged chunk leaves them as they are, and at its
root it binds no names but forms of those that its files write. It does not look at what the files
refer to: another file's declaration may take the name of a global.
-/
namespace AmbientBundle.Merge

open Names Syntax

/-- The file declares the name or imports it. -/
def Context.Binds (cx : Context) (file : Url) (x : String) : Prop :=
  (∃ id ∈ (cx.statements file).flatMap Item.declared, id.name = x) ∨
    ∃ e ∈ cx.specifiers file, e.2.loc = x

instance (cx : Context) (file : Url) (x : String) : Decidable (cx.Binds file x) :=
  inferInstanceAs (Decidable (_ ∨ _))

variable {cx : Context} {n : Nat} {r : Role} {files : List Url} {s t : State} {y : Yield}

/-- The root has final names only for names that the files bind. -/
def RootBinds (cx : Context) (s : State) : Prop :=
  ∀ f x v, s.root.env.lookup f x = some v → cx.Binds f x

theorem RootBinds.congr (h : RootBinds cx s) (he : t.root.env = s.root.env) : RootBinds cx t :=
  fun f x v hv => h f x v (he ▸ hv)

theorem RootBinds.claim (h : RootBinds cx s) (name : String) : RootBinds cx (s.claim name) :=
  fun f x v hv => h f x v hv

theorem RootBinds.link (h : RootBinds cx s) {origin : Url} {name : String} (final : String)
    (hb : cx.Binds origin name) : RootBinds cx (s.link origin name final) := by
  intro f x v hv
  rcases State.lookup_root_link_cases hv with ⟨_, rfl, rfl, _⟩ | hv
  · exact hb
  · exact h f x v hv

theorem RootBinds.bindFile (h : RootBinds cx s) (file : Url) :
    RootBinds cx (s.bindFile (cx.statements file) file) := by
  intro f x v hv
  rcases State.lookup_root_bindFile_cases hv with ⟨rfl, hx⟩ | hv
  · obtain ⟨id, hid, hname⟩ := List.mem_map.1 hx
    exact Or.inl ⟨id, hid, hname⟩
  · exact h f x v hv

theorem Run.rootBinds (h : Run cx n r files s y t) (hs : RootBinds cx s) : RootBinds cx t := by
  induction h with
  | nothing => exact hs
  | andThen _ _ ih₁ ih₂ => exact ih₂ (ih₁ hs)
  | link _ hsp _ _ _ ih => exact (ih hs).link _ (Or.inr ⟨_, hsp, rfl⟩)
  | unlinked w _ _ _ _ ih => exact ih hs
  | @aliasBinding r files s f hf => exact (hs.claim (s.freshName f)).congr (by simp)
  | print _ _ _ _ _ _ _ _ ih₁ ih₂ => exact ih₂ ((ih₁ hs).congr (by simp))
  | @inlined r q files s t u file ps _ _ _ _ _ _ _ ih₁ ih₂ =>
    have hadd : RootBinds cx (s.addFile file) := hs
    exact (ih₂ (ih₁ (hadd.bindFile file))).congr (by simp)
  | atRoot _ _ ih => exact (ih hs).congr (by rw [State.root_inheritFromRoot]; rfl)
  | @block r files s t u v w target wanted ps exports _ _ _ _ _ _ _ _ _ ih₁ ih₂ ih₃ ih₄ =>
    have hopen : RootBinds cx ((s.claim (s.freshName wanted)).openBlock target
        (s.freshName wanted)) := (hs.claim (s.freshName wanted)).congr (by simp)
    have hu := ih₂ (ih₁ (hopen.bindFile target))
    exact (ih₄ ((ih₃ (hu.congr (by simp))).congr (by simp))).congr (by simp)
  | exportAgain _ _ _ _ _ _ ih => exact (ih hs).congr (by simp)
  | _ => exact hs

section Merged

variable {included included' : SeenSet Url} {m : Merged} {warnings : List Warning}

/-- What a file does not bind the chunk does not rename in it. -/
theorem rename_of_not_binds (h : mergeChunk? cx included = some (m, included', warnings))
    {file : Url} {x : String} (hx : ¬cx.Binds file x) :
    Rename.ofEnvironment m.names file x = x := by
  obtain ⟨s, run, rfl, _, _⟩ := mergeChunk_run h
  have hs := run.rootBinds (fun f y v hv => (by cases hv))
  change (s.root.env.lookup file x).getD x = x
  cases hl : s.root.env.lookup file x with
  | none => rfl
  | some v => exact absurd (hs file x v hl) hx

/-- Every name that is bound at the root is a form of a name that some file of the chunk writes. -/
theorem formed_of_mem_rootBindings
    (h : mergeChunk? cx included = some (m, included', warnings)) {o : Owner} {x : String}
    (hx : (o, x) ∈ m.rootBindings) : cx.Formed x := by
  obtain ⟨s, run, rfl, _, _⟩ := mergeChunk_run h
  have hs := (run.formed (.start included)).1
  rw [rootBindings_finish] at hx
  rcases List.mem_append.1 hx with hx | hx
  · obtain ⟨y, hy, he⟩ := List.mem_map.1 hx
    cases he
    have hlocal : x ∈ localsOf s.preserved := by
      rw [← List.count_pos_iff, ← count_binds_hoistedImports _ s.sideEffects]
      exact List.count_pos_iff.2 hy
    obtain ⟨e, he, hxe⟩ := List.mem_flatMap.1 hlocal
    exact hs.locals e he x hxe
  · obtain ⟨p, hp, hxp⟩ := List.mem_flatMap.1 hx
    exact (hs.scopes s.root (by simp [State.scopes])).pieces p hp x (mem_bindings.1 hxp).2

/-- The chunk shows a file under a renaming that leaves the names alone that the file does not bind,
and the root binds such a name only if it is a form of a name that some file of the chunk writes. -/
theorem global_unchanged (h : mergeChunk? cx included = some (m, included', warnings))
    {file : Url} (hf : included'.contains file = true) (hn : included.contains file = false)
    {x : String} (hx : ¬cx.Binds file x) :
    ShowsFile cx m file ∧ Rename.ofEnvironment m.names file x = x ∧
      ∀ o, (o, x) ∈ m.rootBindings → cx.Formed x :=
  ⟨showsFile_of_mergeChunk? h hf hn, rename_of_not_binds h hx,
    fun _ ho => formed_of_mem_rootBindings h ho⟩

/-- `/b.d.ts` refers to a global `Node`, and `/a.d.ts`, from which it imports, declares a class of
that name. -/
def capturing : Context := .ofFiles
  [("/a.d.ts", [.exportDecl (emptyClass "Node"), .exportDecl (emptyClass "Edge")]),
    ("/b.d.ts", [importOf [.named none "Edge" false] "/a.d.ts" false,
      .exportDecl (.typeAlias (.made "T") false [] (.ref ⟨"Node", []⟩ []))])]

/-- Whether a statement is an exported type alias for `Node`. -/
def isNodeAlias : Item → Bool
  | .exportDecl (.typeAlias _ _ _ (.ref name _)) => name.head == "Node"
  | _ => false

set_option maxRecDepth 100000 in
theorem global_unchanged_capturing :
    (mergeChunk? capturing ∅).any (fun r => r.2.1.contains (.ofPath "/b.d.ts")) ∧
      ¬capturing.Binds (.ofPath "/b.d.ts") "Node" ∧
      ∃ m included' warnings, mergeChunk? capturing ∅ = some (m, included', warnings) ∧
        Rename.ofEnvironment m.names (.ofPath "/b.d.ts") "Node" = "Node" ∧
        ∀ o, (o, "Node") ∈ m.rootBindings → capturing.Formed "Node" := by
  have hmerged : (mergeChunk? capturing ∅).any (fun r => r.2.1.contains (.ofPath "/b.d.ts")) := by
    decide +kernel
  have hbinds : ¬capturing.Binds (.ofPath "/b.d.ts") "Node" := by decide +kernel
  obtain ⟨⟨m, included', warnings⟩, hm, hf⟩ := (Option.any_eq_true _ _).1 hmerged
  exact ⟨hmerged, hbinds, m, included', warnings, hm, (global_unchanged hm hf rfl hbinds).2⟩

set_option maxRecDepth 100000 in
/-- The global that `/b.d.ts` refers to becomes the class of `/a.d.ts`. -/
theorem global_captured :
    ¬∀ m included' warnings, mergeChunk? capturing ∅ = some (m, included', warnings) →
      ∀ file x, ¬capturing.Binds file x →
        (capturing.statements file).any (fun i => x == "Node" && isNodeAlias i) →
        (∃ p ∈ m.pieces, p.owner = .file file ∧ isNodeAlias p.item) →
        ∀ o, o ≠ .file file → (o, x) ∉ m.rootBindings := by
  intro hfree
  have hcheck : (mergeChunk? capturing ∅).any (fun r =>
      r.1.pieces.any (fun p => p.owner == .file (.ofPath "/b.d.ts") && isNodeAlias p.item) &&
        decide ((.file (.ofPath "/a.d.ts"), "Node") ∈ r.1.rootBindings)) := by decide +kernel
  obtain ⟨⟨m, included', warnings⟩, hm, hr⟩ := (Option.any_eq_true _ _).1 hcheck
  rw [Bool.and_eq_true, decide_eq_true_eq, List.any_eq_true] at hr
  obtain ⟨⟨p, hp, hpb⟩, hbound⟩ := hr
  rw [Bool.and_eq_true, beq_iff_eq] at hpb
  exact hfree m included' warnings hm (.ofPath "/b.d.ts") "Node" (by decide +kernel)
    (by decide +kernel) ⟨p, hp, hpb⟩ (.file (.ofPath "/a.d.ts")) (by decide) hbound

end Merged

end AmbientBundle.Merge
