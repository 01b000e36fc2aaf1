import AmbientBundle.Proofs.Merge.Run
/-!
What every run of merging keeps: the open and the waiting blocks, the files that are included, the
owners of names at the root, and the final names that a file has there. Only the file whose imports
are being linked gets new final names, and only for their locals.
-/
namespace AmbientBundle.Merge

open Names Syntax

/-- `t` comes behind `s` as far as the root and the included files tell. -/
structure Grows (s t : State) : Prop where
  included : s.included.items <+: t.included.items
  outer : t.root.env.outer = s.root.env.outer
  owner : ∀ x o, s.root.env.owner? x = some o → t.root.env.owner? x = some o
  named : ∀ f x, (s.root.env.lookup f x).isSome → (t.root.env.lookup f x).isSome

namespace Grows

variable {s t u : State}

theorem refl (s : State) : Grows s s :=
  ⟨List.prefix_refl _, rfl, fun _ _ h => h, fun _ _ h => h⟩

theorem trans (h : Grows s t) (h' : Grows t u) : Grows s u :=
  ⟨h.included.trans h'.included, h'.outer.trans h.outer,
    fun x o ho => h'.owner x o (h.owner x o ho), fun f x hx => h'.named f x (h.named f x hx)⟩

theorem contains (h : Grows s t) {f : Url} (hf : s.included.contains f = true) :
    t.included.contains f = true := by
  simp only [SeenSet.contains, decide_eq_true_eq] at hf ⊢
  exact h.included.subset hf

/-- The root's names and the included files are the same. -/
theorem of_eq (hi : t.included = s.included) (he : t.root.env = s.root.env) : Grows s t := by
  refine ⟨?_, ?_, ?_, ?_⟩
  · simp [hi]
  · rw [he]
  · rw [he]
    exact fun _ _ h => h
  · rw [he]
    exact fun _ _ h => h

theorem claim (s : State) (name : String) : Grows s (s.claim name) := by
  refine ⟨List.prefix_refl _, rfl, fun x o ho => ?_, fun _ _ h => h⟩
  change (s.root.env.claim name).owner? x = some o
  rw [Environment.owner?_claim]
  split <;> simp [ho]

theorem link (s : State) (origin : Url) (name final : String) :
    Grows s (s.link origin name final) := by
  refine ⟨?_, ?_, fun x o ho => ?_, fun f x hx => ?_⟩
  · simp
  · rw [State.root_link_env]
    split <;> rfl
  · rw [State.root_link_env]
    split <;> exact ho
  · rw [State.root_link_env]
    split
    · exact hx
    · exact Environment.isSome_lookup_link hx

theorem addFile (s : State) (file : Url) : Grows s (s.addFile file) := by
  refine ⟨?_, rfl, fun _ _ h => h, fun _ _ h => h⟩
  rw [State.addFile, SeenSet.items_insert]
  split
  · exact List.prefix_refl _
  · exact List.prefix_append _ _

theorem bindFile (s : State) (is : List Item) (file : Url) : Grows s (s.bindFile is file) := by
  refine ⟨?_, ?_, fun x o ho => ?_, fun f x hx => ?_⟩
  · simp
  · rw [State.root_bindFile_env]
    split
    · rfl
    · exact outer_bindIdents
  · rw [State.root_bindFile_env]
    split
    · exact ho
    · exact owner?_bindIdents ho
  · rw [State.root_bindFile_env]
    split
    · exact hx
    · exact lookup_bindIdents_isSome hx

theorem addItems (s : State) (ps : List Piece) : Grows s (s.addItems ps) := of_eq (by simp) (by simp)

theorem takeItems (s : State) (k : Nat) : Grows s (s.takeItems k).2 := of_eq (by simp) (by simp)

theorem openBlock (s : State) (file : Url) (name : String) : Grows s (s.openBlock file name) :=
  of_eq (by simp) (by simp)

theorem closeBlock (s : State) : Grows s s.closeBlock.2 := of_eq (by simp) (by simp)

theorem inheritFromRoot (s : State) (files : List Url) : Grows s (s.inheritFromRoot files) :=
  of_eq (by simp) (by simp)

/-- A file begins at the root. -/
theorem beginFile (s : State) (is : List Item) (file : Url) :
    Grows s ((s.addFile file).bindFile is file) :=
  (addFile s file).trans (bindFile _ is file)

/-- A file begins in a block of its own. -/
theorem beginBlock (s : State) (is : List Item) (file : Url) (name : String) :
    Grows s (((s.claim name).openBlock file name).bindFile is file) :=
  (claim s name).trans ((openBlock _ file name).trans (bindFile _ is file))

end Grows

section Run

variable {cx : Context} {n : Nat} {r : Role} {files : List Url} {s t : State} {y : Yield}

/-- Blocks that a run opens it closes, and those that it sets aside it opens again. -/
theorem Run.stacks (h : Run cx n r files s y t) :
    t.targets = s.targets ∧ t.waiting = s.waiting := by
  induction h with
  | nothing => exact ⟨rfl, rfl⟩
  | andThen _ _ ih₁ ih₂ => exact ⟨ih₂.1.trans ih₁.1, ih₂.2.trans ih₁.2⟩
  | warn w => exact ⟨rfl, rfl⟩
  | keepRun module => exact ⟨rfl, rfl⟩
  | preserve typeOnly hkey hw => exact ⟨State.targets_claim _ _, State.waiting_claim _ _⟩
  | preserveAgain typeOnly hkey => exact ⟨rfl, rfl⟩
  | aliasImport hf hkey => exact ⟨State.targets_claim _ _, State.waiting_claim _ _⟩
  | aliasBinding hf => simp
  | link _ _ _ _ _ ih => simpa using ih
  | unlinked w _ _ _ _ ih => exact ih
  | print _ _ _ _ _ _ _ _ ih₁ ih₂ => simpa [ih₁.1, ih₁.2] using ih₂
  | inlined _ _ _ _ _ _ _ ih₁ ih₂ => simpa [ih₁.1, ih₁.2] using ih₂
  | @atRoot r files s t hblock _ ih =>
    simp only [State.targets_suspend, State.waiting_suspend] at ih
    have hn : s.suspended.length = s.waiting.length := by simp [State.waiting]
    simp [State.targets_resume, State.waiting_resume, ih.2, hn]
  | block _ _ _ _ _ _ _ _ _ ih₁ ih₂ ih₃ ih₄ =>
    simpa [ih₁.1, ih₁.2, ih₂.1, ih₂.2, ih₃.1, ih₃.2] using ih₄
  | exportAgain _ _ _ _ _ _ ih => simpa using ih

theorem Run.inBlock_eq (h : Run cx n r files s y t) : t.inBlock = s.inBlock :=
  State.inBlock_congr h.stacks.1

theorem Run.grows (h : Run cx n r files s y t) : Grows s t := by
  induction h with
  | nothing => exact .refl _
  | andThen _ _ ih₁ ih₂ => exact ih₁.trans ih₂
  | warn w => exact .of_eq rfl rfl
  | keepRun module => exact .of_eq rfl rfl
  | preserve typeOnly hkey hw => exact (Grows.claim _ _).trans (.of_eq rfl rfl)
  | preserveAgain typeOnly hkey => exact .of_eq rfl rfl
  | aliasImport hf hkey => exact (Grows.claim _ _).trans (.of_eq rfl rfl)
  | aliasBinding hf => exact (Grows.claim _ _).trans (.addItems _ _)
  | link _ _ _ _ _ ih => exact ih.trans (.link _ _ _ _)
  | unlinked w _ _ _ _ ih => exact ih.trans (.of_eq rfl rfl)
  | print _ _ _ _ _ _ _ _ ih₁ ih₂ => exact ih₁.trans ((Grows.takeItems _ _).trans ih₂)
  | inlined _ _ _ _ _ _ _ ih₁ ih₂ =>
    exact (Grows.beginFile _ _ _).trans (ih₁.trans (ih₂.trans (.addItems _ _)))
  | @atRoot r files s t _ _ ih =>
    have hs : Grows s s.suspend := .of_eq rfl rfl
    have ht : Grows t (t.resume s.suspended.length) := .of_eq rfl rfl
    exact hs.trans (ih.trans (ht.trans (.inheritFromRoot _ _)))
  | block _ _ _ _ _ _ _ _ _ ih₁ ih₂ ih₃ ih₄ =>
    have hbody := (Grows.beginBlock _ _ _ _).trans (ih₁.trans (ih₂.trans
      ((Grows.addItems _ _).trans ih₃)))
    exact hbody.trans ((Grows.closeBlock _).trans (ih₄.trans (.addItems _ _)))
  | exportAgain _ _ _ _ _ _ ih => exact ih.trans (.addItems _ _)

/-- The namespaces of the root keep their names. -/
def SpacesKept (s t : State) : Prop :=
  ∀ f v, s.root.spaces.get? f = some v → t.root.spaces.get? f = some v

namespace SpacesKept

variable {u : State}

theorem of_eq (h : t.root.spaces = s.root.spaces) : SpacesKept s t := fun _ _ hv => h ▸ hv

theorem trans (h : SpacesKept s t) (h' : SpacesKept t u) : SpacesKept s u :=
  fun f v hv => h' f v (h f v hv)

/-- A namespace is opened for a file that has none. -/
theorem openBlock {file : Url} (h : s.space? file = none) (name : String) :
    SpacesKept s (s.openBlock file name) := by
  intro f v hv
  rw [State.root_openBlock_spaces]
  split
  · exact hv
  · rw [OrderedMap.get?_put, if_neg, hv]
    rintro rfl
    rw [State.space?, Option.or_eq_none_iff, hv] at h
    cases h.2

/-- A file begins in a block of its own. -/
theorem beginBlock {file : Url} (h : s.space? file = none) (is : List Item) (name : String) :
    SpacesKept s (((s.claim name).openBlock file name).bindFile is file) := by
  have hnew : (s.claim name).space? file = none := by
    unfold State.space? State.claim at *
    simpa [List.findSome?_map, Function.comp_def, State.claimInBlock] using h
  exact (of_eq rfl).trans ((openBlock hnew name).trans (of_eq (by simp)))

end SpacesKept

theorem Run.spacesKept (h : Run cx n r files s y t) : SpacesKept s t := by
  induction h with
  | nothing => exact .of_eq rfl
  | andThen _ _ ih₁ ih₂ => exact ih₁.trans ih₂
  | warn w => exact .of_eq rfl
  | keepRun module => exact .of_eq rfl
  | preserve typeOnly hkey hw => exact .of_eq rfl
  | preserveAgain typeOnly hkey => exact .of_eq rfl
  | aliasImport hf hkey => exact .of_eq rfl
  | aliasBinding hf => exact .of_eq (by simp; rfl)
  | link _ _ _ _ _ ih => exact ih.trans (.of_eq (by simp))
  | unlinked w _ _ _ _ ih => exact ih.trans (.of_eq rfl)
  | print _ _ _ _ _ _ _ _ ih₁ ih₂ => exact ih₁.trans ((SpacesKept.of_eq (by simp)).trans ih₂)
  | inlined _ _ _ _ _ _ _ ih₁ ih₂ =>
    exact SpacesKept.trans (.of_eq (by simp; rfl)) (ih₁.trans (ih₂.trans (.of_eq (by simp))))
  | atRoot _ _ ih => exact ih.trans (.of_eq (by simp; rfl))
  | block hnew _ _ _ _ _ _ _ _ ih₁ ih₂ ih₃ ih₄ =>
    refine (SpacesKept.beginBlock hnew _ _).trans (ih₁.trans (ih₂.trans ?_))
    exact SpacesKept.trans (.of_eq (by simp)) (ih₃.trans ((SpacesKept.of_eq (by simp)).trans
      (ih₄.trans (.of_eq (by simp)))))
  | exportAgain _ _ _ _ _ _ ih => exact ih.trans (.of_eq (by simp))

/-- At the root the file of an open block has its name on record. -/
theorem State.root_spaces_openBlock (hroot : s.inBlock = false) (file : Url) (name : String) :
    (s.openBlock file name).root.spaces.get? file = some name := by
  rw [State.root_openBlock_spaces, hroot, if_neg Bool.false_ne_true, OrderedMap.get?_put,
    if_pos rfl]

theorem State.inBlock_openBlock (s : State) (file : Url) (name : String) :
    (s.openBlock file name).inBlock = true := by
  simp [State.inBlock_eq]

theorem State.inBlock_begunBlock (s : State) (is : List Item) (target : Url) (name : String) :
    ((s.openBlock target name).bindFile is target).inBlock = true :=
  (State.inBlock_congr (State.targets_bindFile _ _ _)).trans (State.inBlock_openBlock _ _ _)

/-- A file that begins in a new block leaves the root's names. -/
theorem State.root_begunBlock_env (s : State) (is : List Item) (target : Url) (name : String) :
    ((s.openBlock target name).bindFile is target).root.env = s.root.env := by
  rw [State.root_bindFile_env, if_pos (State.inBlock_openBlock _ _ _), State.root_openBlock_env]

theorem State.lookup_root_begunBlock (s : State) (is : List Item) (target f : Url)
    (name x : String) : (((s.claim name).openBlock target name).bindFile is target).root.env.lookup
      f x = s.root.env.lookup f x := by
  rw [State.root_begunBlock_env]
  rfl

theorem State.inBlock_begunFile (s : State) (is : List Item) (file : Url) :
    ((s.addFile file).bindFile is file).inBlock = s.inBlock :=
  State.inBlock_congr (State.targets_bindFile _ _ _)

section Phases

variable {q : Role} {is : List Item} {file : Url} {name : String} {ps : List Piece} {z : Yield}
  {u v : State}

/-- Between the statements of a file at the root merging is outside of blocks. -/
theorem Run.inBlock_begunFile (run : Run cx n r files ((s.addFile file).bindFile is file) y t)
    (hroot : s.inBlock = false) : t.inBlock = false :=
  run.inBlock_eq.trans ((State.inBlock_begunFile s is file).trans hroot)

/-- Between the statements of a file in a block merging is in the block. -/
theorem Run.inBlock_begunBlock
    (run : Run cx n r files ((s.openBlock file name).bindFile is file) y t) : t.inBlock = true :=
  run.inBlock_eq.trans (State.inBlock_begunBlock s is file name)

/-- What a block is built of: its beginning, the runs for its file and its end. -/
theorem Run.grows_closeBlock
    (imports : Run cx n q files ((s.openBlock file name).bindFile is file) y t)
    (prints : Run cx n q files t z u) (collects : Run cx n q files (u.addItems ps) ∅ v) :
    Grows s v.closeBlock.2 := by
  have hbegun : Grows s ((s.openBlock file name).bindFile is file) :=
    (Grows.openBlock s file name).trans (.bindFile _ is file)
  have hprinted : Grows s (u.addItems ps) :=
    hbegun.trans (imports.grows.trans (prints.grows.trans (.addItems u ps)))
  exact hprinted.trans (collects.grows.trans (.closeBlock v))

/-- The namespaces of the root keep their names while a block is filled and closed. -/
theorem SpacesKept.closeBlock
    (imports : Run cx n q files ((s.openBlock file name).bindFile is file) y t)
    (prints : Run cx n q files t z u) (collects : Run cx n q files (u.addItems ps) ∅ v) :
    SpacesKept (s.openBlock file name) v.closeBlock.2 := by
  have hbegun : SpacesKept (s.openBlock file name) ((s.openBlock file name).bindFile is file) :=
    .of_eq (by simp)
  have hprinted : SpacesKept (s.openBlock file name) (u.addItems ps) :=
    hbegun.trans (imports.spacesKept.trans (prints.spacesKept.trans (.of_eq (by simp))))
  exact hprinted.trans (collects.spacesKept.trans (.of_eq (by simp)))

end Phases

/-- The root's environment is one frame with names of included files only, and the files that are
begun at the root are included. -/
structure Rooted (files : List Url) (s : State) : Prop where
  flat : s.root.env.outer = []
  included : ∀ f x v, s.root.env.lookup f x = some v → s.included.contains f = true
  begun : ∀ g ∈ files, s.included.contains g = true

namespace Rooted

theorem start (included : SeenSet Url) : Rooted [] (State.start included) :=
  ⟨rfl, fun f x v h => (by cases h), by simp⟩

theorem mono (h : Rooted files s) (hg : Grows s t)
    (hl : ∀ f x v, t.root.env.lookup f x = some v →
      (∃ w, s.root.env.lookup f x = some w) ∨ t.included.contains f = true) : Rooted files t := by
  refine ⟨hg.outer.trans h.flat, fun f x v hv => ?_, fun g hm => hg.contains (h.begun g hm)⟩
  rcases hl f x v hv with ⟨w, hw⟩ | hc
  · exact hg.contains (h.included f x w hw)
  · exact hc

theorem congr (h : Rooted files s) (hi : t.included = s.included)
    (he : t.root.env = s.root.env) : Rooted files t :=
  h.mono (.of_eq hi he) (fun _ _ v hv => Or.inl ⟨v, he ▸ hv⟩)

theorem claim (h : Rooted files s) (name : String) : Rooted files (s.claim name) :=
  h.mono (.claim s name) (fun _ _ v hv => Or.inl ⟨v, hv⟩)

theorem addItems (h : Rooted files s) (ps : List Piece) : Rooted files (s.addItems ps) :=
  h.congr (by simp) (by simp)

theorem takeItems (h : Rooted files s) (k : Nat) : Rooted files (s.takeItems k).2 :=
  h.congr (by simp) (by simp)

theorem closeBlock (h : Rooted files s) : Rooted files s.closeBlock.2 :=
  h.congr (by simp) (by simp)

theorem suspend (h : Rooted files s) : Rooted files s.suspend := h.congr rfl rfl

theorem link (h : Rooted files s) {origin : Url} {name final : String}
    (ho : s.inBlock = false → origin ∈ files) : Rooted files (s.link origin name final) := by
  refine h.mono (.link s origin name final) (fun f x v hv => ?_)
  rcases State.lookup_root_link_cases hv with ⟨hb, rfl, _, _⟩ | hv
  · exact Or.inr (by simpa using h.begun origin (ho hb))
  · exact Or.inl ⟨v, hv⟩

/-- The root has no names of a file before it begins there. -/
theorem lookup_of_new (h : Rooted files s) {file : Url} (hnew : s.included.contains file = false)
    (x : String) : s.root.env.lookup file x = none := by
  cases hl : s.root.env.lookup file x with
  | none => rfl
  | some v => simp [h.included file x v hl] at hnew

theorem ownNames (h : Rooted files s) {file : Url} (hnew : s.included.contains file = false) :
    OwnNames file s.root.env :=
  ⟨h.flat, fun x v hv => by simp [h.lookup_of_new hnew x] at hv⟩

/-- A file that begins at the root. -/
theorem beginFile (h : Rooted files s) (is : List Item) (file : Url) :
    Rooted (file :: files) ((s.addFile file).bindFile is file) := by
  have hfile : ((s.addFile file).bindFile is file).included.contains file = true := by
    simp [State.addFile, SeenSet.contains_insert]
  have hmono : Rooted files ((s.addFile file).bindFile is file) := by
    refine h.mono (.beginFile s is file) (fun f x v hv => ?_)
    rcases State.lookup_root_bindFile_cases hv with ⟨rfl, _⟩ | hv
    · exact Or.inr hfile
    · exact Or.inl ⟨v, hv⟩
  refine ⟨hmono.flat, hmono.included, fun g hg => ?_⟩
  rcases List.mem_cons.1 hg with rfl | hg
  · exact hfile
  · exact hmono.begun g hg

/-- Names that the root has stay when a file begins that it did not know. -/
theorem lookup_beginFile (h : Rooted files s) {file f : Url} {x v : String}
    (hnew : s.included.contains file = false) (is : List Item)
    (hv : s.root.env.lookup f x = some v) :
    ((s.addFile file).bindFile is file).root.env.lookup f x = some v := by
  refine (State.lookup_root_bindFile_of_ne ?_ x).trans hv
  rintro rfl
  simp [h.lookup_of_new hnew] at hv

/-- A file that begins in a block leaves the root's names. -/
theorem beginBlock (h : Rooted files s) (is : List Item) (file : Url) (name : String) :
    Rooted files (((s.claim name).openBlock file name).bindFile is file) := by
  have hopen : Rooted files ((s.claim name).openBlock file name) :=
    (h.claim name).congr (by simp) (by simp)
  refine hopen.congr (by simp) ?_
  rw [State.root_begunBlock_env, State.root_openBlock_env]

end Rooted

theorem Run.rooted (h : Run cx n r files s y t) (hs : Rooted files s) : Rooted files t := by
  induction h with
  | nothing => exact hs
  | andThen _ _ ih₁ ih₂ => exact ih₂ (ih₁ hs)
  | warn w => exact hs.congr rfl rfl
  | keepRun module => exact hs.congr rfl rfl
  | preserve typeOnly hkey hw => exact (hs.claim _).congr rfl rfl
  | preserveAgain typeOnly hkey => exact hs.congr rfl rfl
  | aliasImport hf hkey => exact (hs.claim _).congr rfl rfl
  | aliasBinding hf => exact (hs.claim _).addItems _
  | link hcur _ _ run _ ih =>
    exact (ih hs).link (fun hb => List.mem_of_mem_head? (hcur.head (run.inBlock_eq ▸ hb)))
  | unlinked w _ _ _ _ ih => exact (ih hs).congr rfl rfl
  | print _ _ _ _ _ _ _ _ ih₁ ih₂ => exact ih₂ ((ih₁ hs).takeItems _)
  | inlined _ _ _ _ _ _ _ ih₁ ih₂ =>
    have hu := ih₂ (ih₁ (hs.beginFile _ _))
    exact Rooted.addItems ⟨hu.flat, hu.included, fun g hg => hu.begun g (by simp [hg])⟩ _
  | atRoot _ _ ih => exact (ih hs.suspend).congr (by simp; rfl) (by simp; rfl)
  | block _ _ _ _ _ _ _ _ _ ih₁ ih₂ ih₃ ih₄ =>
    have hu := ih₂ (ih₁ (hs.beginBlock _ _ _))
    exact (ih₄ (ih₃ (hu.addItems _)).closeBlock).addItems _
  | exportAgain _ _ _ _ _ _ ih => exact (ih hs).addItems _

/-- The root stays as it has to be while a block is built: once the imports of its file are linked,
once its statements are in it, and when it is closed. -/
theorem Rooted.throughBlock {q : Role} {is : List Item} {file : Url} {name : String} {u v : State}
    {z : Yield} (hs : Rooted files s)
    (imports : Run cx n q files (((s.claim name).openBlock file name).bindFile is file) y t)
    (prints : Run cx n q files t z u) (collects : Run cx n q files (u.addItems z.pieces) ∅ v) :
    Rooted files t ∧ Rooted files (u.addItems z.pieces) ∧ Rooted files v.closeBlock.2 := by
  have ht := imports.rooted (hs.beginBlock is file name)
  have hbody := (prints.rooted ht).addItems z.pieces
  exact ⟨ht, hbody, (collects.rooted hbody).closeBlock⟩

/-- A run leaves the names of an included file at the root as they are, apart from the locals that
it links for the current file. -/
theorem Run.lookup_root (h : Run cx n r files s y t) {f : Url} {x : String}
    (hf : s.included.contains f = true)
    (hx : s.inBlock = false → files.head? = some f → ∀ e ∈ y.tried, e.2.loc ≠ x) :
    t.root.env.lookup f x = s.root.env.lookup f x := by
  induction h with
  | nothing => rfl
  | andThen first _ ih₁ ih₂ =>
    rw [ih₂ (first.grows.contains hf), ih₁ hf]
    · exact fun hb hh e he => hx hb hh e (by simp [he])
    · exact fun hb hh e he => hx (first.inBlock_eq ▸ hb) hh e (by simp [he])
  | warn w => rfl
  | keepRun module => rfl
  | preserve typeOnly hkey hw => rfl
  | preserveAgain typeOnly hkey => rfl
  | aliasImport hf hkey => rfl
  | aliasBinding hf =>
    rw [State.root_addItems_env]
    rfl
  | link hcur _ _ run _ ih =>
    rw [State.lookup_root_link_of_ne, ih hf (by simp)]
    intro hb he
    obtain ⟨rfl, rfl⟩ := Prod.mk.inj he
    have hb' := run.inBlock_eq ▸ hb
    exact hx hb' (hcur.head hb') _ (List.mem_singleton.2 rfl) rfl
  | unlinked w _ _ _ _ ih => exact ih hf (by simp)
  | print _ _ _ _ _ _ run _ ih₁ ih₂ =>
    rw [ih₂ (by simpa using run.grows.contains hf) (by simp), State.root_takeItems_env]
    exact ih₁ hf (by simp)
  | @inlined r q files s t u file ps hroot hnew _ _ _ imports prints ih₁ ih₂ =>
    have hne : file ≠ f := by
      rintro rfl
      simp [hf] at hnew
    have hadd : (s.addFile file).included.contains f = true := (Grows.addFile s file).contains hf
    rw [State.root_addItems_env, ih₂, ih₁, State.lookup_root_bindFile_of_ne hne]
    · rfl
    · simpa using hadd
    · exact fun _ hh => absurd (by simpa using hh) hne
    · exact imports.grows.contains (by simpa using hadd)
    · exact fun _ hh => absurd (by simpa using hh) hne
  | atRoot _ _ ih =>
    rw [State.root_inheritFromRoot]
    exact ih hf (by simp)
  | @block r files s t u v w target wanted ps exports _ _ _ _ _ imports prints collects
      aliases ih₁ ih₂ ih₃ ih₄ =>
    have hft : t.included.contains f = true := imports.grows.contains (by simpa using hf)
    have hfu : u.included.contains f = true := prints.grows.contains hft
    have hfv : v.included.contains f = true := collects.grows.contains (by simpa using hfu)
    have hbt := imports.inBlock_begunBlock
    rw [State.root_addItems_env, ih₄ (by simpa using hfv) (by simp), State.root_closeBlock,
      ih₃ (by simpa using hfu) (by simp), State.root_addItems_env, ih₂ hft (by simp [hbt]),
      ih₁ (by simpa using hf), State.lookup_root_begunBlock]
    intro h0
    rw [State.inBlock_begunBlock] at h0
    cases h0
  | exportAgain _ _ _ _ _ _ ih =>
    rw [State.root_addItems_env]
    exact ih hf (by simp)

end Run

end AmbientBundle.Merge
