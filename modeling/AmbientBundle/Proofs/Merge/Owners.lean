import AmbientBundle.Proofs.Merge.Imports
import AmbientBundle.Proofs.Merge.Sound
import Mathlib.Data.List.Count
/-!
The names at the root of a merged chunk belong to one owner each. The root's environment knows the
owner of every name that a statement binds there. A name that the chunk claims is used once: as
long as it has no owner it counts as one use that is still to come, and runs never add uses.
-/
namespace AmbientBundle.Merge

open Names Syntax

/-- The names that a statement binds, with the statement's owner. -/
def Piece.bindings (p : Piece) : List (Owner × String) := p.item.binds.map (p.owner, ·)

/-- The names that a merged chunk binds at its root, with their owners. -/
def Merged.rootBindings (m : Merged) : List (Owner × String) := m.pieces.flatMap Piece.bindings

/-- No file declares a name that it also imports. -/
def Context.ImportsApart (cx : Context) : Prop :=
  ∀ file, ∀ id ∈ (cx.statements file).flatMap Item.declared, ∀ e ∈ cx.specifiers file,
    e.2.loc ≠ id.name

/-- Only the files at hand have to be looked at. -/
theorem Context.importsApart_of_files {cx : Context} (h : ∀ e ∈ cx.files.modules.entries,
    ∀ id ∈ (cx.statements e.1).flatMap Item.declared, ∀ sp ∈ cx.specifiers e.1,
      sp.2.loc ≠ id.name) : cx.ImportsApart := by
  intro file id hid sp hsp
  cases hm : cx.files.get? file with
  | some m => exact h _ (OrderedMap.mem_entries_of_get? hm) id hid sp hsp
  | none =>
    have hbody : cx.body file = [] := Context.body_of_none hm
    simp [Context.statements, hbody] at hid

theorem mem_bindings {p : Piece} {o : Owner} {x : String} :
    (o, x) ∈ p.bindings ↔ p.owner = o ∧ x ∈ p.item.binds := by
  constructor
  · intro h
    obtain ⟨y, hy, he⟩ := List.mem_map.1 h
    cases he
    exact ⟨rfl, hy⟩
  · rintro ⟨rfl, hx⟩
    exact List.mem_map.2 ⟨x, hx, rfl⟩

/-- Dropping repeated exports drops no binding. -/
theorem bindings_keepNewAll (seen : Exported) (ps : List Piece) :
    (keepNewAll seen ps).flatMap Piece.bindings = ps.flatMap Piece.bindings := by
  have hkeep : ∀ (seen : Exported) (p : Piece),
      ((keepNew seen p.item).1.toList.map (Piece.mk p.owner)).flatMap Piece.bindings =
        p.bindings := by
    intro seen p
    cases he : isExportStatement p.item with
    | false => simp [keepNew_of_not_isExportStatement he]
    | true =>
      have hp : p.bindings = [] := by simp [Piece.bindings, binds_of_isExportStatement he]
      rw [hp, List.flatMap_eq_nil_iff]
      intro q hq
      obtain ⟨i, hi, rfl⟩ := List.mem_map.1 hq
      rcases mem_keepNew hi with rfl | ⟨_, hi⟩
      · exact hp
      · simp [Piece.bindings, binds_of_isExportStatement hi]
  induction ps generalizing seen with
  | nil => rfl
  | cons p ps ih => rw [keepNewAll, List.flatMap_append, hkeep, ih, List.flatMap_cons]

section Owned

/-- The names that statements at the root bind belong to the statements' owners, and the locals of
the imports that stay to the chunk. -/
structure Owned (s : State) : Prop where
  items : ∀ p ∈ s.root.items, ∀ x ∈ p.item.binds, s.root.env.owner? x = some p.owner
  locals : ∀ e ∈ s.preserved.entries, ∀ x ∈ e.2.locals, s.root.env.owner? x = some .chunk

/-- The declarations of a file have final names at the root that the file owns. -/
def OwnsDeclared (cx : Context) (file : Url) (s : State) : Prop :=
  ∀ id ∈ (cx.statements file).flatMap Item.declared, ∃ x,
    s.root.env.lookup file id.name = some x ∧ s.root.env.owner? x = some (.file file)

variable {cx : Context} {n : Nat} {r : Role} {files : List Url} {s t : State} {y : Yield}

namespace Owned

theorem mono (h : Owned s) (hg : Grows s t)
    (hi : ∀ p ∈ t.root.items, p ∈ s.root.items ∨
      ∀ x ∈ p.item.binds, t.root.env.owner? x = some p.owner)
    (hl : ∀ e ∈ t.preserved.entries, e ∈ s.preserved.entries ∨
      ∀ x ∈ e.2.locals, t.root.env.owner? x = some .chunk) : Owned t := by
  refine ⟨fun p hp x hx => ?_, fun e he x hx => ?_⟩
  · rcases hi p hp with hp | hp
    · exact hg.owner x _ (h.items p hp x hx)
    · exact hp x hx
  · rcases hl e he with he | he
    · exact hg.owner x _ (h.locals e he x hx)
    · exact he x hx

theorem congr (h : Owned s) (hg : Grows s t) (hi : t.root.items ⊆ s.root.items)
    (hp : t.preserved = s.preserved) : Owned t :=
  h.mono hg (fun _ hm => Or.inl (hi hm)) (fun _ he => Or.inl (hp ▸ he))

theorem claim (h : Owned s) (name : String) : Owned (s.claim name) :=
  h.congr (.claim s name) (List.Subset.refl _) rfl

theorem keep (h : Owned s) {key : String × ImportedName} {p : Preserved}
    (hp : ∀ x ∈ p.locals, s.root.env.owner? x = some .chunk) : Owned (s.keep key p) := by
  refine h.mono (.of_eq rfl rfl) (fun _ hm => Or.inl hm) (fun e he => ?_)
  rcases OrderedMap.mem_entries_put he with rfl | he
  · exact Or.inr hp
  · exact Or.inl he

theorem addItems (h : Owned s) {ps : List Piece} (hp : s.inBlock = false → ∀ p ∈ ps,
    ∀ x ∈ p.item.binds, s.root.env.owner? x = some p.owner) : Owned (s.addItems ps) := by
  refine h.mono (.addItems s ps) (fun p hm => ?_) (fun e he => Or.inl (by simpa using he))
  rw [State.root_addItems_items] at hm
  split at hm
  · exact Or.inl hm
  · rename_i hb
    rcases List.mem_append.1 hm with hm | hm
    · exact Or.inl hm
    · rw [State.root_addItems_env]
      exact Or.inr (hp (by simpa using hb) p hm)

theorem takeItems (h : Owned s) (k : Nat) : Owned (s.takeItems k).2 := by
  refine h.congr (.takeItems s k) ?_ (by simp)
  rw [State.root_takeItems_items]
  split
  · exact List.Subset.refl _
  · exact List.take_subset _ _

end Owned

/-- The locals that a run links at the root are those of the current file's imports. -/
theorem Run.tried_subset (h : Run cx n r files s y t) {f : Url} (hb : s.inBlock = false)
    (hf : files.head? = some f) : ∀ e ∈ y.tried, e ∈ cx.specifiers f := by
  induction h with
  | andThen first _ ih₁ ih₂ =>
    intro e he
    rcases List.mem_append.1 he with he | he
    · exact ih₁ hb hf e he
    · exact ih₂ (first.inBlock_eq.trans hb) hf e he
  | link hcur hsp =>
    intro e he
    obtain rfl := Option.some.inj ((hcur.head hb).symm.trans hf)
    rwa [List.mem_singleton.1 he]
  | unlinked w hcur hsp =>
    intro e he
    obtain rfl := Option.some.inj ((hcur.head hb).symm.trans hf)
    rwa [List.mem_singleton.1 he]
  | _ => simp

theorem OwnsDeclared.mono (hd : cx.ImportsApart) {f : Url} (h : OwnsDeclared cx f s)
    (run : Run cx n r files s y t) (hf : s.included.contains f = true) : OwnsDeclared cx f t := by
  intro id hid
  obtain ⟨x, hx, ho⟩ := h id hid
  refine ⟨x, ?_, run.grows.owner x _ ho⟩
  rw [run.lookup_root hf (fun hb hh e he => hd f id hid e (run.tried_subset hb hh e he)), hx]

/-- A file that begins at the root owns the final names of its declarations. -/
theorem ownsDeclared_beginFile {file : Url} (hs : Rooted files s) (hroot : s.inBlock = false)
    (hnew : s.included.contains file = false) :
    OwnsDeclared cx file ((s.addFile file).bindFile (cx.statements file) file) := by
  have hown := hs.ownNames hnew
  intro id hid
  rw [State.root_beginFile_env hroot]
  obtain ⟨x, hx⟩ := exists_lookup_bindIdents (p := (s.root.env, OrderedMap.empty)) hown hid
  exact ⟨x, hx, (ownNames_bindIdents (p := (s.root.env, OrderedMap.empty)) hown).own _ x hx⟩

theorem OwnsDeclared.congr {f : Url} (h : OwnsDeclared cx f s) (he : t.root.env = s.root.env) :
    OwnsDeclared cx f t := by
  intro id hid
  rw [he]
  exact h id hid

/-- The files that are begun at the root own their declarations. -/
def BegunOwn (cx : Context) (files : List Url) (s : State) : Prop :=
  ∀ f ∈ files, OwnsDeclared cx f s

namespace BegunOwn

theorem mono (hd : cx.ImportsApart) (h : BegunOwn cx files s) (hr : Rooted files s)
    (run : Run cx n r files s y t) : BegunOwn cx files t :=
  fun f hf => (h f hf).mono hd run (hr.begun f hf)

theorem congr (h : BegunOwn cx files s) (he : t.root.env = s.root.env) : BegunOwn cx files t :=
  fun f hf => (h f hf).congr he

theorem beginBlock (h : BegunOwn cx files s) (is : List Item) (file : Url) (name : String) :
    BegunOwn cx files (((s.claim name).openBlock file name).bindFile is file) := by
  intro f hf id hid
  obtain ⟨x, hx, ho⟩ := h f hf id hid
  refine ⟨x, ?_, (Grows.beginBlock s is file name).owner x _ ho⟩
  exact (State.lookup_root_begunBlock _ _ _ _ _ _).trans hx

theorem beginFile (h : BegunOwn cx files s) (hr : Rooted files s) {file : Url}
    (hroot : s.inBlock = false) (hnew : s.included.contains file = false) :
    BegunOwn cx (file :: files) ((s.addFile file).bindFile (cx.statements file) file) := by
  intro f hf
  rcases List.mem_cons.1 hf with rfl | hf
  · exact ownsDeclared_beginFile hr hroot hnew
  · intro id hid
    obtain ⟨x, hx, ho⟩ := h f hf id hid
    refine ⟨x, ?_, (Grows.beginFile s _ file).owner x _ ho⟩
    have hne : file ≠ f := by
      rintro rfl
      simp [hr.begun file hf] at hnew
    exact (State.lookup_root_bindFile_of_ne hne _).trans hx

end BegunOwn

/-- The statements of a file under final names bind names that the file owns. -/
theorem owned_printed {origin : Url} {i : Item} {exports : List Item}
    (ht : OwnsDeclared cx origin t) (hroot : t.inBlock = false) (hi : i ∈ cx.statements origin)
    (hexp : ∀ e ∈ exports, isExportStatement e = true) (inBlock keep : Bool) (env : Environment)
    (τ : ImportTypes.Targets) {p : Piece}
    (hp : p ∈ (linkItems τ (renameItems (Rename.ofEnvironment t.scope.env origin)
      (shown cx origin inBlock keep env i)) ++ exports).map (Piece.ofFile origin)) {x : String}
    (hx : x ∈ p.item.binds) : t.root.env.owner? x = some p.owner := by
  obtain ⟨howner, id, hid, rfl⟩ := mem_binds_pieces hi hexp hp hx
  obtain ⟨x, hl, ho⟩ := ht id (List.mem_flatMap.2 ⟨i, hi, hid⟩)
  simp only [Rename.ofEnvironment, State.scope_of_root hroot, hl, Option.getD_some, howner]
  exact ho

theorem Run.owned (hd : cx.ImportsApart) (h : Run cx n r files s y t) (hs : Owned s)
    (hr : Rooted files s) (hh : BegunOwn cx files s) : Owned t ∧ (s.inBlock = false →
      ∀ p ∈ y.pieces, ∀ x ∈ p.item.binds, t.root.env.owner? x = some p.owner) := by
  induction h with
  | nothing => exact ⟨hs, by simp⟩
  | andThen first second ih₁ ih₂ =>
    obtain ⟨h₁, hp₁⟩ := ih₁ hs hr hh
    obtain ⟨h₂, hp₂⟩ := ih₂ h₁ (first.rooted hr) (hh.mono hd hr first)
    refine ⟨h₂, fun hb p hp x hx => ?_⟩
    rcases List.mem_append.1 hp with hp | hp
    · exact second.grows.owner x _ (hp₁ hb p hp x hx)
    · exact hp₂ (first.inBlock_eq.trans hb) p hp x hx
  | warn w => exact ⟨hs.congr (.of_eq rfl rfl) (List.Subset.refl _) rfl, by simp⟩
  | keepRun module => exact ⟨hs.congr (.of_eq rfl rfl) (List.Subset.refl _) rfl, by simp⟩
  | preserve typeOnly hkey hw =>
    exact ⟨(hs.claim _).keep (Preserved.forall_locals_new (State.owner?_claim_freshName _ _) _),
      by simp⟩
  | preserveAgain typeOnly hkey =>
    exact ⟨hs.keep (hs.locals _ (OrderedMap.mem_entries_of_get? hkey)), by simp⟩
  | @aliasImport r files s f key p hf hkey =>
    have hlocals := (hs.claim (s.freshName f)).locals _ (List.mem_of_find?_eq_some hkey)
    exact ⟨(hs.claim _).keep
      (Preserved.forall_locals_alias hlocals (State.owner?_claim_freshName _ _)), by simp⟩
  | aliasBinding hf =>
    refine ⟨(hs.claim _).addItems (fun _ p hp x hx => ?_), by simp⟩
    rw [List.mem_singleton.1 hp] at hx ⊢
    rw [Piece.made, binds_aliasOf, List.mem_singleton] at hx
    exact hx ▸ State.owner?_claim_freshName _ _
  | link _ _ _ run _ ih =>
    exact ⟨(ih hs hr hh).1.congr (.link _ _ _ _) (by simp) (by simp), by simp⟩
  | unlinked w _ _ _ _ ih =>
    exact ⟨(ih hs hr hh).1.congr (.of_eq rfl rfl) (List.Subset.refl _) rfl, by simp⟩
  | @print r files s t u origin i exports τ hcur hi _ _ hexp _ run links ih₁ ih₂ =>
    have ht := (ih₁ hs hr hh).1
    have hht := hh.mono hd hr run
    have hlinks := ih₂ (ht.takeItems _) ((run.rooted hr).takeItems _) (hht.congr (by simp))
    refine ⟨hlinks.1, fun hb p hp x hx => ?_⟩
    have hbt : t.inBlock = false := run.inBlock_eq.trans hb
    have hgrow := (Grows.takeItems t s.scope.items.length).trans links.grows
    refine hgrow.owner x _ ?_
    rcases List.mem_append.1 hp with hp | hp
    · refine ht.items p ?_ x hx
      rw [State.takeItems, State.scope_of_root hbt] at hp
      exact List.drop_subset _ _ hp
    · have hmem : origin ∈ files := List.mem_of_mem_head? (hcur.head hb)
      exact owned_printed (hht origin hmem) hbt hi hexp _ _ _ _ hp hx
  | @inlined r q files s t u file ps hroot hnew _ _ _ imports prints ih₁ ih₂ =>
    have hb := hh.beginFile hr hroot hnew
    have hbegin := hr.beginFile (cx.statements file) file
    have ht := (ih₁ (hs.congr (.beginFile s _ file) (by simp [State.addFile])
      (by simp [State.addFile])) hbegin hb).1
    obtain ⟨hu, hps⟩ := ih₂ ht (imports.rooted hbegin) (hb.mono hd hbegin imports)
    have hbt : t.inBlock = false := imports.inBlock_begunFile hroot
    exact ⟨hu.addItems (fun _ => hps hbt), by simp⟩
  | @atRoot r files s t hblock run ih =>
    have ht := (ih (hs.congr (.of_eq rfl rfl) (List.Subset.refl _) rfl) hr.suspend
      (hh.congr rfl)).1
    have hresume : Owned (t.resume s.suspended.length) :=
      ht.congr (.of_eq rfl rfl) (List.Subset.refl _) rfl
    exact ⟨hresume.congr (.inheritFromRoot _ _) (by simp) (by simp), by simp⟩
  | @block r files s t u v w target wanted ps exports hnew hfile hlead hw _ imports prints
      collects aliases ih₁ ih₂ ih₃ ih₄ =>
    have hb₁ := hh.beginBlock (cx.statements target) target (s.freshName wanted)
    have hr₁ := hr.beginBlock (cx.statements target) target (s.freshName wanted)
    have hs₁ : Owned (((s.claim (s.freshName wanted)).openBlock target
        (s.freshName wanted)).bindFile (cx.statements target) target) :=
      hs.congr (.beginBlock s _ target _) (by simp [State.claim]) (by simp [State.claim])
    obtain ⟨hr₂, hr₃, hr₄⟩ := hr.throughBlock imports prints collects
    have hb₂ := hb₁.mono hd hr₁ imports
    have hb₃ : BegunOwn cx files (u.addItems ps) := (hb₂.mono hd hr₂ prints).congr (by simp)
    have hb₄ := (hb₃.mono hd hr₃ collects).congr (t := v.closeBlock.2) (by simp)
    have ht := (ih₁ hs₁ hr₁ hb₁).1
    have hu := (ih₂ ht hr₂ hb₂).1
    -- in a block the root's statements stay as they are
    have hbu : u.inBlock = true := prints.inBlock_eq.trans imports.inBlock_begunBlock
    have hu' : Owned (u.addItems ps) := hu.addItems (fun h => by simp [hbu] at h)
    have hv := (ih₃ hu' hr₃ hb₃).1
    have hv' : Owned v.closeBlock.2 := hv.congr (.closeBlock v) (by simp) (by simp)
    have hw := (ih₄ hv' hr₄ hb₄).1
    refine ⟨hw.addItems (fun _ p hp x hx => ?_), by simp⟩
    rw [List.mem_singleton.1 hp] at hx ⊢
    rw [Piece.made, binds_spaceOf, List.mem_singleton] at hx
    have hgrow : Grows (s.claim (s.freshName wanted)) w :=
      (Run.grows_closeBlock imports prints collects).trans aliases.grows
    rw [hx]
    exact hgrow.owner _ _ (State.owner?_claim_freshName s wanted)
  | exportAgain _ _ _ _ _ _ ih =>
    refine ⟨(ih hs hr hh).1.addItems (fun _ p hp x hx => ?_), by simp⟩
    obtain ⟨i, hi, rfl⟩ := List.mem_map.1 hp
    rw [Piece.ofFile, binds_of_isExportStatement (isExportStatement_of_mem_items hi)] at hx
    cases hx

end Owned

section Uses

variable {cx : Context} {n : Nat} {r : Role} {files : List Url} {s t : State} {y : Yield}

/-- How often statements that the chunk makes up bind a name. -/
def madeCount (ps : List Piece) (x : String) : Nat :=
  (ps.flatMap Piece.bindings).count (.chunk, x)

theorem madeCount_append (ps qs : List Piece) (x : String) :
    madeCount (ps ++ qs) x = madeCount ps x + madeCount qs x := by
  simp [madeCount, List.count_append]

theorem madeCount_nil (x : String) : madeCount [] x = 0 := rfl

theorem madeCount_made (i : Item) (x : String) : madeCount [.made i] x = i.binds.count x := by
  have h : ∀ l : List String, (l.map (fun x => (Owner.chunk, x))).count (.chunk, x) = l.count x :=
    fun l => List.count_map_of_injective l _ (fun a b h => congrArg Prod.snd h) x
  simp [madeCount, Piece.bindings, Piece.made, h]

/-- The statements of a file are not made up. -/
theorem madeCount_ofFile (file : Url) (is : List Item) (x : String) :
    madeCount (is.map (Piece.ofFile file)) x = 0 := by
  refine List.count_eq_zero.2 (fun h => ?_)
  obtain ⟨p, hp, hx⟩ := List.mem_flatMap.1 h
  obtain ⟨i, _, rfl⟩ := List.mem_map.1 hp
  cases (mem_bindings.1 hx).1

/-- One for a name that the chunk may still claim. -/
def State.free (s : State) (x : String) : Nat := if (s.root.env.owner? x).isNone then 1 else 0

/-- How often the chunk uses a name or may still come to use it. -/
def State.uses (s : State) (x : String) : Nat :=
  madeCount s.root.items x + (localsOf s.preserved).count x + s.free x

theorem Grows.free_le (h : Grows s t) (x : String) : t.free x ≤ s.free x := by
  unfold State.free
  cases ho : s.root.env.owner? x with
  | none =>
    rw [Option.isNone_none, if_pos rfl]
    split <;> omega
  | some o => simp [h.owner x o ho]

/-- Claiming a fresh name takes the use that was still to come. -/
theorem State.free_claim_freshName (s : State) (wanted x : String) :
    (s.claim (s.freshName wanted)).free x + [s.freshName wanted].count x = s.free x := by
  by_cases hx : s.freshName wanted = x
  · subst hx
    simp [State.free, s.owner?_claim_freshName, s.owner?_freshName]
  · have ho : (s.claim (s.freshName wanted)).root.env.owner? x = s.root.env.owner? x := by
      change (s.root.env.claim (s.freshName wanted)).owner? x = _
      rw [Environment.owner?_claim, if_neg hx]
    have hc : [s.freshName wanted].count x = 0 := List.count_eq_zero.2 (by simpa using Ne.symm hx)
    simp only [State.free, ho, hc, Nat.add_zero]

theorem State.uses_claim_freshName (s : State) (wanted x : String) :
    (s.claim (s.freshName wanted)).uses x + [s.freshName wanted].count x = s.uses x := by
  have hfree := s.free_claim_freshName wanted x
  have hitems : (s.claim (s.freshName wanted)).root.items = s.root.items := rfl
  have hkept : (s.claim (s.freshName wanted)).preserved = s.preserved := rfl
  simp only [State.uses, hitems, hkept]
  omega

theorem Grows.uses_le (h : Grows s t) (hi : t.root.items = s.root.items)
    (hp : t.preserved = s.preserved) (x : String) : t.uses x ≤ s.uses x := by
  have hfree := h.free_le x
  simp only [State.uses, hi, hp]
  omega

theorem State.uses_addItems (s : State) (ps : List Piece) (x : String) :
    (s.addItems ps).uses x ≤ s.uses x + if s.inBlock then 0 else madeCount ps x := by
  have hfree := (Grows.addItems s ps).free_le x
  simp only [State.uses, State.root_addItems_items, State.preserved_addItems]
  cases s.inBlock <;> simp [madeCount_append] <;> omega

/-- Keeping an import trades the locals that its symbol had for those that it has now. -/
theorem State.uses_keep (s : State) (key : String × ImportedName) (p : Preserved) (x : String) :
    (s.keep key p).uses x + (((s.preserved.get? key).map Preserved.locals).getD []).count x =
      s.uses x + p.locals.count x := by
  have hput : (localsOf (s.keep key p).preserved).count x +
      (((s.preserved.get? key).map Preserved.locals).getD []).count x =
        (localsOf s.preserved).count x + p.locals.count x :=
    s.preserved.count_flatMap_put (fun e => e.2.locals) key p x
  have hitems : (s.keep key p).root.items = s.root.items := rfl
  have hfree : (s.keep key p).free x = s.free x := rfl
  simp only [State.uses, hitems, hfree]
  omega

/-- What comes out of the root's statements and what stays use a name as often as before. -/
theorem State.uses_takeItems (s : State) (k : Nat) (x : String) :
    (s.takeItems k).2.uses x + (if s.inBlock then 0 else madeCount (s.takeItems k).1 x) ≤
      s.uses x := by
  have hfree := (Grows.takeItems s k).free_le x
  simp only [State.uses, State.root_takeItems_items, State.preserved_takeItems]
  cases hb : s.inBlock with
  | true =>
    simp only [if_true]
    omega
  | false =>
    have hsplit : madeCount s.root.items x =
        madeCount (s.root.items.take k) x + madeCount (s.root.items.drop k) x := by
      rw [← madeCount_append, List.take_append_drop]
    have htaken : (s.takeItems k).1 = s.root.items.drop k := by
      rw [State.takeItems, State.scope_of_root hb]
    simp only [htaken, Bool.false_eq_true, if_false]
    omega

/-- A new import that stays takes a fresh name. -/
theorem State.uses_preserve (s : State) (key : String × ImportedName) (wanted : String)
    (typeOnly : Bool) (x : String) :
    ((s.claim (s.freshName wanted)).keep key ⟨s.freshName wanted, [], typeOnly⟩).uses x ≤
      s.uses x := by
  have hclaim := s.uses_claim_freshName wanted x
  have hkeep := (s.claim (s.freshName wanted)).uses_keep key ⟨s.freshName wanted, [], typeOnly⟩ x
  have hlocals : Preserved.locals ⟨s.freshName wanted, [], typeOnly⟩ = [s.freshName wanted] := rfl
  rw [hlocals] at hkeep
  omega

theorem State.uses_preserveAgain {s : State} {key : String × ImportedName} {p : Preserved}
    (hkey : s.preserved.get? key = some p) (typeOnly : Bool) (x : String) :
    (s.keep key { p with typeOnly := typeOnly }).uses x ≤ s.uses x := by
  have hkeep := s.uses_keep key { p with typeOnly := typeOnly } x
  have hlocals : Preserved.locals { p with typeOnly := typeOnly } = p.locals := rfl
  rw [hkey, hlocals, Option.map_some, Option.getD_some] at hkeep
  omega

/-- Another local of an import is a fresh name, too. -/
theorem State.uses_aliasImport {s : State} {key : String × ImportedName} {p : Preserved}
    (hkey : s.preserved.get? key = some p) (wanted x : String) :
    ((s.claim (s.freshName wanted)).keep key
      { p with others := p.others ++ [s.freshName wanted] }).uses x ≤ s.uses x := by
  have hclaim := s.uses_claim_freshName wanted x
  have hkeep := (s.claim (s.freshName wanted)).uses_keep key
    { p with others := p.others ++ [s.freshName wanted] } x
  have hold : (s.claim (s.freshName wanted)).preserved.get? key = some p := hkey
  have hlocals : Preserved.locals { p with others := p.others ++ [s.freshName wanted] } =
      p.locals ++ [s.freshName wanted] := rfl
  rw [hold, hlocals, Option.map_some, Option.getD_some, List.count_append] at hkeep
  omega

/-- A statement that the chunk makes up under a fresh name uses that name once. -/
theorem State.uses_addMade {s : State} {i : Item} {name : String} (hi : i.binds = [name])
    (x : String) : (s.addItems [.made i]).uses x ≤ s.uses x + [name].count x := by
  have hadd := s.uses_addItems [.made i] x
  rw [madeCount_made, hi] at hadd
  split at hadd <;> omega

/-- What yields no pieces only has to leave the uses as they are, or take some away. -/
theorem State.uses_quiet {s t : State} {x : String} :
    t.uses x + (if s.inBlock then 0 else madeCount [] x) ≤ s.uses x ↔ t.uses x ≤ s.uses x := by
  rw [madeCount_nil, ite_self, Nat.add_zero]

/-- No run adds to the uses of a name. -/
theorem Run.uses_le (h : Run cx n r files s y t) (x : String) :
    t.uses x + (if s.inBlock then 0 else madeCount y.pieces x) ≤ s.uses x := by
  induction h with
  | nothing => exact State.uses_quiet.2 (Nat.le_refl _)
  | andThen first _ ih₁ ih₂ =>
    rw [first.inBlock_eq] at ih₂
    rw [Yield.pieces_append, madeCount_append]
    split <;> simp_all <;> omega
  | @warn r files s w =>
    have hw : Grows s (s.warn w) := .of_eq rfl rfl
    exact State.uses_quiet.2 (hw.uses_le rfl rfl x)
  | @keepRun r files s module =>
    have hk : Grows s (s.keepRun module) := .of_eq rfl rfl
    exact State.uses_quiet.2 (hk.uses_le rfl rfl x)
  | preserve typeOnly hkey hw => exact State.uses_quiet.2 (State.uses_preserve _ _ _ typeOnly x)
  | preserveAgain typeOnly hkey =>
    exact State.uses_quiet.2 (State.uses_preserveAgain hkey typeOnly x)
  | aliasImport hf hkey =>
    have hold := OrderedMap.get?_eq_some_iff.2 (List.mem_of_find?_eq_some hkey)
    exact State.uses_quiet.2 (State.uses_aliasImport hold _ x)
  | @aliasBinding r files s f hf =>
    have hclaim := s.uses_claim_freshName f x
    have hadd := (s.claim (s.freshName f)).uses_addMade (binds_aliasOf (s.freshName f) f false) x
    exact State.uses_quiet.2 (Nat.le_trans hadd (Nat.le_of_eq hclaim))
  | @link r files s t origin d sp f _ _ _ _ _ ih =>
    have hlink := (Grows.link t origin sp.loc f).uses_le (by simp) (by simp) x
    exact State.uses_quiet.2 (Nat.le_trans hlink (State.uses_quiet.1 ih))
  | @unlinked r files s t origin d sp target _ _ _ _ ih =>
    have hw : Grows t (t.warn (.unknownImport target origin sp.loc)) := .of_eq rfl rfl
    exact State.uses_quiet.2 (Nat.le_trans (hw.uses_le rfl rfl x) (State.uses_quiet.1 ih))
  | @print r files s t u origin i exports τ _ _ _ _ _ _ run links ih₁ ih₂ =>
    have htake := t.uses_takeItems s.scope.items.length x
    have hrun := State.uses_quiet.1 ih₁
    have hlinks := State.uses_quiet.1 ih₂
    rw [run.inBlock_eq] at htake
    rw [madeCount_append, madeCount_ofFile, Nat.add_zero]
    omega
  | @inlined r q files s t u file ps hroot _ _ _ _ imports prints ih₁ ih₂ =>
    have hbegin := (Grows.beginFile s (cx.statements file) file).uses_le (by simp [State.addFile])
      (by simp [State.addFile]) x
    have hbt : t.inBlock = false := imports.inBlock_begunFile hroot
    have hbu : u.inBlock = false := prints.inBlock_eq.trans hbt
    have himports := State.uses_quiet.1 ih₁
    have hadd := u.uses_addItems ps x
    rw [hbu, if_neg Bool.false_ne_true] at hadd
    have hprints : u.uses x + madeCount ps x ≤ t.uses x := by
      rwa [hbt, if_neg Bool.false_ne_true] at ih₂
    exact State.uses_quiet.2 (by omega)
  | @atRoot r files s t _ run ih =>
    have hresume : (t.resume s.suspended.length).uses x ≤ t.uses x :=
      (Grows.of_eq rfl rfl).uses_le rfl rfl x
    have hinherit := (Grows.inheritFromRoot (t.resume s.suspended.length)
      (t.included.addedSince s.included.size)).uses_le (by simp) (by simp) x
    have hsuspend : s.suspend.uses x = s.uses x := rfl
    have hrun := State.uses_quiet.1 ih
    exact State.uses_quiet.2 (by omega)
  | @block r files s t u v w target wanted ps exports _ _ _ _ _ imports prints
      collects aliases ih₁ ih₂ ih₃ ih₄ =>
    have hclaim := s.uses_claim_freshName wanted x
    have hopen := ((Grows.openBlock (s.claim (s.freshName wanted)) target
      (s.freshName wanted)).trans (.bindFile _ (cx.statements target) target)).uses_le
        (by simp) (by simp) x
    have hbu : u.inBlock = true := prints.inBlock_eq.trans imports.inBlock_begunBlock
    have hbody := u.uses_addItems ps x
    rw [hbu, if_pos rfl] at hbody
    have himports := State.uses_quiet.1 ih₁
    have hprints := Nat.le_trans (Nat.le_add_right _ _) ih₂
    have hcollects := State.uses_quiet.1 ih₃
    have hclose := (Grows.closeBlock v).uses_le (by simp) (by simp) x
    have haliases := State.uses_quiet.1 ih₄
    have hadd := w.uses_addMade (binds_spaceOf (!w.inBlock) (s.freshName wanted)
      (exportMembers (v.closeBlock.1.map Piece.item) exports)) x
    exact State.uses_quiet.2 (by omega)
  | @exportAgain s t file c k _ _ _ _ _ _ ih =>
    have hadd := t.uses_addItems (c.surface.items.map (Piece.ofFile file)) x
    rw [madeCount_ofFile, ite_self, Nat.add_zero] at hadd
    exact State.uses_quiet.2 (Nat.le_trans hadd (State.uses_quiet.1 ih))

end Uses

section Merged

variable {cx : Context} {included included' : SeenSet Url} {m : Merged} {warnings : List Warning}

theorem rootBindings_finish (c : PlacedChunk) (s : State) : (finish c s).rootBindings =
    ((hoistedImports s.preserved s.sideEffects).flatMap Item.binds).map (Owner.chunk, ·) ++
      s.root.items.flatMap Piece.bindings := by
  have hmade : ∀ is : List Item, (is.map Piece.made).flatMap Piece.bindings =
      (is.flatMap Item.binds).map (Owner.chunk, ·) := by
    intro is
    induction is with
    | nil => rfl
    | cons i is ih =>
      rw [List.map_cons, List.flatMap_cons, List.flatMap_cons, List.map_append, ih]
      rfl
  change (finalPieces s).flatMap Piece.bindings = _
  rw [finalPieces, List.flatMap_append, hmade, dropRepeatedExports, bindings_keepNewAll]

/-- Root-level bindings of a merged chunk with different owners have different names, and no two
that the chunk makes share one, provided that no file declares a name that it also imports. -/
theorem rootBindings_apart (hd : cx.ImportsApart)
    (h : mergeChunk? cx included = some (m, included', warnings)) :
    (∀ o o' x, (o, x) ∈ m.rootBindings → (o', x) ∈ m.rootBindings → o = o') ∧
      ∀ x, m.rootBindings.count (.chunk, x) ≤ 1 := by
  obtain ⟨s, run, rfl, _, _⟩ := mergeChunk_run h
  have hstart : Owned (State.start included) :=
    ⟨fun _ hp => (by cases hp), fun _ he => (by cases he)⟩
  obtain ⟨hs, _⟩ := run.owned hd hstart (.start included) (fun _ hf => (by cases hf))
  rw [rootBindings_finish]
  refine ⟨fun o o' x ho ho' => ?_, fun x => ?_⟩
  · have howner : ∀ o, (o, x) ∈ ((hoistedImports s.preserved s.sideEffects).flatMap
        Item.binds).map (Owner.chunk, ·) ++ s.root.items.flatMap Piece.bindings →
        s.root.env.owner? x = some o := by
      intro o ho
      rcases List.mem_append.1 ho with ho | ho
      · obtain ⟨y, hy, he⟩ := List.mem_map.1 ho
        cases he
        have hx : x ∈ localsOf s.preserved := by
          rw [← List.count_pos_iff, ← count_binds_hoistedImports _ s.sideEffects]
          exact List.count_pos_iff.2 hy
        obtain ⟨e, he, hx⟩ := List.mem_flatMap.1 hx
        exact hs.locals e he x hx
      · obtain ⟨p, hp, hx⟩ := List.mem_flatMap.1 ho
        obtain ⟨rfl, hbinds⟩ := mem_bindings.1 hx
        exact hs.items p hp x hbinds
    exact Option.some.inj ((howner o ho).symm.trans (howner o' ho'))
  · have huses := run.uses_le x
    have hone : (State.start included).uses x = 1 := rfl
    have hcount : (((hoistedImports s.preserved s.sideEffects).flatMap Item.binds).map
        (Owner.chunk, ·)).count (.chunk, x) = (localsOf s.preserved).count x := by
      rw [List.count_map_of_injective _ _ (fun a b h => congrArg Prod.snd h),
        count_binds_hoistedImports]
    rw [List.count_append, hcount]
    rw [hone] at huses
    simp only [State.uses, madeCount, Yield.pieces_empty, List.flatMap_nil, List.count_nil,
      ite_self] at huses
    omega

/-- Two files that import each other and declare the same names, one of them with a namespace and
an import from outside. -/
def clashing : Context := .ofFiles
  [("/b.d.ts", [importOf [.named none "E" false] "ext" false,
      importOf [.named (some (.word "A")) "D" false] "/a.d.ts" false,
      .exportDecl (emptyClass "A"), .exportDecl (emptyClass "B")]),
    ("/a.d.ts", [importOf [.all "B"] "/b.d.ts" false,
      importOf [.named (some (.word "A")) "C" false] "/b.d.ts" false,
      .exportDecl (emptyClass "A"), .decl (emptyClass "E")])]

set_option maxRecDepth 100000 in
theorem rootBindings_apart_clashing :
    (mergeChunk? clashing ∅).map (fun r => r.1.rootBindings.map Prod.snd) =
        some ["E_1", "A_1", "B", "B_1", "A", "E"] ∧
      clashing.ImportsApart ∧ ∃ m included' warnings,
        mergeChunk? clashing ∅ = some (m, included', warnings) ∧
        (∀ o o' x, (o, x) ∈ m.rootBindings → (o', x) ∈ m.rootBindings → o = o') ∧
        ∀ x, m.rootBindings.count (.chunk, x) ≤ 1 := by
  have hapart : clashing.ImportsApart := Context.importsApart_of_files (by decide +kernel)
  have hsome : (mergeChunk? clashing ∅).isSome := by decide +kernel
  obtain ⟨⟨m, included', warnings⟩, hm⟩ := Option.isSome_iff_exists.1 hsome
  exact ⟨by decide +kernel, hapart, m, included', warnings, hm, rootBindings_apart hapart hm⟩

end Merged

end AmbientBundle.Merge
