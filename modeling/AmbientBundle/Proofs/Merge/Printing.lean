import AmbientBundle.Proofs.Merge.Sound
/-!
What a merged chunk holds of its files: each statement that stands for one of a file is that
statement under the final names that the file's names have at the root in the end. The final names
of a file do not change any more once the first of its statements is printed.
-/
namespace AmbientBundle.Merge

open Names Syntax

/-- `j` is what the chunk shows of some statement of the file at the root, with names replaced by
`ρ` and import types by what they refer to. -/
def PrintedAs (cx : Context) (file : Url) (ρ : Rename.Renaming) (j : Item) : Prop :=
  ∃ i ∈ cx.statements file, ∃ keep env τ, ∃ node ∈ shown cx file false keep env i,
    j = (node.rename ρ).link τ

/-- A statement at the root that stays as it is while the given files are in progress. -/
structure Settled (cx : Context) (files : List Url) (s : State) (p : Piece) : Prop where
  printed : ∀ f, p.owner = .file f → isExportStatement p.item = true ∨
    PrintedAs cx f (Rename.ofEnvironment s.root.env f) p.item
  included : ∀ f, p.owner = .file f → s.included.contains f = true
  apart : ∀ f ∈ files, p.owner ≠ .file f

variable {cx : Context} {n : Nat} {r : Role} {files : List Url} {s t : State} {y : Yield}

namespace Settled

variable {p : Piece}

theorem made (i : Item) : Settled cx files s (.made i) :=
  ⟨fun _ h => (by cases h), fun _ h => (by cases h), fun _ _ h => (by cases h)⟩

theorem exported {file : Url} {i : Item} (hi : isExportStatement i = true)
    (hf : s.included.contains file = true) (hfile : file ∉ files) :
    Settled cx files s (.ofFile file i) := by
  refine ⟨fun _ _ => Or.inl hi, fun f h => ?_, fun f hmem h => ?_⟩
  · cases h
    exact hf
  · cases h
    exact hfile hmem

theorem mono (h : Settled cx files s p) (hg : Grows s t)
    (hl : ∀ f, p.owner = .file f → ∀ x, t.root.env.lookup f x = s.root.env.lookup f x) :
    Settled cx files t p := by
  refine ⟨fun f hf => ?_, fun f hf => hg.contains (h.included f hf), h.apart⟩
  have hρ : Rename.ofEnvironment t.root.env f = Rename.ofEnvironment s.root.env f := by
    funext x
    simp only [Rename.ofEnvironment, hl f hf x]
  rw [hρ]
  exact h.printed f hf

theorem subset {files' : List Url} (h : Settled cx files s p) (hs : files' ⊆ files) :
    Settled cx files' s p :=
  ⟨h.printed, h.included, fun f hf => h.apart f (hs hf)⟩

/-- A statement of the current file stays settled while no imports are linked. -/
theorem runPrints {files' : List Url} (h : Settled cx files' s p) (run : Run cx n r files s y t)
    (hy : y.tried = []) : Settled cx files' t p :=
  h.mono run.grows (fun f hf x => run.lookup_root (h.included f hf) (fun _ _ e he => by
    simp [hy] at he))

end Settled

/-- A run hands back statements only if it prints some. -/
theorem Run.pieces_eq_nil (h : Run cx n r files s y t) (hy : y.printed = []) : y.pieces = [] := by
  induction h with
  | andThen _ _ ih₁ ih₂ =>
    rw [Yield.printed_append, List.append_eq_nil_iff] at hy
    rw [Yield.pieces_append, ih₁ hy.1, ih₂ hy.2, List.append_nil]
  | print => cases hy
  | _ => rfl

/-- The root's statements are settled. -/
def SettledRoot (cx : Context) (files : List Url) (s : State) : Prop :=
  ∀ p ∈ s.root.items, Settled cx files s p

namespace SettledRoot

theorem congr (h : SettledRoot cx files s) (hi : t.included = s.included)
    (hl : ∀ f x, t.root.env.lookup f x = s.root.env.lookup f x)
    (hitems : t.root.items ⊆ s.root.items) : SettledRoot cx files t := by
  intro p hp
  obtain ⟨hprinted, hincluded, hapart⟩ := h p (hitems hp)
  refine ⟨fun f hf => ?_, fun f hf => hi ▸ hincluded f hf, hapart⟩
  have hρ : Rename.ofEnvironment t.root.env f = Rename.ofEnvironment s.root.env f := by
    funext x
    simp only [Rename.ofEnvironment, hl f x]
  exact hρ ▸ hprinted f hf

theorem link (h : SettledRoot cx files s) {origin : Url} {name final : String}
    (ho : s.inBlock = false → origin ∈ files) :
    SettledRoot cx files (s.link origin name final) := by
  intro p hp
  rw [State.root_link_items] at hp
  refine (h p hp).mono (.link s origin name final) (fun f hf x => ?_)
  refine State.lookup_root_link_of_ne (fun hb he => ?_)
  obtain ⟨rfl, _⟩ := Prod.mk.inj he
  exact (h p hp).apart origin (ho hb) hf

theorem addItems (h : SettledRoot cx files s) {ps : List Piece}
    (hp : s.inBlock = false → ∀ p ∈ ps, Settled cx files s p) :
    SettledRoot cx files (s.addItems ps) := by
  intro p hm
  rw [State.root_addItems_items] at hm
  have hadd : Grows s (s.addItems ps) := .addItems s ps
  split at hm
  · exact (h p hm).mono hadd (fun f _ x => by simp)
  · rename_i hb
    rcases List.mem_append.1 hm with hm | hm
    · exact (h p hm).mono hadd (fun f _ x => by simp)
    · exact (hp (by simpa using hb) p hm).mono hadd (fun f _ x => by simp)

theorem takeItems (h : SettledRoot cx files s) (k : Nat) :
    SettledRoot cx files (s.takeItems k).2 := by
  refine h.congr (by simp) (by simp) ?_
  rw [State.root_takeItems_items]
  split
  · exact List.Subset.refl _
  · exact List.take_subset _ _

theorem beginFile (h : SettledRoot cx files s) {file : Url}
    (hnew : s.included.contains file = false) (is : List Item) :
    SettledRoot cx (file :: files) ((s.addFile file).bindFile is file) := by
  intro p hp
  rw [State.root_bindFile_items] at hp
  have hs := h p hp
  have hne : p.owner ≠ .file file := by
    intro ho
    simp [hs.included file ho] at hnew
  have hmono := hs.mono (.beginFile s is file) (fun f hf x => by
    have hf' : file ≠ f := by
      rintro rfl
      exact hne hf
    exact State.lookup_root_bindFile_of_ne hf' x)
  refine ⟨hmono.printed, hmono.included, fun f hf => ?_⟩
  rcases List.mem_cons.1 hf with rfl | hf
  · exact hne
  · exact hs.apart f hf

theorem beginBlock (h : SettledRoot cx files s) (is : List Item) (file : Url) (name : String) :
    SettledRoot cx files (((s.claim name).openBlock file name).bindFile is file) := by
  exact h.congr (by simp) (fun f x => State.lookup_root_begunBlock _ _ _ _ _ _)
    (by simp [State.claim])

end SettledRoot

/-- The statements that are printed for the current file. -/
theorem settled_printed {origin : Url} {i : Item} {exports : List Item}
    (hroot : t.inBlock = false) (hi : i ∈ cx.statements origin)
    (hexp : ∀ e ∈ exports, isExportStatement e = true)
    (hinc : t.included.contains origin = true) (horigin : origin ∉ files) (keep : Bool)
    (env : Environment) (τ : ImportTypes.Targets) {p : Piece}
    (hp : p ∈ (linkItems τ (renameItems (Rename.ofEnvironment t.scope.env origin)
      (shown cx origin false keep env i)) ++ exports).map (Piece.ofFile origin)) :
    Settled cx files t p := by
  obtain ⟨j, hj, rfl⟩ := List.mem_map.1 hp
  rcases List.mem_append.1 hj with hj | hj
  · rw [linkItems_eq_map, renameItems_eq_map, List.map_map] at hj
    obtain ⟨node, hnode, rfl⟩ := List.mem_map.1 hj
    refine ⟨fun f hf => Or.inr ?_, fun f hf => ?_, fun f hmem hf => ?_⟩
    · cases hf
      exact ⟨i, hi, keep, env, τ, node, hnode, by rw [State.scope_of_root hroot]; rfl⟩
    · cases hf
      exact hinc
    · cases hf
      exact horigin hmem
  · exact .exported (hexp j hj) hinc horigin

/-- A run that only links imports, or only prints, keeps the root's statements settled, and what it
hands back is settled apart from the current file. -/
theorem Run.settled (h : Run cx n r files s y t) (hr : Rooted files s) (hn : files.Nodup)
    (hs : SettledRoot cx files s) (hy : y.tried = [] ∨ y.printed = []) :
    SettledRoot cx files t ∧
      (s.inBlock = false → ∀ p ∈ y.pieces, Settled cx files.tail t p) := by
  induction h with
  | nothing => exact ⟨hs, by simp⟩
  | @andThen r files s t u y z first second ih₁ ih₂ =>
    simp only [Yield.tried_append, Yield.printed_append, List.append_eq_nil_iff] at hy
    obtain ⟨h₁, hp₁⟩ := ih₁ hr hn hs (hy.imp And.left And.left)
    obtain ⟨h₂, hp₂⟩ := ih₂ (first.rooted hr) hn h₁ (hy.imp And.right And.right)
    refine ⟨h₂, fun hb p hp => ?_⟩
    rcases List.mem_append.1 hp with hp | hp
    · rcases hy with hy | hy
      · exact (hp₁ hb p hp).runPrints second hy.2
      · simp [first.pieces_eq_nil hy.1] at hp
    · exact hp₂ (first.inBlock_eq.trans hb) p hp
  | warn w => exact ⟨hs.congr rfl (fun _ _ => rfl) (List.Subset.refl _), by simp⟩
  | keepRun module => exact ⟨hs.congr rfl (fun _ _ => rfl) (List.Subset.refl _), by simp⟩
  | preserve typeOnly hkey hw =>
    exact ⟨hs.congr rfl (fun _ _ => rfl) (List.Subset.refl _), by simp⟩
  | preserveAgain typeOnly hkey =>
    exact ⟨hs.congr rfl (fun _ _ => rfl) (List.Subset.refl _), by simp⟩
  | aliasImport hf hkey => exact ⟨hs.congr rfl (fun _ _ => rfl) (List.Subset.refl _), by simp⟩
  | @aliasBinding r files s f hf =>
    have hclaim : SettledRoot cx files (s.claim (s.freshName f)) :=
      hs.congr rfl (fun _ _ => rfl) (List.Subset.refl _)
    refine ⟨hclaim.addItems (fun _ p hp => ?_), by simp⟩
    rw [List.mem_singleton.1 hp]
    exact .made _
  | link hcur _ _ run _ ih =>
    have ht := (ih hr hn hs (Or.inl rfl)).1
    exact ⟨ht.link (fun hb => List.mem_of_mem_head? (hcur.head (run.inBlock_eq ▸ hb))), by simp⟩
  | unlinked w _ _ _ _ ih =>
    have ht := (ih hr hn hs (Or.inl rfl)).1
    exact ⟨ht.congr rfl (fun _ _ => rfl) (List.Subset.refl _), by simp⟩
  | @print r files s t u origin i exports τ hcur hi _ _ hexp _ run links ih₁ ih₂ =>
    have ht := (ih₁ hr hn hs (Or.inl rfl)).1
    have hrt := run.rooted hr
    refine ⟨(ih₂ (hrt.takeItems _) hn (ht.takeItems _) (Or.inl rfl)).1, fun hb p hp => ?_⟩
    have hbt : t.inBlock = false := run.inBlock_eq.trans hb
    have hpt : Settled cx files.tail t p := by
      rcases List.mem_append.1 hp with hp | hp
      · rw [State.takeItems, State.scope_of_root hbt] at hp
        exact (ht p (List.drop_subset _ _ hp)).subset (fun _ hf => List.mem_of_mem_tail hf)
      · rw [hb] at hp
        cases files with
        | nil => cases hcur.head hb
        | cons f fs =>
          obtain rfl := Option.some.inj (hcur.head hb)
          exact settled_printed hbt hi hexp (hrt.begun f (by simp)) (List.nodup_cons.1 hn).1 _ _ _ hp
    have htaken := hpt.mono (.takeItems t s.scope.items.length) (fun f _ x => by simp)
    exact htaken.runPrints links rfl
  | @inlined r q files s t u file ps hroot hnew _ _ _ imports prints ih₁ ih₂ =>
    have hfile : file ∉ files := by
      intro hf
      simp [hr.begun file hf] at hnew
    have hn' : (file :: files).Nodup := List.nodup_cons.2 ⟨hfile, hn⟩
    have hr' := hr.beginFile (cx.statements file) file
    have ht := (ih₁ hr' hn' (hs.beginFile hnew _) (Or.inr rfl)).1
    obtain ⟨hu, hps⟩ := ih₂ (imports.rooted hr') hn' ht (Or.inl rfl)
    have hbt : t.inBlock = false := imports.inBlock_begunFile hroot
    have hu' : SettledRoot cx files u := fun p hp =>
      (hu p hp).subset (List.subset_cons_self file files)
    exact ⟨hu'.addItems (fun _ => hps hbt), by simp⟩
  | @atRoot r files s t hblock run ih =>
    have hs' : SettledRoot cx files s.suspend :=
      hs.congr rfl (fun _ _ => rfl) (List.Subset.refl _)
    have ht := (ih hr.suspend hn hs' (Or.inl rfl)).1
    refine ⟨ht.congr ?_ (fun f x => ?_) ?_, by simp⟩
    · rw [State.included_inheritFromRoot]
      rfl
    · rw [State.root_inheritFromRoot]
      rfl
    · rw [State.root_inheritFromRoot]
      exact List.Subset.refl _
  | @block r files s t u v w target wanted ps exports _ _ _ _ _ imports prints
      collects aliases ih₁ ih₂ ih₃ ih₄ =>
    have hr₁ := hr.beginBlock (cx.statements target) target (s.freshName wanted)
    obtain ⟨hr₂, hr₃, hr₄⟩ := hr.throughBlock imports prints collects
    have ht := (ih₁ hr₁ hn (hs.beginBlock _ _ _) (Or.inr rfl)).1
    have hu := (ih₂ hr₂ hn ht (Or.inl rfl)).1
    have hbu : u.inBlock = true := prints.inBlock_eq.trans imports.inBlock_begunBlock
    have hu' : SettledRoot cx files (u.addItems ps) := hu.addItems (fun h => by simp [hbu] at h)
    have hv := (ih₃ hr₃ hn hu' (Or.inl rfl)).1
    have hv' : SettledRoot cx files v.closeBlock.2 :=
      hv.congr (by simp) (by simp) (by simp)
    have hw := (ih₄ hr₄ hn hv' (Or.inl rfl)).1
    refine ⟨hw.addItems (fun _ p hp => ?_), by simp⟩
    rw [List.mem_singleton.1 hp]
    exact .made _
  | @exportAgain s t file c k _ hold _ _ _ run ih =>
    have ht := (ih hr hn hs (Or.inl rfl)).1
    refine ⟨ht.addItems (fun _ p hp => ?_), by simp⟩
    obtain ⟨i, hi, rfl⟩ := List.mem_map.1 hp
    exact .exported (isExportStatement_of_mem_items hi) (run.grows.contains hold) (by simp)

/-- Every statement of a merged chunk that comes from a file, other than an export list or a star,
is a statement of that file under the final names of the file at the chunk's root. -/
theorem printedAs_of_mem_pieces {included included' : SeenSet Url} {m : Merged}
    {warnings : List Warning} (h : mergeChunk? cx included = some (m, included', warnings))
    {p : Piece} (hp : p ∈ m.pieces) {f : Url} (hf : p.owner = .file f)
    (hexp : isExportStatement p.item = false) :
    PrintedAs cx f (Rename.ofEnvironment m.names f) p.item := by
  obtain ⟨s, run, rfl, _, _⟩ := mergeChunk_run h
  obtain ⟨hs, _⟩ := run.settled (.start included) List.nodup_nil (fun _ hp => (by cases hp))
    (Or.inl rfl)
  rcases List.mem_append.1 hp with hp | hp
  · obtain ⟨i, _, rfl⟩ := List.mem_map.1 hp
    cases hf
  · obtain ⟨q, hq, ho, hitem⟩ := mem_keepNewAll hp
    rcases hitem with hitem | ⟨_, hitem⟩
    · rcases (hs q hq).printed f (ho.trans hf) with hq' | hq'
      · rw [hitem, hq'] at hexp
        cases hexp
      · rw [hitem]
        exact hq'
    · rw [hitem] at hexp
      cases hexp

end AmbientBundle.Merge
