import AmbientBundle.Proofs.Merge.SpaceNames
import Mathlib.Data.Finset.Card
import Mathlib.Data.List.Forall2
/-!
What merging uses up: the files that are not yet part of the chunk, and the files whose namespace
the open scopes do not know. A file that is included lowers the first, a block that is opened the
second, and no step of merging raises one of them while it leaves the open blocks as they are.
-/
namespace AmbientBundle.Merge

open Syntax

/-- The second of two scopes has a namespace for each file for which the first has one. -/
def Wider (m m' : OrderedMap Url String) : Prop := ∀ f, (m.get? f).isSome → (m'.get? f).isSome

namespace Wider

theorem refl (m : OrderedMap Url String) : Wider m m := fun _ h => h

theorem trans {m m' m'' : OrderedMap Url String} (h : Wider m m') (h' : Wider m' m'') :
    Wider m m'' :=
  fun f hf => h' f (h f hf)

theorem put (m : OrderedMap Url String) (file : Url) (name : String) :
    Wider m (m.put file name) := by
  intro f hf
  rw [OrderedMap.get?_put]
  split
  · rfl
  · exact hf

theorem exists_isSome {l₁ l₂ : List (OrderedMap Url String)} (h : List.Forall₂ Wider l₁ l₂) {f : Url}
    (hf : ∃ m ∈ l₁, (m.get? f).isSome) : ∃ m ∈ l₂, (m.get? f).isSome := by
  induction h with
  | nil => exact hf
  | cons hm _ ih =>
    obtain ⟨m, hmem, hf⟩ := hf
    rcases List.mem_cons.1 hmem with rfl | hmem
    · exact ⟨_, List.mem_cons_self, hm f hf⟩
    · exact (ih ⟨m, hmem, hf⟩).imp (fun _ hm' => ⟨List.mem_cons_of_mem _ hm'.1, hm'.2⟩)

theorem all_trans {l₁ l₂ l₃ : List (OrderedMap Url String)} (h : List.Forall₂ Wider l₁ l₂)
    (h' : List.Forall₂ Wider l₂ l₃) : List.Forall₂ Wider l₁ l₃ :=
  forall₂_trans (R := Wider) trans h h'

theorem all_refl (l : List (OrderedMap Url String)) : List.Forall₂ Wider l l :=
  List.forall₂_same.2 (fun m _ => refl m)

end Wider

namespace State

variable (s : State) (target f : Url) (name : String)

/-- The scopes that are open stand in front. -/
theorem space?_isSome_iff :
    (s.space? f).isSome ↔ ∃ m ∈ s.spaces.take (s.targets.length + 1), (m.get? f).isSome := by
  have htake : s.spaces.take (s.targets.length + 1) =
      s.root.spaces :: s.nested.map (fun b => b.scope.spaces) := by
    simp [spaces, blocks, targets]
  rw [htake, space?, Option.isSome_or, Bool.or_eq_true]
  constructor
  · rintro (h | h)
    · obtain ⟨b, hb, h⟩ := List.findSome?_isSome_iff.1 h
      exact ⟨b.scope.spaces, List.mem_cons_of_mem _ (List.mem_map_of_mem hb), h⟩
    · exact ⟨_, List.mem_cons_self, h⟩
  · rintro ⟨m, hm, h⟩
    rcases List.mem_cons.1 hm with rfl | hm
    · exact Or.inr h
    · obtain ⟨b, hb, rfl⟩ := List.mem_map.1 hm
      exact Or.inl (List.findSome?_isSome_iff.2 ⟨b, hb, h⟩)

@[simp] theorem space?_claim : (s.claim name).space? f = s.space? f := by
  simp [claim, space?, claimInBlock, List.findSome?_map, Function.comp_def]

theorem space?_openBlock :
    (s.openBlock target name).space? f = if target = f then some name else s.space? f := by
  have hempty : (∅ : OrderedMap Url String).get? f = none := rfl
  unfold openBlock onScope space?
  cases s.nested with
  | nil => simp [hempty, OrderedMap.get?_put]
  | cons b bs =>
    by_cases hf : target = f <;>
      simp [hempty, OrderedMap.get?_put, hf, List.findSome?_cons]

/-- A block that is opened stands in front of the others, and the scope around it knows it. -/
theorem spaces_openBlock : ∃ m ms, (s.openBlock target name).spaces = m :: ∅ :: ms ∧
    List.Forall₂ Wider s.spaces (m :: ms) := by
  unfold openBlock onScope spaces blocks
  cases hn : s.nested with
  | nil => exact ⟨_, _, rfl, .cons (.put _ _ _) (Wider.all_refl _)⟩
  | cons b bs =>
    exact ⟨_, _, rfl, .cons (.refl _) (.cons (.put _ _ _) (Wider.all_refl _))⟩

theorem spaces_eq_closeBlock {s : State} (h : s.inBlock = true) : ∃ m m' ms,
    s.spaces = m :: m' :: ms ∧ s.closeBlock.2.spaces = m :: ms := by
  unfold closeBlock spaces blocks
  cases hn : s.nested with
  | nil => simp [inBlock, hn] at h
  | cons b bs => exact ⟨_, _, _, rfl, rfl⟩

end State

/-- Behind `s` merging has come to `t` in the same blocks: files are only added, and so are
namespaces to the scopes. -/
structure Advances (s t : State) : Prop where
  included : ∀ f, s.included.contains f = true → t.included.contains f = true
  targets : t.targets = s.targets
  waiting : t.waiting = s.waiting
  spaces : List.Forall₂ Wider s.spaces t.spaces

namespace Advances

variable {s t u : State}

theorem refl (s : State) : Advances s s := ⟨fun _ h => h, rfl, rfl, Wider.all_refl _⟩

theorem trans (h : Advances s t) (h' : Advances t u) : Advances s u :=
  ⟨fun f hf => h'.included f (h.included f hf), h'.targets.trans h.targets,
    h'.waiting.trans h.waiting, Wider.all_trans h.spaces h'.spaces⟩

theorem of_eq (hi : t.included = s.included) (ht : t.targets = s.targets)
    (hw : t.waiting = s.waiting) (hs : t.spaces = s.spaces) : Advances s t :=
  ⟨fun _ h => hi ▸ h, ht, hw, hs ▸ Wider.all_refl _⟩

theorem inBlock_eq (h : Advances s t) : t.inBlock = s.inBlock := State.inBlock_congr h.targets

theorem warn (s : State) (w : Warning) : Advances s (s.warn w) := of_eq rfl rfl rfl rfl

theorem link (s : State) (origin : Url) (name final : String) : Advances s (s.link origin name final) :=
  of_eq (by simp) (by simp) (by simp) (by simp)

theorem claim (s : State) (name : String) : Advances s (s.claim name) :=
  of_eq (by simp) (by simp) (by simp) (by simp)

theorem addItems (s : State) (items : List Piece) : Advances s (s.addItems items) :=
  of_eq (by simp) (by simp) (by simp) (by simp)

theorem takeItems (s : State) (k : Nat) : Advances s (s.takeItems k).2 :=
  of_eq (by simp) (by simp) (by simp) (by simp)

theorem bindFile (s : State) (is : List Item) (file : Url) : Advances s (s.bindFile is file) :=
  of_eq (by simp) (by simp) (by simp) (by simp)

theorem keep (s : State) (key : String × ImportedName) (p : Preserved) : Advances s (s.keep key p) :=
  of_eq rfl rfl rfl rfl

theorem keepRun (s : State) (module : String) : Advances s (s.keepRun module) := of_eq rfl rfl rfl rfl

theorem addFile (s : State) (file : Url) : Advances s (s.addFile file) := by
  refine ⟨fun f hf => ?_, rfl, rfl, Wider.all_refl _⟩
  simp [State.addFile, SeenSet.contains_insert, hf]

/-- A file is inlined at the root while the blocks wait. -/
theorem atRoot (h : Advances s.suspend t) (files : List Url) :
    Advances s ((t.resume s.suspended.length).inheritFromRoot files) := by
  have hroot : t.inBlock = false := h.inBlock_eq
  have hn : s.suspended.length = s.waiting.length := by simp [State.waiting]
  have hw : t.waiting = s.targets ++ s.waiting := h.waiting.trans (State.waiting_suspend s)
  refine ⟨fun f hf => ?_, ?_, ?_, ?_⟩
  · simpa [State.resume] using h.included f hf
  · simp [State.targets_resume, hw, hn]
  · simp [State.waiting_resume, hw, hn]
  · rw [State.spaces_inheritFromRoot, State.spaces_resume _ hroot]
    exact h.spaces

/-- A block is filled and closed again. -/
theorem block {target : Url} {name : String} (h : Advances (s.openBlock target name) t) :
    Advances s t.closeBlock.2 := by
  have hb : t.inBlock = true := h.inBlock_eq.trans (State.inBlock_openBlock s target name)
  obtain ⟨m, ms, hopen, hs⟩ := s.spaces_openBlock target name
  obtain ⟨m₁, m₂, ms', ht, hclose⟩ := State.spaces_eq_closeBlock hb
  refine ⟨fun f hf => ?_, ?_, ?_, ?_⟩
  · simpa using h.included f (by simpa using hf)
  · simp [h.targets]
  · simp [h.waiting]
  · rw [hclose]
    have hspaces := h.spaces
    rw [hopen, ht] at hspaces
    cases hspaces with
    | cons hm hrest =>
      cases hrest with
      | cons _ hms => exact Wider.all_trans hs (.cons hm hms)

theorem space? (h : Advances s t) {f : Url} (hf : (s.space? f).isSome) : (t.space? f).isSome := by
  rw [State.space?_isSome_iff] at hf ⊢
  rw [h.targets]
  exact Wider.exists_isSome (List.forall₂_take _ h.spaces) hf

end Advances

namespace Context

variable (cx : Context)

/-- All files at hand. -/
def fileSet : Finset Url := cx.files.modules.keys.toFinset

/-- How many files are not part of the chunk or of one before it. -/
def missing (s : State) : Nat := (cx.fileSet.filter (fun f => ¬ s.included.contains f)).card

/-- How many files have no namespace in the open scopes. -/
def unnamed (s : State) : Nat := (cx.fileSet.filter (fun f => ¬ (s.space? f).isSome)).card

variable {cx} {s t : State} {file : Url}

theorem missing_le (cx : Context) (h : Advances s t) : cx.missing t ≤ cx.missing s :=
  Finset.card_le_card (Finset.monotone_filter_right _ (fun f _ hf hc => hf (h.included f hc)))

theorem unnamed_le (cx : Context) (h : Advances s t) : cx.unnamed t ≤ cx.unnamed s :=
  Finset.card_le_card (Finset.monotone_filter_right _ (fun _ _ hf hc => hf (h.space? hc)))

theorem missing_le_files (cx : Context) (s : State) : cx.missing s ≤ cx.fileSet.card :=
  Finset.card_filter_le _ _

theorem unnamed_le_files (cx : Context) (s : State) : cx.unnamed s ≤ cx.fileSet.card :=
  Finset.card_filter_le _ _

theorem missing_addFile (hf : file ∈ cx.fileSet) (hnew : s.included.contains file = false) :
    cx.missing (s.addFile file) < cx.missing s := by
  refine Finset.card_lt_card (Finset.ssubset_iff_of_subset ?_ |>.2 ⟨file, ?_, ?_⟩)
  · exact Finset.monotone_filter_right _ (fun f _ hf hc =>
      hf ((Advances.addFile s file).included f hc))
  · simp [hf, hnew]
  · simp [State.addFile, SeenSet.contains_insert]

theorem unnamed_openBlock (hf : file ∈ cx.fileSet) (hnew : s.space? file = none) (name : String) :
    cx.unnamed (s.openBlock file name) < cx.unnamed s := by
  refine Finset.card_lt_card (Finset.ssubset_iff_of_subset ?_ |>.2 ⟨file, ?_, ?_⟩)
  · refine Finset.monotone_filter_right _ (fun f _ hf hc => hf ?_)
    rw [State.space?_openBlock]
    split
    · rfl
    · exact hc
  · simp [hf, hnew]
  · simp [State.space?_openBlock]

end Context

end AmbientBundle.Merge
