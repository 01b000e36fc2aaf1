import AmbientBundle.Proofs.Merge.Onward
/-!
The names of namespaces. Each scope knows those that were opened in it, and all of them are names
that the chunk made up.
-/
namespace AmbientBundle.Merge

open Names Syntax

namespace State

variable (s : State) (f : Scope → Scope) (origin file : Url) (name final : String)
  (items : List Piece) (n : Nat)

/-- The namespaces of the root and of all blocks, with their names. -/
def spaces : List (OrderedMap Url String) :=
  s.root.spaces :: s.blocks.map (fun b => b.scope.spaces)

theorem spaces_onScope (hf : ∀ c, (f c).spaces = c.spaces) : (s.onScope f).spaces = s.spaces := by
  unfold onScope spaces blocks
  cases s.nested <;> simp [hf]

@[simp] theorem spaces_claim : (s.claim name).spaces = s.spaces := by
  simp [claim, spaces, blocks, claimInBlock, Function.comp_def]

@[simp] theorem spaces_link : (s.link origin name final).spaces = s.spaces :=
  s.spaces_onScope _ (fun _ => rfl)

@[simp] theorem spaces_addItems : (s.addItems items).spaces = s.spaces :=
  s.spaces_onScope _ (fun _ => rfl)

@[simp] theorem spaces_takeItems : (s.takeItems n).2.spaces = s.spaces :=
  s.spaces_onScope _ (fun _ => rfl)

@[simp] theorem spaces_bindFile (is : List Item) : (s.bindFile is origin).spaces = s.spaces :=
  s.spaces_onScope _ (fun _ => rfl)

@[simp] theorem spaces_inheritFromRoot (files : List Url) :
    (s.inheritFromRoot files).spaces = s.spaces := by
  unfold inheritFromRoot
  split
  · rfl
  · simp [spaces, blocks, inheritInBlock, Function.comp_def]

theorem spaces_closeBlock : s.closeBlock.2.spaces ⊆ s.spaces := by
  unfold closeBlock spaces blocks
  cases hn : s.nested with
  | nil => simp [hn]
  | cons b bs => exact List.cons_subset_cons _ (List.subset_cons_self _ _)

theorem spaces_resume {s : State} (h : s.inBlock = false) : (s.resume n).spaces = s.spaces := by
  have hn : s.nested = [] := by simpa [inBlock] using h
  simp only [resume, spaces, blocks, hn, List.nil_append, List.take_append_drop]

/-- The namespace that is opened gets its name in the current scope. -/
theorem mem_spaces_openBlock {m : OrderedMap Url String} (h : m ∈ (s.openBlock file name).spaces) :
    m ∈ s.spaces ∨ m = ∅ ∨ m = s.scope.spaces.put file name := by
  unfold openBlock onScope spaces blocks scope at *
  cases hn : s.nested <;> simp only [hn, List.mem_cons, List.map_cons, List.map_append,
    List.cons_append, List.nil_append, List.mem_append] at h ⊢ <;> tauto

theorem scope_spaces_mem : s.scope.spaces ∈ s.spaces := by
  unfold scope spaces blocks
  cases s.nested <;> simp

/-- A namespace in the open scopes is one of all of them. -/
theorem exists_of_space? {target : Url} (h : s.space? target = some name) :
    ∃ m ∈ s.spaces, (target, name) ∈ m.entries := by
  unfold space? at h
  rcases Option.or_eq_some_iff.1 h with h | ⟨_, h⟩
  · obtain ⟨b, hb, h⟩ := List.exists_of_findSome?_eq_some h
    refine ⟨b.scope.spaces, ?_, OrderedMap.mem_entries_of_get? h⟩
    simp only [spaces, blocks, List.map_append, List.mem_cons, List.mem_append]
    exact Or.inr (Or.inl (List.mem_map_of_mem hb))
  · exact ⟨s.root.spaces, List.mem_cons_self, OrderedMap.mem_entries_of_get? h⟩

end State

/-- All names of namespaces are the chunk's. -/
def SpacesOwned (s : State) : Prop :=
  ∀ m ∈ s.spaces, ∀ e ∈ m.entries, s.root.env.owner? e.2 = some .chunk

variable {cx : Context} {n : Nat} {r : Role} {files : List Url} {s t : State} {y : Yield}

namespace SpacesOwned

theorem start (included : SeenSet Url) : SpacesOwned (State.start included) := by
  intro m hm e he
  simp only [State.spaces, State.start, State.blocks, List.append_nil, List.map_nil,
    List.mem_singleton] at hm
  subst hm
  cases he

theorem mono (h : SpacesOwned s) (hg : Grows s t) (hs : t.spaces ⊆ s.spaces) : SpacesOwned t :=
  fun m hm e he => hg.owner _ _ (h m (hs hm) e he)

theorem of_eq (h : SpacesOwned s) (hg : Grows s t) (hs : t.spaces = s.spaces) : SpacesOwned t :=
  h.mono hg (by simp [hs])

theorem addItems (h : SpacesOwned s) (ps : List Piece) : SpacesOwned (s.addItems ps) :=
  h.of_eq (.addItems s ps) (by simp)

theorem takeItems (h : SpacesOwned s) (k : Nat) : SpacesOwned (s.takeItems k).2 :=
  h.of_eq (.takeItems s k) (by simp)

theorem claim (h : SpacesOwned s) (name : String) : SpacesOwned (s.claim name) :=
  h.of_eq (.claim s name) (by simp)

theorem closeBlock (h : SpacesOwned s) : SpacesOwned s.closeBlock.2 :=
  h.mono (.closeBlock s) s.spaces_closeBlock

theorem suspend (h : SpacesOwned s) : SpacesOwned s.suspend := h

theorem beginFile (h : SpacesOwned s) (is : List Item) (file : Url) :
    SpacesOwned ((s.addFile file).bindFile is file) :=
  h.of_eq (.beginFile s is file) (State.spaces_bindFile _ _ is)

theorem openBlock (h : SpacesOwned s) (file : Url) {name : String}
    (hn : s.root.env.owner? name = some .chunk) : SpacesOwned (s.openBlock file name) := by
  intro m hm e he
  refine (Grows.openBlock s file name).owner _ _ ?_
  rcases s.mem_spaces_openBlock file name hm with hm | rfl | rfl
  · exact h m hm e he
  · cases he
  · rcases OrderedMap.mem_entries_put he with rfl | he
    · exact hn
    · exact h _ s.scope_spaces_mem e he

theorem beginBlock (h : SpacesOwned s) (is : List Item) (file : Url) (wanted : String) :
    SpacesOwned (((s.claim (s.freshName wanted)).openBlock file (s.freshName wanted)).bindFile
      is file) :=
  ((h.claim _).openBlock file (s.owner?_claim_freshName wanted)).of_eq (.bindFile _ is file)
    (by simp)

theorem space? (h : SpacesOwned s) {target : Url} {name : String}
    (hs : s.space? target = some name) : s.root.env.owner? name = some .chunk := by
  obtain ⟨m, hm, he⟩ := s.exists_of_space? name hs
  exact h m hm _ he

end SpacesOwned

theorem Run.spacesOwned (h : Run cx n r files s y t) (hs : SpacesOwned s) : SpacesOwned t := by
  induction h with
  | nothing => exact hs
  | andThen _ _ ih₁ ih₂ => exact ih₂ (ih₁ hs)
  | warn w => exact hs
  | keepRun module => exact hs
  | preserve typeOnly hkey hw => exact hs.claim _
  | preserveAgain typeOnly hkey => exact hs
  | aliasImport hf hkey => exact hs.claim _
  | aliasBinding hf => exact (hs.claim _).addItems _
  | link _ _ _ _ _ ih => exact (ih hs).of_eq (.link _ _ _ _) (by simp)
  | unlinked w _ _ _ _ ih => exact ih hs
  | print _ _ _ _ _ _ _ _ ih₁ ih₂ => exact ih₂ ((ih₁ hs).takeItems _)
  | inlined _ _ _ _ _ _ _ ih₁ ih₂ => exact (ih₂ (ih₁ (hs.beginFile _ _))).addItems _
  | @atRoot r files s t _ run ih =>
    have hresume : SpacesOwned (t.resume s.suspended.length) :=
      (ih hs.suspend).of_eq (.of_eq rfl rfl) (State.spaces_resume _ run.inBlock_eq)
    exact hresume.of_eq (.inheritFromRoot _ _) (by simp)
  | block _ _ _ _ _ _ _ _ _ ih₁ ih₂ ih₃ ih₄ =>
    exact (ih₄ (ih₃ ((ih₂ (ih₁ (hs.beginBlock _ _ _))).addItems _)).closeBlock).addItems _
  | exportAgain _ _ _ _ _ _ ih => exact (ih hs).addItems _

end AmbientBundle.Merge
