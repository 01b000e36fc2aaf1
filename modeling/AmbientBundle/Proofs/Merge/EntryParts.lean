import AmbientBundle.Proofs.Merge.Reexports
/-!
What merging prints for an entry file: for each statement what is shown of it, under final names, and
behind it what it hands on of other files. Whatever else comes to the root on the way exports
nothing.
-/
namespace AmbientBundle.Merge

open Step Syntax

variable {cx : Context} {earlier : SeenSet Url} {n : Nat} {r : Role} {files : List Url} {f : Url}
  {s t u : State} {y : Yield}

section Quiet

/-- A statement that exports nothing. -/
structure SilentItem (i : Item) : Prop where
  exports : i.exports = []
  namesOnly : NamesOnly i

/-- Statements that export nothing. -/
def Silent (ps : List Piece) : Prop := ∀ p ∈ ps, SilentItem p.item

theorem Silent.append {ps qs : List Piece} (h : Silent ps) (h' : Silent qs) : Silent (ps ++ qs) :=
  fun p hp => (List.mem_append.1 hp).elim (h p) (h' p)

theorem Silent.single {p : Piece} (h : SilentItem p.item) : Silent [p] := by
  intro q hq
  rwa [List.mem_singleton.1 hq]

/-- What is printed where exports are not kept is silent. -/
theorem silent_hidden (origin : Url) (inBlock : Bool) (env : Environment) (ρ : Rename.Renaming)
    (τ : ImportTypes.Targets) (i : Item) :
    Silent ((linkItems τ (renameItems ρ (shown cx origin inBlock false env i))).map
      (Piece.ofFile origin)) := by
  intro p hp
  rw [linkItems_eq_map, renameItems_eq_map, List.map_map, List.map_map] at hp
  obtain ⟨j, hj, rfl⟩ := List.mem_map.1 hp
  have hnone := exports_hidden ρ cx origin inBlock env i
  rw [List.flatMap_eq_nil_iff] at hnone
  refine ⟨(Item.exports_link τ _).trans (hnone j hj), ?_⟩
  obtain ⟨hstar, hwhole⟩ : NamesOnly j := (whole_of_mem_shown hj).resolve_right (by simp)
  exact ⟨((Item.star?_link τ _).trans (Item.star?_rename ρ j)).trans hstar,
    ((Item.isWhole_link τ _).trans (Item.isWhole_rename ρ j)).trans hwhole⟩

/-- Between two states only silent statements come to the root, and what a dependency hands back
there is silent too. -/
structure Quiet (r : Role) (s : State) (y : Yield) (t : State) : Prop where
  items : ∃ added, t.root.items = s.root.items ++ added ∧ Silent added
  handed : s.inBlock = false → r = .dependency → Silent y.pieces

namespace Quiet

theorem same (h : t.root.items = s.root.items) : Quiet r s ∅ t :=
  ⟨⟨[], by rw [h, List.append_nil], by simp [Silent]⟩, fun _ _ => by simp [Silent]⟩

theorem add (h : Quiet r s ∅ t) {ps : List Piece} (hp : Silent ps) : Quiet r s ∅ (t.addItems ps) := by
  obtain ⟨added, hitems, hadded⟩ := h.items
  refine ⟨?_, h.handed⟩
  rw [State.root_addItems_items]
  split
  · exact ⟨added, hitems, hadded⟩
  · exact ⟨added ++ ps, by rw [hitems, List.append_assoc], hadded.append hp⟩

theorem items_trans (h : ∃ added, t.root.items = s.root.items ++ added ∧ Silent added)
    (h' : ∃ added, u.root.items = t.root.items ++ added ∧ Silent added) :
    ∃ added, u.root.items = s.root.items ++ added ∧ Silent added := by
  obtain ⟨a, ha, hsa⟩ := h
  obtain ⟨b, hb, hsb⟩ := h'
  exact ⟨a ++ b, by rw [hb, ha, List.append_assoc], hsa.append hsb⟩

end Quiet

/-- Unless an entry file is begun, a run is quiet. -/
theorem Run.quiet (h : Run cx n r files s y t) (hr : r = .dependency ∨ files ≠ []) :
    Quiet r s y t := by
  induction h with
  | nothing => exact .same rfl
  | andThen first second ih₁ ih₂ =>
    have h₁ := ih₁ hr
    have h₂ := ih₂ hr
    exact ⟨Quiet.items_trans h₁.items h₂.items,
      fun hb hd => (h₁.handed hb hd).append (h₂.handed (first.inBlock_eq.trans hb) hd)⟩
  | warn w => exact .same rfl
  | keepRun module => exact .same rfl
  | preserve typeOnly hkey hw => exact .same rfl
  | preserveAgain typeOnly hkey => exact .same rfl
  | aliasImport hf hkey => exact .same rfl
  | @aliasBinding r files s x hx =>
    have hclaim : Quiet r s ∅ (s.claim (s.freshName x)) := .same rfl
    exact hclaim.add (.single ⟨rfl, rfl, rfl⟩)
  | link _ _ _ run _ ih =>
    refine ⟨?_, fun _ _ => by simp [Silent]⟩
    rw [State.root_link_items]
    exact (ih hr).items
  | unlinked w _ _ run _ ih => exact ⟨(ih hr).items, fun _ _ => by simp [Silent]⟩
  | @print r files s t u origin i exports τ hcur hi hinc hx hexp _ run links ih₁ ih₂ =>
    obtain ⟨added, hadded, hsilent⟩ := (ih₁ hr).items
    have htaken : ∃ added, (t.takeItems s.scope.items.length).2.root.items =
        s.root.items ++ added ∧ Silent added := by
      rw [State.root_takeItems_items]
      split
      · exact ⟨added, hadded, hsilent⟩
      · rename_i hb
        rw [State.scope_of_root (by rw [← run.inBlock_eq]; simpa using hb), hadded, List.take_left]
        exact ⟨[], by simp, by simp [Silent]⟩
    refine ⟨Quiet.items_trans htaken (ih₂ hr).items, fun hb hd => ?_⟩
    have hkeep : keepsExports r s = false := by simp [keepsExports, hd]
    obtain ⟨_, rfl, rfl⟩ := hx.resolve_left (by simp [hkeep])
    have htake : (t.takeItems t.scope.items.length).1 = [] := List.drop_length
    rw [htake, hkeep, List.nil_append, List.append_nil]
    exact silent_hidden _ _ _ _ _ _
  | @inlined r q files s t u file ps hroot hnew hfile hlead hq imports prints ih₁ ih₂ =>
    have hdep : q = .dependency := by
      cases q with
      | dependency => rfl
      | entry =>
        obtain ⟨rfl, rfl⟩ := hq rfl
        simp at hr
    have h₁ := ih₁ (Or.inl hdep)
    have h₂ := ih₂ (Or.inl hdep)
    have hbt : t.inBlock = false := imports.inBlock_begunFile hroot
    have hitems := Quiet.items_trans h₁.items h₂.items
    rw [State.root_bindFile_items] at hitems
    have hquiet : Quiet r s ∅ u := ⟨hitems, fun _ _ => by simp [Silent]⟩
    exact hquiet.add (h₂.handed hbt hdep)
  | atRoot hblock run ih =>
    refine ⟨?_, fun _ _ => by simp [Silent]⟩
    rw [State.root_inheritFromRoot]
    exact (ih (Or.inl rfl)).items
  | @block r files s t u v w target wanted ps exports hnew hfile hlead hw _ imports prints
      collects aliases ih₁ ih₂ ih₃ ih₄ =>
    have h₁ := (ih₁ (Or.inl rfl)).items
    have h₂ := Quiet.items_trans h₁ (ih₂ (Or.inl rfl)).items
    have h₃ := (ih₃ (Or.inl rfl)).items
    have h₄ := (ih₄ hr).items
    rw [State.root_bindFile_items, State.root_openBlock_items] at h₂
    rw [State.root_addItems_items, prints.inBlock_eq, if_pos imports.inBlock_begunBlock] at h₃
    rw [State.root_closeBlock] at h₄
    have hquiet : Quiet r s ∅ w :=
      ⟨Quiet.items_trans (Quiet.items_trans h₂ h₃) h₄, fun _ _ => by simp [Silent]⟩
    exact hquiet.add (.single ⟨rfl, rfl, rfl⟩)
  | exportAgain => simp at hr

end Quiet

section Parts

/-- Merging goes on while the given files are begun, and links no import of theirs. -/
inductive Onwards (cx : Context) (files : List Url) (s : State) : State → Prop where
  | refl : Onwards cx files s s
  | run {n : Nat} {r : Role} {t u : State} {y : Yield} (h : Onwards cx files s t)
      (run : Run cx n r files t y u) (hy : y.tried = []) : Onwards cx files s u
  | takeItems {t : State} (h : Onwards cx files s t) (k : Nat) : Onwards cx files s (t.takeItems k).2

theorem Onwards.trans (h : Onwards cx files s t) (h' : Onwards cx files t u) :
    Onwards cx files s u := by
  induction h' with
  | refl => exact h
  | run _ run hy ih => exact ih.run run hy
  | takeItems _ k ih => exact ih.takeItems k

theorem Onwards.keeps (h : Onwards cx files s t) (hr : Rooted files s) :
    Rooted files t ∧ Keeps s t := by
  induction h with
  | refl => exact ⟨hr, .refl s⟩
  | run _ run hy ih => exact ⟨run.rooted ih.1, ih.2.trans (run.keeps ih.1 hy)⟩
  | takeItems _ k ih =>
    refine ⟨ih.1.takeItems k, ih.2.trans ⟨fun f hf => ?_, fun f x v hv => ?_, fun f _ => ?_⟩⟩
    · rwa [State.included_takeItems]
    · rwa [State.root_takeItems_env]
    · rw [State.root_takeItems_env]

/-- What merging puts for a statement of an entry file between the first and the last state: what is
shown of it, and what it hands on. -/
inductive EntryPart (cx : Context) (earlier : SeenSet Url) (f : Url) (first last : State) (i : Item) :
    List Item → Prop where
  | mk {k : Nat} {s t : State} {es : List Item} (τ : ImportTypes.Targets)
      (before : Onwards cx [f] first s) (atRoot : AtRoot cx earlier [f] [] s) (file : cx.HasFile f)
      (statement : i ∈ cx.statements f) (included : ReexportsIncluded cx f i s)
      (handed : reexport cx k f i s = some (es, t)) (after : Onwards cx [f] t last) :
      EntryPart cx earlier f first last i
        (linkItems τ (renameItems (Rename.ofEnvironment t.root.env f)
          (shown cx f false true s.root.env i)) ++ es)

namespace EntryPart

variable {i : Item} {part : List Item}

theorem extend (h : EntryPart cx earlier f s t i part) (h' : Onwards cx [f] t u) :
    EntryPart cx earlier f s u i part := by
  cases h with
  | mk τ before atRoot file statement included handed after =>
    exact .mk τ before atRoot file statement included handed (after.trans h')

theorem precede (h : Onwards cx [f] s t) (h' : EntryPart cx earlier f t u i part) :
    EntryPart cx earlier f s u i part := by
  cases h' with
  | mk τ before atRoot file statement included handed after =>
    exact .mk τ (h.trans before) atRoot file statement included handed after

/-- A part under the final names of the last state. -/
theorem inv (h : EntryPart cx earlier f s t i part) : ∃ (τ : ImportTypes.Targets)
    (env : Environment) (es : List Item),
    part = linkItems τ (renameItems (Rename.ofEnvironment t.root.env f)
      (shown cx f false true env i)) ++ es ∧
    Rename.ofEnvironment env f = Rename.ofEnvironment t.root.env f ∧ i ∈ cx.statements f ∧
    Handed cx earlier t.root.env f i es ∧ ∃ k s₁ t₁, reexport cx k f i s₁ = some (es, t₁) := by
  cases h with
  | @mk k s₁ t₁ es τ _ hs hhas hi hinc hx after =>
    have hf := hs.rooted.begun f (List.mem_singleton_self f)
    obtain ⟨ht, hes⟩ := reexport_handed hs (fun g hg => List.mem_singleton.1 hg ▸ .refl) hhas hf hi
      hinc hx
    have hkeeps := (after.keeps ht.atRoot.rooted).2
    have hincluded := ht.keeps.included f hf
    have hρ := hkeeps.same f hincluded
    exact ⟨τ, s₁.root.env, es, by rw [hρ], hρ.trans (ht.keeps.same f hf) |>.symm, hi,
      hes.congr hkeeps hincluded, k, s₁, t₁, hx⟩

end EntryPart

/-- The parts are in the file, and between them stands what is silent. -/
inductive Interspersed (f : Url) : List Piece → List (List Item) → Prop where
  | nil : Interspersed f [] []
  | cons {added rest : List Piece} {part : List Item} {parts : List (List Item)}
      (silent : Silent added) (h : Interspersed f rest parts) :
      Interspersed f (added ++ part.map (Piece.ofFile f) ++ rest) (part :: parts)

namespace Interspersed

variable {ps qs : List Piece} {parts parts' : List (List Item)}

theorem single (silent : Silent ps) (part : List Item) :
    Interspersed f (ps ++ part.map (Piece.ofFile f)) [part] := by
  have h : Interspersed f (ps ++ part.map (Piece.ofFile f) ++ []) [part] := .cons silent .nil
  rwa [List.append_nil] at h

theorem append (h : Interspersed f ps parts) (h' : Interspersed f qs parts') :
    Interspersed f (ps ++ qs) (parts ++ parts') := by
  induction h with
  | nil => exact h'
  | cons silent _ ih =>
    rw [List.append_assoc, List.cons_append]
    exact .cons silent ih

theorem mem (h : Interspersed f ps parts) {p : Piece} (hp : p ∈ ps) :
    SilentItem p.item ∨ ∃ part ∈ parts, ∃ j ∈ part, p = .ofFile f j := by
  induction h with
  | nil => cases hp
  | @cons added rest part parts silent _ ih =>
    rcases List.mem_append.1 hp with hp | hp
    · rcases List.mem_append.1 hp with hp | hp
      · exact Or.inl (silent p hp)
      · obtain ⟨j, hj, rfl⟩ := List.mem_map.1 hp
        exact Or.inr ⟨part, List.mem_cons_self, j, hj, rfl⟩
    · refine (ih hp).imp_right ?_
      rintro ⟨part', hpart, hj⟩
      exact ⟨part', List.mem_cons_of_mem _ hpart, hj⟩

/-- What silent statements do not have, the pieces have of the parts. -/
theorem collected {β : Type} {g : List Item → List β} (happend : ∀ is js, g (is ++ js) = g is ++ g js)
    (hsilent : ∀ added, Silent added → g (added.map Piece.item) = [])
    (h : Interspersed f ps parts) : g (ps.map Piece.item) = g parts.flatten := by
  induction h with
  | nil => rfl
  | cons silent _ ih =>
    simp only [List.map_append, List.map_map, happend, hsilent _ silent, ih,
      show Piece.item ∘ Piece.ofFile f = id from rfl, List.map_id, List.nil_append,
      List.flatten_cons]

end Interspersed

/-- What a run puts under final names for an entry file are the parts of the file's statements. -/
theorem Run.parts (h : Run cx n r files s y t) (hr : r = .entry) (hfiles : files = [f])
    (hs : AtRoot cx earlier files [] s) (hy : y.tried = []) :
    ∃ parts, List.Forall₂ (EntryPart cx earlier f s t) y.printed parts ∧
      Interspersed f y.pieces parts := by
  induction h with
  | andThen first second ih₁ ih₂ =>
    simp only [Yield.tried_append, List.append_eq_nil_iff] at hy
    obtain ⟨parts₁, hparts₁, hplaced₁⟩ := ih₁ hr hfiles hs hy.1
    obtain ⟨parts₂, hparts₂, hplaced₂⟩ :=
      ih₂ hr hfiles (hs.run (fun k _ => answers cx earlier k) first) hy.2
    subst hfiles
    refine ⟨parts₁ ++ parts₂, List.rel_append ?_ ?_, hplaced₁.append hplaced₂⟩
    · exact hparts₁.imp (fun _ _ hpart => hpart.extend (Onwards.refl.run second hy.2))
    · exact hparts₂.imp (fun _ _ hpart => .precede (Onwards.refl.run first hy.1) hpart)
  | @print r files s t u origin i exports τ hcur hi hinc hx _ _ run links _ _ =>
    subst hr hfiles
    obtain rfl := Option.some.inj (hcur.head hs.root)
    have hbt : t.inBlock = false := run.inBlock_eq.trans hs.root
    have hkeep : keepsExports .entry s = true := by simp [keepsExports, hs.root]
    obtain ⟨_, k, _, hx⟩ := hx.resolve_right (by simp [hkeep])
    -- what was put at the root on the way stands before the statement
    obtain ⟨added, hadded, hsilent⟩ := (run.quiet (Or.inr (by simp))).items
    have htaken : (t.takeItems s.scope.items.length).1 = added := by
      rw [State.takeItems, State.scope_of_root hs.root, State.scope_of_root hbt, hadded,
        List.drop_left]
    rw [htaken, hs.root, hkeep, State.scope_of_root hs.root, State.scope_of_root hbt]
    exact ⟨_, .cons (.mk τ .refl hs hcur.file hi hinc hx ((Onwards.refl.takeItems _).run links rfl))
      .nil, .single hsilent _⟩
  | _ => exact ⟨[], .nil, .nil⟩

end Parts

end AmbientBundle.Merge
