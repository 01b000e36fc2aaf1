import AmbientBundle.Proofs.Merge.EntryParts
/-!
What a chunk exports is what its entry files export. Each entry is either inlined, so that each of
its statements exports what it does, or it was inlined before, and then all that it exports is
gathered. Nothing else at the root exports anything.
-/
namespace AmbientBundle.Merge

open Step Syntax

variable {cx : Context} {earlier : SeenSet Url} {n : Nat} {r : Role} {files : List Url} {f : Url}
  {s t u : State} {y : Yield}

/-- All files that a run inlines are ones to which the files lead that are begun. -/
theorem Run.leadTo_included (h : Run cx n r files s y t) {g : Url}
    (hg : t.included.contains g = true) : s.included.contains g = true ∨ cx.LeadTo files g := by
  induction h with
  | nothing => exact Or.inl hg
  | andThen _ _ ih₁ ih₂ => exact (ih₂ hg).elim ih₁ Or.inr
  | warn w => exact Or.inl hg
  | keepRun module => exact Or.inl hg
  | preserve typeOnly hkey hw => exact Or.inl hg
  | preserveAgain typeOnly hkey => exact Or.inl hg
  | aliasImport hf hkey => exact Or.inl hg
  | aliasBinding hf => exact Or.inl (by simpa using hg)
  | link _ _ _ _ _ ih => exact ih (by simpa using hg)
  | unlinked _ _ _ _ _ ih => exact ih hg
  | print _ _ _ _ _ _ _ _ ih₁ ih₂ => exact (ih₂ hg).elim (fun hg => ih₁ (by simpa using hg)) Or.inr
  | @inlined r q files s t u file ps _ _ _ hlead _ _ _ ih₁ ih₂ =>
    have hsub : cx.LeadTo (file :: files) g → cx.LeadTo files g := fun hl f hf => hl f (by simp [hf])
    rcases ih₂ (by simpa using hg) with hg | hl
    · rcases ih₁ hg with hg | hl
      · have hg' : s.included.contains g = true ∨ g = file := by
          simpa [State.addFile, SeenSet.contains_insert] using hg
        rcases hg' with hg' | rfl
        · exact Or.inl hg'
        · exact Or.inr hlead
      · exact Or.inr (hsub hl)
    · exact Or.inr (hsub hl)
  | atRoot _ _ ih =>
    rw [State.included_inheritFromRoot] at hg
    exact ih hg
  | block _ _ _ _ _ _ _ _ _ ih₁ ih₂ ih₃ ih₄ =>
    rcases ih₄ (by simpa using hg) with hg | hl
    · rcases ih₃ (by simpa using hg) with hg | hl
      · rcases ih₂ (by simpa using hg) with hg | hl
        · rcases ih₁ hg with hg | hl
          · exact Or.inl (by simpa [State.claim] using hg)
          · exact Or.inr hl
        · exact Or.inr hl
      · exact Or.inr hl
    · exact Or.inr hl
  | exportAgain => exact Or.inr (fun _ hmem => (by cases hmem))

section Exposures

/-- The names of what is exported. -/
def namesOf (es : List (String × Bound)) : List String := es.map Prod.fst

/-- What stands for a statement of an entry file, as far as it exports. -/
structure Exposure (cx : Context) (earlier : SeenSet Url) (env : Environment) (f : Url) (i : Item)
    (is : List Item) : Prop where
  sound : ∀ e, e ∈ directExportsOf is ∨ e ∈ listExportsOf is → Exposes cx env f i e.1 e.2
  complete : KeepsName (Rename.ofEnvironment env f) i → ∀ name, Promises cx earlier f i name →
    name ∈ namesOf (directExportsOf is) ∨ name ∈ namesOf (listExportsOf is)
  star : ∀ d, i = .exportAll d → directExportsOf is = []
  direct : (∀ id ∈ i.declared, Rename.ofEnvironment env f id.name = id.name) →
    ∀ e ∈ i.directExports, e.1 ∈ namesOf (directExportsOf is)

theorem Exposure.congr {i : Item} {is : List Item} (h : Exposure cx earlier s.root.env f i is)
    (hk : Keeps s t) (hf : s.included.contains f = true) :
    Exposure cx earlier t.root.env f i is := by
  have hρ := hk.same f hf
  refine ⟨fun e he => (h.sound e he).congr hk hf, ?_, h.star, ?_⟩
  · rw [hρ]
    exact h.complete
  · rw [hρ]
    exact h.direct

@[simp] theorem namesOf_append (es es' : List (String × Bound)) :
    namesOf (es ++ es') = namesOf es ++ namesOf es' := List.map_append

theorem mem_exports_flatten {e : String × Bound} {parts : List (List Item)} :
    e ∈ directExportsOf parts.flatten ∨ e ∈ listExportsOf parts.flatten ↔
      ∃ part ∈ parts, e ∈ directExportsOf part ∨ e ∈ listExportsOf part := by
  induction parts with
  | nil => simp [directExportsOf, listExportsOf]
  | cons part parts ih =>
    rw [List.flatten_cons, directExportsOf_append, listExportsOf_append, List.mem_append,
      List.mem_append, or_or_or_comm, ih]
    simp

theorem mem_names_flatten {name : String} {part : List Item} {parts : List (List Item)}
    (hp : part ∈ parts)
    (h : name ∈ namesOf (directExportsOf part) ∨ name ∈ namesOf (listExportsOf part)) :
    name ∈ namesOf (directExportsOf parts.flatten) ∨
      name ∈ namesOf (listExportsOf parts.flatten) := by
  have hmem : ∃ e : String × Bound, e.1 = name ∧
      (e ∈ directExportsOf part ∨ e ∈ listExportsOf part) := by
    rcases h with h | h
    · obtain ⟨e, he, rfl⟩ := List.mem_map.1 h
      exact ⟨e, rfl, Or.inl he⟩
    · obtain ⟨e, he, rfl⟩ := List.mem_map.1 h
      exact ⟨e, rfl, Or.inr he⟩
  obtain ⟨e, rfl, he⟩ := hmem
  exact (mem_exports_flatten.2 ⟨part, hp, he⟩).imp List.mem_map_of_mem List.mem_map_of_mem

/-- Two lists of statements export the same in the same order. -/
structure SameExports (is js : List Item) : Prop where
  direct : directExportsOf is = directExportsOf js
  listed : listExportsOf is = listExportsOf js

namespace SameExports

variable {is js is' js' : List Item}

theorem nil : SameExports [] [] := ⟨rfl, rfl⟩

theorem append (h : SameExports is js) (h' : SameExports is' js') :
    SameExports (is ++ is') (js ++ js') := by
  constructor
  · rw [directExportsOf_append, directExportsOf_append, h.direct, h'.direct]
  · rw [listExportsOf_append, listExportsOf_append, h.listed, h'.listed]

theorem silent {ps : List Piece} (h : Silent ps) : SameExports (ps.map Piece.item) [] := by
  have hitem : ∀ i ∈ ps.map Piece.item, i.directExports = [] ∧ i.listExports = [] := by
    intro i hi
    obtain ⟨p, hp, rfl⟩ := List.mem_map.1 hi
    exact List.append_eq_nil_iff.1 (h p hp).exports
  exact ⟨List.flatMap_eq_nil_iff.2 (fun i hi => (hitem i hi).1),
    List.flatMap_eq_nil_iff.2 (fun i hi => (hitem i hi).2)⟩

theorem stays {e : String × Bound} (h : SameExports is js) : Stays is e ↔ Stays js e := by
  constructor
  · rintro (hd | ⟨hnew, hl⟩)
    · exact .direct (h.direct ▸ hd)
    · exact .listed (h.direct ▸ hnew) (h.listed ▸ hl)
  · rintro (hd | ⟨hnew, hl⟩)
    · exact .direct (h.direct ▸ hd)
    · exact .listed (h.direct ▸ hnew) (h.listed ▸ hl)

end SameExports

section Printed

variable {i : Item} {e : String × Bound} {env env' : Environment} (τ : ImportTypes.Targets)
  (ρ : Rename.Renaming) (js : List Item)

theorem directExportsOf_printed : directExportsOf (linkItems τ (renameItems ρ js)) =
    js.flatMap (fun j => (j.rename ρ).directExports) := by
  rw [linkItems_eq_map, renameItems_eq_map, directExportsOf, List.flatMap_map, List.flatMap_map]
  simp only [Item.directExports_link]

theorem listExportsOf_printed : listExportsOf (linkItems τ (renameItems ρ js)) =
    js.flatMap (fun j => (j.rename ρ).listExports) := by
  rw [linkItems_eq_map, renameItems_eq_map, listExportsOf, List.flatMap_map, List.flatMap_map]
  simp only [Item.listExports_link]

theorem mem_exports_printed : (e ∈ directExportsOf (linkItems τ (renameItems ρ js)) ∨
    e ∈ listExportsOf (linkItems τ (renameItems ρ js))) ↔
      e ∈ js.flatMap (fun j => (j.rename ρ).exports) := by
  rw [directExportsOf_printed, listExportsOf_printed]
  simp only [Item.exports, List.mem_flatMap, List.mem_append, and_or_left, exists_or]

/-- What a statement exports by itself, under final names. -/
inductive OwnExport (ρ : Rename.Renaming) (i : Item) (e : String × Bound) : Prop where
  | own {e' : String × Bound} (h : e' ∈ i.ownExports) (hi : ∀ d, i ≠ .importEquals d)
      (he : e = (e'.1, e'.2.rename ρ)) : OwnExport ρ i e
  | aliased {d : ImportEquals} (hi : i = .importEquals d) (h : d.isExport = true)
      (he : e = (ρ d.id.name, .here (ρ d.id.name))) : OwnExport ρ i e

theorem OwnExport.exposes (h : OwnExport (Rename.ofEnvironment env f) i e) :
    Exposes cx env f i e.1 e.2 := by
  cases h with
  | own h hi he =>
    subst he
    exact .own h hi
  | aliased hi h he =>
    subst hi he
    exact .aliased h

/-- What a chunk shows of a statement exports what the statement does by itself. -/
theorem ownExport_of_shown (hnamed : Exports.isAnonymousDefault i = false)
    (he : e ∈ (shown cx f false true env i).flatMap
      (fun j => (j.rename (Rename.ofEnvironment env f)).exports)) :
    OwnExport (Rename.ofEnvironment env f) i e := by
  by_cases halias : ∃ d, i = .importEquals d
  · obtain ⟨d, rfl⟩ := halias
    rw [exports_alias] at he
    split at he
    · rename_i hd
      exact .aliased rfl hd (List.mem_singleton.1 he)
    · cases he
  · have hi : ∀ d, i ≠ .importEquals d := fun d hd => halias ⟨d, hd⟩
    rw [exports_kept hnamed (fun d hd => absurd hd (hi d))] at he
    obtain ⟨e', he', rfl⟩ := List.mem_map.1 he
    exact .own he' hi rfl

/-- What a chunk shows of a statement where exports are kept, with what it hands on. -/
theorem exposure_shown {es : List Item} (hnamed : Exports.isAnonymousDefault i = false)
    (hρ : Rename.ofEnvironment env f = Rename.ofEnvironment env' f)
    (hes : Handed cx earlier env' f i es) :
    Exposure cx earlier env' f i
      (linkItems τ (renameItems (Rename.ofEnvironment env' f) (shown cx f false true env i)) ++ es) := by
  rw [← hρ]
  have hnone := directExportsOf_exports hes.lists
  refine ⟨fun e he => ?_, fun hi name hname => ?_, fun d he => ?_, fun hi e he => ?_⟩
  · rw [directExportsOf_append, listExportsOf_append, hnone, List.append_nil, List.mem_append,
      ← or_assoc, mem_exports_printed] at he
    rcases he with he | he
    · exact (hρ ▸ ownExport_of_shown hnamed he).exposes
    · exact hes.sound e he
  · rw [directExportsOf_append, listExportsOf_append, hnone, List.append_nil]
    rcases hes.complete name hname with hname | hname
    · obtain ⟨e, he, rfl⟩ := List.mem_map.1 hname
      have hkept := @exports_kept cx f env i hnamed (hρ ▸ hi)
      rcases (mem_exports_printed τ _ _).2 (hkept ▸ List.mem_map.2 ⟨e, he, rfl⟩) with he | he
      · exact Or.inl (List.mem_map.2 ⟨_, he, rfl⟩)
      · exact Or.inr (List.mem_map.2 ⟨_, List.mem_append_left _ he, rfl⟩)
    · exact Or.inr (by simp only [namesOf, List.map_append, List.mem_append]; exact Or.inr hname)
  · subst he
    rw [directExportsOf_append, hnone, List.append_nil, directExportsOf_printed]
    rfl
  · rw [directExportsOf_append, hnone, List.append_nil, directExportsOf_printed]
    have hkept := @directExports_kept cx f env i (hρ ▸ hi)
    exact List.mem_map.2 ⟨_, hkept (List.mem_map.2 ⟨e, he, rfl⟩), rfl⟩

end Printed

theorem Forall₂.congr_exposure {is : List Item} {parts : List (List Item)}
    (h : List.Forall₂ (Exposure cx earlier s.root.env f) is parts) (hk : Keeps s t)
    (hf : s.included.contains f = true) :
    List.Forall₂ (Exposure cx earlier t.root.env f) is parts :=
  h.imp (fun _ _ hpart => hpart.congr hk hf)

theorem EntryPart.exposure {i : Item} {part : List Item} (h : EntryPart cx earlier f s t i part) :
    Exposure cx earlier t.root.env f i part := by
  obtain ⟨τ, env, es, rfl, hρ, hi, hes, -⟩ := h.inv
  exact exposure_shown τ (Context.isAnonymousDefault_of_mem_statements hi) hρ hes

theorem Interspersed.sameExports {ps : List Piece} {parts : List (List Item)}
    (h : Interspersed f ps parts) : SameExports (ps.map Piece.item) parts.flatten :=
  ⟨h.collected directExportsOf_append (fun _ hs => (SameExports.silent hs).direct),
    h.collected listExportsOf_append (fun _ hs => (SameExports.silent hs).listed)⟩

/-- What a run puts under final names for an entry file exports what the file's statements do. -/
theorem Run.exposures (h : Run cx n r files s y t) (hr : r = .entry) (hfiles : files = [f])
    (hs : AtRoot cx earlier files [] s) (hy : y.tried = []) :
    ∃ parts, List.Forall₂ (Exposure cx earlier t.root.env f) y.printed parts ∧
      SameExports (y.pieces.map Piece.item) parts.flatten := by
  obtain ⟨parts, hparts, hplaced⟩ := h.parts hr hfiles hs hy
  exact ⟨parts, hparts.imp (fun _ _ hpart => hpart.exposure), hplaced.sameExports⟩

end Exposures

section EntryStep

/-- The entry files of the chunk, in order. -/
def Context.entryFiles (cx : Context) : List Url :=
  cx.chunk.entryModules.filterMap cx.files.findForModule

/-- Including an entry file: one that is inlined already is gathered, a new one is inlined, its
imports first. -/
inductive EntryStep (cx : Context) (earlier : SeenSet Url) (n : Nat) (f : Url) (s : State) :
    State → Prop where
  | again {c : Collected} {t : State} (hold : s.included.contains f = true)
      (h : collect cx n f true Collected.empty s = some (c, t)) :
      EntryStep cx earlier n f s (t.addItems (c.surface.items.map (Piece.ofFile f)))
  | inlined {t u : State} {ps : List Piece} (hnew : s.included.contains f = false)
      (imports : Run cx n .entry [f] ((s.addFile f).bindFile (cx.statements f) f)
        ⟨[], cx.specifiers f, []⟩ t)
      (ht : AtRoot cx earlier [f] [] t)
      (prints : Run cx n .entry [f] t ⟨ps, [], cx.statements f⟩ u) :
      EntryStep cx earlier n f s (u.addItems ps)

theorem entryStep_of_includeFile (hs : AtRoot cx earlier [] [] s) (hhas : cx.HasFile f)
    (h : includeFile cx n f .entry s = some ((), t)) : ∃ k, EntryStep cx earlier k f s t := by
  cases n with
  | zero => exact (failure_inv h).elim
  | succ n =>
  cases includeFile_inv h with
  | opened hb _ => exact absurd (hs.root.symm.trans hb) Bool.false_ne_true
  | atRoot hb _ => exact absurd (hs.root.symm.trans hb) Bool.false_ne_true
  | present _ _ hrole => exact absurd rfl hrole
  | again _ hold _ h =>
    cases n with
    | zero => exact (failure_inv h).elim
    | succ n =>
    obtain ⟨c, s₁, hc, rfl⟩ := exportAgain_inv h
    exact ⟨n, .again hold hc⟩
  | inlined _ hnew h =>
    have hcur : Current cx [f] f (s.addFile f) :=
      ⟨fun _ => rfl, fun hb => absurd (hs.root.symm.trans hb) (by simp),
        fun g hg => List.mem_singleton.1 hg ▸ .refl, hhas⟩
    have hform : FormedState cx (s.addFile f) := hs.formed.congr (List.Subset.refl _) rfl
    obtain ⟨t₁, t₂, ps, himports, hprints, rfl⟩ := (calls cx n).inlineFile hform hcur h
    have hrooted := hs.rooted.beginFile (cx.statements f) f
    have hbegin := hform.bindFile hhas
    have hroot : ((s.addFile f).bindFile (cx.statements f) f).inBlock = false :=
      (State.inBlock_begunFile _ _ _).trans hs.root
    obtain ⟨hlinked, hnamed⟩ := himports.linked (fun k _ => answers cx earlier k) hbegin hrooted
      (List.Subset.refl _) (hs.linked.beginFile hs.rooted hs.root hnew)
    have ht : AtRoot cx earlier [f] [] t₁ :=
      ⟨himports.inBlock_eq.trans hroot, (himports.formed hbegin).1, himports.rooted hrooted,
        by simp, hlinked.finish (hnamed hroot f rfl)⟩
    exact ⟨n, .inlined hnew himports ht hprints⟩

theorem EntryStep.run (h : EntryStep cx earlier n f s t) (hs : AtRoot cx earlier [] [] s)
    (hhas : cx.HasFile f) : Run cx (n + 1) .entry [] s ∅ t := by
  have hlead : cx.LeadTo [] f := fun _ hmem => (by cases hmem)
  cases h with
  | again hold hc =>
    have run := ((calls cx n).collect (r := .dependency) ⟨hs.formed, hlead, hhas⟩
      (by simp [Collected.empty]) hc).1
    exact .exportAgain hs.root hold hhas (Nat.lt_succ_self n) hc (run.mono (Nat.le_succ n))
  | inlined hnew imports _ prints =>
    exact .inlined hs.root hnew hhas hlead (fun _ => ⟨rfl, rfl⟩) (imports.mono (Nat.le_succ n))
      (prints.mono (Nat.le_succ n))

/-- What gathering a file puts at the root before its exports is silent. -/
theorem items_of_gathered {c : Collected} {ps : List Piece} (hs : AtRoot cx earlier [] [] s)
    (hhas : cx.HasFile f) (hc : collect cx n f true Collected.empty s = some (c, t)) :
    ∃ added, Silent added ∧ (t.addItems ps).root.items = s.root.items ++ added ++ ps := by
  have run : Run cx n .dependency [] s ∅ t := ((calls cx n).collect
    ⟨hs.formed, fun _ hmem => (by cases hmem), hhas⟩ (by simp [Collected.empty]) hc).1
  obtain ⟨added, hadded, hsilent⟩ := (run.quiet (Or.inl rfl)).items
  refine ⟨added, hsilent, ?_⟩
  rw [State.root_addItems_items, run.inBlock_eq.trans hs.root, if_neg Bool.false_ne_true, hadded]

/-- What inlining an entry file puts at the root before its statements is silent. -/
theorem items_of_inlined {k : Nat} {ps : List Piece}
    (imports : Run cx k .entry [f] ((s.addFile f).bindFile (cx.statements f) f)
      ⟨[], cx.specifiers f, []⟩ t)
    (ht : AtRoot cx earlier [f] [] t) (prints : Run cx k .entry [f] t ⟨ps, [], cx.statements f⟩ u) :
    ∃ added, Silent added ∧ (u.addItems ps).root.items = s.root.items ++ added ++ ps := by
  have hquiet := Quiet.items_trans (imports.quiet (Or.inr (by simp))).items
    (prints.quiet (Or.inr (by simp))).items
  rw [State.root_bindFile_items] at hquiet
  obtain ⟨added, hadded, hsilent⟩ := hquiet
  refine ⟨added, hsilent, ?_⟩
  rw [State.root_addItems_items, prints.inBlock_eq.trans ht.root, if_neg Bool.false_ne_true, hadded]
  rfl

/-- `Reached cx earlier files s`: including the given entry files, one after the other, can lead to
`s`. -/
inductive Reached (cx : Context) (earlier : SeenSet Url) : List Url → State → Prop where
  | start : Reached cx earlier [] (State.start earlier)
  | entry {files : List Url} {s t : State} {f : Url} {n : Nat} (before : Reached cx earlier files s)
      (hhas : cx.HasFile f) (h : EntryStep cx earlier n f s t) :
      Reached cx earlier (files ++ [f]) t

theorem Reached.atRoot (h : Reached cx earlier files s) : AtRoot cx earlier [] [] s := by
  induction h with
  | start => exact ⟨rfl, .start earlier, .start earlier, by simp, .start earlier⟩
  | entry _ hhas h ih => exact ih.run (fun k _ => answers cx earlier k) (h.run ih hhas)

/-- The files of earlier chunks count as inlined all the time. -/
theorem Reached.contains (h : Reached cx earlier files s) {g : Url}
    (hg : earlier.contains g = true) : s.included.contains g = true := by
  induction h with
  | start => exact hg
  | entry before hhas h ih => exact (h.run before.atRoot hhas).grows.contains ih

/-- Merging a chunk includes its entry files. -/
theorem reached_of_mergeChunk? {included included' : SeenSet Url} {m : Merged}
    {warnings : List Warning} (h : mergeChunk? cx included = some (m, included', warnings)) :
    ∃ s, Reached cx included cx.entryFiles s ∧ m = finish cx.chunk s ∧ included' = s.included := by
  obtain ⟨s, run, hm, hs, hentries⟩ := mergeChunk_run h
  refine ⟨s, ?_, hm, hs⟩
  refine forM_inv (fun done s' => Reached cx included (done.filterMap cx.files.findForModule) s')
    hentries .start ?_
  intro done e s₁ s₂ _ he hd hstep
  cases hfile : cx.files.findForModule e with
  | none =>
    simp only [hfile] at hstep
    obtain ⟨_, rfl⟩ := pure_inv hstep
    simpa [hfile] using hd
  | some file =>
    simp only [hfile] at hstep
    obtain ⟨k, hstep⟩ := entryStep_of_includeFile hd.atRoot (.entry he hfile) hstep
    simpa [List.filterMap_append, hfile] using hd.entry (.entry he hfile) hstep

end EntryStep

section Entries

/-- What a merged chunk exports. -/
def Merged.exports (m : Merged) : List (String × Bound) := m.pieces.flatMap (fun p => p.item.exports)

/-- What stands for the exports of entry files, one file after the other. The first one that is
inlined keeps the names of its declarations. A file that was inlined before, as part of an earlier
chunk or since an entry before it leads to it, is gathered. -/
inductive Entries (cx : Context) (earlier : SeenSet Url) (env : Environment) :
    List Url → List Item → Prop where
  | nil : Entries cx earlier env [] []
  | printed {files : List Url} {is : List Item} {f : Url} {parts : List (List Item)}
      (before : Entries cx earlier env files is) (hnew : earlier.contains f = false)
      (alone : files = [] → ∀ x, cx.Declares f x → (∀ e ∈ cx.specifiers f, e.2.loc ≠ x) →
        Rename.ofEnvironment env f x = x)
      (h : List.Forall₂ (Exposure cx earlier env f) (cx.statements f) parts) :
      Entries cx earlier env (files ++ [f]) (is ++ parts.flatten)
  | again {files : List Url} {is js : List Item} {f : Url} (before : Entries cx earlier env files is)
      (hold : earlier.contains f = true ∨ ∃ e ∈ files, Relation.ReflTransGen cx.Links e f)
      (direct : directExportsOf js = [])
      (sound : ∀ e ∈ listExportsOf js,
        ∃ g v, e.2 = .here v ∧ Gathered cx env f true g e.1 v)
      (complete : ∀ g name, cx.Offers f true g name → ¬Dead cx earlier f true name →
        name ∈ namesOf (listExportsOf js)) :
      Entries cx earlier env (files ++ [f]) (is ++ js)

theorem Entries.congr {is : List Item} (h : Entries cx earlier s.root.env files is)
    (hk : Keeps s t) (hf : ∀ f ∈ files, s.included.contains f = true) :
    Entries cx earlier t.root.env files is := by
  induction h with
  | nil => exact .nil
  | @printed _ _ f _ _ hnew alone hparts ih =>
    have hρ := hk.same f (hf f (by simp))
    exact .printed (ih (fun g hg => hf g (by simp [hg]))) hnew
      (fun hfiles x hx hl => hρ ▸ alone hfiles x hx hl)
      (Forall₂.congr_exposure hparts hk (hf f (by simp)))
  | again _ hold direct sound complete ih =>
    refine .again (ih (fun g hg => hf g (by simp [hg]))) hold direct (fun e he => ?_) complete
    obtain ⟨g, v, hv, hg⟩ := sound e he
    exact ⟨g, v, hv, { hg with fits := hk.fits hg.fits }⟩

/-- What has been exported when some entry files are included. -/
structure EntriesDone (cx : Context) (earlier : SeenSet Url) (files : List Url) (s : State) :
    Prop where
  start : files = [] → s = State.start earlier
  atRoot : AtRoot cx earlier [] [] s
  included : ∀ f ∈ files, s.included.contains f = true
  leads : ∀ g, s.included.contains g = true →
    earlier.contains g = true ∨ ∃ e ∈ files, Relation.ReflTransGen cx.Links e g
  entries : ∃ is, Entries cx earlier s.root.env files is ∧
    SameExports (s.root.items.map Piece.item) is

/-- An entry file that was inlined before is gathered. -/
theorem EntriesDone.again (h : EntriesDone cx earlier files s) (hhas : cx.HasFile f)
    (hold : s.included.contains f = true) {c : Collected} {s₁ : State}
    (hc : collect cx n f true Collected.empty s = some (c, s₁)) :
    EntriesDone cx earlier (files ++ [f]) (s₁.addItems (c.surface.items.map (Piece.ofFile f))) := by
  have hroot := h.atRoot.root
  have hlead : cx.LeadTo [] f := fun _ hmem => (by cases hmem)
  obtain ⟨hs₁, hsound, hcomplete⟩ := collect_gathered h.atRoot hlead hhas hold hc
  -- the same run, seen as one of `f`, to which its files lead
  have run : Run cx n .dependency [f] s ∅ s₁ :=
    ((calls cx n).collect ⟨h.atRoot.formed, fun g hg => List.mem_singleton.1 hg ▸ .refl, hhas⟩
      (by simp [Collected.empty]) hc).1
  obtain ⟨added, hsilent, hadded⟩ :=
    @items_of_gathered _ _ _ _ _ _ _ (c.surface.items.map (Piece.ofFile f)) h.atRoot hhas hc
  obtain ⟨is, his, hsame⟩ := h.entries
  have hitems : (s₁.addItems (c.surface.items.map (Piece.ofFile f))).root.items.map Piece.item =
      s.root.items.map Piece.item ++ added.map Piece.item ++ c.surface.items := by
    rw [hadded, List.map_append, List.map_append, List.map_map,
      show Piece.item ∘ Piece.ofFile f = id from rfl, List.map_id]
  refine ⟨by simp, ?_, fun g hg => ?_, fun g hg => ?_, is ++ c.surface.items,
    .again ?_ ?_ ?_ ?_ ?_, ?_⟩
  · refine ⟨(State.inBlock_congr (State.targets_addItems _ _)).trans hs₁.atRoot.root, ?_,
      hs₁.atRoot.rooted.addItems _, by simp, hs₁.atRoot.linked.addItems _⟩
    refine hs₁.atRoot.formed.addItems (fun p hp x hx => ?_)
    obtain ⟨i, hi, rfl⟩ := List.mem_map.1 hp
    rw [show (Piece.ofFile f i).item = i from rfl,
      binds_of_isExportStatement (isExportStatement_of_mem_items hi)] at hx
    cases hx
  · rw [State.included_addItems]
    rcases List.mem_append.1 hg with hg | hg
    · exact hs₁.keeps.included g (h.included g hg)
    · exact List.mem_singleton.1 hg ▸ hs₁.keeps.included f hold
  · rw [State.included_addItems] at hg
    rcases run.leadTo_included hg with hg | hg
    · refine (h.leads g hg).imp_right ?_
      rintro ⟨e, he, hl⟩
      exact ⟨e, by simp [he], hl⟩
    · exact Or.inr ⟨f, by simp, hg f (by simp)⟩
  · rw [State.root_addItems_env]
    exact his.congr hs₁.keeps h.included
  · exact h.leads f hold
  · exact directExportsOf_exports (fun i hi => isExportStatement_of_mem_items hi)
  · intro e he
    rw [listExports_surface] at he
    obtain ⟨⟨name, v⟩, hmem, rfl⟩ := List.mem_map.1 he
    obtain ⟨g, hg⟩ := hsound name v hmem
    rw [State.root_addItems_env]
    exact ⟨g, v, rfl, hg⟩
  · intro g name hg hl
    rw [listExports_surface, namesOf, List.map_map]
    exact hcomplete g name hg hl
  · rw [hitems]
    exact (by simpa using hsame.append (SameExports.silent hsilent) :
      SameExports (s.root.items.map Piece.item ++ added.map Piece.item) is).append ⟨rfl, rfl⟩

/-- A new entry file is inlined. -/
theorem EntriesDone.inline (h : EntriesDone cx earlier files s) (hnew : s.included.contains f = false)
    (hn : earlier.contains f = false) {k : Nat} {t₁ t₂ : State} {ps : List Piece}
    (run : Run cx k .entry [] s ∅ (t₂.addItems ps))
    (himports : Run cx n .entry [f] ((s.addFile f).bindFile (cx.statements f) f)
      ⟨[], cx.specifiers f, []⟩ t₁)
    (ht₁ : AtRoot cx earlier [f] [] t₁)
    (hprints : Run cx n .entry [f] t₁ ⟨ps, [], cx.statements f⟩ t₂) :
    EntriesDone cx earlier (files ++ [f]) (t₂.addItems ps) := by
  have hroot := h.atRoot.root
  obtain ⟨parts, hparts, hsame'⟩ := hprints.exposures rfl rfl ht₁ rfl
  obtain ⟨added, hsilent, hadded⟩ := items_of_inlined himports ht₁ hprints
  obtain ⟨is, his, hsame⟩ := h.entries
  have hitems : (t₂.addItems ps).root.items.map Piece.item =
      s.root.items.map Piece.item ++ added.map Piece.item ++ ps.map Piece.item := by
    rw [hadded, List.map_append, List.map_append]
  have hkeeps := run.keeps h.atRoot.rooted rfl
  have hself : (t₂.addItems ps).included.contains f = true := by
    rw [State.included_addItems]
    refine (himports.grows.trans hprints.grows).contains ?_
    simp [State.addFile, SeenSet.contains_insert]
  have halone : files = [] → ∀ x, cx.Declares f x → (∀ e ∈ cx.specifiers f, e.2.loc ≠ x) →
      Rename.ofEnvironment (t₂.addItems ps).root.env f x = x := by
    rintro hfiles x - hl
    rw [Rename.ofEnvironment, State.root_addItems_env, hprints.lookup_root, himports.lookup_root,
      State.root_beginFile_env hroot, h.start hfiles]
    · exact (Names.alone_empty f).bindIdents.getD_lookup x
    · simp [State.addFile, SeenSet.contains_insert]
    · exact fun _ _ e he => hl e he
    · exact himports.grows.contains (by simp [State.addFile, SeenSet.contains_insert])
    · simp
  refine ⟨by simp, h.atRoot.run (fun k _ => answers cx earlier k) run, fun g hg => ?_,
    fun g hg => ?_, is ++ parts.flatten, .printed (his.congr hkeeps h.included) hn halone ?_, ?_⟩
  · rcases List.mem_append.1 hg with hg | hg
    · exact hkeeps.included g (h.included g hg)
    · exact List.mem_singleton.1 hg ▸ hself
  · rw [State.included_addItems] at hg
    have hlead : (s.addFile f).included.contains g = true ∨ cx.LeadTo [f] g := by
      rcases hprints.leadTo_included hg with hg | hg
      · rcases himports.leadTo_included hg with hg | hg
        · exact Or.inl (by simpa using hg)
        · exact Or.inr hg
      · exact Or.inr hg
    rcases hlead with hg | hg
    · have hg' : s.included.contains g = true ∨ g = f := by
        simpa [State.addFile, SeenSet.contains_insert] using hg
      rcases hg' with hg | rfl
      · refine (h.leads g hg).imp_right ?_
        rintro ⟨e, he, hl⟩
        exact ⟨e, by simp [he], hl⟩
      · exact Or.inr ⟨g, by simp, .refl⟩
    · exact Or.inr ⟨f, by simp, hg f (by simp)⟩
  · rw [State.root_addItems_env]
    exact hparts
  · rw [hitems]
    exact (by simpa using hsame.append (SameExports.silent hsilent) :
      SameExports (s.root.items.map Piece.item ++ added.map Piece.item) is).append hsame'

theorem Reached.entriesDone (h : Reached cx earlier files s) : EntriesDone cx earlier files s := by
  induction h with
  | start => exact ⟨fun _ => rfl, Reached.start.atRoot, by simp, fun g hg => Or.inl hg, [], .nil, .nil⟩
  | entry before hhas h ih =>
    have run := h.run before.atRoot hhas
    cases h with
    | again hold hc => exact ih.again hhas hold hc
    | inlined hnew imports ht prints =>
      refine ih.inline hnew ?_ run imports ht prints
      rw [Bool.eq_false_iff]
      intro hmem
      rw [before.contains hmem] at hnew
      cases hnew

variable {included included' : SeenSet Url} {m : Merged} {warnings : List Warning}

/-- When a chunk is merged all its entry files are included. -/
theorem entriesDone_of_mergeChunk? (h : mergeChunk? cx included = some (m, included', warnings)) :
    ∃ s, EntriesDone cx included cx.entryFiles s ∧ m = finish cx.chunk s ∧ included' = s.included := by
  obtain ⟨s, hs, hm⟩ := reached_of_mergeChunk? h
  exact ⟨s, hs.entriesDone, hm⟩

/-- Of what the statements at the root export the merged chunk exports what stays. -/
theorem mem_exports_finish {e : String × Bound} :
    e ∈ (finish cx.chunk s).exports ↔ Stays (s.root.items.map Piece.item) e := by
  have hhoisted : ((hoistedImports s.preserved s.sideEffects).map Piece.made).flatMap
      (fun p => p.item.exports) = [] := by
    rw [List.flatMap_eq_nil_iff]
    intro p hp
    obtain ⟨i, hi, rfl⟩ := List.mem_map.1 hp
    obtain ⟨d, rfl⟩ := importDecl_of_mem_hoistedImports hi
    rfl
  rw [← mem_exports_dropRepeatedExports]
  change e ∈ (finalPieces s).flatMap (fun p => p.item.exports) ↔ _
  rw [finalPieces, List.flatMap_append, hhoisted, List.nil_append]

/-- What a chunk exports stands for its entry files, but for repeated names. -/
theorem entries_of_mergeChunk? (h : mergeChunk? cx included = some (m, included', warnings)) :
    ∃ is, Entries cx included m.names cx.entryFiles is ∧ ∀ e, e ∈ m.exports ↔ Stays is e := by
  obtain ⟨s, hdone, rfl, rfl⟩ := entriesDone_of_mergeChunk? h
  obtain ⟨is, his, hsame⟩ := hdone.entries
  exact ⟨is, his, fun e => mem_exports_finish.trans hsame.stays⟩

end Entries

end AmbientBundle.Merge
