import AmbientBundle.Proofs.Merge.EntryExports
import AmbientBundle.Proofs.Merge.Owners
/-!
The exports that stand with a declaration at the root of a merged chunk. Each of them belongs to an
entry file that was inlined as one, and stands for an export that a statement of the file makes by
itself. A declared name is exported under its final name, which the file owns; a default export
stays one.
-/
namespace AmbientBundle.Merge

open Names Syntax

section Shows

/-- What an export that a statement makes with a declaration stands under, once names are final. -/
inductive Shows (ρ : Rename.Renaming) (i : Item) (e : String × Bound) : Prop where
  | declared {id : Ident} (hid : id ∈ i.declared) (hi : (id.name, id.bound) ∈ i.directExports)
      (he : e = (ρ id.name, .here (ρ id.name))) : Shows ρ i e
  | default {b : Bound} (hi : ("default", b) ∈ i.directExports) (he : e = ("default", b.rename ρ)) :
      Shows ρ i e

variable {ρ : Rename.Renaming} {i j : Item} {e : String × Bound} {origin : Url}

theorem shows_rename (he : e ∈ (i.rename ρ).directExports) : Shows ρ i e := by
  cases i with
  | exportDecl d =>
    simp only [Item.rename, Item.directExports, Decl.bound_rename, List.map_map] at he
    obtain ⟨id, hid, rfl⟩ := List.mem_map.1 he
    exact .declared hid (List.mem_map.2 ⟨id, hid, rfl⟩) rfl
  | exportDefaultDecl d =>
    have hid := DefaultDecl.ident?_rename ρ d
    refine .default (b := (d.ident?.map Ident.bound).getD .value) List.mem_cons_self ?_
    cases hd : d.ident? <;>
      simpa [Item.rename, Item.directExports, hid, hd, Bound.rename, Ident.bound, Ident.rename]
        using he
  | exportDefaultExpr x =>
    refine .default (b := x.bound) List.mem_cons_self ?_
    cases x <;>
      simpa [Item.rename, Expr.rename, Item.directExports, Expr.bound, Bound.rename] using he
  | importEquals d =>
    cases hd : d.isExport with
    | false => simp [Item.rename, Item.directExports, hd] at he
    | true =>
      have hexport : (d.id.name, d.id.bound) ∈ (Item.importEquals d).directExports := by
        simp [Item.directExports, hd]
      refine .declared List.mem_cons_self hexport ?_
      simpa [Item.rename, Item.directExports, hd, Ident.bound, Ident.rename] using he
  | _ => cases he

/-- A promoted statement exports nothing with its declaration. -/
theorem directExports_promoted (hi : (∃ d, i = .exportDecl d) ∨ ∃ d, i = .exportDefaultDecl d) :
    (promoted origin true i).flatMap (fun j => (j.rename ρ).directExports) = [] := by
  rcases hi with ⟨d, rfl⟩ | ⟨d, rfl⟩
  · by_cases hb : d.bound = [] <;>
      simp [promoted, Exports.promote, hb, Placement.unchanged, Placement.nodes,
        Placement.ofOutcome, Placement.addAfter, Outcome.nodes, Exports.list, Item.rename,
        Item.directExports, Decl.bound_rename]
  · simp [promoted, Exports.promote, Placement.nodes, Placement.ofOutcome, Placement.addAfter,
      Outcome.nodes, Exports.list, Item.rename, Item.directExports]

variable {cx : Context} {env : Environment}

theorem shows_of_shown (hj : j ∈ shown cx origin false true env i)
    (he : e ∈ (j.rename ρ).directExports) : Shows ρ i e := by
  have hpromoted : ((∃ d, i = .exportDecl d) ∨ ∃ d, i = .exportDefaultDecl d) →
      j ∈ promoted origin true i → Shows ρ i e := by
    intro hi hj
    have hmem : e ∈ (promoted origin true i).flatMap (fun j => (j.rename ρ).directExports) :=
      List.mem_flatMap.2 ⟨j, hj, he⟩
    rw [directExports_promoted hi] at hmem
    cases hmem
  cases i with
  | exportDecl d =>
    simp only [shown, Bool.true_and] at hj
    split at hj
    · rw [List.mem_singleton.1 hj] at he
      exact shows_rename he
    · exact hpromoted (Or.inl ⟨d, rfl⟩) hj
  | exportDefaultDecl d =>
    simp only [shown, Bool.true_and] at hj
    split at hj
    · rw [List.mem_singleton.1 hj] at he
      exact shows_rename he
    · exact hpromoted (Or.inr ⟨d, rfl⟩) hj
  | exportDefaultExpr x =>
    rw [shown, if_pos rfl, List.mem_singleton] at hj
    exact shows_rename (hj ▸ he)
  | importEquals d =>
    rw [shown, if_pos rfl, List.mem_singleton] at hj
    subst hj
    exact shows_rename (i := .importEquals d) he
  | exportList d =>
    simp only [shown, Bool.true_and] at hj
    split at hj
    · rw [List.mem_singleton.1 hj] at he
      cases he
    · cases hj
  | empty | expr | decl =>
    rw [shown, plain, if_neg Bool.false_ne_true, List.mem_singleton] at hj
    subst hj
    cases he
  | importDecl | exportAll => cases hj
  | exportAssign | exportAsNamespace =>
    rw [shown, if_pos rfl, List.mem_singleton] at hj
    subst hj
    cases he

end Shows

section Owners

variable {cx : Context} {earlier : SeenSet Url} {n : Nat} {r : Role} {files : List Url} {f : Url}
  {s t : State} {y : Yield} {env : Environment} {e : String × Bound}

/-- A name of a file has a final name that the file owns, and that is reserved only if the name
itself is. -/
def OwnsName (env : Environment) (f : Url) (name : String) : Prop :=
  ∃ x, env.lookup f name = some x ∧ env.owner? x = some (.file f) ∧ (isReserved x = true → name = x)

/-- What an entry file exports with a declaration; it owns the final name unless it also imports the
declared name. -/
inductive DirectExport (cx : Context) (env : Environment) (f : Url) (e : String × Bound) : Prop where
  | declared {i : Item} {id : Ident} (hi : i ∈ cx.statements f) (hid : id ∈ i.declared)
      (hexport : (id.name, id.bound) ∈ i.directExports)
      (own : (∀ sp ∈ cx.specifiers f, sp.2.loc ≠ id.name) → OwnsName env f id.name)
      (he : e = (Rename.ofEnvironment env f id.name, .here (Rename.ofEnvironment env f id.name)))
  | default {i : Item} {b : Bound} (hi : i ∈ cx.statements f)
      (hexport : ("default", b) ∈ i.directExports)
      (he : e = ("default", b.rename (Rename.ofEnvironment env f)))

theorem OwnsName.mono {name : String} (h : OwnsName s.root.env f name) (hk : Keeps s t)
    (hg : Grows s t) : OwnsName t.root.env f name := by
  obtain ⟨x, hx, ho, hr⟩ := h
  exact ⟨x, hk.named f name x hx, hg.owner x _ ho, hr⟩

theorem DirectExport.mono (h : DirectExport cx s.root.env f e) (hk : Keeps s t) (hg : Grows s t)
    (hf : s.included.contains f = true) : DirectExport cx t.root.env f e := by
  have hρ := hk.same f hf
  cases h with
  | declared hi hid hexport own he =>
    exact .declared hi hid hexport (fun hsp => (own hsp).mono hk hg) (hρ ▸ he)
  | default hi hexport he => exact .default hi hexport (hρ ▸ he)

/-- A file that begins at the root owns its declared names, but for those that it also imports. -/
theorem ownsName_of_imports (hs : Rooted files s) (hroot : s.inBlock = false)
    (hnew : s.included.contains f = false)
    (run : Run cx n r (f :: files) ((s.addFile f).bindFile (cx.statements f) f)
      ⟨[], cx.specifiers f, []⟩ t) {i : Item} {id : Ident} (hi : i ∈ cx.statements f)
    (hid : id ∈ i.declared) (hsp : ∀ sp ∈ cx.specifiers f, sp.2.loc ≠ id.name) :
    OwnsName t.root.env f id.name := by
  have hdeclared : id ∈ (cx.statements f).flatMap Item.declared := List.mem_flatMap.2 ⟨i, hi, hid⟩
  obtain ⟨x, hx, ho⟩ := ownsDeclared_beginFile hs hroot hnew id hdeclared
  refine ⟨x, ?_, run.grows.owner x _ ho, ?_⟩
  · rw [run.lookup_root (by simp [State.addFile, SeenSet.contains_insert]), hx]
    exact fun _ _ e he => hsp e he
  · rw [State.root_beginFile_env hroot] at hx
    refine lookup_bindIdents_reserved (p := (s.root.env, OrderedMap.empty)) hs.flat ?_ hx
    intro m y hm
    rw [hs.lookup_of_new hnew] at hm
    cases hm

theorem EntryPart.shows {i j : Item} {part : List Item} (h : EntryPart cx earlier f s t i part)
    (hj : j ∈ part) (he : e ∈ j.directExports) : Shows (Rename.ofEnvironment t.root.env f) i e := by
  obtain ⟨τ, env, es, rfl, -, -, hes, -⟩ := h.inv
  rcases List.mem_append.1 hj with hj | hj
  · rw [linkItems_eq_map, renameItems_eq_map, List.map_map] at hj
    obtain ⟨j', hj', rfl⟩ := List.mem_map.1 hj
    rw [Function.comp_apply, Item.directExports_link] at he
    exact shows_of_shown hj' he
  · rw [directExports_of_isExportStatement (hes.lists j hj)] at he
    cases he

/-- What a run puts under final names for an entry file stands for the file's own exports, where it
exports with declarations. -/
theorem Run.shows (h : Run cx n r files s y t) (hr : r = .entry) (hfiles : files = [f])
    (hs : AtRoot cx earlier files [] s) (hy : y.tried = []) :
    ∀ p ∈ y.pieces, ∀ e ∈ p.item.directExports, p.owner = .file f ∧
      ∃ i ∈ y.printed, Shows (Rename.ofEnvironment t.root.env f) i e := by
  intro p hp e he
  obtain ⟨parts, hparts, hplaced⟩ := h.parts hr hfiles hs hy
  rcases hplaced.mem hp with hsilent | ⟨part, hpart, j, hj, rfl⟩
  · rw [(List.append_eq_nil_iff.1 hsilent.exports).1] at he
    cases he
  · obtain ⟨i, hi, hpart⟩ := forall₂_mem_right hparts hpart
    exact ⟨rfl, i, hi, hpart.shows hj he⟩

/-- The exports with declarations at the root are those of included entry files. -/
def ExportsOwned (cx : Context) (files : List Url) (s : State) : Prop :=
  ∀ p ∈ s.root.items, ∀ e ∈ p.item.directExports, ∃ f ∈ files, p.owner = .file f ∧
    s.included.contains f = true ∧ DirectExport cx s.root.env f e

theorem Reached.exportsOwned (h : Reached cx earlier files s) : ExportsOwned cx files s := by
  induction h with
  | start => exact fun p hp => (by cases hp)
  | @entry files s t f n before hhas h ih =>
    have run := h.run before.atRoot hhas
    have hkeeps := run.keeps before.atRoot.rooted rfl
    have hbefore : ∀ p ∈ s.root.items, ∀ e ∈ p.item.directExports, ∃ g ∈ files ++ [f],
        p.owner = .file g ∧ t.included.contains g = true ∧ DirectExport cx t.root.env g e := by
      intro p hp e he
      obtain ⟨g, hg, howner, hincluded, hexport⟩ := ih p hp e he
      exact ⟨g, by simp [hg], howner, hkeeps.included g hincluded,
        hexport.mono hkeeps run.grows hincluded⟩
    have hsilent : ∀ added, Silent added → ∀ p ∈ added, p.item.directExports = [] :=
      fun added hs p hp => (List.append_eq_nil_iff.1 (hs p hp).exports).1
    cases h with
    | again hold hc =>
      obtain ⟨added, hadded, hitems⟩ := items_of_gathered before.atRoot hhas hc
      intro p hp e he
      rw [hitems, List.mem_append, List.mem_append] at hp
      rcases hp with (hp | hp) | hp
      · exact hbefore p hp e he
      · rw [hsilent added hadded p hp] at he
        cases he
      · obtain ⟨i, hi, rfl⟩ := List.mem_map.1 hp
        rw [Piece.ofFile, directExports_of_isExportStatement (isExportStatement_of_mem_items hi)]
          at he
        cases he
    | @inlined t₁ t₂ ps hnew imports ht prints =>
      obtain ⟨added, hadded, hitems⟩ := items_of_inlined imports ht prints
      have hself : t₁.included.contains f = true := ht.rooted.begun f (List.mem_singleton_self f)
      have hprints := prints.keeps ht.rooted rfl
      intro p hp e he
      rw [hitems, List.mem_append, List.mem_append] at hp
      rcases hp with (hp | hp) | hp
      · exact hbefore p hp e he
      · rw [hsilent added hadded p hp] at he
        cases he
      · obtain ⟨howner, i, hi, hshows⟩ := prints.shows rfl rfl ht rfl p hp e he
        refine ⟨f, by simp, howner, by simpa using hprints.included f hself, ?_⟩
        rw [State.root_addItems_env]
        cases hshows with
        | declared hid hexport he =>
          refine .declared hi hid hexport (fun hsp => ?_) he
          exact (ownsName_of_imports before.atRoot.rooted before.atRoot.root hnew imports hi hid
            hsp).mono hprints prints.grows
        | default hexport he => exact .default hi hexport he

end Owners

end AmbientBundle.Merge
