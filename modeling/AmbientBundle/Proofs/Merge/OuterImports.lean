import AmbientBundle.Proofs.Merge.Imports
import AmbientBundle.Proofs.Merge.Owners
/-!
Imports from outside of a chunk. Each stays as an entry under the specifier that the chunk has for
it and the imported name, and all files of the chunk refer to its first local. The chunk's import
declarations import it from there.
-/
namespace AmbientBundle.Merge

open Names Syntax

section Hoisted

/-- The import declaration that a statement is. -/
def importDecl? : Item → Option ImportDecl
  | .importDecl d => some d
  | _ => none

/-- The statement imports the symbol from the module under a local name. -/
def ImportsAs (module : String) (imported : ImportedName) (loc : String) (i : Item) : Prop :=
  ∃ d ∈ importDecl? i, d.src.value = module ∧
    ∃ sp ∈ d.specifiers, (ofSpecifier sp).1 = loc ∧ (ofSpecifier sp).2.1 = imported

instance (module : String) (imported : ImportedName) (loc : String) :
    DecidablePred (ImportsAs module imported loc) :=
  fun i => inferInstanceAs (Decidable (∃ d ∈ importDecl? i, d.src.value = module ∧
    ∃ sp ∈ d.specifiers, (ofSpecifier sp).1 = loc ∧ (ofSpecifier sp).2.1 = imported))

/-- A name that an import has under the name of the default export is written as that one. -/
def ImportedName.WellFormed (imported : ImportedName) : Prop := imported ≠ .named "default"

theorem ImportedName.wellFormed_ofText (name : String) : (ImportedName.ofText name).WellFormed := by
  unfold ImportedName.ofText ImportedName.WellFormed
  split
  · simp
  · rename_i h
    simpa using h

theorem wellFormed_ofSpecifier (sp : ImportSpecifier) : (ofSpecifier sp).2.1.WellFormed := by
  cases sp with
  | named imported loc typeOnly => exact ImportedName.wellFormed_ofText _
  | default loc => simp [ofSpecifier, ImportedName.WellFormed]
  | all loc => simp [ofSpecifier, ImportedName.WellFormed]

theorem ImportedName.eq_of_text? {a b : ImportedName} (ha : a.WellFormed) (hb : b.WellFormed)
    (h : a.text? = b.text?) : a = b := by
  cases a <;> cases b <;> simp_all [ImportedName.text?, ImportedName.WellFormed]

theorem fst_ofSpecifier (sp : ImportSpecifier) : (ofSpecifier sp).1 = sp.loc := by
  cases sp <;> rfl

/-- The import declarations of a chunk import all symbols that stay under all their locals. -/
theorem importsAs_hoistedImports {ps : PreservedImports} {module : String}
    {imported : ImportedName} {p : Preserved} {loc : String} (run : SeenSet String)
    (himp : imported.WellFormed) (hp : ps.get? (module, imported) = some p)
    (hloc : loc ∈ p.locals) :
    ∃ i ∈ hoistedImports ps run, ImportsAs module imported loc i := by
  have hb : ⟨module, imported.text?, loc⟩ ∈ bindingsOf ps :=
    List.mem_flatMap.2 ⟨_, OrderedMap.mem_entries_of_get? hp, List.mem_map.2 ⟨loc, hloc, rfl⟩⟩
  obtain ⟨i, hi, hb⟩ := List.mem_flatMap.1
    ((perm_importBindings_hoistedImports ps run).mem_iff.2 hb)
  obtain ⟨d, rfl⟩ := importDecl_of_mem_hoistedImports hi
  obtain ⟨sp, hsp, he⟩ := List.mem_map.1 hb
  simp only [bindingOf, ImportBinding.mk.injEq] at he
  obtain ⟨hmodule, htext, hsploc⟩ := he
  exact ⟨_, hi, d, rfl, hmodule, sp, hsp, (fst_ofSpecifier sp).trans hsploc,
    ImportedName.eq_of_text? (wellFormed_ofSpecifier sp) himp htext⟩

end Hoisted

section Kept

variable {cx : Context} {n : Nat} {r : Role} {files : List Url} {s t u : State} {y : Yield}
  {f : Url} {e : ImportDecl × ImportSpecifier}

/-- Imports that stay keep their first locals. -/
def KeepsFirst (s t : State) : Prop :=
  ∀ key p, s.preserved.get? key = some p → ∃ q, t.preserved.get? key = some q ∧ q.first = p.first

theorem KeepsFirst.same (h : t.preserved = s.preserved) : KeepsFirst s t :=
  fun key p hp => ⟨p, by rw [h, hp], rfl⟩

theorem KeepsFirst.trans (h : KeepsFirst s t) (h' : KeepsFirst t u) : KeepsFirst s u := by
  intro key p hp
  obtain ⟨q, hq, hfirst⟩ := h key p hp
  obtain ⟨q', hq', hfirst'⟩ := h' key q hq
  exact ⟨q', hq', hfirst'.trans hfirst⟩

theorem KeepsFirst.keep {key : String × ImportedName} {q : Preserved}
    (h : t.preserved = s.preserved)
    (hq : ∀ p, s.preserved.get? key = some p → q.first = p.first) :
    KeepsFirst s (t.keep key q) := by
  intro key' p hp
  simp only [State.keep, OrderedMap.get?_put, h]
  split
  · rename_i he
    subst he
    exact ⟨q, rfl, hq p hp⟩
  · exact ⟨p, hp, rfl⟩

theorem Run.keepsFirst (h : Run cx n r files s y t) : KeepsFirst s t := by
  induction h with
  | nothing => exact .same rfl
  | andThen _ _ ih₁ ih₂ => exact ih₁.trans ih₂
  | warn w => exact .same rfl
  | keepRun module => exact .same rfl
  | preserve typeOnly hkey hw => exact .keep rfl (by simp [hkey])
  | preserveAgain typeOnly hkey => exact .keep rfl (by simp [hkey])
  | @aliasImport r files s x key p hf hkey =>
    have hmem : (key, p) ∈ s.preserved.entries := List.mem_of_find?_eq_some hkey
    exact .keep rfl (by simp [OrderedMap.get?_eq_some_iff.2 hmem])
  | aliasBinding hf => exact .same (by simp; rfl)
  | link _ _ _ _ _ ih => exact ih.trans (.same (by simp))
  | unlinked w _ _ _ _ ih => exact ih.trans (.same rfl)
  | print _ _ _ _ _ _ _ _ ih₁ ih₂ => exact ih₁.trans ((KeepsFirst.same (by simp)).trans ih₂)
  | inlined _ _ _ _ _ _ _ ih₁ ih₂ =>
    exact KeepsFirst.trans (.same (by simp; rfl)) (ih₁.trans (ih₂.trans (.same (by simp))))
  | atRoot _ _ ih => exact ih.trans (.same (by simp; rfl))
  | block _ _ _ _ _ _ _ _ _ ih₁ ih₂ ih₃ ih₄ =>
    refine KeepsFirst.trans (.same (by simp; rfl)) (ih₁.trans (ih₂.trans ?_))
    exact KeepsFirst.trans (.same (by simp)) (ih₃.trans ((KeepsFirst.same (by simp)).trans
      (ih₄.trans (.same (by simp)))))
  | exportAgain _ _ _ _ _ _ ih => exact ih.trans (.same (by simp))

/-- The local of an import that stays is the first one of its entry. -/
theorem preserve_first {module wanted f : String} {imported : ImportedName} {typeOnly : Bool}
    (h : preserve module imported wanted typeOnly s = some (f, t)) :
    ∃ p, t.preserved.get? (module, imported) = some p ∧ p.first = f := by
  obtain ⟨p, hkey, rfl, rfl⟩ | ⟨hkey, rfl, rfl⟩ := preserve_inv h <;>
    simp [State.keep, OrderedMap.get?_put]

/-- The import that a specifier makes stays as an entry. The specifier's local, if no other one has
it, stands for the first local of the entry. -/
def Kept (cx : Context) (s : State) (f : Url) (e : ImportDecl × ImportSpecifier) : Prop :=
  ∃ p, s.preserved.get? (cx.placeSpecifier e.1.src.value f, (ofSpecifier e.2).2.1) = some p ∧
    ((∀ e' ∈ cx.specifiers f, e'.2.loc = e.2.loc → e' = e) →
      s.root.env.lookup f e.2.loc = some p.first)

theorem Kept.mono (h : Kept cx s f e) (hp : KeepsFirst s t)
    (hl : t.root.env.lookup f e.2.loc = s.root.env.lookup f e.2.loc) : Kept cx t f e := by
  obtain ⟨p, hkey, hlocal⟩ := h
  obtain ⟨q, hq, hfirst⟩ := hp _ p hkey
  refine ⟨q, hq, fun hsole => ?_⟩
  rw [hl, hlocal hsole, hfirst]

/-- A run that links nothing for the file keeps its entries. -/
theorem Kept.run (h : Kept cx s f e) (run : Run cx n r files s y t)
    (hf : s.included.contains f = true) (hy : y.tried = [] ∨ f ∉ files) : Kept cx t f e := by
  refine h.mono run.keepsFirst (run.lookup_root hf (fun _ hh e' he' => ?_))
  rcases hy with hy | hy
  · simp [hy] at he'
  · exact absurd (List.mem_of_mem_head? hh) hy

theorem Kept.addItems (h : Kept cx s f e) (ps : List Piece) : Kept cx (s.addItems ps) f e :=
  h.mono (.same (by simp)) (by simp)

/-- The specifiers with which a run deals at the root. -/
theorem Run.kept_tried (h : Run cx n r files s y t) (hb : s.inBlock = false)
    (hhead : files.head? = some f) (hf : s.included.contains f = true) :
    ∀ e ∈ y.tried, cx.inChunk? e.1.src.value f = none → Kept cx t f e := by
  induction h with
  | @andThen r files s t u y z first second ih₁ ih₂ =>
    intro e he hout
    have hbt := first.inBlock_eq.trans hb
    have hft := first.grows.contains hf
    by_cases hagain : ∃ e' ∈ z.tried, e'.2.loc = e.2.loc
    · obtain ⟨e', he', hloc⟩ := hagain
      by_cases hsole : ∀ e' ∈ cx.specifiers f, e'.2.loc = e.2.loc → e' = e
      · obtain rfl := hsole e' (second.tried_subset hbt hhead e' he') hloc
        exact ih₂ hbt hhead hft e' he' hout
      · rcases List.mem_append.1 he with he | he
        · obtain ⟨p, hp, _⟩ := ih₁ hb hhead hf e he hout
          obtain ⟨q, hq, _⟩ := second.keepsFirst _ p hp
          exact ⟨q, hq, fun hs => absurd hs hsole⟩
        · exact ih₂ hbt hhead hft e he hout
    · rcases List.mem_append.1 he with he | he
      · refine (ih₁ hb hhead hf e he hout).mono second.keepsFirst (second.lookup_root hft ?_)
        exact fun _ _ e' he' hloc => hagain ⟨e', he', hloc⟩
      · exact ih₂ hbt hhead hft e he hout
  | @link r files s t origin d sp x hcur hsp hx run hres ih =>
    intro e he hout
    obtain rfl := Option.some.inj ((hcur.head hb).symm.trans hhead)
    rw [List.mem_singleton.1 he] at hout ⊢
    cases hres with
    | outer hin hp =>
      obtain ⟨p, hkey, hfirst⟩ := preserve_first hp
      refine ⟨p, by simpa using hkey, fun _ => ?_⟩
      rw [State.lookup_root_link_self (run.inBlock_eq.trans hb), hfirst]
    | named hin => cases hout.symm.trans hin
    | space hin => cases hout.symm.trans hin
  | @unlinked r files s t origin d sp w hcur hsp run hres ih =>
    intro e he hout
    obtain rfl := Option.some.inj ((hcur.head hb).symm.trans hhead)
    rw [List.mem_singleton.1 he] at hout
    cases hres with
    | named hin => cases hout.symm.trans hin
  | _ => simp

/-- The outer imports of every file that a run inlines at the root stay. -/
theorem Run.kept_new (h : Run cx n r files s y t) (hr : Rooted files s)
    (hnew : s.included.contains f = false) (hf : t.included.contains f = true) :
    ∀ e ∈ cx.specifiers f, cx.inChunk? e.1.src.value f = none → Kept cx t f e := by
  induction h with
  | nothing => simp [hnew] at hf
  | @andThen r files s t u y z first second ih₁ ih₂ =>
    cases hmid : t.included.contains f with
    | false => exact ih₂ (first.rooted hr) hmid hf
    | true =>
      have hfiles : f ∉ files := fun hmem => by simp [hr.begun f hmem] at hnew
      exact fun e he hout => (ih₁ hr hnew hmid e he hout).run second hmid (Or.inr hfiles)
  | warn w => exact absurd hf (by simp [State.warn, hnew])
  | keepRun module => exact absurd hf (by simp [State.keepRun, hnew])
  | preserve typeOnly hkey hw => exact absurd hf (by simp [State.keep, State.claim, hnew])
  | preserveAgain typeOnly hkey => exact absurd hf (by simp [State.keep, hnew])
  | aliasImport hf' hkey => exact absurd hf (by simp [State.keep, State.claim, hnew])
  | aliasBinding hf' => exact absurd hf (by simp [State.claim, hnew])
  | @link r files s t origin d sp x hcur _ _ run _ ih =>
    rw [State.included_link] at hf
    refine fun e he hout => (ih hr hnew hf e he hout).mono (.same (by simp)) ?_
    refine State.lookup_root_link_of_ne (fun hb heq => ?_)
    obtain rfl : origin = f := congrArg Prod.fst heq
    have hhead := hcur.head (run.inBlock_eq ▸ hb)
    simp [hr.begun origin (List.mem_of_mem_head? hhead)] at hnew
  | unlinked w _ _ _ _ ih =>
    exact fun e he hout => (ih hr hnew hf e he hout).mono (.same rfl) rfl
  | @print r files s t u origin i exports τ _ _ _ _ _ _ run links ih₁ ih₂ =>
    cases hmid : t.included.contains f with
    | false => exact ih₂ ((run.rooted hr).takeItems _) (by simpa using hmid) hf
    | true =>
      intro e he hout
      have htaken : Kept cx (t.takeItems s.scope.items.length).2 f e :=
        (ih₁ hr hnew hmid e he hout).mono (.same (by simp)) (by simp)
      exact htaken.run links (by simpa using hmid) (Or.inl rfl)
  | @inlined r q files s t u file ps hroot _ _ _ _ imports prints ih₁ ih₂ =>
    have hr₁ := hr.beginFile (cx.statements file) file
    rw [State.included_addItems] at hf
    intro e he hout
    refine Kept.addItems ?_ ps
    cases hmid : t.included.contains f with
    | false => exact ih₂ (imports.rooted hr₁) hmid hf e he hout
    | true =>
      refine Kept.run ?_ prints hmid (Or.inl rfl)
      by_cases hfile : f = file
      · subst hfile
        have hroot₁ : ((s.addFile f).bindFile (cx.statements f) f).inBlock = false :=
          (State.inBlock_begunFile _ _ _).trans hroot
        exact imports.kept_tried hroot₁ rfl (hr₁.begun f (by simp)) e he hout
      · exact ih₁ hr₁ (by simp [State.addFile, SeenSet.contains_insert, hfile, hnew]) hmid e he hout
  | atRoot _ _ ih =>
    intro e he hout
    have hf' := hf
    rw [State.included_inheritFromRoot] at hf'
    exact (ih hr.suspend hnew hf' e he hout).mono (.same (by simp; rfl)) (by simp; rfl)
  | @block r files s t u v w target wanted ps exports _ _ _ _ _ imports prints collects
      aliases ih₁ ih₂ ih₃ ih₄ =>
    have hr₁ := hr.beginBlock (cx.statements target) target (s.freshName wanted)
    obtain ⟨hr₂, hr₃, hr₄⟩ := hr.throughBlock imports prints collects
    rw [State.included_addItems] at hf
    intro e he hout
    refine Kept.addItems ?_ _
    cases hv : v.included.contains f with
    | false => exact ih₄ hr₄ (by simpa using hv) hf e he hout
    | true =>
      have hkept : Kept cx v f e := by
        cases hu : u.included.contains f with
        | false => exact ih₃ hr₃ (by simpa using hu) hv e he hout
        | true =>
          refine Kept.run ?_ collects (by simpa using hu) (Or.inl rfl)
          refine Kept.addItems ?_ _
          cases ht : t.included.contains f with
          | false => exact ih₂ hr₂ ht hu e he hout
          | true =>
            refine Kept.run ?_ prints ht (Or.inl rfl)
            exact ih₁ hr₁ (by simpa [State.claim] using hnew) ht e he hout
      have hclosed : Kept cx v.closeBlock.2 f e := hkept.mono (.same (by simp)) (by simp)
      exact hclosed.run aliases (by simpa using hv) (Or.inl rfl)
  | exportAgain _ _ _ _ _ run ih =>
    rw [State.included_addItems] at hf
    exact fun e he hout => Kept.addItems (ih hr hnew hf e he hout) _

/-- The chunk imports what a file of it imports from outside, and the file's local stands for a
local of that import. -/
theorem importsAs_of_mergeChunk? {included included' : SeenSet Url} {m : Merged}
    {warnings : List Warning} (h : mergeChunk? cx included = some (m, included', warnings))
    (hf : included'.contains f = true) (hnew : included.contains f = false)
    (he : e ∈ cx.specifiers f) (hout : cx.inChunk? e.1.src.value f = none) :
    ∃ v, (∃ p ∈ m.pieces,
      ImportsAs (cx.placeSpecifier e.1.src.value f) (ofSpecifier e.2).2.1 v p.item) ∧
      ((∀ e' ∈ cx.specifiers f, e'.2.loc = e.2.loc → e' = e) →
        Rename.ofEnvironment m.names f e.2.loc = v) := by
  obtain ⟨s, run, rfl, rfl, _⟩ := mergeChunk_run h
  obtain ⟨p, hkey, hlocal⟩ := run.kept_new (.start included) hnew hf e he hout
  obtain ⟨i, hi, himports⟩ := importsAs_hoistedImports s.sideEffects (wellFormed_ofSpecifier e.2)
    hkey (show p.first ∈ p.locals by simp [Preserved.locals])
  refine ⟨p.first, ⟨.made i, ?_, himports⟩, fun hsole => ?_⟩
  · exact List.mem_append_left _ (List.mem_map.2 ⟨i, hi, rfl⟩)
  · change (s.root.env.lookup f e.2.loc).getD e.2.loc = p.first
    rw [hlocal hsole, Option.getD_some]

end Kept

end AmbientBundle.Merge
