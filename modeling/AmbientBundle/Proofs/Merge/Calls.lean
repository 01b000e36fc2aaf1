import AmbientBundle.Proofs.Merge.Formed
import AmbientBundle.Proofs.Merge.Inversion
import AmbientBundle.Proofs.Merge.Onward
/-!
Every function of merging that succeeds is a run, and the names that it finds are forms of written
names. The proof is by induction on the depth, function by function.
-/
namespace AmbientBundle.Merge

open Names Syntax

variable {cx : Context} {n : Nat} {r : Role} {files : List Url} {s t : State}

/-- The names of the state are formed, and the given file is one of the chunk's to which all files
lead that are begun at the root. -/
structure Ready (cx : Context) (files : List Url) (file : Url) (s : State) : Prop where
  formed : FormedState cx s
  lead : cx.LeadTo files file
  has : cx.HasFile file

namespace Ready

variable {file g : Url} {y : Yield}

theorem mono (h : Ready cx files file s) (run : Run cx n r files s y t) : Ready cx files file t :=
  ⟨(run.formed h.formed).1, h.lead, h.has⟩

theorem next (h : Ready cx files file s) (hl : cx.Links file g) : Ready cx files g s :=
  ⟨h.formed, h.lead.tail hl, .linked h.has hl⟩

end Ready

theorem Current.mono {origin : Url} {y : Yield} (h : Current cx files origin s)
    (run : Run cx n r files s y t) : Current cx files origin t :=
  ⟨fun hb => h.head (run.inBlock_eq ▸ hb),
    fun hb => run.stacks.1 ▸ h.block (run.inBlock_eq ▸ hb), h.lead, h.file⟩

theorem Current.ready {origin : Url} (h : Current cx files origin s) (hs : FormedState cx s) :
    Ready cx files origin s :=
  ⟨hs, h.lead, h.file⟩

/-- A name that a file may be asked for. -/
def Asked (cx : Context) (name : String) : Prop := name = "default" ∨ cx.Writes name

theorem Asked.of_specifier {origin : Url} {d : ImportDecl} {sp : ImportSpecifier} {name : String}
    (hf : cx.HasFile origin) (hsp : (d, sp) ∈ cx.specifiers origin)
    (hname : (ofSpecifier sp).2.1.text? = some name) : Asked cx name := by
  obtain ⟨hd, hsp⟩ := Context.mem_specifiers.1 hsp
  cases himp : (ofSpecifier sp).2.1 with
  | named x =>
    simp only [himp, ImportedName.text?, Option.some.injEq] at hname
    exact Or.inr (.imported hf hd hsp (hname ▸ himp))
  | default =>
    simp only [himp, ImportedName.text?, Option.some.injEq] at hname
    exact Or.inl hname.symm
  | all => simp [himp, ImportedName.text?] at hname

section Primitives

open Step

/-- An import that is kept already stays under its first local; a new one gets a fresh local. -/
theorem preserve_inv {module wanted name : String} {imported : ImportedName} {typeOnly : Bool}
    (h : preserve module imported wanted typeOnly s = some (name, t)) :
    (∃ p, s.preserved.get? (module, imported) = some p ∧ p.first = name ∧
      s.keep (module, imported) { p with typeOnly := p.typeOnly && typeOnly } = t) ∨
    (s.preserved.get? (module, imported) = none ∧ s.freshName wanted = name ∧
      (s.claim (s.freshName wanted)).keep (module, imported)
        ⟨s.freshName wanted, [], typeOnly⟩ = t) := by
  unfold preserve at h
  obtain ⟨s₁, s₂, hg, h⟩ := bind_inv h
  obtain ⟨rfl, rfl⟩ := get_inv hg
  cases hkey : s.preserved.get? (module, imported) with
  | some p =>
    simp only [hkey] at h
    obtain ⟨_, s₃, hm, h⟩ := bind_inv h
    obtain rfl := modify_inv hm
    exact Or.inl ⟨p, rfl, pure_inv h⟩
  | none =>
    simp only [hkey] at h
    obtain ⟨loc, s₃, hc, h⟩ := bind_inv h
    obtain ⟨rfl, rfl⟩ := claimFresh_inv hc
    obtain ⟨_, s₄, hm, h⟩ := bind_inv h
    obtain rfl := modify_inv hm
    exact Or.inr ⟨rfl, pure_inv h⟩

/-- The further name is fresh. It becomes a local of the import that has the old name among its
locals, or else an alias is added to the scope. -/
theorem aliasOuter_inv {final name : String} (h : aliasOuter final s = some (name, t)) :
    s.freshName final = name ∧
      ((∃ key p, s.preserved.entries.find? (fun e => e.2.locals.contains final) = some (key, p) ∧
        (s.claim (s.freshName final)).keep key
          { p with others := p.others ++ [s.freshName final] } = t) ∨
      (s.claim (s.freshName final)).addItems [.made (aliasOf (s.freshName final) final false)] =
        t) := by
  unfold aliasOuter at h
  obtain ⟨name', s₁, hclaim, h⟩ := bind_inv h
  obtain ⟨rfl, rfl⟩ := claimFresh_inv hclaim
  obtain ⟨s₂, s₃, hg, h⟩ := bind_inv h
  obtain ⟨rfl, rfl⟩ := get_inv hg
  have hp : (s.claim (s.freshName final)).preserved = s.preserved := rfl
  cases hkey : s.preserved.entries.find? (fun e => e.2.locals.contains final) with
  | some e =>
    obtain ⟨key, p⟩ := e
    simp only [hp, hkey] at h
    obtain ⟨_, s₄, hm, h⟩ := bind_inv h
    obtain rfl := modify_inv hm
    obtain ⟨hname, ht⟩ := pure_inv h
    exact ⟨hname, Or.inl ⟨key, p, rfl, ht⟩⟩
  | none =>
    simp only [hp, hkey] at h
    obtain ⟨_, s₄, hm, h⟩ := bind_inv h
    obtain rfl := modify_inv hm
    obtain ⟨hname, ht⟩ := pure_inv h
    exact ⟨hname, Or.inr ht⟩

theorem preserve_run {module wanted name : String} {imported : ImportedName} {typeOnly : Bool}
    (hs : FormedState cx s) (hw : cx.Formed wanted) (hout : cx.TakesOut (module, imported) typeOnly)
    (h : preserve module imported wanted typeOnly s = some (name, t)) :
    Run cx n r files s ∅ t ∧ cx.Formed name := by
  obtain ⟨p, hkey, rfl, rfl⟩ | ⟨hkey, rfl, rfl⟩ := preserve_inv h
  · refine ⟨.preserveAgain _ hkey ?_, ?_⟩
    · cases typeOnly with
      | true => exact Or.inl (Bool.and_true _)
      | false => exact Or.inr (by rwa [Bool.and_false])
    · exact hs.locals _ (OrderedMap.mem_entries_of_get? hkey) _ (by simp [Preserved.locals])
  · exact ⟨.preserve typeOnly hkey hw hout, Context.formed_fresh hw _⟩

theorem aliasOuter_run {final name : String} (hf : cx.Formed final)
    (h : aliasOuter final s = some (name, t)) : Run cx n r files s ∅ t := by
  obtain ⟨-, ⟨key, p, hkey, rfl⟩ | rfl⟩ := aliasOuter_inv h
  · exact .aliasImport hf hkey
  · exact .aliasBinding hf

/-- A name that something is named again by stays that. -/
theorem NamedAgain.mono {s' t' : State} {x y : String} (h : NamedAgain s t x y)
    (hs : Onward s' s) (hg : Grows s' s) (ht : Onward t t') (hg' : Grows t t') :
    NamedAgain s' t' x y := by
  refine ⟨?_, hg'.owner _ _ h.claimed, ?_⟩
  · cases ho : s'.root.env.owner? y with
    | none => rfl
    | some o => exact absurd (h.new.symm.trans (hg.owner y o ho)) (by simp)
  · refine h.bound.imp ?_ (ht.imports x y)
    rintro ⟨ps, hps, hmem⟩
    obtain ⟨as, has⟩ := hs.items
    obtain ⟨bs, hbs⟩ := ht.items
    exact ⟨as ++ ps ++ bs, by rw [← hbs, hps, ← has]; simp, by simp [hmem]⟩

theorem ExportOf.mono {members : List String} {s t t' : State} {a e : String × String}
    (h : ExportOf members s t a e) (ht : Onward t t') (hg : Grows t t') :
    ExportOf members s t' a e := by
  cases h with
  | same he hm => exact .same he hm
  | renamed ha hm he again => exact .renamed ha hm he (again.mono (.refl s) (.refl s) ht hg)

/-- There is an alias behind the statements of the scope then, unless the binding is an import. -/
theorem aliasOuter_renames {final name : String} (h : aliasOuter final s = some (name, t)) :
    NamedAgain s t final name := by
  obtain ⟨rfl, ⟨key, p, hkey, rfl⟩ | rfl⟩ := aliasOuter_inv h
  · have hlocal : final ∈ p.locals := by simpa using List.find?_some hkey
    have hentry : (key, { p with others := p.others ++ [s.freshName final] }) ∈
        ((s.claim (s.freshName final)).keep key
          { p with others := p.others ++ [s.freshName final] }).preserved.entries := by
      refine OrderedMap.mem_entries_of_get? ?_
      rw [State.keep, OrderedMap.get?_put, if_pos rfl]
    refine ⟨s.owner?_freshName final, s.owner?_claim_freshName final, Or.inr ⟨_, hentry, ?_, ?_⟩⟩
    · simp only [Preserved.locals, List.mem_cons, List.mem_append] at hlocal ⊢
      tauto
    · simp [Preserved.locals]
  · refine ⟨s.owner?_freshName final, ?_, Or.inl ⟨_, ?_, List.mem_singleton_self _⟩⟩
    · rw [State.root_addItems_env]
      exact s.owner?_claim_freshName final
    · rw [State.items_addItems, State.items_claim]

theorem FormedState.space? {target : Url} {name : String} (h : FormedState cx s)
    (hn : s.space? target = some name) : cx.Formed name := by
  unfold State.space? at hn
  cases hf : s.nested.findSome? (fun b => b.scope.spaces.get? target) with
  | some name' =>
    simp only [hf, Option.some_or, Option.some.injEq] at hn
    subst hn
    obtain ⟨b, hb, hg⟩ := List.exists_of_findSome?_eq_some hf
    have hc := h.scopes b.scope (by
      simp only [State.scopes, State.blocks, List.mem_cons, List.mem_map, List.mem_append]
      exact Or.inr ⟨b, Or.inl hb, rfl⟩)
    exact hc.spaces _ (OrderedMap.mem_entries_of_get? hg)
  | none =>
    simp only [hf, Option.none_or] at hn
    exact (h.scopes s.root (by simp [State.scopes])).spaces _ (OrderedMap.mem_entries_of_get? hn)

/-- The local of a specifier is the one that it binds. -/
theorem ofSpecifier_loc (sp : ImportSpecifier) : (ofSpecifier sp).1 = sp.loc := by
  cases sp <;> rfl

end Primitives

/-- What a successful call with depth `n` does, for each function of merging. -/
structure Calls (cx : Context) (n : Nat) : Prop where
  includeFile {r role : Role} {files : List Url} {file : Url} {s t : State} {u : Unit}
      (hs : Ready cx files file s)
      (hrole : role = .entry → s.inBlock = false ∧ r = .entry ∧ files = [])
      (h : includeFile cx n file role s = some (u, t)) :
      Run cx n r files s ∅ t ∧ (s.inBlock = false → t.included.contains file = true)
  includeAtRoot {r : Role} {files : List Url} {file : Url} {s t : State} {u : Unit}
      (hs : Ready cx files file s) (hblock : s.inBlock = true)
      (h : includeAtRoot cx n file .dependency s = some (u, t)) : Run cx n r files s ∅ t
  inlineFile {role : Role} {files : List Url} {file : Url} {s t : State} {u : Unit}
      (hs : FormedState cx s) (hcur : Current cx files file s)
      (h : inlineFile cx n file role s = some (u, t)) : ∃ t₁ t₂ ps,
        Run cx n role files (s.bindFile (cx.statements file) file)
          ⟨[], cx.specifiers file, []⟩ t₁ ∧
        Run cx n role files t₁ ⟨ps, [], cx.statements file⟩ t₂ ∧ t₂.addItems ps = t
  mergeFile {role : Role} {files : List Url} {file : Url} {s t : State} {ps : List Piece}
      (hs : FormedState cx s) (hcur : Current cx files file s)
      (h : mergeFile cx n file role s = some (ps, t)) : ∃ t₁,
        Run cx n role files (s.bindFile (cx.statements file) file)
          ⟨[], cx.specifiers file, []⟩ t₁ ∧
        Run cx n role files t₁ ⟨ps, [], cx.statements file⟩ t
  mergeItem {role : Role} {files : List Url} {origin : Url} {i : Item} {s t : State}
      {ps : List Piece} (hs : FormedState cx s) (hcur : Current cx files origin s)
      (hi : i ∈ cx.statements origin) (hinc : ReexportsIncluded cx origin i s)
      (h : mergeItem cx n origin role i s = some (ps, t)) : Run cx n role files s ⟨ps, [], [i]⟩ t
  reexport {r : Role} {files : List Url} {origin : Url} {i : Item} {s t : State} {es : List Item}
      (hs : Ready cx files origin s) (hi : i ∈ cx.statements origin)
      (h : reexport cx n origin i s = some (es, t)) :
      Run cx n r files s ∅ t ∧ ∀ e ∈ es, isExportStatement e = true
  mergeImport {r : Role} {files : List Url} {origin : Url} {d : ImportDecl} {s t : State} {u : Unit}
      (hs : FormedState cx s) (hcur : Current cx files origin s) (hd : d ∈ cx.imports origin)
      (h : mergeImport cx n origin d s = some (u, t)) :
      Run cx n r files s ⟨[], d.specifiers.map (d, ·), []⟩ t
  mergeReexport {r : Role} {files : List Url} {origin : Url} {d : ExportList} {src : StrLit}
      {s t : State} {es : List Item} (hs : Ready cx files origin s)
      (hd : .exportList d ∈ cx.statements origin) (hsrc : d.src = some src)
      (h : mergeReexport cx n origin d src.value s = some (es, t)) :
      Run cx n r files s ∅ t ∧ ∀ e ∈ es, isExportStatement e = true
  mergeStar {r : Role} {files : List Url} {origin : Url} {d : ExportAll} {s t : State}
      {es : List Item} (hs : Ready cx files origin s) (hd : .exportAll d ∈ cx.statements origin)
      (h : mergeStar cx n origin d.src.value s = some (es, t)) :
      Run cx n r files s ∅ t ∧ ∀ e ∈ es, isExportStatement e = true
  exportAgain {file : Url} {s t : State} {u : Unit} (hs : Ready cx [] file s)
      (hroot : s.inBlock = false) (hold : s.included.contains file = true)
      (h : exportAgain cx n file s = some (u, t)) : Run cx n .entry [] s ∅ t
  resolveExport {r : Role} {files : List Url} {target : Url} {name : String} {v v' : Visited}
      {s t : State} {found : Option String} (hs : Ready cx files target s) (hname : Asked cx name)
      (h : resolveExport cx n target name v s = some ((found, v'), t)) :
      Run cx n r files s ∅ t ∧ ∀ f, found = some f → cx.Formed f
  resolveInStars {r : Role} {files : List Url} {target : Url} {name : String} {v v' : Visited}
      {s t : State} {found : Option String} (hs : Ready cx files target s)
      (hname : cx.Writes name)
      (h : resolveInStars cx n target name v s = some ((found, v'), t)) :
      Run cx n r files s ∅ t ∧ ∀ f, found = some f → cx.Formed f
  collect {r : Role} {files : List Url} {target : Url} {withDefault : Bool} {c c' : Collected}
      {s t : State} (hs : Ready cx files target s) (hc : ∀ e ∈ c.names, cx.Formed e.2)
      (h : collect cx n target withDefault c s = some (c', t)) :
      Run cx n r files s ∅ t ∧ ∀ e ∈ c'.names, cx.Formed e.2
  ensureSpace {r : Role} {files : List Url} {target : Url} {wanted name : String} {s t : State}
      (hs : Ready cx files target s) (hw : cx.Formed wanted)
      (h : ensureSpace cx n target wanted s = some (name, t)) :
      Run cx n r files s ∅ t ∧ cx.Formed name ∧
        (s.space? target = some name ∨ t.root.env.owner? name = some .chunk) ∧
          (s.inBlock = false → t.root.spaces.get? target = some name)
  linkTypes {r : Role} {files : List Url} {origin : Url} {items linked : List Item} {s t : State}
      (hs : Ready cx files origin s)
      (hkeys : ∀ key ∈ collectItems ImportTypes.pickKey items,
        key ∈ collectItems ImportTypes.pickKey (cx.statements origin))
      (h : linkTypes cx n origin items s = some (linked, t)) :
      Run cx n r files s ∅ t ∧
        ∃ k < n, ∃ τ, TypeLinks cx k origin items s τ t ∧ linkItems τ items = linked

namespace Calls

open Step

theorem zero : Calls cx 0 := by
  constructor <;> intros <;> rename_i h <;> exact (failure_inv h).elim

theorem includeAtRoot_succ (ih : Calls cx n) {file : Url} {u : Unit} (hs : Ready cx files file s)
    (hblock : s.inBlock = true)
    (h : Merge.includeAtRoot cx (n + 1) file .dependency s = some (u, t)) :
    Run cx (n + 1) r files s ∅ t := by
  obtain ⟨s₁, hinc, rfl⟩ := includeAtRoot_inv h
  have hready : Ready cx files file s.suspend := ⟨hs.formed.suspend, hs.lead, hs.has⟩
  have run := (ih.includeFile (r := .dependency) hready (by simp) hinc).1
  exact .atRoot hblock (run.mono (Nat.le_succ n))

theorem includeFile_succ (ih : Calls cx n) {role : Role} {file : Url} {u : Unit}
    (hs : Ready cx files file s)
    (hrole : role = .entry → s.inBlock = false ∧ r = .entry ∧ files = [])
    (h : Merge.includeFile cx (n + 1) file role s = some (u, t)) :
    Run cx (n + 1) r files s ∅ t ∧ (s.inBlock = false → t.included.contains file = true) := by
  cases includeFile_inv h with
  | opened hb _ => exact ⟨.nothing, by simp [hb]⟩
  | atRoot hb h =>
    obtain rfl : role = .dependency := by
      cases role with
      | entry => exact absurd (hrole rfl).1 (by simp [hb])
      | dependency => rfl
    exact ⟨(ih.includeAtRoot hs hb h).mono (Nat.le_succ n), by simp [hb]⟩
  | present _ hold _ => exact ⟨.nothing, fun _ => hold⟩
  | again hb hold he h =>
    obtain ⟨_, rfl, rfl⟩ := hrole he
    have run := (ih.exportAgain hs hb hold h).mono (Nat.le_succ n)
    exact ⟨run, fun _ => run.grows.contains hold⟩
  | inlined hb hnew h =>
    have hcur : Current cx (file :: files) file (s.addFile file) :=
      ⟨fun _ => rfl, fun hb' => absurd (hb.symm.trans hb') (by simp), hs.lead.cons, hs.has⟩
    have hform : FormedState cx (s.addFile file) :=
      hs.formed.congr (List.Subset.refl _) rfl
    obtain ⟨t₁, t₂, ps, himports, hprints, rfl⟩ := ih.inlineFile hform hcur h
    have run : Run cx (n + 1) r files s ∅ (t₂.addItems ps) :=
      .inlined hb hnew hs.has hs.lead (fun he => (hrole he).2) (himports.mono (Nat.le_succ n))
        (hprints.mono (Nat.le_succ n))
    refine ⟨run, fun _ => ?_⟩
    rw [State.included_addItems]
    refine (himports.grows.trans hprints.grows).contains ?_
    simp [State.addFile, SeenSet.contains_insert]

theorem inlineFile_succ (ih : Calls cx n) {role : Role} {file : Url} {u : Unit}
    (hs : FormedState cx s) (hcur : Current cx files file s)
    (h : Merge.inlineFile cx (n + 1) file role s = some (u, t)) : ∃ t₁ t₂ ps,
      Run cx (n + 1) role files (s.bindFile (cx.statements file) file)
        ⟨[], cx.specifiers file, []⟩ t₁ ∧
      Run cx (n + 1) role files t₁ ⟨ps, [], cx.statements file⟩ t₂ ∧ t₂.addItems ps = t := by
  unfold Merge.inlineFile at h
  cases hm : cx.files.get? file with
  | none =>
    simp only [hm] at h
    obtain rfl := modify_inv h
    have hbody : cx.body file = [] := Context.body_of_none hm
    have hst : cx.statements file = [] := by simp [Context.statements, hbody]
    have hsp : cx.specifiers file = [] := by simp [Context.specifiers, Context.imports, hbody]
    rw [hst, hsp, State.bindFile_nil]
    exact ⟨_, _, [], .warn _, .nothing, State.addItems_nil _⟩
  | some m =>
    simp only [hm] at h
    obtain ⟨ps, s₁, hmerge, h⟩ := bind_inv h
    obtain rfl := modify_inv h
    obtain ⟨t₁, himports, hprints⟩ := ih.mergeFile hs hcur hmerge
    exact ⟨t₁, s₁, ps, himports.mono (Nat.le_succ n), hprints.mono (Nat.le_succ n), rfl⟩

/-- A statement that exports names from a file of the chunk links to that file. -/
theorem links_of_reexportSource? {origin file : Url} {i : Item} {src : String}
    (hi : i ∈ cx.statements origin) (hsrc : reexportSource? i = some src)
    (hin : cx.inChunk? src origin = some file) : cx.Links origin file := by
  cases i with
  | exportList d =>
    simp only [reexportSource?] at hsrc
    split at hsrc
    · cases hsrc
    · rename_i hall
      obtain ⟨lit, hlit, rfl⟩ := Option.map_eq_some_iff.1 hsrc
      cases hsp : d.specifiers with
      | nil => simp [hsp] at hall
      | cons sp sps =>
        obtain ⟨e, he, hof⟩ := Context.mem_exports_of_specifier hi hlit
          (show sp ∈ d.specifiers by simp [hsp])
        refine .exported he ?_ hin
        cases sp with
        | named orig exported typeOnly =>
          cases hof
          rfl
        | all name =>
          cases hof
          rfl
  | exportAll d =>
    cases hsrc
    exact .exported (Context.mem_exports_of_star hi) rfl hin
  | _ => cases hsrc

theorem imports_run (ih : Calls cx n) {file : Url} {u : Unit} (hs : FormedState cx s)
    (hcur : Current cx files file s)
    (h : (cx.imports file).forM (Merge.mergeImport cx n file) s = some (u, t)) :
    Run cx n r files s ⟨[], cx.specifiers file, []⟩ t := by
  refine forM_inv (fun done s' => Run cx n r files s
    ⟨[], done.flatMap (fun d => d.specifiers.map (d, ·)), []⟩ s') h .nothing ?_
  intro done d s₁ s₂ _ hd run hstep
  have hd' := ih.mergeImport (r := r) (run.formed hs).1 (hcur.mono run) hd hstep
  rw [List.flatMap_append, List.flatMap_singleton]
  exact run.andThen hd'

/-- The files from which a file exports names are included behind its imports. -/
theorem includes_run (ih : Calls cx n) {file : Url} {u : Unit} (hs : FormedState cx s)
    (hcur : Current cx files file s)
    (h : (((cx.statements file).filterMap reexportSource?).forM (fun src =>
      match cx.inChunk? src file with
      | some target => Merge.includeFile cx n target .dependency
      | none => pure ()) : Step Unit) s = some (u, t)) :
    Run cx n r files s ∅ t ∧ ∀ i ∈ cx.statements file, ReexportsIncluded cx file i t := by
  suffices H : Run cx n r files s ∅ t ∧ ∀ src ∈ (cx.statements file).filterMap reexportSource?,
      ∀ target, t.inBlock = false → cx.inChunk? src file = some target →
        t.included.contains target = true by
    refine ⟨H.1, fun i hi src target hb hsrc hin => ?_⟩
    exact H.2 src (List.mem_filterMap.2 ⟨i, hi, hsrc⟩) target hb hin
  refine forM_inv (fun done s' => Run cx n r files s ∅ s' ∧ ∀ src ∈ done, ∀ target,
    s'.inBlock = false → cx.inChunk? src file = some target →
      s'.included.contains target = true) h ⟨.nothing, by simp⟩ ?_
  rintro done src s₁ s₂ _ hsrc ⟨run, hdone⟩ hstep
  obtain ⟨i, hi, hisrc⟩ := List.mem_filterMap.1 hsrc
  cases hin : cx.inChunk? src file with
  | none =>
    simp only [hin] at hstep
    obtain ⟨_, rfl⟩ := pure_inv hstep
    refine ⟨run, fun src' hsrc' target hb hin' => ?_⟩
    rcases List.mem_append.1 hsrc' with hsrc' | hsrc'
    · exact hdone src' hsrc' target hb hin'
    · rw [List.mem_singleton.1 hsrc', hin] at hin'
      cases hin'
  | some target =>
    simp only [hin] at hstep
    have hready := ((hcur.ready hs).mono run).next (links_of_reexportSource? hi hisrc hin)
    obtain ⟨run', hincluded⟩ := ih.includeFile (r := r) hready (by simp) hstep
    refine ⟨run.after run', fun src' hsrc' target' hb hin' => ?_⟩
    rcases List.mem_append.1 hsrc' with hsrc' | hsrc'
    · exact run'.grows.contains (hdone src' hsrc' target' (run'.inBlock_eq ▸ hb) hin')
    · rw [List.mem_singleton.1 hsrc', hin] at hin'
      obtain rfl := Option.some.inj hin'
      exact hincluded (run'.inBlock_eq ▸ hb)

theorem items_run (ih : Calls cx n) {role : Role} {file : Url} {merged : List (List Piece)}
    (hs : FormedState cx s) (hcur : Current cx files file s)
    (hinc : ∀ i ∈ cx.statements file, ReexportsIncluded cx file i s)
    (h : (cx.statements file).mapM (fun i => Merge.mergeItem cx n file role i) s =
      some (merged, t)) :
    Run cx n role files s ⟨merged.flatten, [], cx.statements file⟩ t := by
  refine mapM_inv (fun done outs s' => Run cx n role files s ⟨outs.flatten, [], done⟩ s')
    h .nothing ?_
  intro done outs i ps s₁ s₂ hi run hstep
  have hinc₁ : ReexportsIncluded cx file i s₁ := fun src target hb hsrc hin =>
    run.grows.contains (hinc i hi src target (run.inBlock_eq ▸ hb) hsrc hin)
  have hitem := ih.mergeItem (run.formed hs).1 (hcur.mono run) hi hinc₁ hstep
  rw [List.flatten_append, List.flatten_singleton]
  exact run.andThen hitem

theorem mergeFile_succ (ih : Calls cx n) {role : Role} {file : Url} {ps : List Piece}
    (hs : FormedState cx s) (hcur : Current cx files file s)
    (h : Merge.mergeFile cx (n + 1) file role s = some (ps, t)) : ∃ t₁,
      Run cx (n + 1) role files (s.bindFile (cx.statements file) file)
        ⟨[], cx.specifiers file, []⟩ t₁ ∧
      Run cx (n + 1) role files t₁ ⟨ps, [], cx.statements file⟩ t := by
  unfold Merge.mergeFile at h
  obtain ⟨_, s₁, hbind, h⟩ := bind_inv h
  obtain rfl := modify_inv hbind
  obtain ⟨_, s₂, himports, h⟩ := bind_inv h
  obtain ⟨_, s₃, hincludes, h⟩ := bind_inv h
  obtain ⟨merged, s₄, hitems, h⟩ := bind_inv h
  obtain ⟨rfl, rfl⟩ := pure_inv h
  have hcur₁ : Current cx files file (s.bindFile (cx.statements file) file) :=
    ⟨fun hb => hcur.head (by simpa [State.inBlock_eq] using hb),
      fun hb => by simpa using hcur.block (by simpa [State.inBlock_eq] using hb),
      hcur.lead, hcur.file⟩
  have run₁ := ih.imports_run (r := role) (hs.bindFile hcur.file) hcur₁ himports
  have hs₂ := (run₁.formed (hs.bindFile hcur.file)).1
  have hcur₂ := hcur₁.mono run₁
  obtain ⟨run₂, hincluded⟩ := ih.includes_run (r := role) hs₂ hcur₂ hincludes
  have run₃ := ih.items_run (run₂.formed hs₂).1 (hcur₂.mono run₂) hincluded hitems
  exact ⟨s₂, run₁.mono (Nat.le_succ n), (run₂.before run₃).mono (Nat.le_succ n)⟩

theorem mergeItem_succ (ih : Calls cx n) {role : Role} {origin : Url} {i : Item}
    {ps : List Piece} (hs : FormedState cx s) (hcur : Current cx files origin s)
    (hi : i ∈ cx.statements origin) (hinc : ReexportsIncluded cx origin i s)
    (h : Merge.mergeItem cx (n + 1) origin role i s = some (ps, t)) :
    Run cx (n + 1) role files s ⟨ps, [], [i]⟩ t := by
  unfold Merge.mergeItem at h
  obtain ⟨s₁, s₂, hg, h⟩ := bind_inv h
  obtain ⟨rfl, rfl⟩ := get_inv hg
  obtain ⟨exports, s₃, hx, h⟩ := ite_bind_inv h
  obtain ⟨synthesized, s₄, htake, h⟩ := bind_inv h
  obtain ⟨rfl, rfl⟩ := modifyGet_inv htake
  obtain ⟨s₅, s₆, hg, h⟩ := bind_inv h
  obtain ⟨rfl, rfl⟩ := get_inv hg
  obtain ⟨nodes, s₇, hlink, h⟩ := bind_inv h
  obtain ⟨rfl, rfl⟩ := pure_inv h
  have hexports : Run cx n role files s ∅ s₃ ∧ (∀ e ∈ exports, isExportStatement e = true) ∧
      ((keepsExports role s = true ∧ ∃ k < n + 1, Merge.reexport cx k origin i s = some (exports, s₃)) ∨
        (keepsExports role s = false ∧ exports = [] ∧ s₃ = s)) := by
    cases hkeep : keepsExports role s with
    | true =>
      rw [hkeep, if_pos rfl] at hx
      obtain ⟨run, hexp⟩ := ih.reexport (r := role) (hcur.ready hs) hi hx
      exact ⟨run, hexp, Or.inl ⟨rfl, n, Nat.lt_succ_self n, hx⟩⟩
    | false =>
      rw [hkeep, if_neg (by simp)] at hx
      obtain ⟨rfl, rfl⟩ := pure_inv hx
      exact ⟨.nothing, by simp, Or.inr ⟨rfl, rfl, rfl⟩⟩
  obtain ⟨run, hexp, hx'⟩ := hexports
  have henv : (s₃.takeItems s.scope.items.length).2.scope.env = s₃.scope.env := by
    unfold State.takeItems State.onScope State.scope
    cases s₃.nested <;> rfl
  rw [henv] at hlink
  have hready : Ready cx files origin (s₃.takeItems s.scope.items.length).2 :=
    ⟨(run.formed hs).1.takeItems _, hcur.lead, hcur.file⟩
  have hkeys (key : ImportTypeKey) := @keys_rename_shown cx origin s.inBlock (keepsExports role s)
    s.scope.env (Rename.ofEnvironment s₃.scope.env origin) i key
  obtain ⟨run', k, hk, τ, hlinks, rfl⟩ := ih.linkTypes (r := role) hready
    (fun key hkey => mem_collectItems.2 ⟨i, hi, hkeys key hkey⟩) hlink
  exact .print hcur hi hinc hx' hexp ⟨k, by omega, hlinks⟩ (run.mono (Nat.le_succ n))
    (run'.mono (Nat.le_succ n))

end Calls

end AmbientBundle.Merge
