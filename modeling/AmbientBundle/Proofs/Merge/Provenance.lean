import AmbientBundle.Proofs.Merge.Moves
import AmbientBundle.Proofs.Merge.OuterImports
import AmbientBundle.Proofs.Merge.StarOrder
/-!
Where the statements of a chunk may come from. Each stands for a statement of a file of the chunk, or
exports what such a file exports, or is made up: an import from outside, an alias, or a namespace
block, whose statements come from somewhere in the same sense.
-/
namespace AmbientBundle.Merge

open ImportTypes Names Step Syntax

namespace Context

variable (cx : Context)

/-- A name that the chunk makes up: a form of a written one, and no reserved word. -/
structure Coined (name : String) : Prop where
  formed : cx.Formed name
  unreserved : isReserved name = false

/-- Whatever the chunk's files take from the module outside they take as a type. -/
def TakesTypes (module : String) : Prop :=
  ∀ imported isType, cx.TakesOut (module, imported) isType → isType = true

variable {cx}

theorem coined_freshName {wanted : String} (h : cx.Formed wanted) (s : State) :
    cx.Coined (s.freshName wanted) :=
  ⟨formed_fresh h _, isReserved_fresh _ _⟩

theorem HasFile.within {g h : Url} (hg : cx.HasFile g) (hw : cx.Within g h) : cx.HasFile h := by
  induction hw with
  | refl => exact hg
  | tail _ hstar ih =>
    obtain ⟨src, hs, hin⟩ := hstar
    exact .linked ih (.exported hs rfl hin)

end Context

variable {cx : Context} {included : SeenSet Url}

/-- At a moment of merging nothing is found for an export of the file. -/
def Missed (cx : Context) (included : SeenSet Url) (file : Url) (name : String) : Prop :=
  ∃ (c : Moment) (n : Nat) (v : Visited) (t : State), Moves cx (.start included) c ∧
    resolveExport cx n file name [] c.state = some ((none, v), t)

/-- What takes the place of the import types of a file that have the given key. -/
inductive LinkOf (cx : Context) (included : SeenSet Url) (g : Url) (key : ImportTypeKey) :
    Option Target → Prop where
  | outside (hout : cx.inChunk? key.specifier g = none) :
      LinkOf cx included g key (some (.specifier (cx.placeSpecifier key.specifier g)))
  | inside {file : Url} {f : String} (hin : cx.inChunk? key.specifier g = some file)
      (hf : cx.Formed f) : LinkOf cx included g key (some (.binding f))
  | missed {file : Url} {head : String} (hin : cx.inChunk? key.specifier g = some file)
      (hhead : key.head = some head) (hm : Missed cx included file head) :
      LinkOf cx included g key none

/-- `Derived cx included scope p`: merging may put `p` at the root of the chunk's file, or into a
namespace block for a file where `scope` is that file. -/
inductive Derived (cx : Context) (included : SeenSet Url) : Option Url → Piece → Prop where
  /-- A statement of a file, under final names. -/
  | shown {scope : Option Url} {g : Url} {i j : Item} {keep : Bool} {env : Environment}
      {ρ : Rename.Renaming} {τ : Targets} (hg : cx.HasFile g) (hi : i ∈ cx.statements g)
      (hscope : ∀ T ∈ scope, T = g ∧ keep = false)
      (hj : j ∈ shown cx g scope.isSome keep env i) (hρ : ∀ x, ρ x = x ∨ cx.FinalFor (g, x) (ρ x))
      (hτ : ∀ key ∈ (j.rename ρ).collect pickKey, LinkOf cx included g key (τ key))
      (hbind : ∀ key x, τ key = some (.binding x) → cx.Formed x) :
      Derived cx included scope (.ofFile g ((j.rename ρ).link τ))
  /-- An export list of a file that leads out of the chunk. -/
  | handed {g : Url} {d : ExportList} {src : StrLit} (hg : cx.HasFile g)
      (hd : .exportList d ∈ cx.statements g) (hsrc : d.src = some src)
      (hout : cx.inChunk? src.value g = none) : Derived cx included none
        (.ofFile g (.exportList { d with src := some (.made (cx.placeSpecifier src.value g)) }))
  /-- Names that are exported from another file of the chunk, or once more. -/
  | listed {g : Url} {specifiers : List ExportSpecifier}
      (h : ∀ sp ∈ specifiers, ∃ f name, cx.Formed f ∧ cx.Writes name ∧
        sp = Exports.specifier f name) :
      Derived cx included none (.ofFile g (Exports.list specifiers))
  /-- A star that leads out of the chunk, of a file or of one to which its stars lead. -/
  | star {g h : Url} {src : String} (hh : cx.HasFile h) (hs : .all src ∈ cx.exports h)
      (hout : cx.inChunk? src h = none) :
      Derived cx included none (.ofFile g (starOf (cx.placeSpecifier src h)))
  /-- What is left of an export list when repeated names are dropped. -/
  | narrowed {g : Url} {d : ExportList} {specifiers : List ExportSpecifier}
      (h : Derived cx included none (.ofFile g (.exportList d)))
      (hsub : specifiers ⊆ d.specifiers) :
      Derived cx included none (.ofFile g (.exportList { d with specifiers := specifiers }))
  /-- Imports from a module outside of the chunk. -/
  | imported {specifiers : List ImportSpecifier} {module : String} {typeOnly : Bool}
      (h : ∀ sp ∈ specifiers, cx.Coined sp.loc ∧
        ∃ imported isType, cx.TakesOut (module, imported) isType ∧ SpecifierOf imported sp)
      (hnone : specifiers = [] → cx.RunsOut module)
      (htypes : cx.TakesTypes module →
        typeOnly = true ∨ specifiers = [] ∨ ∃ loc, .default loc ∈ specifiers) :
      Derived cx included none (.made (importOf specifiers module typeOnly))
  /-- Another name for a binding. -/
  | aliased {scope : Option Url} {name target : String} (hname : cx.Coined name)
      (ht : cx.Formed target) : Derived cx included scope (.made (aliasOf name target false))
  /-- A namespace block for a file of the chunk. -/
  | block {scope : Option Url} {T : Url} {name : String} {body : List Piece}
      {exports : List (String × String)} (hT : cx.HasFile T) (hname : cx.Coined name)
      (hbody : ∀ p ∈ body, Derived cx included (some T) p)
      (hexports : ∀ e ∈ exports, cx.Writes e.1 ∧ cx.Formed e.2) :
      Derived cx included scope
        (.made (spaceOf scope.isNone name (exportMembers (body.map Piece.item) exports)))

/-- An export list is one of a file. -/
theorem Derived.file_of_exportList {scope : Option Url} {o : Owner} {d : ExportList}
    (h : Derived cx included scope ⟨o, .exportList d⟩) : ∃ g, o = .file g := by
  generalize hp : (⟨o, .exportList d⟩ : Piece) = p at h
  have ho : o = p.owner := congrArg Piece.owner hp
  cases h with
  | imported => cases hp
  | aliased => cases hp
  | block => cases hp
  | _ => exact ⟨_, ho⟩

section Links

variable {n : Nat} {files : List Url} {origin : Url} {items : List Item} {τ : Targets} {s t : State}
  {ps : List Pause}

/-- Of the keys that are done each has its target, or it is missed; and nothing else is put. -/
structure KeysDone (cx : Context) (included : SeenSet Url) (g : Url) (done : List ImportTypeKey)
    (ts : OrderedMap ImportTypeKey Target) : Prop where
  found : ∀ key target, ts.get? key = some target → LinkOf cx included g key (some target)
  missed : ∀ key ∈ done, ts.get? key = none → LinkOf cx included g key none

namespace KeysDone

variable {g : Url} {done : List ImportTypeKey} {ts : OrderedMap ImportTypeKey Target}
  {key : ImportTypeKey}

theorem put (h : KeysDone cx included g done ts) {target : Target}
    (hl : LinkOf cx included g key (some target)) :
    KeysDone cx included g (done ++ [key]) (ts.put key target) := by
  have hput := OrderedMap.Answered.put ⟨h.found, h.missed⟩ hl
  exact ⟨hput.found, hput.missed⟩

theorem miss (h : KeysDone cx included g done ts) (hl : LinkOf cx included g key none) :
    KeysDone cx included g (done ++ [key]) ts := by
  have hmiss := OrderedMap.Answered.miss ⟨h.found, h.missed⟩ hl
  exact ⟨hmiss.found, hmiss.missed⟩

end KeysDone

/-- The targets that are found for import types are what has to take their place, and there are no
others. -/
theorem TypeLinks.linkOf (h : TypeLinks cx n origin items s τ t) (hs : Ready cx files origin s)
    (hmoves : Moves cx (.start included) ⟨s, ps⟩)
    (hkeys : ∀ key ∈ collectItems pickKey items, key ∈ collectItems pickKey (cx.statements origin)) :
    (∀ key ∈ collectItems pickKey items, LinkOf cx included origin key (τ key)) ∧
      ∀ key x, τ key = some (.binding x) → cx.Formed x := by
  obtain ⟨ts, hfold, rfl⟩ := h
  suffices H : Run cx (n + 1) .dependency files s ∅ t ∧
      KeysDone cx included origin (keys items).items ts by
    refine ⟨fun key hkey => ?_, fun key x hx => ?_⟩
    · cases hts : ts.get? key with
      | some target => exact H.2.found key target hts
      | none => exact H.2.missed key ((SeenSet.mem_ofList _ _).2 hkey) hts
    · cases H.2.found key _ hx with
      | inside hin hf => exact hf
  refine hfold.inv (fun done b s' => Run cx (n + 1) .dependency files s ∅ s' ∧
    KeysDone cx included origin done b) ⟨.nothing, fun _ _ hx => (by cases hx), by simp⟩ ?_
  rintro done key b₁ b₂ s₁ s₂ hmem ⟨run, hdone⟩ hstep
  have hk := hkeys key ((SeenSet.mem_ofList _ _).1 hmem)
  have hready := hs.mono run
  have run₁ : Run cx (n + 1) .dependency files s₁ ∅ s₂ :=
    ((calls cx n).typeStep_run hready hk hstep).mono (Nat.le_succ n)
  refine ⟨run.after run₁, ?_⟩
  cases hstep with
  | outer hin => exact hdone.put (.outside hin)
  | found hin hinc hhead hres =>
    obtain ⟨-, hready'⟩ := (calls cx n).include_typed (r := .dependency) hready hk hin hinc
    exact hdone.put (.inside hin (((calls cx n).resolveExport (r := .dependency) hready'
      (Or.inr (.head hs.has hk hhead)) hres).2 _ rfl))
  | space hin hinc hhead hspace =>
    obtain ⟨-, hready'⟩ := (calls cx n).include_typed (r := .dependency) hready hk hin hinc
    exact hdone.put (.inside hin ((calls cx n).ensureSpace (r := .dependency) hready'
      (Context.Writes.space hs.has hk hin).formed hspace).2.1)
  | @missing file head v s₃ t hin hinc hhead hres =>
    have run₂ := ((calls cx n).include_typed (r := .dependency) hready hk hin hinc).1
    have hmoved := (hmoves.trans (run.moves ps)).trans (run₂.moves ps)
    exact hdone.miss (.missed hin hhead ⟨_, n, v, _, hmoved, hres⟩)

end Links

section Exports

variable {n : Nat} {files : List Url} {target origin : Url} {withDefault : Bool}
  {c c' : Collected} {s t : State}

/-- Only names that files of the chunk write are collected. -/
theorem writes_of_collect (hg : cx.HasFile target) (hc : ∀ e ∈ c.names, cx.Writes e.1)
    (h : collect cx n target withDefault c s = some (c', t)) : ∀ e ∈ c'.names, cx.Writes e.1 := by
  induction n generalizing target withDefault c c' s t with
  | zero => exact (failure_inv h).elim
  | succ n ih =>
    cases collect_inv h with
    | again => exact hc
    | all hnew names stars =>
      have hown := names.inv (fun _ b _ => ∀ e ∈ b.names, cx.Writes e.1) hc ?_
      · refine stars.inv (fun _ b _ => ∀ e ∈ b.names, cx.Writes e.1) hown ?_
        intro done e b₁ b₂ s₁ s₂ he hb hstep
        cases hstep with
        | skip => exact hb
        | outer =>
          unfold Collected.addStar
          split <;> exact hb
        | inner hsrc hin hinc hcollect =>
          subst hsrc
          exact ih (.linked hg (.exported he rfl hin)) hb hcollect
      · intro done name b₁ b₂ s₁ s₂ hname hb hstep
        cases hstep with
        | skip => exact hb
        | missing => exact hb
        | found =>
          intro e he
          rcases List.mem_append.1 he with he | he
          · exact hb e he
          · obtain ⟨x, hx, hexp⟩ := List.mem_filterMap.1 hname
            rw [List.mem_singleton.1 he]
            exact .exported hg hx hexp

/-- The statements that export what is collected from a file. -/
theorem derived_surface (g : Url) (hs : Ready cx files target s)
    (h : collect cx n target withDefault Collected.empty s = some (c, t)) :
    ∀ i ∈ c.surface.items, Derived cx included none (.ofFile g i) := by
  have hformed := ((calls cx n).collect (r := .dependency) hs (by simp [Collected.empty]) h).2
  have hwrites := writes_of_collect hs.has (by simp [Collected.empty]) h
  intro i hi
  rcases List.mem_append.1 hi with hi | hi
  · split at hi
    · cases hi
    · rw [List.mem_singleton.1 hi]
      refine .listed (fun sp hsp => ?_)
      obtain ⟨e, he, rfl⟩ := List.mem_map.1 hsp
      exact ⟨e.2, e.1, hformed e he, hwrites e he, rfl⟩
  · obtain ⟨x, hx, rfl⟩ := List.mem_map.1 hi
    obtain ⟨h', hw, hx⟩ := ((stars_of_collect h).2 x).1 hx
    obtain ⟨src, hsrc, hout, rfl⟩ := Context.mem_outerStars.1 hx
    exact .star (hs.has.within hw) hsrc hout

theorem derived_mergeReexport {d : ExportList} {src : StrLit} {es : List Item}
    (hs : Ready cx files origin s) (hd : .exportList d ∈ cx.statements origin)
    (hsrc : d.src = some src) (h : mergeReexport cx n origin d src.value s = some (es, t)) :
    ∀ e ∈ es, Derived cx included none (.ofFile origin e) := by
  cases n with
  | zero => exact (failure_inv h).elim
  | succ n =>
  cases mergeReexport_inv h with
  | outer hout =>
    intro e he
    rw [List.mem_singleton.1 he]
    exact .handed hs.has hd hsrc hout
  | @inner file specifiers t hin steps =>
    suffices H : Run cx n .dependency files s ∅ t ∧ ∀ sp ∈ specifiers, ∃ f name, cx.Formed f ∧
        cx.Writes name ∧ sp = Exports.specifier f name by
      intro e he
      split at he
      · cases he
      · rw [List.mem_singleton.1 he]
        exact .listed H.2
    refine steps.inv (fun _ outs s' => Run cx n .dependency files s ∅ s' ∧ ∀ sp ∈ outs, ∃ f name,
      cx.Formed f ∧ cx.Writes name ∧ sp = Exports.specifier f name) ⟨.nothing, by simp⟩ ?_
    rintro done sp outs outs' s₂ s₃ hsp ⟨run, houts⟩ hstep
    obtain ⟨e, he, hof⟩ := Context.mem_exports_of_specifier hd hsrc hsp
    have hready := (hs.mono run).next
      (.exported he (by cases sp <;> cases hof <;> rfl) hin)
    have hadd {f name : String} (hf : cx.Formed f) (hn : cx.Writes name) :
        ∀ sp ∈ outs ++ [Exports.specifier f name], ∃ f name, cx.Formed f ∧ cx.Writes name ∧
          sp = Exports.specifier f name := by
      intro sp hsp
      rcases List.mem_append.1 hsp with hsp | hsp
      · exact houts sp hsp
      · exact ⟨f, name, hf, hn, List.mem_singleton.1 hsp⟩
    cases hstep with
    | found h =>
      cases hof
      have hcall := (calls cx n).resolveExport (r := .dependency) hready
        (Or.inr (.property hs.has he)) h
      exact ⟨run.after hcall.1, hadd (hcall.2 _ rfl) (.exported hs.has he rfl)⟩
    | missing h =>
      cases hof
      have hcall := (calls cx n).resolveExport (r := .dependency) hready
        (Or.inr (.property hs.has he)) h
      exact ⟨(run.after hcall.1).after (.warn _), houts⟩
    | space h =>
      cases hof
      have hname : cx.Writes _ := .exported hs.has he rfl
      have hcall := (calls cx n).ensureSpace (r := .dependency) hready hname.formed h
      exact ⟨run.after hcall.1, hadd hcall.2.1 hname⟩

/-- What stands for the exports that a statement takes from elsewhere. -/
theorem derived_reexport {i : Item} {es : List Item} (hs : Ready cx files origin s)
    (hi : i ∈ cx.statements origin) (h : reexport cx n origin i s = some (es, t)) :
    ∀ e ∈ es, Derived cx included none (.ofFile origin e) := by
  cases n with
  | zero => exact (failure_inv h).elim
  | succ n =>
  cases reexport_inv h with
  | list hsrc h => exact derived_mergeReexport hs hi hsrc h
  | nothing => simp
  | star h =>
    cases n with
    | zero => exact (failure_inv h).elim
    | succ n =>
    cases mergeStar_inv h with
    | outer hout =>
      intro e he
      rw [List.mem_singleton.1 he]
      exact .star hs.has (Context.mem_exports_of_star hi) hout
    | inner hin hc =>
      exact derived_surface origin
        (hs.next (.exported (Context.mem_exports_of_star hi) rfl hin)) hc

end Exports

end AmbientBundle.Merge
