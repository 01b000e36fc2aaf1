import AmbientBundle.Proofs.Merge.Exports
import AmbientBundle.Proofs.Merge.Inversion
import AmbientBundle.Proofs.Merge.State
/-!
What merging can do to its state, as a relation. Every function of merging that succeeds is a run;
so what holds of all runs, by induction on them, holds of merging.
-/
namespace AmbientBundle.Merge

open Syntax

/-- What a run hands back: statements that have no place yet, the import specifiers that it dealt
with, and the statements of the current file that it put under final names. -/
structure Yield where
  pieces : List Piece
  tried : List (ImportDecl × ImportSpecifier)
  printed : List Item

namespace Yield

instance : EmptyCollection Yield := ⟨⟨[], [], []⟩⟩

instance : Append Yield :=
  ⟨fun y z => ⟨y.pieces ++ z.pieces, y.tried ++ z.tried, y.printed ++ z.printed⟩⟩

@[simp] theorem empty_append (y : Yield) : ∅ ++ y = y := rfl

@[simp] theorem append_empty (y : Yield) : y ++ ∅ = y := by
  cases y
  simp only [HAppend.hAppend, Append.append]
  simp [EmptyCollection.emptyCollection]

theorem mk_append (ps qs : List Piece) (as bs : List (ImportDecl × ImportSpecifier))
    (is js : List Item) : (⟨ps, as, is⟩ ++ ⟨qs, bs, js⟩ : Yield) = ⟨ps ++ qs, as ++ bs, is ++ js⟩ :=
  rfl

@[simp] theorem pieces_append (y z : Yield) : (y ++ z).pieces = y.pieces ++ z.pieces := rfl

@[simp] theorem tried_append (y z : Yield) : (y ++ z).tried = y.tried ++ z.tried := rfl

@[simp] theorem printed_append (y z : Yield) : (y ++ z).printed = y.printed ++ z.printed := rfl

@[simp] theorem pieces_empty : (∅ : Yield).pieces = [] := rfl

@[simp] theorem tried_empty : (∅ : Yield).tried = [] := rfl

@[simp] theorem printed_empty : (∅ : Yield).printed = [] := rfl

end Yield

/-- Finding the final name for an import specifier: `s` becomes `t`, and the final name is `f` if
there is one. -/
inductive Resolved (cx : Context) (n : Nat) (origin : Url) (d : ImportDecl) (sp : ImportSpecifier)
    (s : State) : Option String → State → Prop where
  | outer {f : String} {t : State} (hin : cx.inChunk? d.src.value origin = none)
      (h : preserve (cx.placeSpecifier d.src.value origin) (ofSpecifier sp).2.1
        (ofSpecifier sp).1 (d.typeOnly || (ofSpecifier sp).2.2) s = some (f, t)) :
      Resolved cx n origin d sp s (some f) t
  | named {target : Url} {name : String} {f : Option String} {v : Visited} {t : State} {k : Nat}
      (hin : cx.inChunk? d.src.value origin = some target)
      (hinc : s.inBlock = false → s.included.contains target = true)
      (hname : (ofSpecifier sp).2.1.text? = some name) (hk : k < n)
      (h : resolveExport cx k target name [] s = some ((f, v), t)) :
      Resolved cx n origin d sp s f t
  | space {target : Url} {f : String} {t : State} {k : Nat}
      (hin : cx.inChunk? d.src.value origin = some target)
      (hall : (ofSpecifier sp).2.1 = .all) (hk : k < n)
      (h : ensureSpace cx k target (ofSpecifier sp).1 s = some (f, t)) :
      Resolved cx n origin d sp s (some f) t

/-- The file whose statements are being merged: in a block it is the block's, and outside of blocks
the one that was last begun at the root. -/
structure Current (cx : Context) (files : List Url) (origin : Url) (s : State) : Prop where
  head : s.inBlock = false → files.head? = some origin
  block : s.inBlock = true → s.targets.head? = some origin
  lead : cx.LeadTo files origin
  file : cx.HasFile origin

/-- Outside of blocks the file from which a statement exports names is included. -/
def ReexportsIncluded (cx : Context) (origin : Url) (i : Item) (s : State) : Prop :=
  ∀ src file, s.inBlock = false → reexportSource? i = some src →
    cx.inChunk? src origin = some file → s.included.contains file = true

/-- The two names are locals of one import that stays. -/
def SameImport (s : State) (x y : String) : Prop :=
  ∃ e ∈ s.preserved.entries, x ∈ e.2.locals ∧ y ∈ e.2.locals

/-- From `s` to `t` the chunk gives `x` the new name `y`, by an alias that it adds to the scope or as
a further local of an import. -/
structure NamedAgain (s t : State) (x y : String) : Prop where
  new : s.root.env.owner? y = none
  claimed : t.root.env.owner? y = some .chunk
  bound : (∃ ps, t.scope.items = s.scope.items ++ ps ∧ Piece.made (aliasOf y x false) ∈ ps) ∨
    SameImport t x y

/-- What becomes of a collected export of a block with the given members: it stays, or it gets a
further name where it has the name of its binding and no member binds that. -/
inductive ExportOf (members : List String) (s t : State) (a e : String × String) : Prop where
  | same (he : e = a) (hm : a.1 = a.2 → a.2 ∈ members)
  | renamed (ha : a.1 = a.2) (hm : a.2 ∉ members) (he : e.1 = a.1) (again : NamedAgain s t a.2 e.2)

/-- The exports of a block for a file: from `s` to `t` the file's exports are collected, apart from
warnings, and from `t`, without the block, to `u` they get further names. Those that the block does
not bind even so are warned about. -/
def SpaceExports (cx : Context) (n : Nat) (target : Url) (s t u : State)
    (exports : List (String × String)) : Prop :=
  ∃ (ws : List Warning) (c : Collected) (t' : State) (k : Nat), k < n ∧
    collect cx k target false Collected.empty { s with warnings := ws } = some (c, t') ∧
    t = { t' with warnings := t.warnings } ∧ t'.warnings ⊆ t.warnings ∧
    List.Forall₂ (ExportOf ((t.closeBlock.1.map Piece.item).flatMap memberNames) t.closeBlock.2 u)
      c.names exports ∧
    ∀ e ∈ unboundExports (t.closeBlock.1.map Piece.item) exports, .selfExport e ∈ u.warnings

/-- `Run cx n role files s y t`: merging, with the given files begun at the root and the current
one in the given role, can lead from `s` to `t` and hand back `y`. The calls that a run mentions
have depths below `n`. -/
inductive Run (cx : Context) (n : Nat) : Role → List Url → State → Yield → State → Prop where
  | nothing {r : Role} {files : List Url} {s : State} : Run cx n r files s ∅ s
  | andThen {r : Role} {files : List Url} {s t u : State} {y z : Yield}
      (first : Run cx n r files s y t) (second : Run cx n r files t z u) :
      Run cx n r files s (y ++ z) u
  | warn {r : Role} {files : List Url} {s : State} (w : Warning) : Run cx n r files s ∅ (s.warn w)
  | keepRun {r : Role} {files : List Url} {s : State} (module : String)
      (hout : cx.RunsOut module) : Run cx n r files s ∅ (s.keepRun module)
  | preserve {r : Role} {files : List Url} {s : State} {key : String × ImportedName}
      {wanted : String} (typeOnly : Bool) (hkey : s.preserved.get? key = none)
      (hw : cx.Formed wanted) (hout : cx.TakesOut key typeOnly) :
      Run cx n r files s ∅
        ((s.claim (s.freshName wanted)).keep key ⟨s.freshName wanted, [], typeOnly⟩)
  | preserveAgain {r : Role} {files : List Url} {s : State} {key : String × ImportedName}
      {p : Preserved} (typeOnly : Bool) (hkey : s.preserved.get? key = some p)
      (hout : typeOnly = p.typeOnly ∨ cx.TakesOut key typeOnly) :
      Run cx n r files s ∅ (s.keep key { p with typeOnly := typeOnly })
  | aliasImport {r : Role} {files : List Url} {s : State} {f : String}
      {key : String × ImportedName} {p : Preserved} (hf : cx.Formed f)
      (hkey : s.preserved.entries.find? (fun e => e.2.locals.contains f) = some (key, p)) :
      Run cx n r files s ∅
        ((s.claim (s.freshName f)).keep key { p with others := p.others ++ [s.freshName f] })
  | aliasBinding {r : Role} {files : List Url} {s : State} {f : String} (hf : cx.Formed f) :
      Run cx n r files s ∅
        ((s.claim (s.freshName f)).addItems [.made (aliasOf (s.freshName f) f false)])
  | link {r : Role} {files : List Url} {s t : State} {origin : Url} {d : ImportDecl}
      {sp : ImportSpecifier} {f : String} (hcur : Current cx files origin s)
      (hsp : (d, sp) ∈ cx.specifiers origin) (hf : cx.Formed f) (run : Run cx n r files s ∅ t)
      (hres : Resolved cx n origin d sp s (some f) t) :
      Run cx n r files s ⟨[], [(d, sp)], []⟩ (t.link origin sp.loc f)
  | unlinked {r : Role} {files : List Url} {s t : State} {origin : Url} {d : ImportDecl}
      {sp : ImportSpecifier} (target : Url) (hcur : Current cx files origin s)
      (hsp : (d, sp) ∈ cx.specifiers origin) (run : Run cx n r files s ∅ t)
      (hres : Resolved cx n origin d sp s none t) :
      Run cx n r files s ⟨[], [(d, sp)], []⟩
        (t.warn (.unknownImport target origin sp.loc))
  | print {r : Role} {files : List Url} {s t u : State} {origin : Url} {i : Item}
      {exports : List Item} {τ : ImportTypes.Targets} (hcur : Current cx files origin s)
      (hi : i ∈ cx.statements origin) (hinc : ReexportsIncluded cx origin i s)
      (hx : (keepsExports r s = true ∧ ∃ k < n, reexport cx k origin i s = some (exports, t)) ∨
        (keepsExports r s = false ∧ exports = [] ∧ t = s))
      (hexp : ∀ e ∈ exports, isExportStatement e = true)
      (hlink : ∃ k < n, TypeLinks cx k origin
        (renameItems (Rename.ofEnvironment t.scope.env origin)
          (shown cx origin s.inBlock (keepsExports r s) s.scope.env i))
        (t.takeItems s.scope.items.length).2 τ u)
      (run : Run cx n r files s ∅ t)
      (links : Run cx n r files (t.takeItems s.scope.items.length).2 ∅ u) :
      Run cx n r files s
        ⟨(t.takeItems s.scope.items.length).1 ++
          (linkItems τ (renameItems (Rename.ofEnvironment t.scope.env origin)
            (shown cx origin s.inBlock (keepsExports r s) s.scope.env i)) ++ exports).map
              (Piece.ofFile origin), [], [i]⟩ u
  | inlined {r q : Role} {files : List Url} {s t u : State} {file : Url} {ps : List Piece}
      (hroot : s.inBlock = false) (hnew : s.included.contains file = false)
      (hfile : cx.HasFile file) (hlead : cx.LeadTo files file)
      (hq : q = .entry → r = .entry ∧ files = [])
      (imports : Run cx n q (file :: files)
        ((s.addFile file).bindFile (cx.statements file) file) ⟨[], cx.specifiers file, []⟩ t)
      (prints : Run cx n q (file :: files) t ⟨ps, [], cx.statements file⟩ u) :
      Run cx n r files s ∅ (u.addItems ps)
  | atRoot {r : Role} {files : List Url} {s t : State} (hblock : s.inBlock = true)
      (run : Run cx n .dependency files s.suspend ∅ t) :
      Run cx n r files s ∅ ((t.resume s.suspended.length).inheritFromRoot
        (t.included.addedSince s.included.size))
  | block {r : Role} {files : List Url} {s t u v w : State} {target : Url} {wanted : String}
      {ps : List Piece} {exports : List (String × String)}
      (hnew : s.space? target = none) (hfile : cx.HasFile target)
      (hlead : cx.LeadTo files target) (hw : cx.Formed wanted)
      (hexports : SpaceExports cx n target (u.addItems ps) v w exports)
      (imports : Run cx n .dependency files
        (((s.claim (s.freshName wanted)).openBlock target (s.freshName wanted)).bindFile
          (cx.statements target) target) ⟨[], cx.specifiers target, []⟩ t)
      (prints : Run cx n .dependency files t ⟨ps, [], cx.statements target⟩ u)
      (collects : Run cx n .dependency files (u.addItems ps) ∅ v)
      (aliases : Run cx n r files v.closeBlock.2 ∅ w) :
      Run cx n r files s ∅ (w.addItems [.made (spaceOf (!w.inBlock) (s.freshName wanted)
        (exportMembers (v.closeBlock.1.map Piece.item) exports))])
  | exportAgain {s t : State} {file : Url} {c : Collected} {k : Nat} (hroot : s.inBlock = false)
      (hold : s.included.contains file = true) (hfile : cx.HasFile file) (hk : k < n)
      (h : collect cx k file true Collected.empty s = some (c, t))
      (run : Run cx n .dependency [] s ∅ t) :
      Run cx n .entry [] s ∅ (t.addItems (c.surface.items.map (Piece.ofFile file)))

namespace Run

variable {cx : Context} {n m : Nat} {r : Role} {files : List Url} {s t u : State} {y z : Yield}

theorem before (h : Run cx n r files s ∅ t) (h' : Run cx n r files t y u) :
    Run cx n r files s y u :=
  Yield.empty_append y ▸ andThen h h'

theorem after (h : Run cx n r files s y t) (h' : Run cx n r files t ∅ u) :
    Run cx n r files s y u :=
  Yield.append_empty y ▸ andThen h h'

end Run

theorem Resolved.mono {cx : Context} {n m : Nat} {origin : Url} {d : ImportDecl}
    {sp : ImportSpecifier} {s t : State} {f : Option String} (h : Resolved cx n origin d sp s f t)
    (hm : n ≤ m) : Resolved cx m origin d sp s f t := by
  cases h with
  | outer hin h => exact .outer hin h
  | named hin hinc hname hk h => exact .named hin hinc hname (by omega) h
  | space hin hall hk h => exact .space hin hall (by omega) h

theorem SpaceExports.mono {cx : Context} {n m : Nat} {target : Url} {s t u : State}
    {exports : List (String × String)} (h : SpaceExports cx n target s t u exports) (hm : n ≤ m) :
    SpaceExports cx m target s t u exports := by
  obtain ⟨ws, c, t', k, hk, h⟩ := h
  exact ⟨ws, c, t', k, by omega, h⟩

/-- A bound for the depths of the calls may be any larger one. -/
theorem Run.mono {cx : Context} {n m : Nat} {r : Role} {files : List Url} {s t : State} {y : Yield}
    (h : Run cx n r files s y t) (hm : n ≤ m) : Run cx m r files s y t := by
  induction h with
  | nothing => exact .nothing
  | andThen _ _ ih₁ ih₂ => exact .andThen ih₁ ih₂
  | warn w => exact .warn w
  | keepRun module hout => exact .keepRun module hout
  | preserve typeOnly hkey hw hout => exact .preserve typeOnly hkey hw hout
  | preserveAgain typeOnly hkey hout => exact .preserveAgain typeOnly hkey hout
  | aliasImport hf hkey => exact .aliasImport hf hkey
  | aliasBinding hf => exact .aliasBinding hf
  | link hcur hsp hf _ hres ih => exact .link hcur hsp hf ih (hres.mono hm)
  | unlinked target hcur hsp _ hres ih => exact .unlinked target hcur hsp ih (hres.mono hm)
  | print hcur hi hinc hx hexp hlink _ _ ih₁ ih₂ =>
    refine .print hcur hi hinc ?_ hexp (hlink.imp (fun k hk => ⟨by omega, hk.2⟩)) ih₁ ih₂
    rcases hx with ⟨hkeep, k, hk, hx⟩ | hx
    · exact Or.inl ⟨hkeep, k, by omega, hx⟩
    · exact Or.inr hx
  | inlined hroot hnew hfile hlead hq _ _ ih₁ ih₂ =>
    exact .inlined hroot hnew hfile hlead hq ih₁ ih₂
  | atRoot hblock _ ih => exact .atRoot hblock ih
  | block hnew hfile hlead hw hexports _ _ _ _ ih₁ ih₂ ih₃ ih₄ =>
    exact .block hnew hfile hlead hw (hexports.mono hm) ih₁ ih₂ ih₃ ih₄
  | exportAgain hroot hold hfile hk h _ ih => exact .exportAgain hroot hold hfile (by omega) h ih

end AmbientBundle.Merge
