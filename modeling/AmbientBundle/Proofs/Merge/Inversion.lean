import AmbientBundle.Proofs.Merge.Resolution
import AmbientBundle.Proofs.Merge.State
import AmbientBundle.Proofs.Merge.Step
/-!
What it can mean to include a file, to resolve an export, to collect the exports of a file, to export
from elsewhere, to build a namespace block and to link import types, case by case: each case names
what decides it, such as the export or the key, and the calls that it makes.
-/
namespace AmbientBundle.Merge

open Step Syntax

variable {cx : Context} {n : Nat} {target : Url} {name : String} {v v' : Visited} {s t : State}

/-- Including a file. While blocks are open it is inlined at the root, unless one of them is its
own. -/
inductive IncludeStep (cx : Context) (n : Nat) (file : Url) (role : Role) (s : State) :
    State → Prop where
  | opened (hb : s.inBlock = true) (hopen : file ∈ s.targets) : IncludeStep cx n file role s s
  | atRoot {t : State} (hb : s.inBlock = true)
      (h : includeAtRoot cx n file role s = some ((), t)) : IncludeStep cx n file role s t
  | present (hb : s.inBlock = false) (hold : s.included.contains file = true)
      (hrole : role ≠ .entry) : IncludeStep cx n file role s s
  | again {t : State} (hb : s.inBlock = false) (hold : s.included.contains file = true)
      (hrole : role = .entry) (h : exportAgain cx n file s = some ((), t)) :
      IncludeStep cx n file role s t
  | inlined {t : State} (hb : s.inBlock = false) (hnew : s.included.contains file = false)
      (h : inlineFile cx n file role (s.addFile file) = some ((), t)) :
      IncludeStep cx n file role s t

section Include

variable {file : Url} {role : Role} {u : Unit}

theorem includeFile_inv (h : includeFile cx (n + 1) file role s = some (u, t)) :
    IncludeStep cx n file role s t := by
  unfold includeFile at h
  obtain ⟨s₁, s₂, hg, h⟩ := bind_inv h
  obtain ⟨rfl, rfl⟩ := get_inv hg
  cases hb : s.inBlock with
  | true =>
    rw [hb, if_pos rfl] at h
    split at h
    · exact .atRoot hb h
    · rename_i hopen
      obtain ⟨-, rfl⟩ := pure_inv h
      rw [Bool.not_eq_true', Bool.not_eq_false, List.any_eq_true] at hopen
      obtain ⟨b, hmem, he⟩ := hopen
      exact .opened hb (List.mem_map.2 ⟨b, hmem, eq_of_beq he⟩)
  | false =>
    rw [hb, if_neg Bool.false_ne_true] at h
    cases hold : s.included.contains file with
    | true =>
      rw [hold, if_pos rfl] at h
      split at h
      · rename_i hrole
        exact .again hb hold hrole h
      · rename_i hrole
        obtain ⟨-, rfl⟩ := pure_inv h
        exact .present hb hold hrole
    | false =>
      rw [hold, if_neg Bool.false_ne_true] at h
      obtain ⟨_, s₃, hset, h⟩ := bind_inv h
      obtain rfl := set_inv hset
      exact .inlined hb hold h

theorem includeAtRoot_inv (h : includeAtRoot cx (n + 1) file role s = some (u, t)) :
    ∃ s₁, includeFile cx n file role s.suspend = some ((), s₁) ∧
      (s₁.resume s.suspended.length).inheritFromRoot
        ((s₁.resume s.suspended.length).included.addedSince s.included.size) = t := by
  unfold includeAtRoot at h
  obtain ⟨s₁, s₂, hg, h⟩ := bind_inv h
  obtain ⟨rfl, rfl⟩ := get_inv hg
  obtain ⟨_, s₃, hset, h⟩ := bind_inv h
  obtain rfl := set_inv hset
  obtain ⟨_, s₄, hinc, h⟩ := bind_inv h
  obtain ⟨_, s₅, hresume, h⟩ := bind_inv h
  obtain rfl := modify_inv hresume
  exact ⟨s₄, hinc, modify_inv h⟩

/-- An included file is gathered once more for its exports. -/
theorem exportAgain_inv (h : exportAgain cx (n + 1) file s = some (u, t)) :
    ∃ c s₁, collect cx n file true Collected.empty s = some (c, s₁) ∧
      s₁.addItems (c.surface.items.map (Piece.ofFile file)) = t := by
  unfold exportAgain at h
  obtain ⟨c, s₁, hc, h⟩ := bind_inv h
  exact ⟨c, s₁, hc, modify_inv h⟩

end Include

/-- Resolving an export of a file. -/
inductive ExportStep (cx : Context) (n : Nat) (target : Url) (name : String) (v : Visited)
    (s : State) : Option String → Visited → State → Prop where
  | again (h : (target, name) ∈ v) : ExportStep cx n target name v s none v s
  | listed {k property : String} {id : Option DeclId}
      (hx : cx.explicit? target name = some (.named k property none id)) :
      ExportStep cx n target name v s (s.lookup target property) ((target, name) :: v) s
  | source {k property src : String} {id : Option DeclId} {file : Url} {s₁ t : State}
      {found : Option String} {v' : Visited}
      (hx : cx.explicit? target name = some (.named k property (some src) id))
      (hin : cx.inChunk? src target = some file)
      (hinc : includeFile cx n file .dependency s = some ((), s₁))
      (h : resolveExport cx n file property ((target, name) :: v) s₁ = some ((found, v'), t)) :
      ExportStep cx n target name v s found v' t
  | outer {k property src f : String} {id : Option DeclId} {t : State}
      (hx : cx.explicit? target name = some (.named k property (some src) id))
      (hin : cx.inChunk? src target = none)
      (h : preserve (cx.placeSpecifier src target) (.ofText property) name false s =
        some (f, t)) :
      ExportStep cx n target name v s (some f) ((target, name) :: v) t
  | space {k src f : String} {file : Url} {t : State}
      (hx : cx.explicit? target name = some (.allAs k src))
      (hin : cx.inChunk? src target = some file)
      (h : ensureSpace cx n file name s = some (f, t)) :
      ExportStep cx n target name v s (some f) ((target, name) :: v) t
  | outerSpace {k src f : String} {t : State}
      (hx : cx.explicit? target name = some (.allAs k src))
      (hin : cx.inChunk? src target = none)
      (h : preserve (cx.placeSpecifier src target) .all name false s = some (f, t)) :
      ExportStep cx n target name v s (some f) ((target, name) :: v) t
  | noDefault (hx : cx.explicit? target name = none) (hn : name = "default") :
      ExportStep cx n target name v s none ((target, name) :: v) s
  | stars {found : Option String} {v' : Visited} {t : State}
      (hx : cx.explicit? target name = none) (hn : name ≠ "default")
      (h : resolveInStars cx n target name ((target, name) :: v) s = some ((found, v'), t)) :
      ExportStep cx n target name v s found v' t

theorem resolveExport_inv {found : Option String}
    (h : resolveExport cx (n + 1) target name v s = some ((found, v'), t)) :
    ExportStep cx n target name v s found v' t := by
  unfold resolveExport at h
  split at h
  · rename_i hv
    obtain ⟨he, rfl⟩ := pure_inv h
    cases he
    exact .again (by simpa using hv)
  dsimp only at h
  cases hx : cx.explicit? target name with
  | none =>
    simp only [show (cx.exports target).find? (fun s => s.exportedName? == some name) = none
      from hx] at h
    split at h
    · rename_i hn
      obtain ⟨he, rfl⟩ := pure_inv h
      cases he
      exact .noDefault hx hn
    · rename_i hn
      exact .stars hx hn h
  | some e =>
    simp only [show (cx.exports target).find? (fun s => s.exportedName? == some name) = some e
      from hx] at h
    cases e with
    | all src => exact absurd (List.find?_some hx) (by simp [ExportedSymbol.exportedName?])
    | allAs k src =>
      cases hin : cx.inChunk? src target with
      | none =>
        simp only [hin] at h
        obtain ⟨f, s₁, hp, h⟩ := bind_inv h
        obtain ⟨he, rfl⟩ := pure_inv h
        cases he
        exact .outerSpace hx hin hp
      | some file =>
        simp only [hin] at h
        obtain ⟨f, s₁, hspace, h⟩ := bind_inv h
        obtain ⟨he, rfl⟩ := pure_inv h
        cases he
        exact .space hx hin hspace
    | named k property src? id =>
      cases src? with
      | none =>
        obtain ⟨s₁, s₂, hg, h⟩ := bind_inv h
        obtain ⟨rfl, rfl⟩ := get_inv hg
        obtain ⟨he, rfl⟩ := pure_inv h
        cases he
        exact .listed hx
      | some src =>
        cases hin : cx.inChunk? src target with
        | none =>
          simp only [hin] at h
          obtain ⟨f, s₁, hp, h⟩ := bind_inv h
          obtain ⟨he, rfl⟩ := pure_inv h
          cases he
          exact .outer hx hin hp
        | some file =>
          simp only [hin] at h
          obtain ⟨_, s₁, hinc, h⟩ := bind_inv h
          exact .source hx hin hinc h

/-- A name that was visited is not asked for again. -/
theorem resolveExport_again {found : Option String} (hv : (target, name) ∈ v)
    (h : resolveExport cx (n + 1) target name v s = some ((found, v'), t)) :
    found = none ∧ v' = v ∧ t = s := by
  unfold resolveExport at h
  rw [if_pos (List.contains_iff_mem.2 hv)] at h
  obtain ⟨he, rfl⟩ := pure_inv h
  cases he
  exact ⟨rfl, rfl, rfl⟩

/-- One export while a name is looked for in a file's stars. -/
inductive StarStep (cx : Context) (n : Nat) (target : Url) (name : String) (e : ExportedSymbol) :
    Option String × Option String × Visited → State → Option String × Option String × Visited →
      State → Prop where
  | skip {b : Option String × Option String × Visited} {s : State}
      (h : b.1 = none → ∀ src, e ≠ .all src) : StarStep cx n target name e b s b s
  | outer {src : String} {outer : Option String} {v : Visited} {s : State} (he : e = .all src)
      (hin : cx.inChunk? src target = none) : StarStep cx n target name e (none, outer, v) s
        (none, some (outer.getD (cx.placeSpecifier src target)), v) s
  | inner {src : String} {outer found : Option String} {v v' : Visited} {file : Url}
      {s s₁ t : State} (he : e = .all src) (hin : cx.inChunk? src target = some file)
      (hinc : includeFile cx n file .dependency s = some ((), s₁))
      (h : resolveExport cx n file name v s₁ = some ((found, v'), t)) :
      StarStep cx n target name e (none, outer, v) s (found, outer, v') t

/-- What is found when all stars are asked: the first in the chunk that has the name, or else the
first one that leads out of it. -/
inductive StarsEnd (name : String) : Option String × Option String × Visited → State →
    Option String → Visited → State → Prop where
  | found {f : String} {outer : Option String} {v : Visited} {s : State} :
      StarsEnd name (some f, outer, v) s (some f) v s
  | outer {module f : String} {v : Visited} {s t : State}
      (h : preserve module (.named name) name false s = some (f, t)) :
      StarsEnd name (none, some module, v) s (some f) v t
  | none {v : Visited} {s : State} : StarsEnd name (none, none, v) s none v s

theorem resolveInStars_inv {found : Option String}
    (h : resolveInStars cx (n + 1) target name v s = some ((found, v'), t)) :
    ∃ b s₁, Folds (StarStep cx n target name) (cx.exports target) (none, none, v) s b s₁ ∧
      StarsEnd name b s₁ found v' t := by
  unfold resolveInStars at h
  obtain ⟨⟨f₁, outer, v₁⟩, s₁, hfold, h⟩ := bind_inv h
  refine ⟨(f₁, outer, v₁), s₁, foldlM_folds hfold ?_, ?_⟩
  · intro e b₁ b₂ s₂ s₃ hstep
    obtain ⟨f₂, outer₂, v₂⟩ := b₁
    cases f₂ with
    | some f =>
      obtain ⟨rfl, rfl⟩ := pure_inv hstep
      exact .skip (by simp)
    | none =>
      cases e with
      | all src =>
        cases hin : cx.inChunk? src target with
        | none =>
          simp only [hin] at hstep
          obtain ⟨rfl, rfl⟩ := pure_inv hstep
          exact .outer rfl hin
        | some file =>
          simp only [hin] at hstep
          obtain ⟨_, s₄, hinc, hstep⟩ := bind_inv hstep
          obtain ⟨⟨f, v₃⟩, s₅, hres, hstep⟩ := bind_inv hstep
          obtain ⟨rfl, rfl⟩ := pure_inv hstep
          exact .inner rfl hin hinc hres
      | named k property src id =>
        obtain ⟨rfl, rfl⟩ := pure_inv hstep
        exact .skip (by simp)
      | allAs k src =>
        obtain ⟨rfl, rfl⟩ := pure_inv hstep
        exact .skip (by simp)
  · dsimp only at h
    split at h
    · obtain ⟨he, rfl⟩ := pure_inv h
      cases he
      exact .found
    · obtain ⟨f, s₂, hp, h⟩ := bind_inv h
      obtain ⟨he, rfl⟩ := pure_inv h
      cases he
      exact .outer hp
    · obtain ⟨he, rfl⟩ := pure_inv h
      cases he
      exact .none

/-- Exports and stars are resolved in turn, each one level deeper than what it calls, and a step may
rely on all exports that are resolved at lower levels: while files are included this goes on. -/
theorem resolve_induction {P Q : Nat → Prop} (hP : P 0) (hQ : Q 0)
    (hexport : ∀ n, (∀ k < n, P k) → P n → Q n → P (n + 1))
    (hstars : ∀ n, (∀ k < n, P k) → P n → Q (n + 1)) (n : Nat) : P n := by
  suffices H : P n ∧ Q n from H.1
  induction n using Nat.strongRecOn with
  | ind n ih =>
    cases n with
    | zero => exact ⟨hP, hQ⟩
    | succ n =>
      have hbelow : ∀ k < n, P k := fun k hk => (ih k (by omega)).1
      obtain ⟨hn, hq⟩ := ih n (Nat.lt_succ_self n)
      exact ⟨hexport n hbelow hn hq, hstars n hbelow hn⟩

/-- One explicit export while the exports of a file are collected. -/
inductive NameStep (cx : Context) (n : Nat) (target : Url) (withDefault : Bool) (name : String)
    (c : Collected) (s : State) : Collected → State → Prop where
  | skip (h : name = "default" ∧ withDefault = false ∨ name ∈ c.seen) :
      NameStep cx n target withDefault name c s c s
  | found {f : String} {v : Visited} {t : State} (hd : name = "default" → withDefault = true)
      (hnew : name ∉ c.seen)
      (h : resolveExport cx n target name [] s = some ((some f, v), t)) :
      NameStep cx n target withDefault name c s
        { c with seen := name :: c.seen, names := c.names ++ [(name, f)] } t
  | missing {v : Visited} {t : State} (hd : name = "default" → withDefault = true)
      (hnew : name ∉ c.seen) (h : resolveExport cx n target name [] s = some ((none, v), t)) :
      NameStep cx n target withDefault name c s { c with seen := name :: c.seen }
        (t.warn (.unknownExport target name))

/-- One export while what a file's stars export is collected. -/
inductive StarCollectStep (cx : Context) (n : Nat) (target : Url) (e : ExportedSymbol)
    (c : Collected) (s : State) : Collected → State → Prop where
  | skip (h : ∀ src, e ≠ .all src) : StarCollectStep cx n target e c s c s
  | outer {src : String} (he : e = .all src) (hin : cx.inChunk? src target = none) :
      StarCollectStep cx n target e c s (c.addStar (cx.placeSpecifier src target)) s
  | inner {src : String} {file : Url} {c' : Collected} {s₁ t : State} (he : e = .all src)
      (hin : cx.inChunk? src target = some file)
      (hinc : includeFile cx n file .dependency s = some ((), s₁))
      (h : collect cx n file false c s₁ = some (c', t)) : StarCollectStep cx n target e c s c' t

/-- Collecting the exports of a file: its own first, and then those of its stars. -/
inductive CollectStep (cx : Context) (n : Nat) (target : Url) (withDefault : Bool) (c : Collected)
    (s : State) : Collected → State → Prop where
  | again (h : target ∈ c.visited) : CollectStep cx n target withDefault c s c s
  | all {c₁ c₂ : Collected} {s₁ t : State} (hnew : target ∉ c.visited)
      (names : Folds (NameStep cx n target withDefault)
        ((cx.exports target).filterMap ExportedSymbol.exportedName?)
        { c with visited := target :: c.visited } s c₁ s₁)
      (stars : Folds (StarCollectStep cx n target) (cx.exports target) c₁ s₁ c₂ t) :
      CollectStep cx n target withDefault c s c₂ t

theorem collect_inv {withDefault : Bool} {c c' : Collected}
    (h : collect cx (n + 1) target withDefault c s = some (c', t)) :
    CollectStep cx n target withDefault c s c' t := by
  unfold collect at h
  split at h
  · rename_i hv
    obtain ⟨rfl, rfl⟩ := pure_inv h
    exact .again (by simpa using hv)
  rename_i hv
  dsimp only at h
  obtain ⟨c₁, s₁, hnames, h⟩ := bind_inv h
  refine .all (by simpa using hv) (foldlM_folds hnames ?_) (foldlM_folds h ?_)
  · intro name b₁ b₂ s₂ s₃ hstep
    split at hstep
    · rename_i hskip
      obtain ⟨rfl, rfl⟩ := pure_inv hstep
      exact .skip (by simpa using hskip)
    rename_i hskip
    have hd : name = "default" → withDefault = true := by
      rintro rfl
      by_contra hw
      simp [hw] at hskip
    have hnew : name ∉ b₁.seen := fun hmem => hskip (by simp [hmem])
    obtain ⟨⟨f, v⟩, s₄, hres, hstep⟩ := bind_inv hstep
    cases f with
    | some f =>
      obtain ⟨rfl, rfl⟩ := pure_inv hstep
      exact .found hd hnew hres
    | none =>
      obtain ⟨_, s₅, hm, hstep⟩ := bind_inv hstep
      obtain rfl := modify_inv hm
      obtain ⟨rfl, rfl⟩ := pure_inv hstep
      exact .missing hd hnew hres
  · intro e b₁ b₂ s₂ s₃ hstep
    cases e with
    | all src =>
      cases hin : cx.inChunk? src target with
      | none =>
        simp only [hin] at hstep
        obtain ⟨rfl, rfl⟩ := pure_inv hstep
        exact .outer rfl hin
      | some file =>
        simp only [hin] at hstep
        obtain ⟨_, s₄, hinc, hstep⟩ := bind_inv hstep
        exact .inner rfl hin hinc hstep
    | named k property src id =>
      obtain ⟨rfl, rfl⟩ := pure_inv hstep
      exact .skip (by simp)
    | allAs k src =>
      obtain ⟨rfl, rfl⟩ := pure_inv hstep
      exact .skip (by simp)

/-- What stands for a star of a file. -/
inductive StarMergeStep (cx : Context) (n : Nat) (origin : Url) (src : String) (s : State) :
    List Item → State → Prop where
  | outer (hin : cx.inChunk? src origin = none) :
      StarMergeStep cx n origin src s [starOf (cx.placeSpecifier src origin)] s
  | inner {file : Url} {c : Collected} {t : State} (hin : cx.inChunk? src origin = some file)
      (h : collect cx n file false Collected.empty s = some (c, t)) :
      StarMergeStep cx n origin src s c.surface.items t

theorem mergeStar_inv {origin : Url} {src : String} {es : List Item}
    (h : mergeStar cx (n + 1) origin src s = some (es, t)) :
    StarMergeStep cx n origin src s es t := by
  unfold mergeStar at h
  cases hin : cx.inChunk? src origin with
  | none =>
    simp only [hin] at h
    obtain ⟨rfl, rfl⟩ := pure_inv h
    exact .outer hin
  | some file =>
    simp only [hin] at h
    obtain ⟨c, s₁, hc, h⟩ := bind_inv h
    obtain ⟨rfl, rfl⟩ := pure_inv h
    exact .inner hin hc

/-- One specifier of an export list whose source is in the chunk, and what is put for it. -/
inductive SpecifierStep (cx : Context) (n : Nat) (origin file : Url) :
    ExportSpecifier → List ExportSpecifier → State → List ExportSpecifier → State → Prop where
  | found {orig : ExportName} {exported : Option ExportName} {typeOnly : Bool} {f : String}
      {v : Visited} {outs : List ExportSpecifier} {s t : State}
      (h : resolveExport cx n file orig.text [] s = some ((some f, v), t)) :
      SpecifierStep cx n origin file (.named orig exported typeOnly) outs s
        (outs ++ [Exports.specifier f (exported.getD orig).text]) t
  | missing {orig : ExportName} {exported : Option ExportName} {typeOnly : Bool} {v : Visited}
      {outs : List ExportSpecifier} {s t : State}
      (h : resolveExport cx n file orig.text [] s = some ((none, v), t)) :
      SpecifierStep cx n origin file (.named orig exported typeOnly) outs s outs
        (t.warn (.unknownReexport file origin (exported.getD orig).text))
  | space {name : ExportName} {f : String} {outs : List ExportSpecifier} {s t : State}
      (h : ensureSpace cx n file name.text s = some (f, t)) :
      SpecifierStep cx n origin file (.all name) outs s
        (outs ++ [Exports.specifier f name.text]) t

/-- What stands for an export list with a source. -/
inductive ListMergeStep (cx : Context) (n : Nat) (origin : Url) (d : ExportList) (src : String)
    (s : State) : List Item → State → Prop where
  | outer (hin : cx.inChunk? src origin = none) : ListMergeStep cx n origin d src s
      [.exportList { d with src := some (StrLit.made (cx.placeSpecifier src origin)) }] s
  | inner {file : Url} {outs : List ExportSpecifier} {t : State}
      (hin : cx.inChunk? src origin = some file)
      (steps : Folds (SpecifierStep cx n origin file) d.specifiers [] s outs t) :
      ListMergeStep cx n origin d src s (if outs.isEmpty then [] else [Exports.list outs]) t

theorem mergeReexport_inv {origin : Url} {d : ExportList} {src : String} {es : List Item}
    (h : mergeReexport cx (n + 1) origin d src s = some (es, t)) :
    ListMergeStep cx n origin d src s es t := by
  unfold mergeReexport at h
  cases hin : cx.inChunk? src origin with
  | none =>
    simp only [hin] at h
    obtain ⟨rfl, rfl⟩ := pure_inv h
    exact .outer hin
  | some file =>
    simp only [hin] at h
    obtain ⟨specifiers, s₁, hmap, h⟩ := bind_inv h
    obtain ⟨rfl, rfl⟩ := pure_inv h
    refine .inner hin (@filterMapM_folds _ _ _ _ _ [] _ _ _ hmap ?_)
    intro sp outs out s₂ s₃ hstep
    cases sp with
    | named orig exported typeOnly =>
      obtain ⟨final, s₄, hmap, hstep⟩ := bind_inv hstep
      obtain ⟨⟨final', v⟩, hres, rfl⟩ := map_inv hmap
      cases final' with
      | some f =>
        obtain ⟨rfl, rfl⟩ := pure_inv hstep
        exact .found hres
      | none =>
        obtain ⟨_, s₅, hm, hstep⟩ := bind_inv hstep
        obtain rfl := modify_inv hm
        obtain ⟨rfl, rfl⟩ := pure_inv hstep
        rw [Option.toList_none, List.append_nil]
        exact .missing hres
    | all name =>
      obtain ⟨final, s₄, hmap, hstep⟩ := bind_inv hstep
      obtain ⟨f, hspace, rfl⟩ := map_inv hmap
      obtain ⟨rfl, rfl⟩ := pure_inv hstep
      exact .space hspace

/-- What stands for the exports that a statement takes from elsewhere. -/
inductive ReexportStep (cx : Context) (n : Nat) (origin : Url) (s : State) :
    Item → List Item → State → Prop where
  | list {d : ExportList} {src : StrLit} {es : List Item} {t : State} (hsrc : d.src = some src)
      (h : mergeReexport cx n origin d src.value s = some (es, t)) :
      ReexportStep cx n origin s (.exportList d) es t
  | star {d : ExportAll} {es : List Item} {t : State}
      (h : mergeStar cx n origin d.src.value s = some (es, t)) :
      ReexportStep cx n origin s (.exportAll d) es t
  | nothing {i : Item} (hsrc : ∀ d, i = .exportList d → d.src = none)
      (hstar : ∀ d, i ≠ .exportAll d) : ReexportStep cx n origin s i [] s

theorem reexport_inv {origin : Url} {i : Item} {es : List Item}
    (h : reexport cx (n + 1) origin i s = some (es, t)) : ReexportStep cx n origin s i es t := by
  unfold reexport at h
  cases i with
  | exportList d =>
    cases hsrc : d.src with
    | none =>
      simp only [hsrc] at h
      obtain ⟨rfl, rfl⟩ := pure_inv h
      exact .nothing (fun d' he => by cases he; exact hsrc) (by simp)
    | some src =>
      simp only [hsrc] at h
      exact .list hsrc h
  | exportAll d => exact .star h
  | _ =>
    obtain ⟨rfl, rfl⟩ := pure_inv h
    exact .nothing (by simp) (by simp)

theorem claimFresh_inv {wanted name : String} (h : claimFresh wanted s = some (name, t)) :
    s.freshName wanted = name ∧ s.claim (s.freshName wanted) = t := by
  unfold claimFresh at h
  obtain ⟨s₁, s₂, hg, h⟩ := bind_inv h
  obtain ⟨rfl, rfl⟩ := get_inv hg
  obtain ⟨_, s₃, hm, h⟩ := bind_inv h
  obtain rfl := modify_inv hm
  exact pure_inv h

/-- Making sure that a file has a namespace block. A new one is opened, filled with the file's
statements and closed; then the exports get further names whose own one no member of it binds. -/
inductive SpaceStep (cx : Context) (n : Nat) (target : Url) (wanted : String) (s : State) :
    String → State → Prop where
  | old {name : String} (hold : s.space? target = some name) : SpaceStep cx n target wanted s name s
  | built {c : Collected} {exports : List (String × String)} {s₁ s₂ s₃ s₄ s₅ s₆ : State}
      (hnew : s.space? target = none)
      (inlined : inlineFile cx n target .dependency
        ((s.claim (s.freshName wanted)).openBlock target (s.freshName wanted)) = some ((), s₁))
      (hidden : s₂ = s₁ ∨ s₂ = s₁.warn (.hiddenDefault target (s.freshName wanted)))
      (collected : collect cx n target false Collected.empty s₂ = some (c, s₃))
      (stars : (c.stars.forM (fun star =>
        modify (State.warn (.hiddenStar (s.freshName wanted) star))) : Step PUnit) s₃ = some ((), s₄))
      (renamed : (c.names.mapM (fun e => do
        if e.1 = e.2 && !((s₄.closeBlock.1.map Piece.item).flatMap memberNames).contains e.2 then
          return (e.1, ← aliasOuter e.2)
        else return e) : Step (List (String × String))) s₄.closeBlock.2 = some (exports, s₅))
      (unbound : ((unboundExports (s₄.closeBlock.1.map Piece.item) exports).forM (fun e =>
        modify (State.warn (.selfExport e))) : Step PUnit) s₅ = some ((), s₆)) :
      SpaceStep cx n target wanted s (s.freshName wanted)
        (s₆.addItems [.made (spaceOf (!s₆.inBlock) (s.freshName wanted)
          (exportMembers (s₄.closeBlock.1.map Piece.item) exports))])

theorem ensureSpace_inv {wanted : String}
    (h : ensureSpace cx (n + 1) target wanted s = some (name, t)) :
    SpaceStep cx n target wanted s name t := by
  unfold ensureSpace at h
  obtain ⟨s₀, s₀', hg, h⟩ := bind_inv h
  obtain ⟨rfl, rfl⟩ := get_inv hg
  cases hspace : s.space? target with
  | some old =>
    simp only [hspace] at h
    obtain ⟨rfl, rfl⟩ := pure_inv h
    exact .old hspace
  | none =>
    simp only [hspace] at h
    obtain ⟨claimed, s₀, hclaim, h⟩ := bind_inv h
    obtain ⟨rfl, rfl⟩ := claimFresh_inv hclaim
    obtain ⟨_, s₀', hopen, h⟩ := bind_inv h
    obtain rfl := modify_inv hopen
    obtain ⟨_, s₁, hinline, h⟩ := bind_inv h
    obtain ⟨s₂, hhidden, h⟩ := ite_modify_inv h
    obtain ⟨c, s₃, hcollect, h⟩ := bind_inv h
    obtain ⟨_, s₄, hstars, h⟩ := bind_inv h
    obtain ⟨body, s₅, hclose, h⟩ := bind_inv h
    obtain ⟨rfl, rfl⟩ := modifyGet_inv hclose
    obtain ⟨exports, s₆, hexports, h⟩ := bind_inv h
    obtain ⟨_, s₇, hunbound, h⟩ := bind_inv h
    obtain ⟨s₈, s₈', hg, h⟩ := bind_inv h
    obtain ⟨rfl, rfl⟩ := get_inv hg
    obtain ⟨_, s₉, hadd, h⟩ := bind_inv h
    obtain rfl := modify_inv hadd
    obtain ⟨rfl, rfl⟩ := pure_inv h
    exact .built hspace hinline hhidden hcollect hstars hexports hunbound

/-- One key while import types are linked. -/
inductive TypeStep (cx : Context) (n : Nat) (origin : Url) (key : ImportTypeKey)
    (ts : OrderedMap ImportTypeKey ImportTypes.Target) (s : State) :
    OrderedMap ImportTypeKey ImportTypes.Target → State → Prop where
  | outer (hin : cx.inChunk? key.specifier origin = none) : TypeStep cx n origin key ts s
      (ts.put key (.specifier (cx.placeSpecifier key.specifier origin))) s
  | found {file : Url} {head f : String} {v : Visited} {s₁ t : State}
      (hin : cx.inChunk? key.specifier origin = some file)
      (hinc : includeFile cx n file .dependency s = some ((), s₁)) (hhead : key.head = some head)
      (h : resolveExport cx n file head [] s₁ = some ((some f, v), t)) :
      TypeStep cx n origin key ts s (ts.put key (.binding f)) t
  | missing {file : Url} {head : String} {v : Visited} {s₁ t : State}
      (hin : cx.inChunk? key.specifier origin = some file)
      (hinc : includeFile cx n file .dependency s = some ((), s₁)) (hhead : key.head = some head)
      (h : resolveExport cx n file head [] s₁ = some ((none, v), t)) :
      TypeStep cx n origin key ts s ts t
  | space {file : Url} {f : String} {s₁ t : State}
      (hin : cx.inChunk? key.specifier origin = some file)
      (hinc : includeFile cx n file .dependency s = some ((), s₁)) (hhead : key.head = none)
      (h : ensureSpace cx n file (spaceName file) s₁ = some (f, t)) :
      TypeStep cx n origin key ts s (ts.put key (.binding f)) t

/-- Linking the import types of some statements: from `s` to `t` the targets `τ` are found. -/
def TypeLinks (cx : Context) (n : Nat) (origin : Url) (items : List Item) (s : State)
    (τ : ImportTypes.Targets) (t : State) : Prop :=
  ∃ ts, Folds (TypeStep cx n origin) (ImportTypes.keys items).items OrderedMap.empty s ts t ∧
    τ = ts.get?

theorem linkTypes_inv {origin : Url} {items linked : List Item}
    (h : linkTypes cx (n + 1) origin items s = some (linked, t)) :
    ∃ τ, TypeLinks cx n origin items s τ t ∧ linkItems τ items = linked := by
  unfold linkTypes at h
  obtain ⟨targets, s₁, hfold, h⟩ := bind_inv h
  obtain ⟨rfl, rfl⟩ := pure_inv h
  refine ⟨targets.get?, ⟨targets, foldlM_folds hfold ?_, rfl⟩, rfl⟩
  intro key ts ts' s₂ s₃ hstep
  cases hin : cx.inChunk? key.specifier origin with
  | none =>
    simp only [hin] at hstep
    obtain ⟨rfl, rfl⟩ := pure_inv hstep
    exact .outer hin
  | some file =>
    simp only [hin] at hstep
    obtain ⟨_, s₄, hinc, hstep⟩ := bind_inv hstep
    cases hhead : key.head with
    | some head =>
      simp only [hhead] at hstep
      obtain ⟨final, s₅, hmap, hstep⟩ := bind_inv hstep
      obtain ⟨⟨final', v⟩, hres, rfl⟩ := map_inv hmap
      obtain ⟨rfl, rfl⟩ := pure_inv hstep
      cases final' with
      | some f => exact .found hin hinc hhead hres
      | none => exact .missing hin hinc hhead hres
    | none =>
      simp only [hhead] at hstep
      obtain ⟨final, s₅, hmap, hstep⟩ := bind_inv hstep
      obtain ⟨f, hspace, rfl⟩ := map_inv hmap
      obtain ⟨rfl, rfl⟩ := pure_inv hstep
      exact .space hin hinc hhead hspace

end AmbientBundle.Merge
