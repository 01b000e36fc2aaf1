import AmbientBundle.Proofs.Bundle.Declarations
import AmbientBundle.Proofs.Merge.BlockBodies
/-!
The `declare` modifier at the root of a chunk's file. Where the last pass adds it, each declaration
statement has it, however the statement came there: the pass skips exported declarations, but
whatever takes the `export` off puts the modifier on, and a block gets it where it is placed at the
root.
-/
namespace AmbientBundle

open Syntax

namespace Declare

/-- The modifier of a declaration statement, if its kind may have one. -/
def statementModifier? : Item → Option Bool
  | .decl d => modifier? d
  | _ => none

/-- A declaration statement has the modifier if its kind may have one. -/
def Ambient (i : Item) : Prop := statementModifier? i ≠ some false

variable {i j : Item} {d : Decl}

theorem ambient_of_none (h : statementModifier? i = none) : Ambient i := by
  simp [Ambient, h]

theorem ambient_ensure (d : Decl) : Ambient (.decl (ensure true d)) := by
  rcases ensure_cases true d with ⟨hnone, hsame⟩ | htrue
  · simp [Ambient, statementModifier?, hsame, hnone]
  · simp [Ambient, statementModifier?, htrue]

theorem ambient_plainDefault (g : Url) (d : DefaultDecl) :
    Ambient (.decl (Exports.plainDefault g d)) := by
  rw [← ensure_plainDefault]
  exact ambient_ensure _

/-- Neither renaming nor linking touches the modifier. -/
theorem Ambient.printed (h : Ambient i) (ρ : Rename.Renaming) (τ : ImportTypes.Targets) :
    Ambient ((i.rename ρ).link τ) := by
  cases i with
  | decl d =>
    have hkeeps : modifier? ((d.rename ρ).link τ) = modifier? d := by
      rw [modifier?_link, modifier?_rename]
    exact fun hfalse => h (hkeeps.symm.trans hfalse)
  | _ => exact ambient_of_none rfl

theorem ambient_onItem (i : Item) : Ambient ((Pass.onItem? .add i).getD i) := by
  cases i with
  | decl d =>
    rw [Pass.decl_onItem?]
    exact ambient_ensure d
  | _ => exact ambient_of_none rfl

/-- Behind the pass that adds the modifier all declaration statements have it. -/
theorem ambient_of_add {m : Module} : ∀ i ∈ (Pass.run .add m).body, Ambient i := by
  intro i hi
  rw [Pass.body_run] at hi
  obtain ⟨j, -, rfl⟩ := List.mem_map.1 hi
  exact ambient_onItem j

end Declare

namespace Merge

open Declare Names

variable {cx : Context} {included : SeenSet Url} {g : Url} {i j : Item} {p : Piece}
  {scope : Option Url}

namespace Context

theorem ambient_prepare (hpasses : cx.passes.getLast? = some .add) {m : Module} :
    ∀ i ∈ (cx.prepare m).body, Ambient i := by
  obtain ⟨ps, hps⟩ := List.getLast?_eq_some_iff.1 hpasses
  rw [prepare, hps, List.foldl_append]
  exact ambient_of_add

/-- A nameless default export gets the modifier with its name. -/
theorem ambient_body (hpasses : cx.passes.getLast? = some .add) : ∀ i ∈ cx.body g, Ambient i := by
  unfold body
  cases hm : cx.files.get? g with
  | none => simp
  | some m =>
    intro i hi
    obtain ⟨k, hk, hi⟩ := List.mem_flatMap.1 hi
    split at hi
    · rename_i hdefault
      cases k with
      | exportDefaultDecl d =>
        rcases List.mem_cons.1 hi with rfl | hi
        · exact ambient_plainDefault g d
        · rw [List.mem_singleton.1 hi]
          exact ambient_of_none rfl
      | _ => cases hdefault
    · rw [List.mem_singleton.1 hi]
      exact ambient_prepare hpasses k hk

theorem ambient_statements (hpasses : cx.passes.getLast? = some .add) :
    ∀ i ∈ cx.statements g, Ambient i := by
  intro i hi
  obtain ⟨j, hj, hij⟩ := List.mem_flatMap.1 hi
  cases j with
  | importDecl d => cases hij
  | importEquals d =>
    simp only [splitImport] at hij
    split at hij
    · split at hij
      · rw [List.mem_singleton.1 hij]
        exact ambient_of_none rfl
      · cases hij
    · rw [List.mem_singleton.1 hij]
      exact ambient_of_none rfl
  | _ =>
    rw [List.mem_singleton.1 hij]
    exact ambient_body hpasses _ hj

end Context

/-- A declaration statement is shown of declarations only. -/
theorem ShownAs.eq_of_decl {inBlock keep : Bool} (h : ShownAs cx g inBlock keep i j) {d : Decl}
    (hj : j = .decl d) : (∃ e, i = .decl e) ∨ (∃ e, i = .exportDecl e) ∨
      ∃ e, i = .exportDefaultDecl e := by
  cases h with
  | same => exact Or.inl ⟨d, hj⟩
  | @declared e isExport =>
    cases isExport with
    | false => exact Or.inl ⟨e, rfl⟩
    | true => exact Or.inr (Or.inl ⟨e, rfl⟩)
  | byDefault => exact Or.inr (Or.inr ⟨_, rfl⟩)
  | listed => exact Or.inr (Or.inl ⟨_, rfl⟩)
  | listedDefault => exact Or.inr (Or.inr ⟨_, rfl⟩)
  | equals => cases hj

/-- What is shown at the root: a declaration statement stays, and a declaration that is exported no
longer gets the modifier. -/
theorem ambient_shown {keep : Bool} {env : Environment} (hi : Ambient i)
    (h : j ∈ shown cx g false keep env i) : Ambient j := by
  cases i with
  | decl d => exact List.mem_singleton.1 h ▸ hi
  | exportDecl d =>
    simp only [shown] at h
    split at h
    · exact List.mem_singleton.1 h ▸ hi
    · rcases promoted_exportDecl h with rfl | rfl | ⟨-, rfl⟩
      · exact hi
      · exact ambient_ensure d
      · exact ambient_of_none rfl
  | exportDefaultDecl d =>
    simp only [shown] at h
    split at h
    · exact List.mem_singleton.1 h ▸ hi
    · rcases promoted_exportDefaultDecl h with rfl | ⟨-, rfl⟩
      · exact ambient_plainDefault g d
      · exact ambient_of_none rfl
  | _ =>
    cases j with
    | decl d =>
      rcases (shownAs_of_mem h).eq_of_decl rfl with ⟨_, hi⟩ | ⟨_, hi⟩ | ⟨_, hi⟩ <;> cases hi
    | _ => exact ambient_of_none rfl

/-- What merging places at the root. -/
theorem Derived.ambient (hpasses : cx.passes.getLast? = some .add)
    (h : Derived cx included scope p) (hroot : scope = none) : Ambient p.item := by
  cases h with
  | shown hg hi hscope hj =>
    subst hroot
    exact (ambient_shown (Context.ambient_statements hpasses _ hi) hj).printed _ _
  | block =>
    subst hroot
    exact fun hfalse => Bool.noConfusion (Option.some.inj hfalse)
  | _ => exact ambient_of_none rfl

end Merge

namespace Bundle

open Declare Merge

variable {o : Options} {outDir : Url} {chunks : List Chunk} {placed cs : List PlacedChunk}
  {included included' : SeenSet Url} {ms : List Merged} {m : Merged} {r : Result}

theorem Merges.of_mem (h : Merges o placed included cs ms included') (hm : m ∈ ms) :
    ∃ c before after warnings,
      mergeChunk? (o.context placed c) before = some (m, after, warnings) := by
  induction h with
  | nil => cases hm
  | cons hmerge _ ih =>
    rcases List.mem_cons.1 hm with rfl | hm
    · exact ⟨_, _, _, _, hmerge⟩
    · exact ih hm

/-- If the last pass adds `declare`, as the only default one does, each declaration statement at the
root of a chunk of a bundle has the modifier, if its kind may have one. -/
theorem root_declarations_ambient (hpasses : o.passes.getLast? = some .add)
    (h : run o outDir chunks = .ok r) : ∀ m ∈ r.chunks, ∀ i ∈ m.module.body, Ambient i := by
  obtain ⟨placed, -, hmerges⟩ := merges_of_run h
  intro m hm i hi
  obtain ⟨c, before, after, warnings, hmerge⟩ := hmerges.of_mem hm
  obtain ⟨p, hp, rfl⟩ := List.mem_map.1 hi
  exact (derived_of_mergeChunk? hmerge p hp).ambient hpasses rfl

/-- `/a.d.ts` has declarations without the modifier: its own, an exported one, and a nameless
default export. The entry, which has two classes, exports the namespace of `/a.d.ts`. -/
def withoutModifiers : Options := .ofFiles
  [("/a.d.ts", [.decl (.cls (.made "A") false ⟨false, [], none, [], []⟩),
      .exportDecl (.cls (.made "B") false ⟨false, [], none, [], []⟩),
      .exportDefaultDecl (.cls (.anonymous 0) ⟨false, [], none, [], []⟩)]),
    ("/i.d.ts", [.importDecl ⟨[.default "D"], .made "/a.d.ts", false, none⟩,
      .exportList ⟨[.all (.word "NS")], some (.made "/a.d.ts"), false, none⟩,
      .exportDecl (.cls (.made "B") false ⟨false, [], none, [], []⟩),
      .decl (.cls (.made "C") false ⟨false, [], none, [], []⟩)])]

def withoutModifiersChunk : Chunk := ⟨"index.js", true, [.ofPath "/a.d.ts", .ofPath "/i.d.ts"]⟩

set_option maxRecDepth 100000 in
/-- The three classes of `/a.d.ts`, the block for it, and the entry's own class are declared; the
entry's other class is exported. -/
theorem root_declarations_ambient_blocks : ∃ r,
    run withoutModifiers (.ofPath "/dist/") [withoutModifiersChunk] = .ok r ∧
      (∀ m ∈ r.chunks, ∀ i ∈ m.module.body, Ambient i) ∧
      r.chunks.map (fun m => m.module.body.filterMap statementModifier?) =
        [[true, true, true, true, true]] := by
  have hrun : (run withoutModifiers (.ofPath "/dist/") [withoutModifiersChunk]).toOption.map
      (fun r => r.chunks.map (fun m => m.module.body.filterMap statementModifier?)) =
        some [[true, true, true, true, true]] := by
    decide +kernel
  cases h : run withoutModifiers (.ofPath "/dist/") [withoutModifiersChunk] with
  | error e =>
    rw [h] at hrun
    cases hrun
  | ok r =>
    rw [h] at hrun
    exact ⟨r, rfl, root_declarations_ambient rfl h, Option.some.inj hrun⟩

end Bundle

end AmbientBundle
