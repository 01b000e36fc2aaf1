import AmbientBundle.Proofs.Merge.BlockExports
import AmbientBundle.Proofs.Merge.BlockLinks
/-!
The namespace blocks of a merged chunk, and what is known of each: under which names the statements
of its file stand in it, which further names it binds, and what becomes of the exports of its file.
All of it is said of the names as they are in the end, so it is kept for the rest of the merging.
-/
namespace AmbientBundle.Merge

open Names Syntax

/-- A namespace block of a chunk: how it was opened, the statements in it, and its exports, each
with the name in the block that it is for. -/
structure Space where
  opening : Opening
  declare : Bool
  pieces : List Piece
  exports : List (String × String)

namespace Space

variable (b : Space)

/-- The file that the block holds. -/
abbrev file : Url := b.opening.target

/-- The names that the block's statements bind in it. -/
def members : List String := (b.pieces.map Piece.item).flatMap memberNames

/-- The statements of the block, with its exports. -/
def body : List Item := exportMembers (b.pieces.map Piece.item) b.exports

def item : Item := spaceOf b.declare b.opening.name b.body

end Space

/-- The statements of a chunk are statements of its files, imports, aliases and namespace blocks,
and so are those of each block. `P os ps b` holds of each block `b` inside of the blocks `os` and
beside the statements `ps`. -/
inductive Part (P : List Opening → List Piece → Space → Prop) :
    List Opening → List Piece → Piece → Prop where
  | statement {os : List Opening} {ps : List Piece} (file : Url) (i : Item) :
      Part P os ps (.ofFile file i)
  | imported {os : List Opening} {ps : List Piece} (d : ImportDecl) :
      Part P os ps (.made (.importDecl d))
  | named {os : List Opening} {ps : List Piece} (x f : String) :
      Part P os ps (.made (aliasOf x f false))
  | space {os : List Opening} {ps : List Piece} (b : Space) (holds : P os ps b)
      (parts : ∀ p ∈ b.pieces, Part P (b.opening :: os) b.pieces p) : Part P os ps (.made b.item)

theorem Part.imp {P Q : List Opening → List Piece → Space → Prop} {os : List Opening}
    {ps : List Piece} {p : Piece} (h : Part P os ps p)
    (hPQ : ∀ os ps b, P os ps b → (∀ p ∈ b.pieces, Part P (b.opening :: os) b.pieces p) →
      Q os ps b) : Part Q os ps p := by
  induction h with
  | statement file i => exact .statement file i
  | imported d => exact .imported d
  | named x f => exact .named x f
  | space b holds parts ih => exact .space b (hPQ _ _ b holds parts) ih

/-- What the chunk makes up is no export statement. -/
theorem Part.not_isExportStatement {P : List Opening → List Piece → Space → Prop}
    {os : List Opening} {ps : List Piece} {p : Piece} (h : Part P os ps p)
    (ho : p.owner = .chunk) : isExportStatement p.item = false := by
  cases h with
  | statement file i => cases ho
  | _ => rfl

/-- Each of the blocks was opened inside of those behind it. -/
def Nested (root : Environment) : List Opening → Prop
  | [] => True
  | o :: os => Opened root o os ∧ Nested root os

section Facts

variable {cx : Context} {root root' : Environment} {os : List Opening} {file : Url}

theorem Nested.widen (h : Nested root os) (hw : Widens cx root root') : Nested root' os := by
  induction os with
  | nil => trivial
  | cons o os ih => exact ⟨h.1.widen hw, ih h.2⟩

theorem Stacked.isNested {c : Scope} {known : SeenSet Url} {bs : List Block}
    (h : Stacked cx c known os bs) : Nested c.env os := by
  induction h with
  | nil => trivial
  | cons _ _ opened _ _ ih => exact ⟨opened, ih⟩

theorem Stacked.targets_eq {c : Scope} {known : SeenSet Url} {bs : List Block}
    (h : Stacked cx c known os bs) : os.map Opening.target = bs.map Block.target := by
  induction h with
  | nil => rfl
  | cons target _ _ _ _ ih => simp [target, ih]

/-- The final names for a file's declarations, for its locals, and for what its import types name
fit inside of the blocks. -/
structure FitNames (cx : Context) (root : Environment) (os : List Opening) (file : Url)
    (env : Environment) (τ : ImportTypes.Targets) : Prop where
  declared : ∀ k, cx.Declares file k → ∃ x, env.lookup file k = some x ∧ KnownAs root os file k x
  named : ∀ k x, env.lookup file k = some x → FitsIn cx root os (.own file k) x
  typed : ∀ key head f g, τ key = some (.binding f) → key.head = some head →
    cx.inChunk? key.specifier file = some g → FitsIn cx root os (.exported g head) f

/-- In the innermost of the blocks the statements stand for one of the file. All imports of the file
were dealt with before. -/
def StandsFor (cx : Context) (fin : State) (os : List Opening) (file : Url) (i : Item)
    (is : List Item) : Prop :=
  ∃ env env' τ, FitNames cx fin.root.env os file env τ ∧
    (∀ e ∈ cx.specifiers file, Tried fin.warnings env file e.2.loc) ∧
    is = linkItems τ (renameItems (Rename.ofEnvironment env file) (shown cx file true false env' i))

/-- What is known of a statement inside of the blocks: in a block a file's statement is one of the
block's file, and names that the chunk makes up are no names of the files. -/
structure PieceIn (cx : Context) (fin : State) (os : List Opening) (p : Piece) : Prop where
  ofFile : ∀ o ∈ os.head?, ∀ f, p.owner = .file f → f = o.target ∧
    ∃ i ∈ cx.statements f, ∃ is, StandsFor cx fin os f i is ∧ p.item ∈ is
  made : p.owner = .chunk → ∀ x ∈ p.item.binds,
    fin.root.env.owner? x = some .chunk ∧ ∀ o ∈ os, ¬o.Has x

/-- What becomes of the collected export `a` of a block: it stays or, if it has the name of its
binding and no member binds that, the binding gets another name beside the block. -/
inductive Becomes (fin : State) (ps : List Piece) (b : Space) (a e : String × String) : Prop where
  | same (he : e = a) (hm : a.1 = a.2 → a.2 ∈ b.members)
  | renamed (ha : a.1 = a.2) (hm : a.2 ∉ b.members) (he : e.1 = a.1)
      (claimed : fin.root.env.owner? e.2 = some .chunk)
      (new : ∀ p ∈ b.pieces, p.owner = .chunk → e.2 ∉ p.item.binds)
      (bound : Piece.made (aliasOf e.2 a.2 false) ∈ ps ∨ SameImport fin a.2 e.2)

/-- The exports of a block are those of its file, as they were collected. -/
structure Exporting (cx : Context) (fin : State) (os : List Opening) (ps : List Piece) (b : Space)
    (c : Collected) : Prop where
  collected : ∃ k s t, collect cx k b.file false Collected.empty s = some (c, t)
  fits : ∀ x f, (x, f) ∈ c.names → (∃ g, cx.Offers b.file false g x) ∧
    FitsIn cx fin.root.env (b.opening :: os) (.exported b.file x) f
  all : ∀ g x, cx.Offers b.file false g x →
    x ∈ c.names.map Prod.fst ∨ ∃ g, .unknownExport g x ∈ fin.warnings
  named : List.Forall₂ (Becomes fin ps b) c.names b.exports
  unbound : ∀ x ∈ unboundExports (b.pieces.map Piece.item) b.exports, .selfExport x ∈ fin.warnings

/-- What is known of a block. -/
structure SpaceOf (cx : Context) (fin : State) (os : List Opening) (ps : List Piece) (b : Space) :
    Prop where
  nested : Nested fin.root.env (b.opening :: os)
  pieces : ∀ p ∈ b.pieces, PieceIn cx fin (b.opening :: os) p
  shown : ∀ i ∈ cx.statements b.file, ∃ is, StandsFor cx fin (b.opening :: os) b.file i is ∧
    ∀ j ∈ is, .ofFile b.file j ∈ b.pieces
  madeOnce : ∀ x, madeCount b.pieces x ≤ 1
  exports : ∃ c, Exporting cx fin os ps b c

/-- There may be more statements beside a block. -/
theorem SpaceOf.beside {fin : State} {ps qs : List Piece} {b : Space}
    (h : SpaceOf cx fin os ps b) (hps : ∀ i, .made i ∈ ps → .made i ∈ qs) :
    SpaceOf cx fin os qs b := by
  obtain ⟨c, hc⟩ := h.exports
  refine { h with exports := ⟨c, { hc with named := hc.named.imp (fun _ _ he => ?_) }⟩ }
  cases he with
  | same he hm => exact .same he hm
  | renamed ha hm he claimed new bound =>
    exact .renamed ha hm he claimed new (bound.imp_left (hps _))

/-- What is known of statements inside of the blocks. -/
def Placed (cx : Context) (fin : State) (os : List Opening) (ps : List Piece) : Prop :=
  ∀ p ∈ ps, PieceIn cx fin os p ∧ Part (SpaceOf cx fin) os ps p

theorem Part.beside {fin : State} {ps qs : List Piece} {p : Piece}
    (h : Part (SpaceOf cx fin) os ps p) (hps : ∀ i, .made i ∈ ps → .made i ∈ qs) :
    Part (SpaceOf cx fin) os qs p := by
  cases h with
  | statement file i => exact .statement file i
  | imported d => exact .imported d
  | named x f => exact .named x f
  | space b holds parts => exact .space b (holds.beside hps) parts

namespace Placed

variable {fin : State} {ps qs : List Piece}

theorem nil : Placed cx fin os [] := by simp [Placed]

theorem append (hp : Placed cx fin os ps) (hq : Placed cx fin os qs) :
    Placed cx fin os (ps ++ qs) := by
  intro p h
  rcases List.mem_append.1 h with h | h
  · exact ⟨(hp p h).1, (hp p h).2.beside (fun i hi => List.mem_append_left _ hi)⟩
  · exact ⟨(hq p h).1, (hq p h).2.beside (fun i hi => List.mem_append_right _ hi)⟩

/-- Statements of files outside of blocks. -/
theorem ofFile_root (file : Url) (is : List Item) :
    Placed cx fin [] (is.map (Piece.ofFile file)) := by
  intro p hp
  obtain ⟨i, _, rfl⟩ := List.mem_map.1 hp
  exact ⟨⟨by simp, fun ho => (by cases ho)⟩, .statement file i⟩

end Placed

end Facts

/-- What comes later: the names that the root gave away, the imports and the warnings are kept. -/
structure Later (cx : Context) (s t : State) : Prop where
  widens : Widens cx s.root.env t.root.env
  imports : ∀ x y, SameImport s x y → SameImport t x y
  warnings : s.warnings ⊆ t.warnings

section Later

variable {cx : Context} {earlier : SeenSet Url} {n : Nat} {r : Role} {files : List Url}
  {s t u : State} {y : Yield} {os : List Opening} {ws : List (SeenSet Url × List Opening)}

namespace Later

theorem refl (cx : Context) (s : State) : Later cx s s :=
  ⟨.refl _ _, fun _ _ h => h, List.Subset.refl _⟩

theorem trans (h : Later cx s t) (h' : Later cx t u) : Later cx s u :=
  ⟨h.widens.trans h'.widens, fun x y hxy => h'.imports x y (h.imports x y hxy),
    List.Subset.trans h.warnings h'.warnings⟩

theorem of_eq (he : t.root.env = s.root.env) (hp : t.preserved = s.preserved)
    (hw : s.warnings ⊆ t.warnings) : Later cx s t := by
  refine ⟨he ▸ .refl _ _, fun x y h => ?_, hw⟩
  unfold SameImport at *
  rwa [hp]

/-- A local is linked that its file does not declare. -/
theorem link {origin : Url} {x : String} (s : State) (f : String) (hx : ¬cx.Declares origin x) :
    Later cx s (s.link origin x f) := by
  refine ⟨?_, fun y z h => ?_, by simp⟩
  · rw [State.root_link_env]
    split
    · exact .refl _ _
    · exact .link _ f hx
  · unfold SameImport at *
    rwa [State.preserved_link]

theorem run (hd : cx.ImportsApart) (hs : Standing cx earlier files os ws s)
    (run : Run cx n r files s y t) : Later cx s t :=
  ⟨run.widens hd hs.grounded.rooted, run.onward.imports, run.onward.warnings.subset⟩

theorem addItems (s : State) (ps : List Piece) : Later cx s (s.addItems ps) :=
  of_eq (by simp) (by simp) (by simp)

theorem takeItems (s : State) (k : Nat) : Later cx s (s.takeItems k).2 :=
  of_eq (by simp) (by simp) (by simp)

theorem closeBlock (s : State) : Later cx s s.closeBlock.2 := of_eq (by simp) (by simp) (by simp)

/-- A block is opened and its file begins there. -/
theorem beginBlock (s : State) (is : List Item) (file : Url) (name : String) :
    Later cx s ((s.openBlock file name).bindFile is file) := by
  exact of_eq (State.root_begunBlock_env _ _ _ _) (by simp) (by simp)

theorem resume (s : State) (k : Nat) (added : List Url) :
    Later cx s ((s.resume k).inheritFromRoot added) := by
  have hresume : Later cx s (s.resume k) := of_eq rfl rfl (List.Subset.refl _)
  exact hresume.trans (of_eq (by simp) (by simp) (by simp))

end Later

namespace Standing

theorem start (earlier : SeenSet Url) : Standing cx earlier [] [] [] (State.start earlier) :=
  ⟨.start earlier, .empty cx, fun _ he => (by cases he), .nil, .nil, by simp⟩

/-- Warnings do not count. -/
theorem warned (h : Standing cx earlier files os ws s) (w : List Warning) :
    Standing cx earlier files os ws { s with warnings := w } :=
  ⟨⟨h.grounded.formed.congr (List.Subset.refl _) rfl, h.grounded.rooted.congr rfl rfl,
    h.grounded.linked.congr rfl (fun _ _ => rfl), h.grounded.spaces⟩,
    h.blocks.congr rfl rfl rfl rfl rfl rfl⟩

theorem beginFile (h : Standing cx earlier files [] ws s) (hroot : s.inBlock = false) {file : Url}
    (hnew : s.included.contains file = false) (hfile : cx.HasFile file) :
    Standing cx earlier (file :: files) [] ws
      ((s.addFile file).bindFile (cx.statements file) file) :=
  ⟨h.grounded.beginFile hroot hnew hfile, h.blocks.beginFile h.grounded.rooted hroot hnew⟩

theorem suspend (h : Standing cx earlier files os ws s) :
    Standing cx earlier files [] ((s.included, os) :: ws) s.suspend :=
  ⟨h.grounded.suspend, h.blocks.suspend⟩

theorem beginBlock (h : Standing cx earlier files os ws s) {target : Url} {wanted : String}
    (hnew : s.space? target = none) (hfile : cx.HasFile target) (hw : cx.Formed wanted) :
    ∃ named, Standing cx earlier files (⟨s.freshName wanted, target, named⟩ :: os) ws
      (((s.claim (s.freshName wanted)).openBlock target (s.freshName wanted)).bindFile
        (cx.statements target) target) := by
  obtain ⟨named, hk⟩ := h.blocks.beginBlock h.grounded hnew wanted
  exact ⟨named, h.grounded.beginBlock hfile hw, hk⟩

theorem closeBlock {o : Opening} (h : Standing cx earlier files (o :: os) ws s) :
    Standing cx earlier files os ws s.closeBlock.2 :=
  ⟨h.grounded.closeBlock, h.blocks.closeBlock⟩

theorem head_targets (h : Standing cx earlier files os ws s) {o : Opening} (ho : o ∈ os.head?) :
    s.targets.head? = some o.target := by
  have htargets := congrArg List.head? h.blocks.nested.targets_eq
  rw [List.head?_map, ho, Option.map_some] at htargets
  exact htargets.symm

/-- The file of the innermost block is the one that is being merged. -/
theorem eq_target (h : Standing cx earlier files os ws s) {origin : Url}
    (hhead : s.targets.head? = some origin) : ∀ o ∈ os.head?, origin = o.target :=
  fun _ ho => Option.some.inj (hhead.symm.trans (h.head_targets ho))

theorem inBlock (h : Standing cx earlier files os ws s) {o : Opening} (ho : o ∈ os) :
    s.inBlock = true := by
  by_contra hb
  obtain ⟨rfl, _⟩ := h.blocks.nil_of_root (by simpa using hb)
  cases ho

/-- A name that a block around the current scope gave to a declaration of its file is not fresh. -/
theorem not_has_freshName (h : Standing cx earlier files os ws s) (wanted : String) :
    ∀ o ∈ os, ¬o.Has (s.freshName wanted) := by
  intro o ho hx
  obtain ⟨o', os', b, bs, rfl, hn⟩ := h.blocks.cons_of_inBlock (h.inBlock ho)
  have hsees := h.blocks.sees h.grounded.linked.sound
  have hscope : s.scope = b.scope := by simp [State.scope, hn]
  have htaken : b.scope.env.Taken (s.freshName wanted) := ⟨_, hscope ▸ hsees.own o ho _ hx⟩
  refine fresh_not_mem s.takenNames wanted (List.mem_append_right _ ?_)
  exact List.mem_flatMap.2 ⟨b, by simp [State.blocks, hn], Environment.taken_iff_mem.1 htaken⟩

end Standing

end Later

end AmbientBundle.Merge
