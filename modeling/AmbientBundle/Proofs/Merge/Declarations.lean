import AmbientBundle.Proofs.Merge.Presence
import AmbientBundle.Proofs.Syntax.Declarations
/-!
The declarations of a chunk's files at its root. Merging only adds statements to the root; what a
run adds for a file that it inlines is each of the file's declarations, once and in order, and for
all other files it adds none.
-/
namespace AmbientBundle.Merge

open Names Syntax

namespace Context

/-- An `import x = require(…)` of a file of the chunk counts as an import. -/
def takesFile (cx : Context) (file : Url) : Item → Bool
  | .importEquals d => (cx.required? file d).isSome
  | _ => false

/-- The declarations of a file, as its module has them but for modifiers. -/
def declarations (cx : Context) (file : Url) : List Item :=
  match cx.files.get? file with
  | some m => (m.body.filter (fun i => !cx.takesFile file i)).flatMap (Item.declaration file)
  | none => []

variable {cx : Context} {file : Url}

theorem declaration_splitImport (i : Item) :
    (splitImport cx file i).2.flatMap (Item.declaration file) =
      if cx.takesFile file i then [] else i.declaration file := by
  cases i with
  | importEquals d =>
    obtain ⟨isExport, typeOnly, id, target⟩ := d
    cases target with
    | entity name => simp [splitImport, takesFile, required?]
    | require src =>
      cases hin : cx.inChunk? src.value file with
      | none => simp [splitImport, takesFile, required?, hin]
      | some g =>
        cases isExport <;> simp [splitImport, takesFile, required?, hin, Exports.list,
          Item.declaration]
  | importDecl d => rfl
  | _ => simp [splitImport, takesFile]

/-- The passes and the naming of default exports keep the declarations. -/
theorem declarations_eq :
    cx.declarations file = (cx.statements file).flatMap (Item.declaration file) := by
  have hpasses : ∀ (ps : List Declare.Pass) (m : Module),
      (ps.foldl (fun m p => p.run m) m).body.flatMap (fun i =>
          if cx.takesFile file i then [] else i.declaration file) =
        m.body.flatMap (fun i => if cx.takesFile file i then [] else i.declaration file) := by
    intro ps
    induction ps with
    | nil => exact fun _ => rfl
    | cons p ps ih =>
      intro m
      rw [List.foldl_cons, ih, Declare.Pass.body_run, List.flatMap_map]
      refine List.flatMap_congr (fun i _ => ?_)
      have htakes : cx.takesFile file ((p.onItem? i).getD i) = cx.takesFile file i :=
        p.apply_onItem? (cx.takesFile file) (fun _ _ => rfl) (fun _ _ => rfl) i
      rw [htakes, Item.declaration_onItem?]
  have hnamed : ∀ is : List Item, (nameDefaults file is).flatMap (fun i =>
        if cx.takesFile file i then [] else i.declaration file) =
      is.flatMap (fun i => if cx.takesFile file i then [] else i.declaration file) := by
    intro is
    rw [nameDefaults, List.flatMap_assoc]
    refine List.flatMap_congr (fun i _ => ?_)
    split
    · rename_i h
      rw [← Item.declaration_promote file i]
      cases i with
      | exportDefaultDecl d => rfl
      | _ => cases h
    · simp
  unfold declarations statements body
  cases cx.files.get? file with
  | none => rfl
  | some m =>
    simp only [List.flatMap_assoc, declaration_splitImport]
    rw [hnamed, prepare, hpasses]
    induction m.body with
    | nil => rfl
    | cons i is ih =>
      rw [List.filter_cons, List.flatMap_cons, ← ih]
      cases cx.takesFile file i <;> simp

end Context

/-- The declaration that a statement of a file is. -/
def Piece.declaration (file : Url) (p : Piece) : List Item :=
  if p.owner = .file file then p.item.declaration file else []

/-- The declarations of a file among statements. -/
def declarationsOf (file : Url) (ps : List Piece) : List Item :=
  ps.flatMap (Piece.declaration file)

/-- `j` is the declaration `d` as a chunk shows it: with names replaced by `ρ`, with import types
replaced by what they refer to, and with the module specifier of an `import x = require(…)` in
the chunk's place. -/
def InlinedAs (cx : Context) (file : Url) (ρ : Rename.Renaming) (d j : Item) : Prop :=
  ∃ τ, j = ((placed cx file d).rename ρ).link τ

section Pieces

variable {f g : Url} {ps qs : List Piece}

@[simp] theorem declarationsOf_nil : declarationsOf f [] = [] := rfl

@[simp] theorem declarationsOf_append :
    declarationsOf f (ps ++ qs) = declarationsOf f ps ++ declarationsOf f qs :=
  List.flatMap_append

@[simp] theorem declarationsOf_made (i : Item) : declarationsOf f [.made i] = [] := rfl

theorem declarationsOf_ofFile (is : List Item) :
    declarationsOf f (is.map (Piece.ofFile f)) = is.flatMap (Item.declaration f) := by
  rw [declarationsOf, List.flatMap_map]
  simp [Piece.declaration, Piece.ofFile]

theorem declarationsOf_of_ne (is : List Item) (h : g ≠ f) :
    declarationsOf f (is.map (Piece.ofFile g)) = [] := by
  rw [declarationsOf, List.flatMap_map]
  simp [Piece.declaration, Piece.ofFile, h]

theorem declaration_of_isExportStatement {i : Item} (h : isExportStatement i = true) :
    i.declaration f = [] := by
  cases i with
  | exportList d => rfl
  | exportAll d => rfl
  | _ => cases h

theorem declarationsOf_exports {is : List Item} (h : ∀ i ∈ is, isExportStatement i = true) :
    declarationsOf f (is.map (Piece.ofFile g)) = [] := by
  rw [declarationsOf, List.flatMap_map, List.flatMap_eq_nil_iff]
  intro i hi
  simp [Piece.declaration, Piece.ofFile, declaration_of_isExportStatement (h i hi)]

/-- Dropping repeated exports drops no declaration. -/
theorem declarationsOf_keepNewAll (seen : Exported) (ps : List Piece) :
    declarationsOf f (keepNewAll seen ps) = declarationsOf f ps := by
  induction ps generalizing seen with
  | nil => rfl
  | cons p ps ih =>
    have hcons : declarationsOf f (p :: ps) = p.declaration f ++ declarationsOf f ps := rfl
    rw [keepNewAll, declarationsOf_append, ih, hcons]
    congr 1
    cases he : isExportStatement p.item with
    | false => simp [keepNew_of_not_isExportStatement he, declarationsOf]
    | true =>
      have hp : p.declaration f = [] := by
        simp [Piece.declaration, declaration_of_isExportStatement he]
      rw [hp, declarationsOf, List.flatMap_eq_nil_iff]
      intro q hq
      obtain ⟨i, hi, rfl⟩ := List.mem_map.1 hq
      rcases mem_keepNew hi with rfl | ⟨_, hi⟩
      · exact hp
      · simp [Piece.declaration, declaration_of_isExportStatement hi]

end Pieces

variable {cx : Context} {cur : Option Url} {n : Nat} {r : Role} {files : List Url}
  {s s' t t' u : State} {y : Yield} {a b p p' q : List Piece}

/-- A namespace block, or an alias of a binding, as merging makes them up. -/
inductive MadeUp : Item → Prop where
  | space (declare : Bool) (name : String) (body : List Item) : MadeUp (spaceOf declare name body)
  | alias (name target : String) : MadeUp (aliasOf name target false)

/-- Between two states `added` comes to the root, and `handed` is on its way there. Files that are
included get no declarations any more, but for the current file, which is being printed. -/
structure Adds (cx : Context) (cur : Option Url) (s t : State) (added handed : List Piece) :
    Prop where
  items : t.root.items = s.root.items ++ added
  included : ∀ f, s.included.contains f = true → t.included.contains f = true
  named : ∀ f, s.included.contains f = true → cur ≠ some f →
    Rename.ofEnvironment t.root.env f = Rename.ofEnvironment s.root.env f
  old : ∀ f, s.included.contains f = true → declarationsOf f added = []
  others : ∀ f, s.included.contains f = true → cur ≠ some f → declarationsOf f handed = []
  outside : ∀ f, t.included.contains f = false → declarationsOf f (added ++ handed) = []
  new : ∀ f, s.included.contains f = false → t.included.contains f = true →
    List.Forall₂ (InlinedAs cx f (Rename.ofEnvironment t.root.env f)) (cx.declarations f)
      (declarationsOf f (added ++ handed))
  made : ∀ p ∈ added ++ handed, p.owner = .chunk → MadeUp p.item

namespace Adds

/-- Statements without declarations come to the root. -/
theorem quiet (hi : t.included = s.included)
    (hl : ∀ f x, cur ≠ some f → t.root.env.lookup f x = s.root.env.lookup f x)
    (ht : t.root.items = s.root.items ++ a) (ha : ∀ f, declarationsOf f a = [])
    (hm : ∀ p ∈ a, p.owner = .chunk → MadeUp p.item) : Adds cx cur s t a [] := by
  refine ⟨ht, fun f hf => hi ▸ hf, fun f _ hc => ?_, fun f _ => ha f, fun _ _ _ => rfl,
    fun f _ => by simp [ha f], fun f hs ht => ?_, by simpa using hm⟩
  · funext x
    simp only [Rename.ofEnvironment, hl f x hc]
  · rw [hi, hs] at ht
    cases ht

theorem same (hi : t.included = s.included)
    (hl : ∀ f x, cur ≠ some f → t.root.env.lookup f x = s.root.env.lookup f x)
    (ht : t.root.items = s.root.items) : Adds cx cur s t [] [] :=
  quiet hi hl (by simpa using ht) (fun _ => rfl) (by simp)

theorem claim (cx : Context) (cur : Option Url) (s : State) (name : String) :
    Adds cx cur s (s.claim name) [] [] :=
  .same rfl (fun _ _ _ => rfl) rfl

theorem link {origin : Url} {x v : String} (h : s.inBlock = false → cur = some origin) :
    Adds cx cur s (s.link origin x v) [] [] := by
  refine .same (by simp) (fun g y hg => State.lookup_root_link_of_ne fun hb he => ?_) (by simp)
  obtain ⟨rfl, _⟩ := Prod.mk.inj he
  exact hg (h hb)

/-- Statements are added to the current scope; outside of blocks they declare nothing. -/
theorem addItems (ps : List Piece) (h : s.inBlock = false → (∀ f, declarationsOf f ps = []) ∧
    ∀ p ∈ ps, p.owner = .chunk → MadeUp p.item) :
    Adds cx cur s (s.addItems ps) (if s.inBlock then [] else ps) [] := by
  cases hb : s.inBlock with
  | true =>
    refine .same (by simp) (fun _ _ _ => by simp) ?_
    rw [State.root_addItems_items, hb, if_pos rfl]
  | false =>
    refine .quiet (by simp) (fun _ _ _ => by simp) ?_ (h hb).1 (h hb).2
    rw [State.root_addItems_items, hb, if_neg Bool.false_ne_true]
    rfl

theorem takeItems (hb : s.inBlock = true) (k : Nat) : Adds cx cur s (s.takeItems k).2 [] [] := by
  refine .same (by simp) (fun _ _ _ => by simp) ?_
  rw [State.root_takeItems_items, hb, if_pos rfl]

theorem beginBlock (cx : Context) (cur : Option Url) (s : State) (is : List Item) (target : Url)
    (name : String) :
    Adds cx cur s (((s.claim name).openBlock target name).bindFile is target) [] [] := by
  exact .same (by simp) (fun _ _ _ => State.lookup_root_begunBlock _ _ _ _ _ _)
    (by simp [State.claim])

theorem closeBlock (cx : Context) (cur : Option Url) (s : State) :
    Adds cx cur s s.closeBlock.2 [] [] :=
  .same (by simp) (fun _ _ _ => by simp) (by simp)

theorem congr (h : Adds cx cur s t a p) (hi : s'.included = s.included) (hr : s'.root = s.root)
    (hi' : t'.included = t.included) (hr' : t'.root = t.root) : Adds cx cur s' t' a p where
  items := by rw [hr', hr, h.items]
  included f hf := by
    rw [hi']
    exact h.included f (hi ▸ hf)
  named f hf hc := by
    rw [hr', hr]
    exact h.named f (hi ▸ hf) hc
  old f hf := h.old f (hi ▸ hf)
  others f hf hc := h.others f (hi ▸ hf) hc
  outside f hf := h.outside f (hi' ▸ hf)
  new f hs ht := by
    rw [hr']
    exact h.new f (hi ▸ hs) (hi' ▸ ht)
  made := h.made

theorem trans (h : Adds cx cur s t a p') (h' : Adds cx cur t u b q)
    (hcur : ∀ f, cur = some f → s.included.contains f = true) :
    Adds cx cur s u (a ++ b) (p' ++ q) := by
  have hne : ∀ f, s.included.contains f = false → cur ≠ some f := fun f hf hc => by
    rw [hcur f hc] at hf
    cases hf
  refine ⟨by rw [h'.items, h.items, List.append_assoc], fun f hf => h'.included f (h.included f hf),
    fun f hf hc => (h'.named f (h.included f hf) hc).trans (h.named f hf hc), fun f hf => ?_,
    fun f hf hc => ?_, fun f hf => ?_, fun f hs hu => ?_, fun p hp => ?_⟩
  · rw [declarationsOf_append, h.old f hf, h'.old f (h.included f hf), List.append_nil]
  · rw [declarationsOf_append, h.others f hf hc, h'.others f (h.included f hf) hc, List.append_nil]
  · have ht : t.included.contains f = false := by
      rw [Bool.eq_false_iff]
      intro ht
      rw [h'.included f ht] at hf
      cases hf
    have h₁ := h.outside f ht
    have h₂ := h'.outside f hf
    simp only [declarationsOf_append, List.append_eq_nil_iff] at h₁ h₂ ⊢
    exact ⟨⟨h₁.1, h₂.1⟩, h₁.2, h₂.2⟩
  · cases ht : t.included.contains f with
    | true =>
      have hnew := h.new f hs ht
      rw [← h'.named f ht (hne f hs)] at hnew
      simpa [h'.old f ht, h'.others f ht (hne f hs)] using hnew
    | false =>
      have hout := h.outside f ht
      have hnew := h'.new f ht hu
      simp only [declarationsOf_append, List.append_eq_nil_iff] at hout
      simpa [hout.1, hout.2] using hnew
  · have hp' : p ∈ a ++ p' ∨ p ∈ b ++ q := by
      simp only [List.mem_append] at hp ⊢
      tauto
    exact hp'.elim (h.made p) (h'.made p)

/-- Statements of the current file are handed back. -/
theorem hand (h : Adds cx cur s t a p) (hq : ∀ f, cur ≠ some f → declarationsOf f q = [])
    (hm : ∀ p ∈ q, p.owner = .chunk → MadeUp p.item)
    (hcur : ∀ f, cur = some f → s.included.contains f = true) : Adds cx cur s t a (p ++ q) := by
  have hne : ∀ f, s.included.contains f = false → cur ≠ some f := fun f hf hc => by
    rw [hcur f hc] at hf
    cases hf
  refine ⟨h.items, h.included, h.named, h.old, fun f hf hc => ?_, fun f hf => ?_,
    fun f hs ht => ?_, fun x hx => ?_⟩
  · rw [declarationsOf_append, h.others f hf hc, hq f hc, List.append_nil]
  · have hs : s.included.contains f = false := by
      rw [Bool.eq_false_iff]
      intro hs
      rw [h.included f hs] at hf
      cases hf
    rw [← List.append_assoc, declarationsOf_append, h.outside f hf, hq f (hne f hs),
      List.append_nil]
  · rw [← List.append_assoc, declarationsOf_append, hq f (hne f hs), List.append_nil]
    exact h.new f hs ht
  · rw [← List.append_assoc] at hx
    exact (List.mem_append.1 hx).elim (h.made x) (hm x)

/-- What came to the root is taken out of it again. -/
theorem take (h : Adds cx cur s t a []) (hb : s.inBlock = false) (hb' : t.inBlock = false) :
    Adds cx cur s (t.takeItems s.scope.items.length).2 []
      (t.takeItems s.scope.items.length).1 := by
  have htaken : (t.takeItems s.scope.items.length).1 = a := by
    rw [State.takeItems, State.scope_of_root hb, State.scope_of_root hb', h.items,
      List.drop_left]
  rw [htaken]
  refine ⟨?_, fun f hf => by simpa using h.included f hf, fun f hf hc => ?_, fun _ _ => rfl,
    fun f hf _ => h.old f hf, fun f hf => ?_, fun f hs ht => ?_, by simpa using h.made⟩
  · rw [State.root_takeItems_items, hb', if_neg Bool.false_ne_true, State.scope_of_root hb, h.items,
      List.take_left, List.append_nil]
  · rw [State.root_takeItems_env]
    exact h.named f hf hc
  · simpa using h.outside f (by simpa using hf)
  · rw [State.root_takeItems_env]
    simpa using h.new f hs (by simpa using ht)

/-- A file is inlined at the root: its statements are handed over and put there. -/
theorem inline {file : Url} (hnew : s.included.contains file = false) (hb : u.inBlock = false)
    (h : Adds cx (some file) ((s.addFile file).bindFile (cx.statements file) file) u a p)
    (hfile : List.Forall₂ (InlinedAs cx file (Rename.ofEnvironment u.root.env file))
      (cx.declarations file) (declarationsOf file p)) :
    Adds cx cur s (u.addItems p) (a ++ p) [] := by
  have hold : ∀ f, s.included.contains f = true → f ≠ file ∧
      ((s.addFile file).bindFile (cx.statements file) file).included.contains f = true := by
    refine fun f hf => ⟨?_, by simp [State.addFile, SeenSet.contains_insert, hf]⟩
    rintro rfl
    rw [hf] at hnew
    cases hnew
  have hcur : ∀ f, s.included.contains f = true → some file ≠ some f := fun f hf => by
    simpa using (hold f hf).1.symm
  refine ⟨?_, fun f hf => ?_, fun f hf _ => ?_, fun f hf => ?_, fun _ _ _ => rfl,
    fun f hf => ?_, fun f hs hu => ?_, by simpa using h.made⟩
  · rw [State.root_addItems_items, hb, if_neg Bool.false_ne_true, h.items,
      State.root_bindFile_items, List.append_assoc]
    rfl
  · rw [State.included_addItems]
    exact h.included f (hold f hf).2
  · rw [State.root_addItems_env, h.named f (hold f hf).2 (hcur f hf)]
    funext x
    rw [Rename.ofEnvironment, Rename.ofEnvironment,
      State.lookup_root_bindFile_of_ne (hold f hf).1.symm]
    rfl
  · rw [declarationsOf_append, h.old f (hold f hf).2, h.others f (hold f hf).2 (hcur f hf),
      List.append_nil]
  · simpa using h.outside f (by simpa using hf)
  · rw [State.root_addItems_env, List.append_nil]
    rw [State.included_addItems] at hu
    by_cases hff : f = file
    · subst hff
      have hself : ((s.addFile f).bindFile (cx.statements f) f).included.contains f = true := by
        simp [State.addFile, SeenSet.contains_insert]
      rw [declarationsOf_append, h.old f hself, List.nil_append]
      exact hfile
    · refine h.new f ?_ hu
      simp only [State.included_bindFile, State.addFile, SeenSet.contains_insert, hs, hff,
        decide_false, Bool.or_false]

end Adds

/-- What a run brings to the root, and what it hands back outside of blocks; where it links no
imports, that are the declarations of the current file's statements that it prints. -/
structure Brings (cx : Context) (files : List Url) (s : State) (y : Yield) (t : State) : Prop where
  adds : ∃ added, Adds cx files.head? s t added (if s.inBlock then [] else y.pieces)
  printed : y.tried = [] → s.inBlock = false → ∀ f, files.head? = some f →
    List.Forall₂ (InlinedAs cx f (Rename.ofEnvironment t.root.env f))
      (y.printed.flatMap (Item.declaration f)) (declarationsOf f y.pieces)

namespace Brings

theorem nothing (h : Adds cx files.head? s t a []) (hp : y.pieces = []) (hi : y.printed = []) :
    Brings cx files s y t := by
  refine ⟨⟨a, ?_⟩, fun _ _ f _ => ?_⟩
  · rwa [hp, ite_self]
  · rw [hp, hi]
    exact .nil

theorem same (hi : t.included = s.included) (hr : t.root.items = s.root.items)
    (he : t.root.env.lookup = s.root.env.lookup) : Brings cx files s ∅ t :=
  nothing (.same hi (fun _ _ _ => by rw [he]) hr) rfl rfl

theorem adds_nil (h : Brings cx files s y t) (hp : s.inBlock = true ∨ y.pieces = []) :
    ∃ added, Adds cx files.head? s t added [] := by
  obtain ⟨a, ha⟩ := h.adds
  rcases hp with hp | hp
  · exact ⟨a, by rwa [hp, if_pos rfl] at ha⟩
  · exact ⟨a, by rwa [hp, ite_self] at ha⟩

end Brings

theorem Rooted.current (hr : Rooted files s) :
    ∀ f, files.head? = some f → s.included.contains f = true :=
  fun f hf => hr.begun f (List.mem_of_mem_head? hf)

/-- A statement of the current file is handed back behind the exports that it asked for; those are
taken from the root, where they came in meanwhile. -/
theorem Brings.print {origin : Url} {i : Item} {exports : List Item} {τ : ImportTypes.Targets}
    (hr : Rooted files s) (hcurrent : Current cx files origin s) (hi : i ∈ cx.statements origin)
    (hexp : ∀ e ∈ exports, isExportStatement e = true) (run : Run cx n r files s ∅ t)
    (links : Run cx n r files (t.takeItems s.scope.items.length).2 ∅ u)
    (hrun : Brings cx files s ∅ t)
    (hlinks : Brings cx files (t.takeItems s.scope.items.length).2 ∅ u) :
    Brings cx files s
      ⟨(t.takeItems s.scope.items.length).1 ++
        (linkItems τ (renameItems (Rename.ofEnvironment t.scope.env origin)
          (Merge.shown cx origin s.inBlock (keepsExports r s) s.scope.env i)) ++ exports).map
            (Piece.ofFile origin), [], [i]⟩ u := by
  obtain ⟨a, h₁⟩ := hrun.adds_nil (Or.inr rfl)
  obtain ⟨b, h₂⟩ := hlinks.adds_nil (Or.inr rfl)
  have hbt := run.inBlock_eq
  cases hb : s.inBlock with
  | true =>
    have htake := h₁.trans (.takeItems (hbt.trans hb) s.scope.items.length) hr.current
    refine ⟨⟨_, by simpa [hb] using htake.trans h₂ hr.current⟩, ?_⟩
    intro _ hroot
    rw [hb] at hroot
    cases hroot
  | false =>
    have htake := h₁.take hb (hbt.trans hb)
    have hhead := hcurrent.head hb
    have hothers : ∀ f, files.head? ≠ some f → declarationsOf f
        ((linkItems τ (renameItems (Rename.ofEnvironment t.scope.env origin)
          (Merge.shown cx origin s.inBlock (keepsExports r s) s.scope.env i)) ++ exports).map
            (Piece.ofFile origin)) = [] := by
      intro f hf
      refine declarationsOf_of_ne _ ?_
      rintro rfl
      exact hf hhead
    have hmade : ∀ p ∈ ((linkItems τ (renameItems (Rename.ofEnvironment t.scope.env origin)
          (Merge.shown cx origin s.inBlock (keepsExports r s) s.scope.env i)) ++ exports).map
            (Piece.ofFile origin)), p.owner = .chunk → MadeUp p.item := by
      intro p hp ho
      obtain ⟨j, _, rfl⟩ := List.mem_map.1 hp
      cases ho
    refine ⟨⟨b, by simpa [hb] using (htake.hand hothers hmade hr.current).trans h₂ hr.current⟩,
      fun _ _ f hf => ?_⟩
    obtain rfl := Option.some.inj (hhead.symm.trans hf)
    have hinc := hr.current origin hhead
    have hold : declarationsOf origin (t.takeItems s.scope.items.length).1 = [] := by
      rw [State.takeItems, State.scope_of_root (hbt.trans hb), State.scope_of_root hb, h₁.items,
        List.drop_left]
      exact h₁.old origin hinc
    have hρ : Rename.ofEnvironment u.root.env origin = Rename.ofEnvironment t.scope.env origin := by
      rw [links.ofEnvironment_eq (by simpa using run.grows.contains hinc) rfl,
        State.root_takeItems_env, State.scope_of_root (hbt.trans hb)]
    rw [declarationsOf_append, hold, List.nil_append, declarationsOf_ofFile, List.flatMap_append,
      declaration_printed cx origin _ _ _ _ _ (Context.isAnonymousDefault_of_mem_statements hi),
      List.flatMap_eq_nil_iff.2 (fun e he => declaration_of_isExportStatement (hexp e he)),
      List.append_nil, List.flatMap_singleton, hρ, List.forall₂_map_right_iff]
    exact List.forall₂_same.2 (fun d _ => ⟨τ, rfl⟩)

theorem Run.brings (h : Run cx n r files s y t) (hr : Rooted files s) :
    Brings cx files s y t := by
  induction h with
  | nothing => exact .same rfl rfl rfl
  | @andThen r files s t u y z first second ih₁ ih₂ =>
    have h₁ := ih₁ hr
    have h₂ := ih₂ (first.rooted hr)
    obtain ⟨a, ha⟩ := h₁.adds
    obtain ⟨b, hb⟩ := h₂.adds
    rw [first.inBlock_eq] at hb
    refine ⟨⟨a ++ b, ?_⟩, fun hy hroot f hf => ?_⟩
    · have h := ha.trans hb hr.current
      cases hs : s.inBlock <;> simpa [hs] using h
    · simp only [Yield.tried_append, List.append_eq_nil_iff] at hy
      have hinc := first.grows.contains (hr.current f hf)
      have h := h₁.printed hy.1 hroot f hf
      rw [← second.ofEnvironment_eq hinc hy.2] at h
      simpa using List.rel_append h (h₂.printed hy.2 (first.inBlock_eq.trans hroot) f hf)
  | warn w => exact .same rfl rfl rfl
  | keepRun module => exact .same rfl rfl rfl
  | preserve typeOnly hkey hw => exact .same rfl rfl rfl
  | preserveAgain typeOnly hkey => exact .same rfl rfl rfl
  | aliasImport hf hkey => exact .same rfl rfl rfl
  | @aliasBinding r files s f hf =>
    have hclaim := Adds.claim cx files.head? s (s.freshName f)
    have halias := hclaim.trans (.addItems [.made (aliasOf (s.freshName f) f false)]
      (fun _ => ⟨fun _ => rfl, fun p hp _ => by
        rw [List.mem_singleton.1 hp]
        exact .alias _ _⟩)) hr.current
    exact .nothing halias rfl rfl
  | link hcurrent _ _ run _ ih =>
    obtain ⟨a, h⟩ := (ih hr).adds_nil (Or.inr rfl)
    exact .nothing (h.trans (.link (fun hb => hcurrent.head (run.inBlock_eq ▸ hb))) hr.current)
      rfl rfl
  | unlinked w _ _ run _ ih =>
    obtain ⟨a, h⟩ := (ih hr).adds_nil (Or.inr rfl)
    exact .nothing (h.congr rfl rfl rfl rfl) rfl rfl
  | print hcurrent hi _ _ hexp _ run links ih₁ ih₂ =>
    exact .print hr hcurrent hi hexp run links (ih₁ hr) (ih₂ ((run.rooted hr).takeItems _))
  | @inlined r q files s t u file ps hroot hnew _ _ _ imports prints ih₁ ih₂ =>
    have hr₁ := hr.beginFile (cx.statements file) file
    have hr₂ := imports.rooted hr₁
    have hbt := imports.inBlock_begunFile hroot
    obtain ⟨a, h₁⟩ := (ih₁ hr₁).adds_nil (Or.inr rfl)
    obtain ⟨b, h₂⟩ := (ih₂ hr₂).adds
    rw [hbt, if_neg Bool.false_ne_true] at h₂
    have h := h₁.trans h₂ hr₁.current
    refine .nothing (Adds.inline hnew (prints.inBlock_eq.trans hbt) h ?_) rfl rfl
    rw [Context.declarations_eq]
    exact (ih₂ hr₂).printed rfl hbt file rfl
  | @atRoot r files s t hblock run ih =>
    obtain ⟨a, h⟩ := (ih hr.suspend).adds_nil (Or.inr rfl)
    refine .nothing (h.congr rfl rfl ?_ ?_) rfl rfl
    · rw [State.included_inheritFromRoot]
      rfl
    · rw [State.root_inheritFromRoot]
      rfl
  | @block r files s t u v w target wanted ps exports _ _ _ _ _ imports prints collects
      aliases ih₁ ih₂ ih₃ ih₄ =>
    have hr₁ := hr.beginBlock (cx.statements target) target (s.freshName wanted)
    obtain ⟨hr₂, hr₃, hr₄⟩ := hr.throughBlock imports prints collects
    have hb₁ : (((s.claim (s.freshName wanted)).openBlock target (s.freshName wanted)).bindFile
        (cx.statements target) target).inBlock = true :=
      State.inBlock_begunBlock _ _ _ _
    have hbt := imports.inBlock_begunBlock
    have hbu := prints.inBlock_eq.trans hbt
    obtain ⟨a, h₁⟩ := (ih₁ hr₁).adds_nil (Or.inl hb₁)
    obtain ⟨b, h₂⟩ := (ih₂ hr₂).adds_nil (Or.inl hbt)
    obtain ⟨c, h₃⟩ := (ih₃ hr₃).adds_nil (Or.inr rfl)
    obtain ⟨d, h₄⟩ := (ih₄ hr₄).adds_nil (Or.inr rfl)
    have hbegun := (Adds.beginBlock cx files.head? s (cx.statements target) target
      (s.freshName wanted)).trans h₁ hr.current
    have hbody := (hbegun.trans h₂ hr.current).trans
      (.addItems ps (fun hb => by rw [hbu] at hb; cases hb)) hr.current
    have hclosed := (hbody.trans h₃ hr.current).trans (.closeBlock cx _ v) hr.current
    have hspace := (hclosed.trans h₄ hr.current).trans
      (.addItems [.made (spaceOf (!w.inBlock) (s.freshName wanted)
        (exportMembers (v.closeBlock.1.map Piece.item) exports))]
        (fun _ => ⟨fun _ => rfl, fun p hp _ => by
          rw [List.mem_singleton.1 hp]
          exact .space _ _ _⟩)) hr.current
    exact .nothing hspace rfl rfl
  | exportAgain _ _ _ _ _ run ih =>
    obtain ⟨a, h⟩ := (ih hr).adds_nil (Or.inr rfl)
    refine .nothing (h.trans (.addItems _ (fun _ => ⟨fun f => ?_, fun p hp ho => ?_⟩)) hr.current)
      rfl rfl
    · exact declarationsOf_exports (fun i hi => isExportStatement_of_mem_items hi)
    · obtain ⟨i, _, rfl⟩ := List.mem_map.1 hp
      cases ho

section Merged

variable {included included' : SeenSet Url} {m : Merged} {warnings : List Warning} {f : Url}

/-- What merging a chunk brings to it, and the chunk's statements without its imports. -/
theorem adds_of_mergeChunk? (h : mergeChunk? cx included = some (m, included', warnings)) :
    ∃ s added made, Adds cx none (State.start included) s added [] ∧ s.included = included' ∧
      s.root.env = m.names ∧ m.pieces = made ++ dropRepeatedExports added ∧
      ∀ p ∈ made, p.owner = .chunk ∧ ∃ d, p.item = .importDecl d := by
  obtain ⟨s, run, rfl, hi, _⟩ := mergeChunk_run h
  obtain ⟨added, hadds⟩ := (run.brings (.start included)).adds_nil (Or.inr rfl)
  have hitems : s.root.items = added := hadds.items
  refine ⟨s, added, _, hadds, hi.symm, rfl, by rw [← hitems]; rfl, fun p hp => ?_⟩
  obtain ⟨i, hi, rfl⟩ := List.mem_map.1 hp
  exact ⟨rfl, importDecl_of_mem_hoistedImports hi⟩

theorem declarationsOf_pieces {made added : List Piece}
    (hp : m.pieces = made ++ dropRepeatedExports added)
    (hmade : ∀ p ∈ made, p.owner = .chunk ∧ ∃ d, p.item = .importDecl d) :
    declarationsOf f m.pieces = declarationsOf f added := by
  have hnone : declarationsOf f made = [] := by
    rw [declarationsOf, List.flatMap_eq_nil_iff]
    intro p hp
    simp [Piece.declaration, (hmade p hp).1]
  rw [hp, declarationsOf_append, hnone, List.nil_append, dropRepeatedExports,
    declarationsOf_keepNewAll]

theorem contains_of_mergeChunk? (h : mergeChunk? cx included = some (m, included', warnings))
    (hf : included.contains f = true) : included'.contains f = true := by
  obtain ⟨s, added, made, hadds, rfl, _⟩ := adds_of_mergeChunk? h
  exact hadds.included f hf

/-- A chunk has no declarations of files of earlier chunks, nor of files that are not included. -/
theorem declarationsOf_eq_nil (h : mergeChunk? cx included = some (m, included', warnings))
    (hf : included.contains f = true ∨ included'.contains f = false) :
    declarationsOf f m.pieces = [] := by
  obtain ⟨s, added, made, hadds, rfl, _, hp, hmade⟩ := adds_of_mergeChunk? h
  rw [declarationsOf_pieces hp hmade]
  rcases hf with hf | hf
  · exact hadds.old f hf
  · simpa using hadds.outside f hf

/-- A chunk has all declarations of a file that it includes, in their order. -/
theorem declarationsOf_inlined (h : mergeChunk? cx included = some (m, included', warnings))
    (hn : included.contains f = false) (hf : included'.contains f = true) :
    List.Forall₂ (InlinedAs cx f (Rename.ofEnvironment m.names f)) (cx.declarations f)
      (declarationsOf f m.pieces) := by
  obtain ⟨s, added, made, hadds, rfl, henv, hp, hmade⟩ := adds_of_mergeChunk? h
  rw [declarationsOf_pieces hp hmade, ← henv]
  simpa using hadds.new f hn hf

/-- What a chunk makes up is an import, a namespace block or an alias. -/
theorem madeUp_of_mem_pieces (h : mergeChunk? cx included = some (m, included', warnings))
    {p : Piece} (hp : p ∈ m.pieces) (ho : p.owner = .chunk) :
    (∃ d, p.item = .importDecl d) ∨ MadeUp p.item := by
  obtain ⟨s, added, made, hadds, rfl, _, hpieces, hmade⟩ := adds_of_mergeChunk? h
  rw [hpieces] at hp
  rcases List.mem_append.1 hp with hp | hp
  · exact Or.inl (hmade p hp).2
  · obtain ⟨q, hq, howner, hitem⟩ := mem_keepNewAll hp
    have hm := hadds.made q (by simpa using hq) (howner.trans ho)
    rcases hitem with hitem | ⟨he, _⟩
    · exact Or.inr (hitem ▸ hm)
    · cases hi : q.item with
      | exportList d =>
        rw [hi] at hm
        cases hm
      | exportAll d =>
        rw [hi] at hm
        cases hm
      | _ =>
        rw [hi] at he
        cases he

end Merged

end AmbientBundle.Merge
