import AmbientBundle.Proofs.Merge.Owners
import AmbientBundle.Proofs.Merge.Printing
import AmbientBundle.Proofs.Syntax.Keys
/-!
Nothing of a file is lost: once it is inlined at the root, all that stands for its statements is
there under the file's final names.
-/
namespace AmbientBundle.Merge

open Names Syntax

variable {cx : Context} {earlier : SeenSet Url} {n : Nat} {r : Role} {files : List Url}
  {s t : State} {y : Yield} {ps qs : List Piece}

/-- All that stands for the statement at the root is among the given statements. -/
def Shown (cx : Context) (file : Url) (ρ : Rename.Renaming) (ps : List Piece) (i : Item) : Prop :=
  ∃ keep env τ, ∀ node ∈ shown cx file false keep env i,
    Piece.ofFile file ((node.rename ρ).link τ) ∈ ps

theorem Shown.mono {file : Url} {ρ : Rename.Renaming} {i : Item} (h : Shown cx file ρ ps i)
    (hp : ps ⊆ qs) : Shown cx file ρ qs i := by
  obtain ⟨keep, env, τ, hnodes⟩ := h
  exact ⟨keep, env, τ, fun node hnode => hp (hnodes node hnode)⟩

/-- What stands for a statement binds all that the statement declares. -/
theorem Shown.bindings {file : Url} {ρ : Rename.Renaming} {i : Item} (h : Shown cx file ρ ps i)
    (hi : Exports.isAnonymousDefault i = false) {id : Ident} (hid : id ∈ i.declared) :
    (.file file, ρ id.name) ∈ ps.flatMap Piece.bindings := by
  obtain ⟨keep, env, τ, hnodes⟩ := h
  have hx : ρ id.name ∈ (linkItems τ (renameItems ρ
      (shown cx file false keep env i))).flatMap Item.binds := by
    rw [binds_printed cx file false keep env ρ τ hi]
    exact List.mem_map.2 ⟨id, hid, rfl⟩
  rw [linkItems_eq_map, renameItems_eq_map, List.map_map] at hx
  obtain ⟨j, hj, hxj⟩ := List.mem_flatMap.1 hx
  obtain ⟨node, hnode, rfl⟩ := List.mem_map.1 hj
  exact List.mem_flatMap.2 ⟨_, hnodes node hnode, mem_bindings.2 ⟨rfl, hxj⟩⟩

/-- A property of the statements of finished files: `R s f ps i` says something about a statement
`i` of `f` when the given statements are there. It holds on in later states, where `E` says which
ones count and the final names of the file are the same. -/
def Lasting (E : State → State → Prop) (R : State → Url → List Piece → Item → Prop) : Prop :=
  ∀ ⦃s t : State⦄ ⦃f : Url⦄ ⦃ps qs : List Piece⦄ ⦃i : Item⦄, E s t →
    (∀ x, t.root.env.lookup f x = s.root.env.lookup f x) → ps ⊆ qs → R s f ps i → R t f qs i

/-- The property holds of the statements of all finished files, with those that stand at the root
and the given ones. -/
def OfFinished (cx : Context) (earlier : SeenSet Url) (R : State → Url → List Piece → Item → Prop)
    (files : List Url) (s : State) (ps : List Piece) : Prop :=
  ∀ f, s.included.contains f = true → earlier.contains f = false → f ∉ files →
    ∀ i ∈ cx.statements f, R s f (s.root.items ++ ps) i

/-- `G` holds of all states of merging, with the files that are begun at the root, and `E` leads
from each to the next ones. -/
structure Sustains (cx : Context) (G : List Url → State → Prop) (E : State → State → Prop) :
    Prop where
  run {n : Nat} {r : Role} {files : List Url} {s t : State} {y : Yield} (hg : G files s)
    (h : Run cx n r files s y t) : G files t ∧ E s t
  still {s t : State} (he : t.root.env = s.root.env) (hp : t.preserved = s.preserved)
    (hs : t.root.spaces = s.root.spaces) : E s t
  link {n : Nat} {r : Role} {files : List Url} {s t : State} {origin : Url} {d : ImportDecl}
    {sp : ImportSpecifier} {f : String} (hg : G files s) (hcur : Current cx files origin s)
    (hsp : (d, sp) ∈ cx.specifiers origin) (run : Run cx n r files s ∅ t)
    (hres : Resolved cx n origin d sp s (some f) t) : E t (t.link origin sp.loc f)
  takeItems {files : List Url} {s : State} (hg : G files s) (k : Nat) : G files (s.takeItems k).2
  addItems {n : Nat} {r : Role} {files : List Url} {s t : State} {y : Yield} (hg : G files s)
    (h : Run cx n r files s y t) : G files (t.addItems y.pieces)
  beginFile {files : List Url} {s : State} {file : Url} (hg : G files s) (hroot : s.inBlock = false)
    (hnew : s.included.contains file = false) (hfile : cx.HasFile file) :
    G (file :: files) ((s.addFile file).bindFile (cx.statements file) file) ∧
      E s ((s.addFile file).bindFile (cx.statements file) file)
  beginBlock {files : List Url} {s : State} {target : Url} {wanted : String} (hg : G files s)
    (hnew : s.space? target = none) (hfile : cx.HasFile target) (hw : cx.Formed wanted) :
    G files (((s.claim (s.freshName wanted)).openBlock target (s.freshName wanted)).bindFile
        (cx.statements target) target) ∧
      E s (((s.claim (s.freshName wanted)).openBlock target (s.freshName wanted)).bindFile
        (cx.statements target) target)
  suspend {files : List Url} {s : State} (hg : G files s) : G files s.suspend
  closeBlock {files : List Url} {s : State} (hg : G files s) : G files s.closeBlock.2

/-- Without any demand. -/
theorem Sustains.trivial (cx : Context) : Sustains cx (fun _ _ => True) (fun _ _ => True) := by
  constructor <;> intros <;> simp

namespace OfFinished

variable {E : State → State → Prop} {R : State → Url → List Piece → Item → Prop}

theorem start (R : State → Url → List Piece → Item → Prop) (earlier : SeenSet Url) :
    OfFinished cx earlier R [] (State.start earlier) [] :=
  fun f hf hn => (by simp [State.start, hn] at hf)

/-- Nothing is handed back. -/
theorem noPieces (h : OfFinished cx earlier R files s ps) (b : Bool) :
    OfFinished cx earlier R files s (ps ++ if b then [] else (∅ : Yield).pieces) := by
  simpa using h

theorem of_noPieces {b : Bool}
    (h : OfFinished cx earlier R files s (ps ++ if b then [] else (∅ : Yield).pieces)) :
    OfFinished cx earlier R files s ps := by
  simpa using h

/-- A file whose statements are all there is finished. -/
theorem finish {file : Url} (h : OfFinished cx earlier R (file :: files) s ps)
    (hfile : ∀ i ∈ cx.statements file, R s file (s.root.items ++ ps) i) :
    OfFinished cx earlier R files s ps := by
  intro f hf hn hfiles i hmem
  by_cases hff : f = file
  · subst hff
    exact hfile i hmem
  · exact h f hf hn (by simp [hff, hfiles]) i hmem

variable (hR : Lasting E R)

include hR

theorem congr (h : OfFinished cx earlier R files s ps) (he : E s t) (hi : t.included = s.included)
    (hl : ∀ f ∉ files, ∀ x, t.root.env.lookup f x = s.root.env.lookup f x)
    (hp : s.root.items ++ ps ⊆ t.root.items ++ qs) : OfFinished cx earlier R files t qs :=
  fun f hf hn hfiles i hmem => hR he (hl f hfiles) hp (h f (hi ▸ hf) hn hfiles i hmem)

theorem same (h : OfFinished cx earlier R files s ps) (he : E s t) (hi : t.included = s.included)
    (hl : t.root.env = s.root.env) (hp : t.root.items = s.root.items) :
    OfFinished cx earlier R files t ps :=
  h.congr hR he hi (fun _ _ _ => by rw [hl]) (by rw [hp]; exact List.Subset.refl _)

theorem link (h : OfFinished cx earlier R files s ps) {origin : Url} {name final : String}
    (he : E s (s.link origin name final)) (ho : s.inBlock = false → origin ∈ files) :
    OfFinished cx earlier R files (s.link origin name final) ps := by
  refine h.congr hR he (by simp) (fun f hf x => ?_) (by simp)
  refine State.lookup_root_link_of_ne (fun hb hlinked => ?_)
  obtain ⟨rfl, _⟩ := Prod.mk.inj hlinked
  exact hf (ho hb)

/-- Statements go to the root, or into a block. -/
theorem addItems (h : OfFinished cx earlier R files s (ps ++ if s.inBlock then [] else qs))
    (he : E s (s.addItems qs)) : OfFinished cx earlier R files (s.addItems qs) ps := by
  refine h.congr hR he (by simp) (fun f _ x => by simp) ?_
  rw [State.root_addItems_items]
  split
  · simp
  · intro p hp
    simp only [List.mem_append] at hp ⊢
    tauto

theorem addItems_other (h : OfFinished cx earlier R files s ps) (he : E s (s.addItems qs)) :
    OfFinished cx earlier R files (s.addItems qs) ps := by
  refine h.congr hR he (by simp) (fun f _ x => by simp) ?_
  rw [State.root_addItems_items]
  split
  · exact List.Subset.refl _
  · intro p hp
    simp only [List.mem_append] at hp ⊢
    tauto

/-- Statements that are taken out of the root are at hand. -/
theorem takeItems (h : OfFinished cx earlier R files s ps) (k : Nat) (he : E s (s.takeItems k).2) :
    OfFinished cx earlier R files (s.takeItems k).2
      (ps ++ if s.inBlock then [] else (s.takeItems k).1) := by
  refine h.congr hR he (by simp) (fun f _ x => by simp) ?_
  rw [State.root_takeItems_items]
  split
  · simp
  · rename_i hb
    rw [State.takeItems, State.scope_of_root (by simpa using hb)]
    intro p hp
    rw [← List.take_append_drop k s.root.items] at hp
    simp only [List.mem_append] at hp ⊢
    tauto

theorem beginFile (h : OfFinished cx earlier R files s ps) (file : Url)
    (he : E s ((s.addFile file).bindFile (cx.statements file) file)) :
    OfFinished cx earlier R (file :: files)
      ((s.addFile file).bindFile (cx.statements file) file) ps := by
  intro f hf hn hfiles i hmem
  rw [List.mem_cons, not_or] at hfiles
  refine hR he (fun x => ?_) ?_ (h f ?_ hn hfiles.2 i hmem)
  · exact State.lookup_root_bindFile_of_ne (Ne.symm hfiles.1) x
  · rw [State.root_bindFile_items]
    exact List.Subset.refl _
  · simpa [State.addFile, SeenSet.contains_insert, hfiles.1] using hf

theorem beginBlock (h : OfFinished cx earlier R files s ps) (is : List Item) (file : Url)
    (name : String)
    (he : E s (((s.claim name).openBlock file name).bindFile is file)) :
    OfFinished cx earlier R files (((s.claim name).openBlock file name).bindFile is file) ps := by
  refine h.congr hR he (by simp) (fun f _ x => ?_) ?_
  · exact State.lookup_root_begunBlock _ _ _ _ _ _
  · rw [State.root_bindFile_items, State.root_openBlock_items]
    exact List.Subset.refl _

end OfFinished

/-- What holds of the statements of each file that is printed is kept by a run. -/
theorem Run.ofFinished {G : List Url → State → Prop} {E : State → State → Prop}
    {R : State → Url → List Piece → Item → Prop} (hc : Sustains cx G E) (hR : Lasting E R)
    (hprints : ∀ ⦃n : Nat⦄ ⦃q : Role⦄ ⦃files : List Url⦄ ⦃file : Url⦄ ⦃s t : State⦄
      ⦃ps : List Piece⦄, G (file :: files) s → s.inBlock = false → s.included.contains file = true →
      Run cx n q (file :: files) s ⟨ps, [], cx.statements file⟩ t →
      ∀ i ∈ cx.statements file, R t file ps i)
    (h : Run cx n r files s y t) (hg : G files s) (hs : OfFinished cx earlier R files s ps) :
    OfFinished cx earlier R files t (ps ++ if s.inBlock then [] else y.pieces) := by
  induction h generalizing ps with
  | nothing => exact hs.noPieces _
  | @andThen r files s t u y z first second ih₁ ih₂ =>
    have h₂ := ih₂ (hc.run hg first).1 (ih₁ hg hs)
    rw [first.inBlock_eq] at h₂
    cases hb : s.inBlock <;> simpa [hb] using h₂
  | @warn r files s w =>
    have he : E s (s.warn w) := hc.still rfl rfl rfl
    exact (hs.same hR he rfl rfl rfl).noPieces _
  | @keepRun r files s module =>
    have he : E s (s.keepRun module) := hc.still rfl rfl rfl
    exact (hs.same hR he rfl rfl rfl).noPieces _
  | preserve typeOnly hkey hw hout =>
    have he := (hc.run hg (.preserve (n := n) (r := .entry) typeOnly hkey hw hout)).2
    exact (hs.congr hR he rfl (fun _ _ _ => rfl) (List.Subset.refl _)).noPieces _
  | preserveAgain typeOnly hkey hout =>
    have he := (hc.run hg (.preserveAgain (n := n) (r := .entry) typeOnly hkey hout)).2
    exact (hs.same hR he rfl rfl rfl).noPieces _
  | aliasImport hf hkey =>
    have he := (hc.run hg (.aliasImport (n := n) (r := .entry) hf hkey)).2
    exact (hs.congr hR he rfl (fun _ _ _ => rfl) (List.Subset.refl _)).noPieces _
  | aliasBinding hf =>
    have he := (hc.run hg (.aliasBinding (n := n) (r := .entry) hf)).2
    refine (hs.congr hR he (by simp) (fun _ _ _ => by rw [State.root_addItems_env]; rfl)
      (fun p hp => ?_)).noPieces _
    rw [State.root_addItems_items]
    split
    · exact hp
    · simp only [List.mem_append] at hp ⊢
      exact hp.imp_left Or.inl
  | link hcur hsp _ run hres ih =>
    have hlinked := (ih hg hs).of_noPieces.link hR (hc.link hg hcur hsp run hres)
      (fun hb => List.mem_of_mem_head? (hcur.head (run.inBlock_eq ▸ hb)))
    exact hlinked.noPieces _
  | @unlinked r files s t origin d sp target _ _ _ _ ih =>
    have he : E t (t.warn (.unknownImport target origin sp.loc)) := hc.still rfl rfl rfl
    exact ((ih hg hs).of_noPieces.same hR he rfl rfl rfl).noPieces _
  | @print r files s t u origin i exports τ _ _ _ _ _ _ run links ih₁ ih₂ =>
    have hu := ih₂ (hc.takeItems (hc.run hg run).1 _)
      ((ih₁ hg hs).of_noPieces.takeItems hR s.scope.items.length (hc.still (by simp) (by simp) (by simp)))
    refine hu.congr hR (hc.still rfl rfl rfl) rfl (fun _ _ _ => rfl) (fun p hp => ?_)
    rw [run.inBlock_eq] at hp
    cases hb : s.inBlock
    all_goals
      simp only [hb, Yield.pieces_empty, ite_self, List.append_nil, Bool.false_eq_true, if_true,
        if_false, List.mem_append] at hp ⊢
      tauto
  | @inlined r q files s t u file p hroot hnew hfile _ _ imports prints ih₁ ih₂ =>
    obtain ⟨hg₁, he⟩ := hc.beginFile hg hroot hnew hfile
    have hb₁ : ((s.addFile file).bindFile (cx.statements file) file).inBlock = false :=
      (State.inBlock_begunFile _ _ _).trans hroot
    have hbt := imports.inBlock_begunFile hroot
    have hin : t.included.contains file = true :=
      imports.grows.contains (by simp [State.addFile, SeenSet.contains_insert])
    have hg₂ := (hc.run hg₁ imports).1
    have hu := ih₂ hg₂ (ih₁ hg₁ (hs.beginFile hR file he))
    have hbu := prints.inBlock_eq.trans hbt
    simp only [hbt, hb₁, hroot, List.append_nil, Bool.false_eq_true, if_false, Yield.pieces_empty]
      at hu ⊢
    have hdone : OfFinished cx earlier R files u (ps ++ p) := by
      refine hu.finish (fun i hi => ?_)
      refine hR (hc.still rfl rfl rfl) (fun _ => rfl) (fun q hq => ?_)
        (hprints hg₂ hbt hin prints i hi)
      simp [hq]
    exact OfFinished.addItems hR (by simpa [hbu] using hdone)
      (hc.still (by simp) (by simp) (by simp))
  | atRoot _ _ ih =>
    have ht := ih (hc.suspend hg) (hs.same hR (hc.still rfl rfl rfl) rfl rfl rfl)
    refine (ht.of_noPieces.same hR (hc.still ?_ (by simp; rfl) ?_) (by simp; rfl) ?_ ?_).noPieces _
    all_goals
      rw [State.root_inheritFromRoot]
      rfl
  | @block r files s t u v w target wanted p exports hnew hfile _ hw _ imports prints
      collects aliases ih₁ ih₂ ih₃ ih₄ =>
    obtain ⟨hg₁, he⟩ := hc.beginBlock hg hnew hfile hw
    have hg₂ := (hc.run hg₁ imports).1
    have hg₃ := hc.addItems hg₂ prints
    have hb₁ : (((s.claim (s.freshName wanted)).openBlock target (s.freshName wanted)).bindFile
        (cx.statements target) target).inBlock = true :=
      State.inBlock_begunBlock _ _ _ _
    have ht := ih₁ hg₁ (hs.beginBlock hR (cx.statements target) target (s.freshName wanted) he)
    have hu := ih₂ hg₂ ht
    simp only [imports.inBlock_eq, hb₁, if_true, List.append_nil] at hu
    have hv := ih₃ hg₃ (hu.addItems_other hR (hc.still (by simp) (by simp) (by simp)))
    have hclosed := hv.of_noPieces.same (t := v.closeBlock.2) hR
      (hc.still (by simp) (by simp) (by simp)) (by simp) (by simp) (by simp)
    have hw := ih₄ (hc.closeBlock (hc.run hg₃ collects).1) hclosed
    exact (hw.of_noPieces.addItems_other hR (hc.still (by simp) (by simp) (by simp))).noPieces _
  | exportAgain _ _ _ _ _ _ ih =>
    have ht := (ih hg hs).of_noPieces
    exact (ht.addItems_other hR (hc.still (by simp) (by simp) (by simp))).noPieces _

theorem ofEnvironment_congr {f : Url} (hl : ∀ x, t.root.env.lookup f x = s.root.env.lookup f x) :
    Rename.ofEnvironment t.root.env f = Rename.ofEnvironment s.root.env f := by
  funext x
  rw [Rename.ofEnvironment, Rename.ofEnvironment, hl x]

/-- A run that links no imports keeps the final names of an included file. -/
theorem Run.ofEnvironment_eq (h : Run cx n r files s y t) {f : Url}
    (hf : s.included.contains f = true) (hy : y.tried = []) :
    Rename.ofEnvironment t.root.env f = Rename.ofEnvironment s.root.env f :=
  ofEnvironment_congr (fun _ => h.lookup_root hf (fun _ _ e he => by simp [hy] at he))

section ShownWith

variable {T : State → Url → ImportTypeKey → Option ImportTypes.Target → Prop}

/-- All that stands for the statement at the root is among the given statements, with targets for
its import types that are right. -/
def ShownWith (cx : Context) (T : State → Url → ImportTypeKey → Option ImportTypes.Target → Prop)
    (s : State) (f : Url) (ps : List Piece) (i : Item) : Prop :=
  ∃ keep env τ, ∀ node ∈ shown cx f false keep env i,
    Piece.ofFile f ((node.rename (Rename.ofEnvironment s.root.env f)).link τ) ∈ ps ∧
      ∀ key ∈ (node.rename (Rename.ofEnvironment s.root.env f)).collect ImportTypes.pickKey,
        T s f key (τ key)

theorem ShownWith.shown {f : Url} {i : Item} (h : ShownWith cx T s f ps i) :
    Shown cx f (Rename.ofEnvironment s.root.env f) ps i := by
  obtain ⟨keep, env, τ, hnodes⟩ := h
  exact ⟨keep, env, τ, fun node hnode => (hnodes node hnode).1⟩

/-- Targets that are right in a state are right in the later ones. -/
def TargetsLast (E : State → State → Prop)
    (T : State → Url → ImportTypeKey → Option ImportTypes.Target → Prop) : Prop :=
  ∀ ⦃s t : State⦄ ⦃f : Url⦄ ⦃key : ImportTypeKey⦄ ⦃target : Option ImportTypes.Target⦄,
    E s t → T s f key target → T t f key target

theorem lasting_shownWith {E : State → State → Prop} (hT : TargetsLast E T) :
    Lasting E (ShownWith cx T) := by
  rintro s t f ps qs i he hl hp ⟨keep, env, τ, hnodes⟩
  refine ⟨keep, env, τ, fun node hnode => ?_⟩
  rw [ofEnvironment_congr hl]
  exact ⟨hp (hnodes node hnode).1, fun key hkey => hT he ((hnodes node hnode).2 key hkey)⟩

variable {G : List Url → State → Prop} {E : State → State → Prop}

/-- What a run prints of the current file at the root is among what it hands back, with the targets
that are found for its import types. -/
theorem Run.shownWith (hc : Sustains cx G E) (hT : TargetsLast E T)
    (hlinks : ∀ ⦃n : Nat⦄ ⦃files : List Url⦄ ⦃f : Url⦄ ⦃is : List Item⦄ ⦃s t : State⦄
      ⦃τ : ImportTypes.Targets⦄, TypeLinks cx n f is s τ t → G files s → s.inBlock = false →
      cx.LeadTo files f → cx.HasFile f →
      (∀ key ∈ collectItems ImportTypes.pickKey is,
        key ∈ collectItems ImportTypes.pickKey (cx.statements f)) →
      ∀ key ∈ collectItems ImportTypes.pickKey is, T t f key (τ key))
    (h : Run cx n r files s y t) (hg : G files s) {f : Url} (hb : s.inBlock = false)
    (hhead : files.head? = some f) (hf : s.included.contains f = true) (hy : y.tried = []) :
    ∀ i ∈ y.printed, ShownWith cx T t f y.pieces i := by
  have hlasting : Lasting E (ShownWith cx T) := lasting_shownWith hT
  induction h with
  | andThen first second ih₁ ih₂ =>
    simp only [Yield.tried_append, List.append_eq_nil_iff] at hy
    intro i hi
    have hf' := first.grows.contains hf
    have hg' := (hc.run hg first).1
    rcases List.mem_append.1 hi with hi | hi
    · exact hlasting (hc.run hg' second).2
        (fun x => second.lookup_root hf' (fun _ _ e he => by simp [hy.2] at he))
        (List.subset_append_left _ _) (ih₁ hg hb hhead hf hy.1 i hi)
    · exact hlasting (hc.still rfl rfl rfl) (fun _ => rfl) (List.subset_append_right _ _)
        (ih₂ hg' (first.inBlock_eq.trans hb) hhead hf' hy.2 i hi)
  | @print r files s t u origin i exports τ hcur hi _ _ _ hlink run links _ _ =>
    obtain rfl := Option.some.inj ((hcur.head hb).symm.trans hhead)
    intro j hj
    obtain rfl := List.mem_singleton.1 hj
    have ht := run.grows.contains hf
    obtain ⟨k, _, hlink⟩ := hlink
    have htargets := hlinks hlink (hc.takeItems (hc.run hg run).1 _)
      ((State.inBlock_congr (State.targets_takeItems t _)).trans (run.inBlock_eq.trans hb))
      hcur.lead hcur.file (fun key hkey =>
        mem_collectItems.2 ⟨j, hi, keys_rename_shown cx origin s.inBlock _ _ _ j hkey⟩)
    have hρ : Rename.ofEnvironment u.root.env origin = Rename.ofEnvironment t.scope.env origin := by
      rw [links.ofEnvironment_eq (by simpa using ht) rfl, State.root_takeItems_env,
        ← State.scope_of_root (run.inBlock_eq.trans hb)]
    rw [renameItems_eq_map, hb] at htargets
    refine ⟨keepsExports r s, s.scope.env, τ, fun node hnode => ?_⟩
    rw [hρ]
    have hnode' := List.mem_map_of_mem (f := Item.rename (Rename.ofEnvironment t.scope.env origin))
      hnode
    refine ⟨List.mem_append_right _ ?_, fun key hkey =>
      htargets key (mem_collectItems.2 ⟨_, hnode', hkey⟩)⟩
    refine List.mem_map.2 ⟨_, List.mem_append_left _ ?_, rfl⟩
    rw [linkItems_eq_map, renameItems_eq_map, hb]
    exact List.mem_map.2 ⟨_, hnode', rfl⟩
  | _ => simp

end ShownWith

/-- The statements of all finished files stand at the root or among the given statements. -/
def Present (cx : Context) (earlier : SeenSet Url) (files : List Url) (s : State)
    (ps : List Piece) : Prop :=
  ∀ f, s.included.contains f = true → earlier.contains f = false → f ∉ files →
    ∀ i ∈ cx.statements f,
      Shown cx f (Rename.ofEnvironment s.root.env f) (s.root.items ++ ps) i

theorem Present.start (earlier : SeenSet Url) : Present cx earlier [] (State.start earlier) [] :=
  fun f hf hn => (by simp [State.start, hn] at hf)

theorem Run.present (h : Run cx n r files s y t) (hs : Present cx earlier files s ps) :
    Present cx earlier files t (ps ++ if s.inBlock then [] else y.pieces) := by
  have hlasting : Lasting (fun _ _ => True)
      (fun s f ps i => Shown cx f (Rename.ofEnvironment s.root.env f) ps i) := by
    intro s t f ps qs i _ hl hp hshown
    rw [ofEnvironment_congr hl]
    exact hshown.mono hp
  refine h.ofFinished (Sustains.trivial cx) hlasting ?_ True.intro hs
  intro n q files file s t ps _ hb hin prints i hi
  exact (prints.shownWith (T := fun _ _ _ _ => True) (Sustains.trivial cx)
    (fun _ _ _ _ _ _ _ => True.intro) (by simp)
    True.intro hb rfl hin rfl i hi).shown

/-- The chunk shows the statements of a file under the final names that the file's names have at
the root: all that stands for one of them is there, but for exports that are dropped since they are
repeated, and nothing else of the file but export statements. -/
structure ShowsFile (cx : Context) (m : Merged) (file : Url) : Prop where
  all : ∃ made ps, m.pieces = made ++ dropRepeatedExports ps ∧ (∀ p ∈ made, p.owner = .chunk) ∧
    ∀ i ∈ cx.statements file, Shown cx file (Rename.ofEnvironment m.names file) ps i
  only : ∀ p ∈ m.pieces, p.owner = .file file → isExportStatement p.item = false →
    PrintedAs cx file (Rename.ofEnvironment m.names file) p.item

section Merged

variable {included included' : SeenSet Url} {m : Merged} {warnings : List Warning} {f : Url}

theorem owner_of_mem_made {is : List Item} {p : Piece} (hp : p ∈ is.map Piece.made) :
    p.owner = .chunk := by
  obtain ⟨i, _, rfl⟩ := List.mem_map.1 hp
  rfl

theorem showsFile_of_mergeChunk? (h : mergeChunk? cx included = some (m, included', warnings))
    (hf : included'.contains f = true) (hn : included.contains f = false) :
    ShowsFile cx m f := by
  refine ⟨?_, fun p hp ho he => printedAs_of_mem_pieces h hp ho he⟩
  obtain ⟨s, run, rfl, rfl, _⟩ := mergeChunk_run h
  have hs := run.present (Present.start included)
  exact ⟨_, s.root.items, rfl, fun _ => owner_of_mem_made,
    fun i hi => (hs f hf hn (by simp) i hi).mono (by simp)⟩

/-- Each declaration of a file that a chunk inlines is bound at the chunk's root. -/
theorem declared_mem_rootBindings (h : mergeChunk? cx included = some (m, included', warnings))
    (hf : included'.contains f = true) (hn : included.contains f = false) {i : Item} {id : Ident}
    (hi : i ∈ cx.statements f) (hid : id ∈ i.declared) :
    (.file f, Rename.ofEnvironment m.names f id.name) ∈ m.rootBindings := by
  obtain ⟨made, ps, hpieces, _, hshown⟩ := (showsFile_of_mergeChunk? h hf hn).all
  rw [Merged.rootBindings, hpieces, List.flatMap_append, dropRepeatedExports,
    bindings_keepNewAll]
  exact List.mem_append_right _
    ((hshown i hi).bindings (Context.isAnonymousDefault_of_mem_statements hi) hid)

end Merged

end AmbientBundle.Merge
