import AmbientBundle.Merge.Chunk
import AmbientBundle.Proofs.Names.Fresh
import AmbientBundle.Proofs.Syntax.Bound
import AmbientBundle.Proofs.Syntax.Keys
import Mathlib.Logic.Relation
/-!
The files of a chunk and how they refer to each other, and the names that they bring in: what they
declare, import, export and take by import types. Every name that merging makes up is a form of
such a name.
-/
namespace AmbientBundle

/-- `declare class name {}`. -/
def Syntax.emptyClass (name : String) : Syntax.Decl := .cls (.made name) true ⟨false, [], none, [], []⟩

def Url.ofPath (path : String) : Url := ⟨"file", some ⟨"", none, "", none⟩, path, none, none⟩

/-- One chunk of files at the given paths, which are their specifiers too. The last file is the
chunk's entry. -/
def Merge.Context.ofFiles (files : List (String × List Syntax.Item)) : Merge.Context :=
  let chunk : PlacedChunk := ⟨0, "index.d.ts", .ofPath "/dist/index.d.ts", true,
    SeenSet.ofList (files.map (fun f => .ofPath f.1))⟩
  { chunk := chunk
    files := files.foldl (fun fs f => fs.insert (.ofPath f.1) ⟨none, f.2⟩) Files.empty
    resolver := fun specifier _ => some (.ofPath specifier)
    membership := ⟨[chunk], []⟩
    passes := [.add] }

def ExportedSymbol.source? : ExportedSymbol → Option String
  | .named _ _ src _ => src
  | .all src => some src
  | .allAs _ src => some src

/-- The name that is asked for in the imported file; a namespace is no name of it. -/
def Merge.ImportedName.text? : Merge.ImportedName → Option String
  | .named name => some name
  | .default => some "default"
  | .all => none

namespace Merge.Context

open Syntax

variable (cx : Context)

/-- One file of the chunk refers to another by an import, an export or an import type. -/
inductive Links (g h : Url) : Prop where
  | imported {d : ImportDecl} (hd : d ∈ cx.imports g) (hin : cx.inChunk? d.src.value g = some h)
  | exported {s : ExportedSymbol} {src : String} (hs : s ∈ cx.exports g)
      (hsrc : s.source? = some src) (hin : cx.inChunk? src g = some h)
  | typed {key : ImportTypeKey} (hk : key ∈ collectItems ImportTypes.pickKey (cx.statements g))
      (hin : cx.inChunk? key.specifier g = some h)

/-- The files of the chunk: the entry files, and all files that these refer to. -/
inductive HasFile : Url → Prop where
  | entry {m file : Url} (hm : m ∈ cx.chunk.entryModules)
      (hf : cx.files.findForModule m = some file) : HasFile file
  | linked {g h : Url} (hg : HasFile g) (hl : cx.Links g h) : HasFile h

/-- The names that the files of the chunk write where they declare, import and export, and at the
head of import types. -/
inductive Writes : String → Prop where
  | declared {g : Url} {id : Ident} (hg : cx.HasFile g)
      (hid : id ∈ (cx.statements g).flatMap Item.declared) : Writes id.name
  | loc {g : Url} {d : ImportDecl} {sp : ImportSpecifier} (hg : cx.HasFile g)
      (hd : d ∈ cx.imports g) (hsp : sp ∈ d.specifiers) : Writes sp.loc
  | imported {g : Url} {d : ImportDecl} {sp : ImportSpecifier} {name : String} (hg : cx.HasFile g)
      (hd : d ∈ cx.imports g) (hsp : sp ∈ d.specifiers) (hn : (ofSpecifier sp).2.1 = .named name) :
      Writes name
  | exported {g : Url} {s : ExportedSymbol} {name : String} (hg : cx.HasFile g)
      (hs : s ∈ cx.exports g) (hn : s.exportedName? = some name) : Writes name
  | property {g : Url} {name property src : String} {id : Option DeclId} (hg : cx.HasFile g)
      (hs : .named name property (some src) id ∈ cx.exports g) : Writes property
  | head {g : Url} {key : ImportTypeKey} {name : String} (hg : cx.HasFile g)
      (hk : key ∈ collectItems ImportTypes.pickKey (cx.statements g)) (hn : key.head = some name) :
      Writes name
  | space {g : Url} {key : ImportTypeKey} {file : Url} (hg : cx.HasFile g)
      (hk : key ∈ collectItems ImportTypes.pickKey (cx.statements g))
      (hin : cx.inChunk? key.specifier g = some file) : Writes (spaceName file)

/-- A file of the chunk imports or exports the symbol from outside, where the chunk has the module
under the given specifier; the flag tells that it takes the symbol as a type. -/
inductive TakesOut : String × ImportedName → Bool → Prop where
  | imported {g : Url} {d : ImportDecl} {sp : ImportSpecifier} (hg : cx.HasFile g)
      (hd : d ∈ cx.imports g) (hsp : sp ∈ d.specifiers)
      (hout : cx.inChunk? d.src.value g = none) :
      TakesOut (cx.placeSpecifier d.src.value g, (ofSpecifier sp).2.1)
        (d.typeOnly || (ofSpecifier sp).2.2)
  | named {g : Url} {name property src : String} {id : Option DeclId} (hg : cx.HasFile g)
      (hs : .named name property (some src) id ∈ cx.exports g)
      (hout : cx.inChunk? src g = none) :
      TakesOut (cx.placeSpecifier src g, .ofText property) false
  | space {g : Url} {name src : String} (hg : cx.HasFile g) (hs : .allAs name src ∈ cx.exports g)
      (hout : cx.inChunk? src g = none) : TakesOut (cx.placeSpecifier src g, .all) false
  | star {g : Url} {name src : String} (hg : cx.HasFile g) (hs : .all src ∈ cx.exports g)
      (hout : cx.inChunk? src g = none) (hn : cx.Writes name) :
      TakesOut (cx.placeSpecifier src g, .named name) false

/-- A file of the chunk imports a module from outside, which the chunk has under the given
specifier. -/
def RunsOut (module : String) : Prop :=
  ∃ g, cx.HasFile g ∧ ∃ d ∈ cx.imports g, cx.inChunk? d.src.value g = none ∧
    module = cx.placeSpecifier d.src.value g

/-- All import specifiers of a file with their declarations, in the order of merging. -/
def specifiers (file : Url) : List (ImportDecl × ImportSpecifier) :=
  (cx.imports file).flatMap (fun d => d.specifiers.map (d, ·))

/-- Every one of the given files refers to `file`, by others or directly. -/
def LeadTo (files : List Url) (file : Url) : Prop :=
  ∀ g ∈ files, Relation.ReflTransGen cx.Links g file

variable {cx}

theorem mem_specifiers {file : Url} {d : ImportDecl} {sp : ImportSpecifier} :
    (d, sp) ∈ cx.specifiers file ↔ d ∈ cx.imports file ∧ sp ∈ d.specifiers := by
  simp [specifiers]

theorem LeadTo.tail {files : List Url} {g h : Url} (hf : cx.LeadTo files g) (hl : cx.Links g h) :
    cx.LeadTo files h :=
  fun f hmem => (hf f hmem).tail hl

theorem LeadTo.cons {files : List Url} {g : Url} (hf : cx.LeadTo files g) :
    cx.LeadTo (g :: files) g := by
  intro f hmem
  rcases List.mem_cons.1 hmem with rfl | hmem
  · exact Relation.ReflTransGen.refl
  · exact hf f hmem

end Merge.Context

namespace Names

/-- `Form n x`: merging may make `x` up where `n` is wanted, since other names are taken. -/
inductive Form (n : String) : String → Prop where
  | same : Form n n
  | numbered {x : String} (h : Form n x) (k : Nat) : Form n (numbered (unreserved x) k)

end Names

namespace Merge.Context

open Names Syntax

variable {cx : Context}

/-- A form of a name that some file of the chunk writes. -/
def Formed (cx : Context) (x : String) : Prop := ∃ n, cx.Writes n ∧ Form n x

theorem Writes.formed {n : String} (h : cx.Writes n) : cx.Formed n := ⟨n, h, .same⟩

theorem formed_fresh {x : String} (h : cx.Formed x) (taken : List String) :
    cx.Formed (fresh taken x) := by
  obtain ⟨n, hn, hx⟩ := h
  obtain ⟨k, hk⟩ := fresh_eq_numbered taken x
  exact ⟨n, hn, hk ▸ .numbered hx k⟩

open Syntax Declare

theorem body_of_none {file : Url} (h : cx.files.get? file = none) : cx.body file = [] := by
  simp [body, h]

/-- A statement that is no declaration stands in a file's module as it stands behind the passes. -/
theorem mem_of_mem_prepare {m : Module} {i : Item} (h : i ∈ (cx.prepare m).body)
    (hd : ∀ d, i ≠ .decl d) (he : ∀ d, i ≠ .exportDecl d) : i ∈ m.body := by
  unfold prepare at h
  generalize cx.passes = ps at h
  induction ps generalizing m with
  | nil => exact h
  | cons p ps ih =>
    have hp := ih h
    rw [Pass.body_run] at hp
    obtain ⟨j, hj, hi⟩ := List.mem_map.1 hp
    rcases Pass.eq_of_onItem? hi with rfl | ⟨_, e, _, rfl⟩ | ⟨_, e, _, rfl⟩
    · exact hj
    · exact absurd rfl (hd e)
    · exact absurd rfl (he e)

/-- An export list with a source, or a star, is a statement of the file's module. -/
theorem mem_of_mem_statements {file : Url} {i : Item} (h : i ∈ cx.statements file)
    (hi : (∃ d : ExportList, i = .exportList d ∧ d.src.isSome) ∨ ∃ d, i = .exportAll d) :
    ∃ m, cx.files.get? file = some m ∧ i ∈ m.body := by
  obtain ⟨j, hj, hij⟩ := List.mem_flatMap.1 h
  have hji : j = i := by
    cases j with
    | importDecl d => simp [splitImport] at hij
    | importEquals d =>
      simp only [splitImport] at hij
      split at hij
      · split at hij
        · rw [List.mem_singleton] at hij
          rcases hi with ⟨d, rfl, hs⟩ | ⟨d, rfl⟩
          · cases hij
            cases hs
          · cases hij
        · cases hij
      · rw [List.mem_singleton] at hij
        exact hij.symm
    | _ => exact (List.mem_singleton.1 hij).symm
  subst hji
  unfold body at hj
  cases hm : cx.files.get? file with
  | none => simp [hm] at hj
  | some m =>
    refine ⟨m, rfl, ?_⟩
    simp only [hm] at hj
    obtain ⟨k, hk, hjk⟩ := List.mem_flatMap.1 hj
    have hkj : k = j := by
      split at hjk
      · rename_i ha
        cases k with
        | exportDefaultDecl d =>
          rw [Exports.nodes_promote_default, List.mem_pair] at hjk
          rcases hi with ⟨e, rfl, hs⟩ | ⟨e, rfl⟩
          · rcases hjk with hjk | hjk
            · cases hjk
            · cases hjk
              cases hs
          · rcases hjk with hjk | hjk <;> cases hjk
        | _ => cases ha
      · exact (List.mem_singleton.1 hjk).symm
    subst hkj
    refine mem_of_mem_prepare hk ?_ ?_
    · rintro d rfl
      rcases hi with ⟨e, he, _⟩ | ⟨e, he⟩ <;> cases he
    · rintro d rfl
      rcases hi with ⟨e, he, _⟩ | ⟨e, he⟩ <;> cases he

/-- No statement exports a nameless class or function: it has got a name. -/
theorem isAnonymousDefault_of_mem_statements {file : Url} {i : Item}
    (h : i ∈ cx.statements file) : Exports.isAnonymousDefault i = false := by
  obtain ⟨j, hj, hij⟩ := List.mem_flatMap.1 h
  have hj' : Exports.isAnonymousDefault j = false := by
    unfold body at hj
    cases hm : cx.files.get? file with
    | none => simp [hm] at hj
    | some m =>
      simp only [hm] at hj
      obtain ⟨k, _, hjk⟩ := List.mem_flatMap.1 hj
      split at hjk
      · rename_i ha
        cases k with
        | exportDefaultDecl d =>
          rw [Exports.nodes_promote_default, List.mem_pair] at hjk
          rcases hjk with rfl | rfl <;> rfl
        | _ => cases ha
      · rename_i ha
        rw [List.mem_singleton.1 hjk]
        exact Bool.eq_false_iff.2 ha
  cases j with
  | importDecl d => simp [splitImport] at hij
  | importEquals d =>
    simp only [splitImport] at hij
    split at hij
    · split at hij
      · rw [List.mem_singleton.1 hij]
        rfl
      · cases hij
    · rw [List.mem_singleton.1 hij]
      rfl
  | _ =>
    rw [List.mem_singleton.1 hij]
    exact hj'

theorem exports_eq {file : Url} {m : Module} (h : cx.files.get? file = some m) :
    cx.exports file = Exports.table file m.body := by
  simp [exports, h]

/-- A specifier of an export list with a source is in the export table. -/
theorem mem_exports_of_specifier {file : Url} {d : ExportList} {src : StrLit}
    {sp : ExportSpecifier} (h : .exportList d ∈ cx.statements file) (hs : d.src = some src)
    (hsp : sp ∈ d.specifiers) :
    ∃ s ∈ cx.exports file, Exports.ofSpecifier (some src.value) sp = some s := by
  obtain ⟨m, hm, hd⟩ := mem_of_mem_statements h (Or.inl ⟨d, rfl, by simp [hs]⟩)
  have ho : ∃ s, Exports.ofSpecifier (some src.value) sp = some s := by
    cases sp <;> exact ⟨_, rfl⟩
  obtain ⟨s, ho⟩ := ho
  refine ⟨s, ?_, ho⟩
  rw [exports_eq hm]
  refine List.mem_flatMap.2 ⟨_, hd, List.mem_filterMap.2 ⟨sp, hsp, ?_⟩⟩
  simpa [hs] using ho

theorem mem_exports_of_star {file : Url} {d : ExportAll} (h : .exportAll d ∈ cx.statements file) :
    .all d.src.value ∈ cx.exports file := by
  obtain ⟨m, hm, hd⟩ := mem_of_mem_statements h (Or.inr ⟨d, rfl⟩)
  rw [exports_eq hm]
  exact List.mem_flatMap.2 ⟨_, hd, by simp [Exports.ofItem]⟩

end Merge.Context

end AmbientBundle
