import AmbientBundle.Bundle
import AmbientBundle.Proofs.Merge.Declarations
/-!
The declarations of a bundle. The chunks are merged one after the other, and a file becomes part of
one of them only: there all its declarations stand at the root, once and in order.
-/
namespace AmbientBundle.Bundle

open Merge Syntax

/-- The given chunks merged in turn: `included` are the files of the chunks before them, and
`included'` those of all of them. -/
inductive Merges (o : Options) (placed : List PlacedChunk) :
    SeenSet Url → List PlacedChunk → List Merged → SeenSet Url → Prop where
  | nil {included : SeenSet Url} : Merges o placed included [] [] included
  | cons {included included' included'' : SeenSet Url} {c : PlacedChunk} {m : Merged}
      {warnings : List Warning} {cs : List PlacedChunk} {ms : List Merged}
      (h : mergeChunk? (o.context placed c) included = some (m, included', warnings))
      (hs : Merges o placed included' cs ms included'') :
      Merges o placed included (c :: cs) (m :: ms) included''

section Run

variable {o : Options} {outDir : Url} {chunks : List Chunk} {placed : List PlacedChunk}

theorem merges_of_foldlM {cs : List PlacedChunk} {r r' : Result}
    (h : cs.foldlM (mergeNext o placed) r = .ok r') :
    ∃ ms, r'.chunks = r.chunks ++ ms ∧ Merges o placed r.included cs ms r'.included := by
  induction cs generalizing r with
  | nil =>
    obtain rfl := Except.ok.inj h
    exact ⟨[], (List.append_nil _).symm, .nil⟩
  | cons c cs ih =>
    rw [List.foldlM_cons] at h
    cases hm : mergeChunk? (o.context placed c) r.included with
    | none =>
      rw [mergeNext, hm] at h
      cases h
    | some e =>
      obtain ⟨m, included, warnings⟩ := e
      rw [mergeNext, hm] at h
      obtain ⟨ms, hchunks, hs⟩ := ih h
      exact ⟨m :: ms, by simpa using hchunks, .cons hm hs⟩

/-- Bundling that succeeds has placed and checked all chunks, and merged them in order. At the end
it only adds a warning. -/
theorem run_inv {r : Result} (h : run o outDir chunks = .ok r) :
    ∃ placed r', placeChunks outDir chunks = .ok placed ∧ placed.forM (check o.files) = .ok () ∧
      placed.foldlM (mergeNext o placed) ⟨[], ∅, []⟩ = .ok r' ∧ r.chunks = r'.chunks ∧
      r.included = r'.included := by
  unfold run at h
  cases hplaced : placeChunks outDir chunks with
  | error e =>
    rw [hplaced] at h
    cases h
  | ok placed =>
    rw [hplaced] at h
    simp only [bind, Except.bind] at h
    split at h
    · cases h
    · rename_i hcheck
      split at h
      · cases h
      · rename_i r' hr
        have hrr := Except.ok.inj h
        refine ⟨placed, r', rfl, hcheck, hr, ?_⟩
        split at hrr <;> subst hrr <;> exact ⟨rfl, rfl⟩

theorem merges_of_run {r : Result} (h : run o outDir chunks = .ok r) :
    ∃ placed, placeChunks outDir chunks = .ok placed ∧
      Merges o placed ∅ placed r.chunks r.included := by
  obtain ⟨placed, r', hplaced, -, hr, hchunks, hincluded⟩ := run_inv h
  obtain ⟨ms, hms, hs⟩ := merges_of_foldlM hr
  rw [hchunks, hincluded, hms]
  exact ⟨placed, hplaced, hs⟩

end Run

namespace Merges

variable {o : Options} {placed cs : List PlacedChunk} {included included' : SeenSet Url}
  {ms : List Merged} {f : Url}

theorem contains (h : Merges o placed included cs ms included')
    (hf : included.contains f = true) : included'.contains f = true := by
  induction h with
  | nil => exact hf
  | cons hm _ ih => exact ih (contains_of_mergeChunk? hm hf)

/-- No chunk has declarations of a file of an earlier chunk, or of a file that is not included. -/
theorem declarationsOf_eq_nil (h : Merges o placed included cs ms included')
    (hf : included.contains f = true ∨ included'.contains f = false) {m : Merged} (hm : m ∈ ms) :
    declarationsOf f m.pieces = [] := by
  induction h with
  | nil => cases hm
  | @cons inc inc' inc'' c m' w cs ms hmerge hs ih =>
    have hnext : inc'.contains f = true ∨ inc''.contains f = false :=
      hf.imp_left (contains_of_mergeChunk? hmerge)
    have hhere : inc.contains f = true ∨ inc'.contains f = false := by
      refine hf.imp_right (fun hf => Bool.eq_false_iff.2 (fun hc => ?_))
      rw [hs.contains hc] at hf
      cases hf
    rcases List.mem_cons.1 hm with rfl | hm
    · exact Merge.declarationsOf_eq_nil hmerge hhere
    · exact ih hnext hm

/-- A file that becomes included does so in one chunk, which has its declarations. -/
theorem declarations_inlined (h : Merges o placed included cs ms included')
    (hn : included.contains f = false) (hf : included'.contains f = true) :
    ∃ (i : Nat) (c : PlacedChunk) (m : Merged), cs[i]? = some c ∧ ms[i]? = some m ∧
      List.Forall₂ (InlinedAs (o.context placed c) f (Rename.ofEnvironment m.names f))
        ((o.context placed c).declarations f) (declarationsOf f m.pieces) ∧
      ∀ j m', ms[j]? = some m' → j ≠ i → declarationsOf f m'.pieces = [] := by
  induction h with
  | nil =>
    rw [hn] at hf
    cases hf
  | @cons inc inc' inc'' c m w cs ms hm hs ih =>
    cases hf' : inc'.contains f with
    | true =>
      refine ⟨0, c, m, rfl, rfl, declarationsOf_inlined hm hn hf', fun j m' hj hne => ?_⟩
      obtain ⟨k, rfl⟩ := Nat.exists_eq_succ_of_ne_zero hne
      exact hs.declarationsOf_eq_nil (Or.inl hf') (List.mem_of_getElem? hj)
    | false =>
      obtain ⟨i, c', m', hc, hm', hin, hother⟩ := ih hf' hf
      refine ⟨i + 1, c', m', hc, hm', hin, fun j m'' hj hne => ?_⟩
      cases j with
      | zero =>
        obtain rfl := Option.some.inj hj
        exact Merge.declarationsOf_eq_nil hm (Or.inr hf')
      | succ j => exact hother j m'' hj (fun h => hne (congrArg (· + 1) h))

/-- A declaration in a chunk is one of an included file, or made up by merging. -/
theorem declaration_origin (h : Merges o placed included cs ms included') {m : Merged} (hm : m ∈ ms)
    {p : Piece} (hp : p ∈ m.pieces) (hd : p.item.isDeclaration = true) :
    (∃ g, p.owner = .file g ∧ included'.contains g = true) ∨ p.owner = .chunk ∧ MadeUp p.item := by
  induction h with
  | nil => cases hm
  | @cons inc inc' inc'' c m' w cs ms hmerge hs ih =>
    rcases List.mem_cons.1 hm with rfl | hm
    · cases ho : p.owner with
      | file g =>
        refine Or.inl ⟨g, rfl, hs.contains (Bool.not_eq_false _ |>.mp (fun hn => ?_))⟩
        have hnone := Merge.declarationsOf_eq_nil hmerge (Or.inr hn)
        have hp' := List.flatMap_eq_nil_iff.1 hnone p hp
        rw [Piece.declaration, if_pos ho] at hp'
        rw [Item.isDeclaration_of_declaration hp'] at hd
        cases hd
      | chunk =>
        refine Or.inr ⟨rfl, (madeUp_of_mem_pieces hmerge hp ho).resolve_left ?_⟩
        rintro ⟨d, hi⟩
        rw [hi] at hd
        cases hd
    · exact ih hm

end Merges

/-- The declarations of each included file stand at the root of one chunk, all of them in their
order, and at the root of no other; and every declaration at a chunk's root is of an included file,
or is a namespace block or an alias that merging made up. -/
structure InlinedOnce (o : Options) (placed : List PlacedChunk) (r : Result) : Prop where
  once : ∀ f, r.included.contains f = true →
    ∃ (i : Nat) (c : PlacedChunk) (m : Merged), placed[i]? = some c ∧ r.chunks[i]? = some m ∧
      List.Forall₂ (InlinedAs (o.context placed c) f (Rename.ofEnvironment m.names f))
        ((o.context placed c).declarations f) (declarationsOf f m.pieces) ∧
      ∀ j m', r.chunks[j]? = some m' → j ≠ i → declarationsOf f m'.pieces = []
  only : ∀ m ∈ r.chunks, ∀ p ∈ m.pieces, p.item.isDeclaration = true →
    (∃ f, p.owner = .file f ∧ r.included.contains f = true) ∨ p.owner = .chunk ∧ MadeUp p.item

theorem declarations_inlined_once {o : Options} {outDir : Url} {chunks : List Chunk} {r : Result}
    (h : run o outDir chunks = .ok r) :
    ∃ placed, placeChunks outDir chunks = .ok placed ∧ InlinedOnce o placed r := by
  obtain ⟨placed, hp, hs⟩ := merges_of_run h
  have hn : ∀ f : Url, (∅ : SeenSet Url).contains f = false := fun _ => rfl
  exact ⟨placed, hp, fun f hf => hs.declarations_inlined (hn f) hf,
    fun m hm p hpm hd => hs.declaration_origin hm hpm hd⟩

section Shared

/-- Files at the given paths, which are their specifiers too. -/
def Options.ofFiles (files : List (String × List Item)) : Options :=
  { files := files.foldl (fun fs f => fs.insert (.ofPath f.1) ⟨none, f.2⟩) Files.empty
    resolver := fun specifier _ => some (.ofPath specifier)
    passes := [.add]
    extensions := [] }

/-- `/a.d.ts` imports from `/b.d.ts`, which is in another chunk and declares the same name. -/
def sharedFiles : Options := .ofFiles
  [("/a.d.ts", [.importDecl ⟨[.named none "B" false], .made "/b.d.ts", false, none⟩,
      .exportDecl (emptyClass "A")]),
    ("/b.d.ts", [.exportDecl (emptyClass "A"), .exportDefaultDecl (.cls (.anonymous 0)
      ⟨false, [], none, [], []⟩), .exportDecl (emptyClass "B")])]

def sharedChunks : List Chunk :=
  [⟨"shared.js", false, [.ofPath "/b.d.ts"]⟩, ⟨"index.js", true, [.ofPath "/a.d.ts"]⟩]

set_option maxRecDepth 100000 in
/-- Of the shared file all three declarations stand in its own chunk, and none in the other. -/
theorem declarations_inlined_once_shared : ∃ r,
    run sharedFiles (.ofPath "/dist/") sharedChunks = .ok r ∧
      (∃ placed, placeChunks (.ofPath "/dist/") sharedChunks = .ok placed ∧
        InlinedOnce sharedFiles placed r) ∧
      r.chunks.map (fun m => (declarationsOf (.ofPath "/b.d.ts") m.pieces).length) = [3, 0] := by
  cases h : run sharedFiles (.ofPath "/dist/") sharedChunks with
  | error e =>
    have hok : (run sharedFiles (.ofPath "/dist/") sharedChunks).toOption.isSome = true := by
      decide +kernel
    rw [h] at hok
    cases hok
  | ok r =>
    have hcount : ((run sharedFiles (.ofPath "/dist/") sharedChunks).toOption.map (fun r =>
        r.chunks.map (fun m => (declarationsOf (.ofPath "/b.d.ts") m.pieces).length))) =
          some [3, 0] := by
      decide +kernel
    rw [h] at hcount
    exact ⟨r, rfl, declarations_inlined_once h, Option.some.inj hcount⟩

end Shared

end AmbientBundle.Bundle
