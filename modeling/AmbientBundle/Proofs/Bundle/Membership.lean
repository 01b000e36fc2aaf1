import AmbientBundle.Chunk.Answers
import AmbientBundle.Proofs.Merge.Context
/-!
The chunk of a file is the first one that lists a module which may stand for the file, whatever was
asked before. A chunk that lists the file itself comes behind an earlier one that lists a look-alike.
-/
namespace AmbientBundle

/-- The chunk lists a module that may stand for the file. -/
def PlacedChunk.Matches (extensions : List String) (c : PlacedChunk) (u : Url) : Prop :=
  ∃ v ∈ Membership.candidates extensions u, v ∈ c.modules.items

instance (extensions : List String) (c : PlacedChunk) (u : Url) :
    Decidable (c.Matches extensions u) :=
  inferInstanceAs (Decidable (∃ v ∈ Membership.candidates extensions u, v ∈ c.modules.items))

namespace Membership

variable {m : Membership} {extensions : List String} {before after : List PlacedChunk}
  {c : PlacedChunk} {u : Url}

theorem any_contains_iff :
    (candidates extensions u).any c.modules.contains = true ↔ c.Matches extensions u := by
  simp only [List.any_eq_true, SeenSet.contains, decide_eq_true_eq, PlacedChunk.Matches]

theorem matches_of_mem (h : u ∈ c.modules.items) : c.Matches extensions u :=
  ⟨u, List.mem_cons_self, h⟩

/-- The first chunk that matches a file is the file's. -/
theorem chunkFor_append (hbefore : ∀ d ∈ before, ¬d.Matches m.extensions u)
    (hc : c.Matches m.extensions u) (hchunks : m.chunks = before ++ c :: after) :
    m.chunkFor u = some c.id := by
  have hskipped : before.find?
      (fun d => (candidates m.extensions u).any d.modules.contains) = none :=
    List.find?_eq_none.2 (fun d hd hany => hbefore d hd (any_contains_iff.1 hany))
  have hfound : (c :: after).find?
      (fun d => (candidates m.extensions u).any d.modules.contains) = some c :=
    List.find?_cons_of_pos (any_contains_iff.2 hc)
  rw [chunkFor, hchunks, List.find?_append, hskipped, Option.none_or, hfound, Option.map_some]

/-- Of some chunks of which the last matches, one is the first that does. -/
theorem exists_first_match (hc : c.Matches extensions u) (before : List PlacedChunk) :
    ∃ earlier d later, before ++ [c] = earlier ++ d :: later ∧ d.Matches extensions u ∧
      ∀ e ∈ earlier, ¬e.Matches extensions u := by
  induction before with
  | nil => exact ⟨[], c, [], rfl, hc, by simp⟩
  | cons b before ih =>
    by_cases hb : b.Matches extensions u
    · exact ⟨[], b, before ++ [c], rfl, hb, by simp⟩
    · obtain ⟨earlier, d, later, heq, hd, hearlier⟩ := ih
      exact ⟨b :: earlier, d, later, by simp [heq], hd, List.forall_mem_cons.2 ⟨hb, hearlier⟩⟩

namespace Answers

variable {a : Answers} {us : List Url}

/-- What is known is what would be found. -/
def Faithful (m : Membership) (a : Answers) : Prop :=
  a.membership = m ∧ ∀ u answer, a.given.get? u = some answer → answer = m.chunkFor u

theorem start_faithful (m : Membership) : Faithful m (start m) :=
  ⟨rfl, fun _ _ h => by simp [start, OrderedMap.empty, OrderedMap.get?, OrderedMap.find] at h⟩

/-- A question is answered by what would be found, and the answer may be kept. -/
theorem Faithful.ask (h : Faithful m a) (u : Url) :
    (a.ask u).1 = m.chunkFor u ∧ Faithful m (a.ask u).2 := by
  obtain ⟨rfl, hgiven⟩ := h
  rw [Answers.ask]
  cases hu : a.given.get? u with
  | some answer => exact ⟨hgiven u answer hu, rfl, hgiven⟩
  | none =>
    refine ⟨rfl, rfl, fun v answer hv => ?_⟩
    rw [OrderedMap.get?_put] at hv
    split at hv
    · rename_i huv
      exact huv ▸ (Option.some.inj hv).symm
    · exact hgiven v answer hv

theorem Faithful.askAll (h : Faithful m a) (us : List Url) :
    (a.askAll us).1 = us.map m.chunkFor ∧ Faithful m (a.askAll us).2 := by
  induction us generalizing a with
  | nil => exact ⟨rfl, h⟩
  | cons u us ih =>
    obtain ⟨hanswer, hkept⟩ := h.ask u
    obtain ⟨hanswers, hkept⟩ := ih hkept
    refine ⟨?_, hkept⟩
    change (a.ask u).1 :: ((a.ask u).2.askAll us).1 = _
    rw [hanswer, hanswers, List.map_cons]

end Answers

/-- A file that a chunk lists belongs to that chunk or to an earlier one: to the first that lists
a module which may stand for the file. What was asked before does not matter. -/
theorem belongs_to_first_match (hchunks : m.chunks = before ++ c :: after)
    (hu : u ∈ c.modules.items) (asked : List Url) :
    let answer := (((Answers.start m).askAll asked).2.ask u).1
    (∃ earlier d later, before ++ [c] = earlier ++ d :: later ∧ answer = some d.id ∧
      d.Matches m.extensions u ∧ ∀ e ∈ earlier, ¬e.Matches m.extensions u) ∧
    ((∀ d ∈ before, ¬d.Matches m.extensions u) → answer = some c.id) := by
  intro answer
  have hanswer : answer = m.chunkFor u :=
    (((Answers.start_faithful m).askAll asked).2.ask u).1
  have hc : c.Matches m.extensions u := matches_of_mem hu
  obtain ⟨earlier, d, later, heq, hd, hearlier⟩ := exists_first_match hc before
  have hsplit : m.chunks = earlier ++ d :: (later ++ after) := by
    rw [hchunks, ← List.singleton_append, ← List.append_assoc, heq]
    simp
  refine ⟨⟨earlier, d, later, heq, ?_, hd, hearlier⟩, fun hbefore => ?_⟩
  · rw [hanswer, chunkFor_append hearlier hd hsplit]
  · rw [hanswer, chunkFor_append hbefore hc hchunks]

/-- Chunks of files at the given paths, in this order. -/
def ofPaths (lists : List (List String)) : Membership where
  chunks := lists.zipIdx.map (fun (paths, i) =>
    ⟨i, "chunk.d.ts", .ofPath "/dist/chunk.d.ts", false, SeenSet.ofList (paths.map .ofPath)⟩)
  extensions := defaultExtensions

theorem belongs_to_first_match_second :
    let m := ofPaths [["/src/b.tsx"], ["/src/a.ts", "/src/b.ts"]]
    m.chunkFor (.ofPath "/src/a.ts") = some 1 ∧
      (((Answers.start m).askAll [.ofPath "/src/b.ts", .ofPath "/src/a.ts"]).2.ask
        (.ofPath "/src/a.ts")).1 = some 1 := by
  intro m
  have hmem : (.ofPath "/src/a.ts" : Url) ∈
      (SeenSet.ofList [Url.ofPath "/src/a.ts", .ofPath "/src/b.ts"]).items := by decide +kernel
  have hbefore : ∀ d ∈ m.chunks.take 1, ¬d.Matches m.extensions (.ofPath "/src/a.ts") := by
    decide +kernel
  have hchunks : m.chunks = m.chunks.take 1 ++ ⟨1, "chunk.d.ts", .ofPath "/dist/chunk.d.ts", false,
      SeenSet.ofList [.ofPath "/src/a.ts", .ofPath "/src/b.ts"]⟩ :: [] := rfl
  have hanswer := fun asked => (belongs_to_first_match hchunks hmem asked).2 hbefore
  exact ⟨hanswer [], hanswer _⟩

/-- A file does not belong to the only chunk that lists it if an earlier one lists a look-alike. -/
theorem lookalike_comes_first : ¬∀ (m : Membership) (c : PlacedChunk) (u : Url),
    c ∈ m.chunks → u ∈ c.modules.items →
      (∀ d ∈ m.chunks, u ∈ d.modules.items → d.id = c.id) → m.chunkFor u = some c.id := by
  intro hexact
  let m := ofPaths [["/src/a.tsx"], ["/src/a.ts"]]
  obtain ⟨c, hc, hu, honly, hid⟩ : ∃ c ∈ m.chunks, (.ofPath "/src/a.ts" : Url) ∈ c.modules.items ∧
      (∀ d ∈ m.chunks, (.ofPath "/src/a.ts" : Url) ∈ d.modules.items → d.id = c.id) ∧ c.id = 1 := by
    decide +kernel
  have hlast := hexact m c _ hc hu honly
  rw [hid] at hlast
  have hfirst : m.chunkFor (.ofPath "/src/a.ts") = some 0 := by decide +kernel
  simp [hfirst] at hlast

end Membership

end AmbientBundle
