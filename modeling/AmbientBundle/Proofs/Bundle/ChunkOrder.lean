import AmbientBundle.Proofs.Bundle.Links
import AmbientBundle.Proofs.Merge.Independence
import AmbientBundle.Proofs.Merge.Moves
import AmbientBundle.Proofs.Merge.Reading
/-!
The order of the chunks. Where no two chunks match the same URL or share a declaration file, merging
a chunk never comes to a file of another one: it does the same behind the earlier chunks as it does
alone, and so in every order.
-/
namespace AmbientBundle

/-- A module of the chunk matches the URL. -/
def Chunk.Matches (extensions : List String) (c : Chunk) (u : Url) : Prop :=
  ∃ v ∈ Membership.candidates extensions u, v ∈ c.modules

theorem Chunk.matches_of_mem {extensions : List String} {c : Chunk} {u : Url}
    (h : u ∈ c.modules) : c.Matches extensions u :=
  ⟨u, List.mem_cons_self, h⟩

namespace Bundle

open Merge Syntax

/-- The declaration file belongs to the chunk: it is found for a URL that a module of the chunk
matches. -/
def Holds (o : Options) (c : Chunk) (f : Url) : Prop :=
  ∃ u, c.Matches o.extensions u ∧ o.files.findForModule u = some f

/-- No URL is matched by both chunks, and no declaration file belongs to both. -/
structure Separate (o : Options) (c d : Chunk) : Prop where
  urls : ∀ u, c.Matches o.extensions u → ¬d.Matches o.extensions u
  files : ∀ f, Holds o c f → ¬Holds o d f

theorem Separate.symm {o : Options} {c d : Chunk} (h : Separate o c d) : Separate o d c :=
  ⟨fun u hd hc => h.urls u hc hd, fun f hd hc => h.files f hc hd⟩

/-- The chunks are placed, and any two are separate. -/
structure Arranged (o : Options) (outDir : Url) (chunks : List Chunk) (placed : List PlacedChunk) :
    Prop where
  placed : placeChunks outDir chunks = .ok placed
  separate : chunks.Pairwise (Separate o)

namespace Arranged

variable {o : Options} {outDir f u : Url} {chunks : List Chunk} {placed : List PlacedChunk}
  {i j : Nat} {c d : Chunk} {p q : PlacedChunk} {specifier : String} {referrer : Url}
  (h : Arranged o outDir chunks placed)

include h

theorem eq_or_separate (hc : chunks[i]? = some c) (hd : chunks[j]? = some d) :
    i = j ∨ Separate o c d := by
  obtain ⟨hi, rfl⟩ := List.getElem?_eq_some_iff.1 hc
  obtain ⟨hj, rfl⟩ := List.getElem?_eq_some_iff.1 hd
  have hpairs := List.pairwise_iff_getElem.1 h.separate
  rcases Nat.lt_trichotomy i j with hij | hij | hij
  · exact Or.inr (hpairs i j hi hj hij)
  · exact Or.inl hij
  · exact Or.inr (hpairs j i hj hi hij).symm

/-- Only one chunk matches a URL. -/
theorem position_eq (hc : chunks[i]? = some c) (hd : chunks[j]? = some d)
    (hcu : c.Matches o.extensions u) (hdu : d.Matches o.extensions u) : i = j :=
  (h.eq_or_separate hc hd).resolve_right (fun hs => hs.urls u hcu hdu)

theorem any_contains_iff (hc : chunks[i]? = some c) (hp : placed[i]? = some p) :
    (Membership.candidates o.extensions u).any p.modules.contains = true ↔
      c.Matches o.extensions u := by
  rw [(Chunk.place_inv (place_of_placeChunks h.placed hc hp)).2.1]
  simp only [List.any_eq_true, SeenSet.contains, decide_eq_true_eq, SeenSet.mem_ofList,
    Chunk.Matches]

/-- The chunk of a URL is the one with a module that matches it. -/
theorem chunkFor_eq_some_iff : (Membership.mk placed o.extensions).chunkFor u = some i ↔
    ∃ c, chunks[i]? = some c ∧ c.Matches o.extensions u := by
  have hfound {q : PlacedChunk} (hq : placed.find? (fun c =>
      (Membership.candidates o.extensions u).any c.modules.contains) = some q) :
      ∃ d, chunks[q.id]? = some d ∧ d.Matches o.extensions u := by
    obtain ⟨k, hk⟩ := List.mem_iff_getElem?.1 (List.mem_of_find?_eq_some hq)
    obtain ⟨d, hd, -⟩ := chunk_of_placed h.placed hk
    rw [id_of_placeChunks h.placed hk]
    have hany : (Membership.candidates o.extensions u).any q.modules.contains = true := by
      simpa using List.find?_some hq
    exact ⟨d, hd, (h.any_contains_iff hd hk).1 hany⟩
  simp only [Membership.chunkFor, Option.map_eq_some_iff]
  constructor
  · rintro ⟨q, hq, rfl⟩
    exact hfound hq
  · rintro ⟨c, hc, hu⟩
    obtain ⟨p, hp, -⟩ := placed_of_chunk h.placed hc
    cases hq : placed.find? (fun c =>
        (Membership.candidates o.extensions u).any c.modules.contains) with
    | none =>
      have hnone := List.find?_eq_none.1 hq p (List.mem_of_getElem? hp)
      exact absurd ((h.any_contains_iff hc hp).2 hu) hnone
    | some q =>
      obtain ⟨d, hd, hdu⟩ := hfound hq
      exact ⟨q, rfl, h.position_eq hd hc hdu hu⟩

theorem otherChunk?_eq_some_iff (hp : placed[i]? = some p) :
    (o.context placed p).otherChunk? u = some q ↔
      ∃ j d, j ≠ i ∧ chunks[j]? = some d ∧ d.Matches o.extensions u ∧ placed[j]? = some q := by
  have hid := id_of_placeChunks h.placed hp
  simp only [Context.otherChunk?, Options.context, Option.bind_eq_bind, Option.bind_eq_some_iff,
    hid, Membership.get?]
  constructor
  · rintro ⟨j, hj, hq⟩
    split at hq
    · cases hq
    · rename_i hne
      obtain ⟨d, hd, hdu⟩ := h.chunkFor_eq_some_iff.1 hj
      exact ⟨j, d, hne, hd, hdu, hq⟩
  · rintro ⟨j, d, hne, hd, hdu, hq⟩
    exact ⟨j, h.chunkFor_eq_some_iff.2 ⟨d, hd, hdu⟩, by rw [if_neg hne, hq]⟩

section Contexts

variable (hc : chunks[i]? = some c) (hp : placed[i]? = some p)

include hc hp

theorem inChunk?_eq_some_iff :
    (o.context placed p).inChunk? specifier referrer = some f ↔
      ∃ u, o.resolver specifier referrer = some u ∧ c.Matches o.extensions u ∧
        o.files.findForModule u = some f := by
  have hid := id_of_placeChunks h.placed hp
  simp only [Context.inChunk?, Options.context, Option.bind_eq_bind, Option.bind_eq_some_iff, hid]
  constructor
  · rintro ⟨u, hu, k, hk, hf⟩
    split at hf
    · rename_i hki
      obtain ⟨d, hd, hdu⟩ := h.chunkFor_eq_some_iff.1 hk
      obtain rfl := Option.some.inj (hc.symm.trans (hki ▸ hd))
      exact ⟨u, hu, hdu, hf⟩
    · cases hf
  · rintro ⟨u, hu, hcu, hf⟩
    exact ⟨u, hu, i, h.chunkFor_eq_some_iff.2 ⟨c, hc, hcu⟩, by rw [if_pos rfl, hf]⟩

theorem holds_of_entry {m : Url} (hm : m ∈ p.entryModules)
    (hf : o.files.findForModule m = some f) : Holds o c f := by
  have hitems : m ∈ p.modules.items := by
    unfold PlacedChunk.entryModules at hm
    split at hm
    · exact List.mem_of_getLast? (Option.mem_toList.1 hm)
    · exact List.mem_reverse.1 hm
  rw [(Chunk.place_inv (place_of_placeChunks h.placed hc hp)).2.1, SeenSet.mem_ofList] at hitems
  exact ⟨m, Chunk.matches_of_mem hitems, hf⟩

theorem holds_of_inChunk? (hin : (o.context placed p).inChunk? specifier referrer = some f) :
    Holds o c f := by
  obtain ⟨u, -, hu, hf⟩ := (h.inChunk?_eq_some_iff hc hp).1 hin
  exact ⟨u, hu, hf⟩

/-- All files that merging a chunk comes to belong to the chunk. -/
theorem holds_of_hasFile (hf : (o.context placed p).HasFile f) : Holds o c f := by
  cases hf with
  | entry hm hf => exact h.holds_of_entry hc hp hm hf
  | linked _ hl =>
    cases hl with
    | imported _ hin => exact h.holds_of_inChunk? hc hp hin
    | exported _ _ hin => exact h.holds_of_inChunk? hc hp hin
    | typed _ hin => exact h.holds_of_inChunk? hc hp hin

end Contexts

/-- Behind the chunks up to a position only files of these are included. -/
theorem holds_before {ms : List Merged} {before : Nat → SeenSet Url} (hzero : before 0 = ∅)
    (hturn : InTurn o placed placed ms before) (hi : i ≤ ms.length)
    (hlength : ms.length = placed.length) (hf : (before i).contains f = true) :
    ∃ j d, j < i ∧ chunks[j]? = some d ∧ Holds o d f := by
  induction i with
  | zero =>
    rw [hzero] at hf
    cases hf
  | succ i ih =>
    have hp : placed[i]? = some placed[i] := List.getElem?_eq_getElem (by omega)
    obtain ⟨c, hc, -⟩ := chunk_of_placed h.placed hp
    obtain ⟨_, hmerge⟩ := hturn i _ _ hp (List.getElem?_eq_getElem (by omega))
    obtain ⟨s, hs, -, -, hmoves⟩ := mergeChunk_moves (o.context placed placed[i]) (before i)
    have hafter : s.included = before (i + 1) := by
      rw [hs] at hmerge
      exact (Prod.mk.inj (Prod.mk.inj (Option.some.inj hmerge)).2).1
    rcases hmoves.hasFile (hafter ▸ hf) with hold | hfile
    · obtain ⟨j, d, hj, hd⟩ := ih (by omega) hold
      exact ⟨j, d, by omega, hd⟩
    · exact ⟨i, c, by omega, hc, h.holds_of_hasFile hc hp hfile⟩

/-- A chunk is merged behind the earlier ones as it is merged alone. -/
theorem mergeChunk_alone {ms : List Merged} {before : Nat → SeenSet Url} {m : Merged}
    (hzero : before 0 = ∅) (hturn : InTurn o placed placed ms before)
    (hlength : ms.length = placed.length) (hp : placed[i]? = some p) (hm : ms[i]? = some m) :
    ∃ after warnings, mergeChunk? (o.context placed p) ∅ = some (m, after, warnings) := by
  obtain ⟨c, hc, -⟩ := chunk_of_placed h.placed hp
  obtain ⟨warnings, hmerge⟩ := hturn i p m hp hm
  have hi : i ≤ ms.length := Nat.le_of_lt (List.getElem?_eq_some_iff.1 hm).1
  have hfar {g : Url} (hg : Holds o c g) : g ∉ (before i).items := by
    intro hmem
    obtain ⟨j, d, hj, hd, hheld⟩ := h.holds_before hzero hturn hi hlength (decide_eq_true hmem)
    rcases h.eq_or_separate hc hd with rfl | hs
    · exact absurd hj (Nat.lt_irrefl _)
    · exact hs.files g hg hheld
  have hapart : Apart (o.context placed p) (before i).items :=
    ⟨fun hm hf => hfar (h.holds_of_entry hc hp hm hf),
      fun hin => hfar (h.holds_of_inChunk? hc hp hin)⟩
  have hempty : Apart (o.context placed p) (∅ : SeenSet Url).items :=
    ⟨fun _ _ => List.not_mem_nil, fun _ => List.not_mem_nil⟩
  obtain ⟨after, hafter⟩ := mergeChunk_unaware hapart hempty hmerge
  exact ⟨after, warnings, hafter⟩

end Arranged

section Order

variable {o : Options} {outDir : Url} {chunks chunks' : List Chunk}
  {placed placed' : List PlacedChunk} {i j : Nat} {c : Chunk} {p p' q : PlacedChunk} {u : Url}

/-- In another order the other chunk of a URL is the same one, and stands at the same place. -/
theorem otherChunk?_perm (h : Arranged o outDir chunks placed)
    (h' : Arranged o outDir chunks' placed') (hperm : chunks.Perm chunks')
    (hc : chunks[i]? = some c) (hp : placed[i]? = some p) (hc' : chunks'[j]? = some c)
    (hp' : placed'[j]? = some p') {v : Url}
    (hv : ((o.context placed p).otherChunk? u).map PlacedChunk.specifier = some v) :
    ((o.context placed' p').otherChunk? u).map PlacedChunk.specifier = some v := by
  obtain ⟨q, hq, rfl⟩ := Option.map_eq_some_iff.1 hv
  obtain ⟨k, d, hne, hd, hdu, hq⟩ := (h.otherChunk?_eq_some_iff hp).1 hq
  obtain ⟨k', hd'⟩ := List.mem_iff_getElem?.1 (hperm.mem_iff.1 (List.mem_of_getElem? hd))
  obtain ⟨q', hq', hplace'⟩ := placed_of_chunk h'.placed hd'
  have hne' : k' ≠ j := by
    rintro rfl
    obtain rfl := Option.some.inj (hc'.symm.trans hd')
    exact hne (h.position_eq hd hc hdu hdu)
  have hmoved := (Chunk.place_inv (place_of_placeChunks h.placed hd hq)).2.2 k'
  obtain rfl := Except.ok.inj (hplace'.symm.trans hmoved)
  exact Option.map_eq_some_iff.2
    ⟨_, (h'.otherChunk?_eq_some_iff hp').2 ⟨k', d, hne', hd', hdu, hq'⟩, rfl⟩

/-- Of a chunk merging reads the same in every order of the chunks. -/
theorem readsAs_perm (h : Arranged o outDir chunks placed)
    (h' : Arranged o outDir chunks' placed') (hperm : chunks.Perm chunks')
    (hc : chunks[i]? = some c) (hp : placed[i]? = some p) (hc' : chunks'[j]? = some c)
    (hp' : placed'[j]? = some p') (hsame : p' = { p with id := j }) :
    (o.context placed p).ReadsAs (o.context placed' p') where
  files := rfl
  passes := rfl
  entryModules := by subst hsame; rfl
  inChunk specifier referrer := by
    refine Option.ext (fun f => ?_)
    rw [h.inChunk?_eq_some_iff hc hp, h'.inChunk?_eq_some_iff hc' hp']
  placeSpecifier := Context.placeSpecifier_congr rfl (by subst hsame; rfl) (fun u =>
    Option.ext (fun _ => ⟨otherChunk?_perm h h' hperm hc hp hc' hp',
      otherChunk?_perm h' h hperm.symm hc' hp' hc hp⟩))

theorem Merges.length_eq {cs : List PlacedChunk} {ms : List Merged}
    {included included' : SeenSet Url} (h : Merges o placed included cs ms included') :
    ms.length = cs.length := by
  induction h with
  | nil => rfl
  | cons _ _ ih => rw [List.length_cons, List.length_cons, ih]

end Order

section Hosts

variable {o : Options} {c d : Chunk} {u v f : Url}

theorem authority_of_mem_candidates {extensions : List String}
    (h : v ∈ Membership.candidates extensions u) : v.authority = u.authority := by
  simp only [Membership.candidates, List.mem_cons, List.mem_append, List.mem_map] at h
  rcases h with rfl | (rfl | ⟨_, -, rfl⟩) | (rfl | ⟨_, -, rfl⟩) <;> rfl

theorem authority_of_findForModule {files : Files} (h : files.findForModule u = some f) :
    f.authority = u.authority := by
  unfold Files.findForModule at h
  split at h
  · rw [Option.some.inj h]
  · have hmem := List.mem_of_find?_eq_some h
    simp only [Files.candidates, List.mem_flatMap, List.mem_map] at hmem
    obtain ⟨_, -, _, -, rfl⟩ := hmem
    rfl

/-- Chunks whose modules are on different hosts are separate. -/
theorem separate_of_authority
    (h : ∀ u ∈ c.modules, ∀ v ∈ d.modules, u.authority ≠ v.authority) : Separate o c d where
  urls := by
    rintro u ⟨v, hv, hvc⟩ ⟨v', hv', hvd⟩
    exact h v hvc v' hvd ((authority_of_mem_candidates hv).trans
      (authority_of_mem_candidates hv').symm)
  files := by
    rintro f ⟨u, ⟨v, hv, hvc⟩, hf⟩ ⟨u', ⟨v', hv', hvd⟩, hf'⟩
    have hu := (authority_of_mem_candidates hv).trans (authority_of_findForModule hf).symm
    have hu' := (authority_of_mem_candidates hv').trans (authority_of_findForModule hf').symm
    exact h v hvc v' hvd (hu.trans hu'.symm)

/-- `https://lib/b.d.ts` -/
def remoteFile : Url := ⟨"https", some ⟨"", none, "lib", none⟩, "/b.d.ts", none, none⟩

/-- `/a.d.ts` imports a class from another host. -/
def remoteFiles : Options where
  files := (Files.empty.insert (.ofPath "/a.d.ts") ⟨none,
    [.importDecl ⟨[.named none "B" false], .made "https://lib/b.d.ts", false, none⟩,
      .exportDecl (emptyClass "A")]⟩).insert remoteFile ⟨none, [.exportDecl (emptyClass "B")]⟩
  resolver := fun specifier referrer => (Specifier.resolve specifier referrer).toOption
  passes := [.add]
  extensions := []

def remoteChunk : Chunk := ⟨"lib.js", false, [remoteFile]⟩

end Hosts

end Bundle

end AmbientBundle
