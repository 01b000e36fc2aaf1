import AmbientBundle.Proofs.Bundle.Declarations
import AmbientBundle.Proofs.Merge.Termination
/-!
Where the files of the chunks stand. Of a placed chunk only the number depends on where in the list
the chunk is, and the checks do not look at it; so whether bundling succeeds is up to each chunk
alone.
-/
namespace AmbientBundle

namespace Chunk

variable {c : Chunk} {outDir : Url} {n : Nat} {p : PlacedChunk}

theorem place_inv (h : c.place outDir n = .ok p) :
    p.id = n ∧ p.modules = SeenSet.ofList c.modules ∧
      ∀ k, c.place outDir k = .ok { p with id := k } := by
  unfold place at h ⊢
  simp only [bind, Except.bind] at h ⊢
  split at h
  · cases h
  · obtain rfl := Except.ok.inj h
    exact ⟨rfl, rfl, fun k => rfl⟩

end Chunk

namespace Bundle

open Merge

theorem forall₂_of_mapM {ε α β : Type} {f : α → Except ε β} {xs : List α} {ys : List β}
    (h : xs.mapM f = .ok ys) : List.Forall₂ (fun x y => f x = .ok y) xs ys := by
  induction xs generalizing ys with
  | nil =>
    obtain rfl := Except.ok.inj h
    exact .nil
  | cons x xs ih =>
    rw [List.mapM_cons] at h
    cases hx : f x with
    | error e =>
      rw [hx] at h
      cases h
    | ok y =>
      rw [hx] at h
      cases hxs : xs.mapM f with
      | error e =>
        rw [hxs] at h
        cases h
      | ok ys' =>
        rw [hxs] at h
        obtain rfl := Except.ok.inj h
        exact .cons hx (ih hxs)

theorem mapM_succeeds {ε α β : Type} {f : α → Except ε β} {xs : List α}
    (h : ∀ x ∈ xs, ∃ y, f x = .ok y) : ∃ ys, xs.mapM f = .ok ys := by
  induction xs with
  | nil => exact ⟨[], rfl⟩
  | cons x xs ih =>
    obtain ⟨y, hy⟩ := h x List.mem_cons_self
    obtain ⟨ys, hys⟩ := ih (fun x' hx => h x' (List.mem_cons_of_mem x hx))
    exact ⟨y :: ys, by rw [List.mapM_cons, hy, hys]; rfl⟩

theorem forM_ok_iff {ε α : Type} {f : α → Except ε Unit} {xs : List α} :
    xs.forM f = .ok () ↔ ∀ x ∈ xs, f x = .ok () := by
  induction xs with
  | nil => simp [pure, Except.pure]
  | cons x xs ih =>
    change (f x >>= fun _ => xs.forM f) = _ ↔ _
    rw [List.forall_mem_cons, ← ih]
    cases f x <;> simp [bind, Except.bind]

section Places

variable {o : Options} {outDir : Url} {chunks : List Chunk} {placed : List PlacedChunk} {i : Nat}
  {c : Chunk} {p : PlacedChunk}

/-- The placed chunks stand in the order of the chunks. -/
theorem forall₂_of_placeChunks (h : placeChunks outDir chunks = .ok placed) :
    List.Forall₂ (fun e p => e.1.place outDir e.2 = .ok p) chunks.zipIdx placed := by
  refine (forall₂_of_mapM h).imp (fun e p hp => ?_)
  cases hplace : e.1.place outDir e.2 with
  | error cause =>
    rw [hplace] at hp
    cases hp
  | ok q =>
    rw [hplace] at hp
    exact congrArg _ (Except.ok.inj hp)

theorem length_placeChunks (h : placeChunks outDir chunks = .ok placed) :
    placed.length = chunks.length := by
  rw [← (forall₂_of_placeChunks h).length_eq, List.length_zipIdx]

theorem place_of_placeChunks (h : placeChunks outDir chunks = .ok placed) (hc : chunks[i]? = some c)
    (hp : placed[i]? = some p) : c.place outDir i = .ok p := by
  obtain ⟨hi, rfl⟩ := List.getElem?_eq_some_iff.1 hc
  obtain ⟨hj, rfl⟩ := List.getElem?_eq_some_iff.1 hp
  have hget := (List.forall₂_iff_get.1 (forall₂_of_placeChunks h)).2 i (by simpa using hi) hj
  simpa using hget

theorem placed_of_chunk (h : placeChunks outDir chunks = .ok placed) (hc : chunks[i]? = some c) :
    ∃ p, placed[i]? = some p ∧ c.place outDir i = .ok p := by
  have hi : i < placed.length := by
    rw [length_placeChunks h]
    exact (List.getElem?_eq_some_iff.1 hc).1
  exact ⟨placed[i], List.getElem?_eq_getElem hi,
    place_of_placeChunks h hc (List.getElem?_eq_getElem hi)⟩

theorem chunk_of_placed (h : placeChunks outDir chunks = .ok placed) (hp : placed[i]? = some p) :
    ∃ c, chunks[i]? = some c ∧ c.place outDir i = .ok p := by
  have hi : i < chunks.length := by
    rw [← length_placeChunks h]
    exact (List.getElem?_eq_some_iff.1 hp).1
  exact ⟨chunks[i], List.getElem?_eq_getElem hi,
    place_of_placeChunks h (List.getElem?_eq_getElem hi) hp⟩

/-- A chunk's number is its position. -/
theorem id_of_placeChunks (h : placeChunks outDir chunks = .ok placed) (hp : placed[i]? = some p) :
    p.id = i := by
  obtain ⟨c, -, hplace⟩ := chunk_of_placed h hp
  exact (Chunk.place_inv hplace).1

/-- The chunk can be given a place, and there it passes the check. -/
def Fits (o : Options) (outDir : Url) (c : Chunk) : Prop :=
  ∃ p, c.place outDir 0 = .ok p ∧ check o.files p = .ok ()

theorem fits_iff (h : c.place outDir i = .ok p) : Fits o outDir c ↔ check o.files p = .ok () := by
  have hzero := (Chunk.place_inv h).2.2 0
  constructor
  · rintro ⟨q, hq, hcheck⟩
    obtain rfl := Except.ok.inj (hzero.symm.trans hq)
    exact hcheck
  · exact fun hcheck => ⟨_, hzero, hcheck⟩

theorem placeChunks_succeeds (h : ∀ c ∈ chunks, ∃ p, c.place outDir 0 = .ok p) :
    ∃ placed, placeChunks outDir chunks = .ok placed := by
  refine mapM_succeeds (fun e he => ?_)
  obtain ⟨p, hp⟩ := h e.1 (List.fst_mem_of_mem_zipIdx he)
  rw [(Chunk.place_inv hp).2.2 e.2]
  exact ⟨_, rfl⟩

theorem mergeNext_succeeds (cs : List PlacedChunk) (r : Result) :
    ∃ r', cs.foldlM (mergeNext o placed) r = .ok r' := by
  induction cs generalizing r with
  | nil => exact ⟨r, rfl⟩
  | cons c cs ih =>
    obtain ⟨s, hs⟩ := includeEntries_ends (o.context placed c) r.included
    rw [List.foldlM_cons, mergeNext, mergeChunk_of_includeEntries (hs _ le_rfl)]
    exact ih _

/-- Bundling succeeds if and only if each of the chunks can be placed and passes the check. -/
theorem run_succeeds_iff : (∃ r, run o outDir chunks = .ok r) ↔ ∀ c ∈ chunks, Fits o outDir c := by
  constructor
  · rintro ⟨r, hr⟩ c hc
    obtain ⟨i, hi⟩ := List.mem_iff_getElem?.1 hc
    obtain ⟨placed, _, hplaced, hcheck, -⟩ := run_inv hr
    obtain ⟨p, hp, hplace⟩ := placed_of_chunk hplaced hi
    exact (fits_iff hplace).2 (forM_ok_iff.1 hcheck p (List.mem_of_getElem? hp))
  · intro h
    obtain ⟨placed, hplaced⟩ : ∃ placed, placeChunks outDir chunks = .ok placed :=
      placeChunks_succeeds (fun c hc => (h c hc).imp (fun _ hp => hp.1))
    have hcheck : placed.forM (check o.files) = .ok () := by
      refine forM_ok_iff.2 (fun p hp => ?_)
      obtain ⟨i, hi⟩ := List.mem_iff_getElem?.1 hp
      obtain ⟨c, hc, hplace⟩ := chunk_of_placed hplaced hi
      exact (fits_iff hplace).1 (h c (List.mem_of_getElem? hc))
    obtain ⟨r, hr⟩ : ∃ r, placed.foldlM (mergeNext o placed) ⟨[], ∅, []⟩ = .ok r :=
      mergeNext_succeeds placed _
    unfold run
    rw [hplaced]
    simp only [bind, Except.bind, hcheck, hr]
    exact ⟨_, rfl⟩

end Places

end Bundle

end AmbientBundle
