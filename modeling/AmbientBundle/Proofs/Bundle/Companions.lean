import AmbientBundle.Proofs.Bundle.Membership
import AmbientBundle.Proofs.Files.Emitted
/-!
A module and the declaration file beside it belong to one chunk: from the module's path the file's
is made by an extension, and from the file's path the module's by one of the extensions of modules.
-/
namespace AmbientBundle

open Specifier Url

namespace Membership

variable {ms : Membership} {before after : List PlacedChunk} {c : PlacedChunk} {fs : Files}
  {m f : Url} {extensions : List String} {stem e d text : String}

theorem mem_defaultExtensions_iff : e ∈ defaultExtensions ↔
    e ∈ declarationExtensions ++ sourceExtensions := by
  have hleft : ∀ e ∈ defaultExtensions, e ∈ declarationExtensions ++ sourceExtensions := by decide
  have hright : ∀ e ∈ declarationExtensions ++ sourceExtensions, e ∈ defaultExtensions := by decide
  exact ⟨hleft e, hright e⟩

theorem eq_append_of_beforeEnd? (h : Text.beforeEnd? text e = some stem) : text = stem ++ e := by
  by_cases hends : Text.endsWith text e = true
  · obtain ⟨front, hfront⟩ := endsWith_iff.1 hends
    obtain rfl : String.ofList front ++ e = text := by
      rw [← String.toList_inj, String.toList_append, String.toList_ofList, hfront]
    rw [Text.beforeEnd?_append] at h
    rw [Option.some.inj h]
  · simp [Text.beforeEnd?, hends] at h

/-- A text with an extension is what is left of it without, and an extension. -/
theorem exists_extension (he : e ∈ defaultExtensions) (h : Text.endsWith text e = true) :
    ∃ e' ∈ defaultExtensions, text = stripExtension text ++ e' := by
  have hsome : ((declarationExtensions ++ sourceExtensions).findSome?
      (Text.beforeEnd? text)).isSome = true := by
    rw [List.findSome?_isSome_iff]
    exact ⟨e, mem_defaultExtensions_iff.1 he, by simp [Text.beforeEnd?, h]⟩
  obtain ⟨stem, hstem⟩ := Option.isSome_iff_exists.1 hsome
  obtain ⟨e', he', hbefore⟩ := List.exists_of_findSome?_eq_some hstem
  refine ⟨e', mem_defaultExtensions_iff.2 he', ?_⟩
  rw [stripExtension, hstem, Option.getD_some, ← eq_append_of_beforeEnd? hbefore]

theorem dropTrailingSlashes_suffix (he : Suffix e.toList) :
    Text.dropTrailingSlashes (stem ++ e) = stem ++ e := by
  obtain ⟨c, hc⟩ : ∃ c, e.toList.getLast? = some c := by
    obtain ⟨r, hr⟩ := he.exists_cons
    rw [hr]
    exact ⟨_, List.getLast?_eq_some_getLast (List.cons_ne_nil _ _)⟩
  obtain ⟨front, hfront⟩ := List.getLast?_eq_some_iff.1 hc
  have hslash : c ≠ '/' := (he.chars c (by simp [hfront])).2.1
  rw [← String.toList_inj, Text.dropTrailingSlashes, String.toList_ofList, String.toList_append,
    hfront]
  simp [hslash]

/-- The module that a declaration file stands beside may stand for the file. -/
theorem mem_candidates_beside (hread : m.setPath m.path = m) (hpath : m.path = stem ++ e)
    (he : e ∈ extensions) (hsuffix : Suffix e.toList) (hd : d ∈ declarationExtensions) :
    m ∈ candidates extensions (m.setPath (stem ++ d)) := by
  have hdsuffix : Suffix d.toList := suffix_extension d (List.mem_append_left _ hd)
  have hset : m.setPath (stem ++ d) = { m with path := stem ++ d } :=
    setPath_sibling hread hpath hsuffix hdsuffix
  have hback : ({ m with path := stem ++ d } : Url).setPath (stem ++ e) = m := by
    have hcongr := setPath_congr (v := { m with path := stem ++ d }) hpath rfl hsuffix hdsuffix rfl
    rw [hcongr, ← hpath, hread]
  rw [hset, candidates]
  refine List.mem_cons_of_mem _ (List.mem_append_left _ (List.mem_cons_of_mem _ ?_))
  refine List.mem_map.2 ⟨e, List.mem_append_left _ he, ?_⟩
  simp only [dropTrailingSlashes_suffix hdsuffix, stripExtension_declaration hd, hback]

theorem contains_of_findForModule (hf : fs.findForModule m = some f) : fs.contains f = true := by
  rw [Files.findForModule] at hf
  split at hf
  · rename_i hown
    rwa [← Option.some.inj hf]
  · exact List.find?_some hf

/-- The declaration file of a module that a chunk lists is of the chunk, if it is the module itself
or stands beside it and no earlier chunk lists a module that may stand for the file. What leads to
the file from the chunk is found in the chunk. -/
theorem belongs_with_module (hchunks : ms.chunks = before ++ c :: after)
    (hextensions : ms.extensions = defaultExtensions) (hm : m ∈ c.modules.items)
    (hf : fs.findForModule m = some f)
    (hbeside : f = m ∨ m.setPath m.path = m ∧
      (∃ e ∈ defaultExtensions, Text.endsWith m.path e = true) ∧
        ∃ d ∈ declarationExtensions, f = m.setPath (stripExtension m.path ++ d))
    (hbefore : ∀ p ∈ before, ¬p.Matches ms.extensions f) :
    ms.chunkFor f = some c.id ∧
      ∀ (cx : Merge.Context) (specifier : String) (referrer : Url), cx.files = fs →
        cx.membership = ms → cx.resolver specifier referrer = some f →
          (cx.chunk.id = c.id → cx.inChunk? specifier referrer = some f ∧ cx.otherChunk? f = none) ∧
          (cx.chunk.id ≠ c.id → cx.inChunk? specifier referrer = none) := by
  have hmatches : c.Matches ms.extensions f := by
    rcases hbeside with rfl | ⟨hread, ⟨e, he, hends⟩, d, hd, rfl⟩
    · exact matches_of_mem hm
    · obtain ⟨e', he', hpath⟩ := exists_extension he hends
      have hsuffix := suffix_extension e' (mem_defaultExtensions_iff.1 he')
      exact ⟨m, mem_candidates_beside hread hpath (hextensions ▸ he') hsuffix hd, hm⟩
  have hchunk : ms.chunkFor f = some c.id := chunkFor_append hbefore hmatches hchunks
  refine ⟨hchunk, fun cx specifier referrer hfiles hmembership hresolver => ?_⟩
  have hown : cx.files.findForModule f = some f := by
    rw [hfiles, Files.findForModule, if_pos (contains_of_findForModule hf)]
  have hinside : cx.inChunk? specifier referrer =
      if c.id = cx.chunk.id then some f else none := by
    simp [Merge.Context.inChunk?, hresolver, hmembership, hchunk, hown]
  have hother : c.id = cx.chunk.id → cx.otherChunk? f = none := by
    intro hid
    simp [Merge.Context.otherChunk?, hmembership, hchunk, hid]
  exact ⟨fun hid => ⟨by rw [hinside, if_pos hid.symm], hother hid.symm⟩,
    fun hid => by rw [hinside, if_neg (Ne.symm hid)]⟩

theorem belongs_with_module_beside :
    let ms := ofPaths [["/src/b.ts"], ["/src/a.x.mts", "/src/c.ts"]]
    let fs := Files.ofPaths ["/src/a.d.ts", "/src/a.x.d.mts", "/src/b.d.ts"]
    fs.findForModule (.ofPath "/src/a.x.mts") = some (.ofPath "/src/a.x.d.mts") ∧
      ms.chunkFor (.ofPath "/src/a.x.d.mts") = some 1 ∧
      ∀ c ∈ ms.chunks, c.id = 1 → Merge.Context.inChunk?
        { chunk := c, files := fs, resolver := Resolver.ofFiles fs, membership := ms, passes := [] }
        "./a.x.mjs" (.ofPath "/src/c.d.ts") = some (.ofPath "/src/a.x.d.mts") := by
  intro ms fs
  have hmem : (.ofPath "/src/a.x.mts" : Url) ∈
      (SeenSet.ofList [Url.ofPath "/src/a.x.mts", .ofPath "/src/c.ts"]).items := by decide +kernel
  have hf : fs.findForModule (.ofPath "/src/a.x.mts") = some (.ofPath "/src/a.x.d.mts") := by
    decide +kernel
  have hbefore : ∀ p ∈ ms.chunks.take 1, ¬p.Matches ms.extensions (.ofPath "/src/a.x.d.mts") := by
    decide +kernel
  have hread : (Url.ofPath "/src/a.x.mts").setPath (Url.ofPath "/src/a.x.mts").path =
      .ofPath "/src/a.x.mts" := by decide +kernel
  have hresolver : Resolver.ofFiles fs "./a.x.mjs" (.ofPath "/src/c.d.ts") =
      some (.ofPath "/src/a.x.d.mts") := by decide +kernel
  have hchunks : ms.chunks = ms.chunks.take 1 ++ ⟨1, "chunk.d.ts", .ofPath "/dist/chunk.d.ts",
      false, SeenSet.ofList [.ofPath "/src/a.x.mts", .ofPath "/src/c.ts"]⟩ :: [] := rfl
  obtain ⟨hchunk, hinside⟩ := belongs_with_module hchunks rfl hmem hf (Or.inr ⟨hread,
    ⟨".mts", by decide, by decide +kernel⟩, ".d.mts", by decide, by decide +kernel⟩) hbefore
  exact ⟨hf, hchunk, fun c _ hid => ((hinside _ _ _ rfl rfl hresolver).1 hid).1⟩

/-- The declaration file of a module without an extension belongs to no chunk. -/
theorem no_chunk_without_extension : ¬∀ (ms : Membership) (fs : Files) (c : PlacedChunk)
    (m f : Url), ms.extensions = defaultExtensions → c ∈ ms.chunks → m ∈ c.modules.items →
      (∀ p ∈ ms.chunks, p.id ≠ c.id → ∀ v ∈ p.modules.items, fs.findForModule v ≠ some f) →
        fs.findForModule m = some f → ms.chunkFor f = some c.id := by
  intro htogether
  let ms := ofPaths [["/src/a"]]
  let fs := Files.ofPaths ["/src/a.d.ts"]
  have hf : fs.findForModule (.ofPath "/src/a") = some (.ofPath "/src/a.d.ts") := by decide +kernel
  obtain ⟨c, hc, hm, hid⟩ : ∃ c ∈ ms.chunks, (.ofPath "/src/a" : Url) ∈ c.modules.items ∧
      ∀ p ∈ ms.chunks, p.id = c.id := by decide +kernel
  have hchunk := htogether ms fs c _ _ rfl hc hm (fun p hp hne => absurd (hid p hp) hne) hf
  have hnone : ms.chunkFor (.ofPath "/src/a.d.ts") = none := by decide +kernel
  simp [hnone] at hchunk

end Membership

end AmbientBundle
