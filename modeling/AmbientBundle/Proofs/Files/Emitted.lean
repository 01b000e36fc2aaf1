import AmbientBundle.Proofs.Merge.SpecifierTargets
import AmbientBundle.Proofs.Url.Siblings
/-!
The declaration file that is found for a source module: of the files of its stem with a declaration
extension the first one, whichever was emitted for the module.
-/
namespace AmbientBundle

open Specifier

namespace Url

/-- The URL is that of a source module: its path is the stem with a source extension, and no
declaration file's. -/
structure IsSource (u : Url) (stem e : String) : Prop where
  path : u.path = stem ++ e
  source : e ∈ sourceExtensions
  noDeclaration : ∀ d ∈ declarationExtensions, Text.endsWith u.path d = false

variable {u : Url} {stem e : String}

theorem IsSource.stripExtension (h : u.IsSource stem e) : stripExtension u.path = stem := by
  rw [h.path]
  exact stripExtension_extension (List.mem_append_right _ h.source)
    (fun _ d hd => h.path ▸ h.noDeclaration d hd)

theorem IsSource.suffix (h : u.IsSource stem e) : Suffix e.toList :=
  suffix_extension e (List.mem_append_right _ h.source)

end Url

namespace Files

open Url

variable {fs : Files} {u v : Url} {stem e e' : String}

/-- Of a list of which some member passes, one is the first that does. -/
theorem exists_first {p : String → Bool} {l : List String} {d : String} (hd : d ∈ l)
    (hp : p d = true) : ∃ earlier x later, l = earlier ++ x :: later ∧ p x = true ∧
      (∀ y ∈ earlier, p y = false) ∧ (x = d ∨ d ∈ later) := by
  obtain ⟨x, hx⟩ := Option.isSome_iff_exists.1 (List.find?_isSome.2 ⟨d, hd, hp⟩)
  obtain ⟨hpx, earlier, later, rfl, hearlier⟩ := List.find?_eq_some_iff_append.1 hx
  refine ⟨earlier, x, later, rfl, hpx, fun y hy => by simpa using hearlier y hy, ?_⟩
  rcases List.mem_append.1 hd with hd | hd
  · exact absurd hp (by simpa using hearlier d hd)
  · exact (List.mem_cons.1 hd).imp_left Eq.symm

/-- The first file of the module's stem is found that has a declaration extension. -/
theorem findForModule_source {earlier later : List String} {d : String} (hu : u.IsSource stem e)
    (hown : fs.contains u = false) (hsplit : declarationExtensions = earlier ++ d :: later)
    (hd : fs.contains (u.setPath (stem ++ d)) = true)
    (hearlier : ∀ d' ∈ earlier, fs.contains (u.setPath (stem ++ d')) = false) :
    fs.findForModule u = some (u.setPath (stem ++ d)) := by
  have hskipped : (earlier.map (fun d' => u.setPath (stem ++ d'))).find? fs.contains = none := by
    rw [List.find?_eq_none]
    intro v hv
    obtain ⟨d', hd', rfl⟩ := List.mem_map.1 hv
    simp [hearlier d' hd']
  rw [findForModule, if_neg (by simp [hown]), candidates]
  simp only [hu.stripExtension, List.flatMap_cons, hsplit, List.map_append, List.map_cons,
    List.append_assoc, List.cons_append]
  rw [List.find?_append, hskipped, Option.none_or, List.find?_cons_of_pos hd]

/-- If the declaration file that is emitted for a module is there and the module is not, a file of
the module's stem is found: the first there is of `.d.ts`, `.d.mts` and `.d.cts`. All modules of
one stem are resolved to it. -/
theorem finds_first_of_stem (hu : u.IsSource stem e) (hown : fs.contains u = false)
    (hthere : fs.contains (u.setPath (stem ++ emittedExtension e)) = true) :
    ∃ earlier d later, declarationExtensions = earlier ++ d :: later ∧
      fs.findForModule u = some (u.setPath (stem ++ d)) ∧
      fs.contains (u.setPath (stem ++ d)) = true ∧
      (∀ d' ∈ earlier, fs.contains (u.setPath (stem ++ d')) = false) ∧
      (d = emittedExtension e ∨ emittedExtension e ∈ later) ∧
      (emittedExtension e = ".d.ts" → d = ".d.ts") ∧
      ∀ specifier referrer v e', resolve specifier referrer = .ok v → v.isFile = true →
        v.IsSource stem e' → { v with path := u.path } = u → fs.contains v = false →
          Resolver.ofFiles fs specifier referrer = some (u.setPath (stem ++ d)) := by
  obtain ⟨earlier, d, later, hsplit, hd, hearlier, hemitted⟩ :=
    exists_first (p := fun d => fs.contains (u.setPath (stem ++ d))) (emittedExtension_mem e) hthere
  refine ⟨earlier, d, later, hsplit, findForModule_source hu hown hsplit hd hearlier, hd, hearlier,
    hemitted, fun hts => ?_, fun specifier referrer v e' hv hfile hsource hsame hnot => ?_⟩
  · cases earlier with
    | nil => exact (List.cons.inj hsplit).1.symm
    | cons d' earlier =>
      -- the first of all extensions is the emitted file's, which is there
      obtain rfl : ".d.ts" = d' := (List.cons.inj hsplit).1
      have hnot := hearlier ".d.ts" List.mem_cons_self
      rw [← hts, hthere] at hnot
      cases hnot
  · have hset := setPath_congr hu.path hsource.path hu.suffix hsource.suffix hsame
    have hfound := findForModule_source hsource hnot hsplit (by rwa [hset])
      (fun d' hd' => by rw [hset, hearlier d' hd'])
    rw [Resolver.ofFiles_of_ok hv, resolved, if_pos hfile, hfound, hset]
    rfl

/-- No files but those at the given paths. -/
def ofPaths (paths : List String) : Files :=
  paths.foldl (fun fs path => fs.insert (.ofPath path) ⟨none, []⟩) Files.empty

theorem isSource_cjs : (Url.ofPath "/src/a.cjs").IsSource "/src/a" ".cjs" := by
  constructor <;> decide +kernel

theorem finds_first_of_stem_cjs :
    let fs := ofPaths ["/src/b.d.ts", "/src/a/index.d.ts", "/src/a.d.cts"]
    fs.contains (.ofPath "/src/a.cjs") = false ∧ fs.contains (.ofPath "/src/a.d.cts") = true ∧
      fs.findForModule (.ofPath "/src/a.cjs") = some (.ofPath "/src/a.d.cts") := by
  intro fs
  have hown : fs.contains (.ofPath "/src/a.cjs") = false := by decide +kernel
  have hset : ((Url.ofPath "/src/a.cjs").setPath ("/src/a" ++ emittedExtension ".cjs")) =
      .ofPath "/src/a.d.cts" := by decide +kernel
  have hthere : fs.contains (.ofPath "/src/a.d.cts") = true := by decide +kernel
  obtain ⟨earlier, d, later, hsplit, hfound, hd, -⟩ :=
    finds_first_of_stem isSource_cjs hown (by rwa [hset])
  have hmem : d ∈ declarationExtensions := hsplit ▸ by simp
  have honly : ∀ d ∈ declarationExtensions,
      fs.contains ((Url.ofPath "/src/a.cjs").setPath ("/src/a" ++ d)) = true →
        (Url.ofPath "/src/a.cjs").setPath ("/src/a" ++ d) = .ofPath "/src/a.d.cts" := by
    decide +kernel
  exact ⟨hown, hthere, hfound.trans (congrArg some (honly d hmem hd))⟩

/-- The file that is emitted for a module is not found beside one with an earlier extension. -/
theorem sibling_hides_emitted : ¬∀ (fs : Files) (u : Url) (stem e : String), u.IsSource stem e →
    fs.contains (u.setPath (stem ++ emittedExtension e)) = true → fs.contains u = false →
      fs.findForModule u = some (u.setPath (stem ++ emittedExtension e)) := by
  intro hemitted
  have hfound := hemitted (ofPaths ["/src/a.d.mts", "/src/a.d.cts"]) _ _ _ isSource_cjs
    (by decide +kernel) (by decide +kernel)
  revert hfound
  decide +kernel

end Files

end AmbientBundle
