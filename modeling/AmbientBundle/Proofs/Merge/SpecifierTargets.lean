import AmbientBundle.Proofs.Merge.Context
import AmbientBundle.Proofs.Url.Relative
/-!
Where a specifier leads from the chunk's file. One that is written anew leads to what is found for
the file without its extension; one that is left alone leads where it did if it is a URL of its own.
-/
namespace AmbientBundle

open Url Specifier

namespace Url

variable {u : Url} {dirs : List (List Char)} {name s : List Char} {e : String}

/-- A text that ends with the last letter of an extension is no dot segment. -/
theorem plainSegment_of_getLast (hs : ∀ c ∈ s, encodesInPath c = false ∧ c ≠ '/' ∧ c ≠ '\\')
    (hlast : s.getLast? = some 's') : PlainSegment s := by
  refine ⟨hs, ?_, ?_⟩
  · rw [Bool.eq_false_iff]
    intro h
    have hdot : s = ['.'] ∨ s = ['%', '2', 'e'] ∨ s = ['%', '2', 'E'] := by
      simpa [isDot, ← String.toList_inj] using h
    rcases hdot with rfl | rfl | rfl <;> simp at hlast
  · rw [Bool.eq_false_iff]
    intro h
    simp only [isDoubleDot, List.contains_eq_mem, List.mem_cons, List.not_mem_nil, or_false,
      ← String.toList_inj, String.toList_ofList, decide_eq_true_eq] at h
    rcases h with rfl | rfl | rfl | rfl | rfl | rfl | rfl | rfl | rfl <;> simp at hlast

theorem not_isDriveLetter_of_getLast (hlast : s.getLast? = some 's') : isDriveLetter s = false := by
  match s with
  | [a, b] =>
    obtain rfl : b = 's' := by simpa using hlast
    simp [isDriveLetter]
  | [] | [_] | _ :: _ :: _ :: _ => rfl

/-- With a declaration extension the path stays as the parser leaves it. -/
theorem HasPath.append (h : HasPath u dirs name) (he : e ∈ declarationExtensions) :
    HasPath { u with path := u.path ++ e } dirs (name ++ e.toList) := by
  have hplain : ∀ e ∈ declarationExtensions, PlainSegment e.toList := by decide
  have hends : ∀ e ∈ declarationExtensions, e.toList.getLast? = some 's' := by decide
  have hlast : (name ++ e.toList).getLast? = some 's' := by simp [hends e he]
  refine ⟨by simp [h.path], h.directory, ?_, fun hfile s hs hletter => ?_⟩
  · exact plainSegment_of_getLast
      (List.forall_mem_append.2 ⟨h.file.chars, (hplain e he).chars⟩) hlast
  · cases dirs with
    | nil =>
      obtain rfl : name ++ e.toList = s := by simpa using hs
      exact absurd hletter (by simp [not_isDriveLetter_of_getLast hlast])
    | cons d dirs => exact h.drive hfile s hs hletter

end Url

namespace Files

open Url

variable {fs : Files} {u v : Url} {dirs : List (List Char)} {name : List Char}

/-- The file that is taken for a URL: its declaration file if there is one. -/
def resolved (fs : Files) (u : Url) : Url := if u.isFile then (fs.findForModule u).getD u else u

theorem contains_insert (fs : Files) (u v : Url) (m : Syntax.Module) :
    (fs.insert u m).contains v = (decide (u = v) || fs.contains v) := by
  rw [contains, OrderedMap.contains, insert, OrderedMap.get?_put]
  by_cases h : u = v
  · simp [h]
  · simp [h, contains, OrderedMap.contains]

/-- The file with so much in front of its extension is found by that, or it has no extension and
nothing else is taken for it. -/
inductive FoundAgain (fs : Files) (u : Url) : Prop where
  | declaration {earlier later : List String} {e : String}
      (hextensions : declarationExtensions = earlier ++ e :: later)
      (hpath : u = { u.trimmed with path := u.trimmed.path ++ e })
      (hstem : stripExtension u.trimmed.path = u.trimmed.path)
      (hfile : u.isFile = true) (hthere : fs.contains u = true)
      (hbare : fs.contains u.trimmed = false)
      (hearlier : ∀ e' ∈ earlier,
        fs.contains { u.trimmed with path := u.trimmed.path ++ e' } = false)
  | bare (htrimmed : u.trimmed = u)
      (hthere : u.isFile = true →
        fs.contains u = true ∨ ∀ v ∈ candidates u, fs.contains v = false)

/-- The candidates of a path without an extension are its own files, and its directory's. -/
theorem candidates_eq (hpath : u.HasPath dirs name) (hfile : u.isFile = true)
    (hstem : stripExtension u.path = u.path) :
    candidates u = declarationExtensions.map (fun e => { u with path := u.path ++ e }) ++
      declarationExtensions.map (fun e =>
        u.setPath (Text.dropTrailingSlashes u.path ++ "/index" ++ e)) := by
  have hset : ∀ e ∈ declarationExtensions,
      u.setPath (u.path ++ e) = { u with path := u.path ++ e } :=
    fun e he => (hpath.append he).setPath hfile hpath.not_isOpaque
  rw [candidates]
  simp only [hstem, List.flatMap_cons, List.flatMap_nil, List.append_nil]
  rw [List.map_congr_left hset]

/-- A file that is found again is what its URL without extension leads to. -/
theorem FoundAgain.resolved (h : FoundAgain fs u) (hpath : u.trimmed.HasPath dirs name) :
    fs.resolved u.trimmed = u := by
  cases h with
  | bare htrimmed hthere =>
    rw [htrimmed, Files.resolved]
    split
    · rename_i hfile
      rw [findForModule]
      rcases hthere hfile with hthere | hnone
      · rw [if_pos hthere, Option.getD_some]
      · have hfind : (candidates u).find? fs.contains = none :=
          List.find?_eq_none.2 (fun v hv => by simp [hnone v hv])
        rw [hfind]
        split <;> rfl
    · rfl
  | @declaration earlier later e hextensions hu hstem hfile hthere hbare hearlier =>
    have hfile' : u.trimmed.isFile = true := u.trimmed_isFile.trans hfile
    have hearly : (earlier.map
        (fun e' => { u.trimmed with path := u.trimmed.path ++ e' })).find? fs.contains = none := by
      rw [List.find?_eq_none]
      intro v hv
      obtain ⟨e', he, rfl⟩ := List.mem_map.1 hv
      simp [hearlier e' he]
    have hfind : (candidates u.trimmed).find? fs.contains = some u := by
      rw [candidates_eq hpath hfile' hstem, hextensions, List.map_append, List.map_cons, ← hu, List.append_assoc,
        List.find?_append, hearly, Option.none_or, List.cons_append,
        List.find?_cons_of_pos hthere]
    rw [Files.resolved, if_pos hfile', findForModule, if_neg (by simp [hbare]), hfind]
    rfl

/-- Two collections of files resolve a URL alike that hold the same of its candidates. -/
theorem resolved_congr {gs : Files} (h : ∀ v ∈ u :: candidates u, gs.contains v = fs.contains v) :
    gs.resolved u = fs.resolved u := by
  obtain ⟨hown, hcandidates⟩ := List.forall_mem_cons.1 h
  have hfind : (candidates u).find? gs.contains = (candidates u).find? fs.contains := by
    rw [← List.head?_filter, ← List.head?_filter, List.filter_congr hcandidates]
  rw [resolved, resolved, findForModule, findForModule, hown, hfind]

end Files

theorem Resolver.ofFiles_of_ok {fs : Files} {s : String} {referrer u : Url}
    (h : resolve s referrer = .ok u) : Resolver.ofFiles fs s referrer = some (fs.resolved u) := by
  rw [Resolver.ofFiles, h]
  rfl

namespace Merge.Context

open Url

variable {cx : Context} {s t : String} {referrer r u : Url} {other : PlacedChunk}

/-- The source files, together with the declaration files of all chunks. -/
def placedFiles (cx : Context) : Files :=
  cx.membership.chunks.foldl (fun fs c => fs.insert c.specifier ⟨none, []⟩) cx.files

/-- The file that a specifier for the file stands for: that of its chunk, if this is another one. -/
def target (cx : Context) (r : Url) : Url :=
  match cx.otherChunk? r with
  | some other => other.specifier
  | none => r

/-- A specifier is written anew if it leads to another chunk, or from one file to another. -/
def Rewrites (cx : Context) (s : String) (r : Url) : Prop :=
  (cx.otherChunk? r).isSome = true ∨ r.isFile = true ∧ startsAsPath s = true

/-- The files at hand, and those of the chunks. -/
theorem contains_placedFiles : cx.placedFiles.contains u = true ↔
    cx.files.contains u = true ∨ ∃ c ∈ cx.membership.chunks, c.specifier = u := by
  rw [placedFiles]
  generalize cx.files = fs
  induction cx.membership.chunks generalizing fs with
  | nil => simp
  | cons c chunks ih =>
    rw [List.foldl_cons, ih, Files.contains_insert, Bool.or_eq_true, decide_eq_true_eq,
      List.exists_mem_cons_iff]
    tauto

/-- Where a specifier leads in a file, and where it leads once it stands in the chunk's file. -/
structure LeadsAlike (cx : Context) (s : String) (referrer r : Url) : Prop where
  led : cx.Rewrites s r → ∀ common left added baseName name kept,
    Lies cx.chunk.specifier (cx.target r) common left added baseName name kept →
      Resolver.ofFiles cx.placedFiles (cx.placeSpecifier s referrer) cx.chunk.specifier =
        some (cx.placedFiles.resolved (cx.target r).trimmed)
  same : cx.Rewrites s r → ∀ common left added baseName name kept,
    Lies cx.chunk.specifier (cx.target r) common left added baseName name kept →
    cx.placedFiles.FoundAgain (cx.target r) →
      Resolver.ofFiles cx.placedFiles (cx.placeSpecifier s referrer) cx.chunk.specifier =
        some (cx.target r)
  whole : ∀ other, cx.otherChunk? r = some other →
    Url.makeRelative cx.chunk.specifier other.specifier = none →
    Url.parse other.specifier.href = .ok other.specifier →
      Resolver.ofFiles cx.placedFiles (cx.placeSpecifier s referrer) cx.chunk.specifier =
        some other.specifier
  kept : cx.otherChunk? r = none →
    (r.isFile = true → startsAsPath s = true →
      Url.makeRelative cx.chunk.specifier r = none) →
        cx.placeSpecifier s referrer = s
  absolute : cx.otherChunk? r = none → startsAsPath s = false →
    (∀ u, Url.parse s = .ok u → ∀ c ∈ cx.membership.chunks,
      c.specifier ∈ u :: Files.candidates u → cx.files.contains c.specifier = true) →
        Resolver.ofFiles cx.placedFiles (cx.placeSpecifier s referrer) cx.chunk.specifier = some r

theorem placeSpecifier_of_between (hr : cx.resolver s referrer = some r) (h : cx.Rewrites s r)
    (ht : between? cx.chunk.specifier (cx.target r) = some t) :
    cx.placeSpecifier s referrer = t := by
  rw [placeSpecifier, hr]
  rw [target] at ht
  cases hother : cx.otherChunk? r with
  | some other =>
    rw [hother] at ht
    simp only [hother, ht, Option.getD_some]
  | none =>
    rw [hother] at ht
    obtain ⟨hfile, hpath⟩ := h.resolve_left (by simp [hother])
    simp only [hother, hfile, hpath, Bool.and_true, if_true, ht, Option.getD_some]

theorem between?_of_makeRelative {base : Url} (h : Url.makeRelative base u = none) :
    between? base u = none := by
  rw [between?, h]
  rfl

theorem placeSpecifier_href (hr : cx.resolver s referrer = some r)
    (hother : cx.otherChunk? r = some other)
    (h : Url.makeRelative cx.chunk.specifier other.specifier = none) :
    cx.placeSpecifier s referrer = other.specifier.href := by
  rw [placeSpecifier, hr]
  simp only [hother, between?_of_makeRelative h, Option.getD_none]

theorem placeSpecifier_kept (hr : cx.resolver s referrer = some r)
    (hother : cx.otherChunk? r = none)
    (h : r.isFile = true → startsAsPath s = true →
      Url.makeRelative cx.chunk.specifier r = none) : cx.placeSpecifier s referrer = s := by
  rw [placeSpecifier, hr]
  simp only [hother]
  split
  · rename_i hboth
    obtain ⟨hfile, hpath⟩ := Bool.and_eq_true_iff.1 hboth
    rw [between?_of_makeRelative (h hfile hpath), Option.getD_none]
  · rfl

/-- A specifier that does not start as a path is a URL of its own if it is resolved at all. -/
theorem parse_of_resolve (hs : startsAsPath s = false) (h : resolve s referrer = .ok u) :
    Url.parse s = .ok u := by
  rw [resolve] at h
  split at h
  · rename_i u' hu
    obtain rfl : u' = u := by simpa using h
    exact hu
  · simp [hs] at h
  · cases h

theorem resolve_of_parse (h : Url.parse s = .ok u) (referrer : Url) :
    resolve s referrer = .ok u := by
  rw [resolve, h]

/-- The chunk's declaration file is among the files. -/
theorem contains_otherChunk (h : cx.otherChunk? r = some other) :
    cx.placedFiles.contains other.specifier = true := by
  rw [contains_placedFiles]
  rw [otherChunk?] at h
  obtain ⟨id, -, hid⟩ := Option.bind_eq_some_iff.1 h
  split at hid
  · cases hid
  · exact Or.inr ⟨other, List.mem_of_getElem? hid, rfl⟩

/-- A specifier that is written anew leads to what is found for the file without its extension. -/
theorem leads_of_lies {common left added : List (List Char)} {baseName name kept : List Char}
    (hr : cx.resolver s referrer = some r) (hrewrites : cx.Rewrites s r)
    (h : Lies cx.chunk.specifier (cx.target r) common left added baseName name kept) :
    Resolver.ofFiles cx.placedFiles (cx.placeSpecifier s referrer) cx.chunk.specifier =
      some (cx.placedFiles.resolved (cx.target r).trimmed) := by
  obtain ⟨t, ht, -, hresolve⟩ := h.resolve
  rw [placeSpecifier_of_between hr hrewrites ht, Resolver.ofFiles_of_ok hresolve]

/-- A specifier stands in the chunk's file for what it stood for. -/
theorem specifiers_lead_alike (hresolver : cx.resolver = Resolver.ofFiles cx.files)
    (hr : cx.resolver s referrer = some r) : cx.LeadsAlike s referrer r where
  led hrewrites _ _ _ _ _ _ hlies := leads_of_lies hr hrewrites hlies
  same hrewrites _ _ _ _ _ _ hlies hagain := by
    rw [leads_of_lies hr hrewrites hlies, hagain.resolved hlies.keptPath]
  whole other hother hrelative hparse := by
    have hthere := contains_otherChunk hother
    have hown : cx.placedFiles.resolved other.specifier = other.specifier := by
      rw [Files.resolved, Files.findForModule, if_pos hthere, Option.getD_some, ite_self]
    rw [placeSpecifier_href hr hother hrelative,
      Resolver.ofFiles_of_ok (resolve_of_parse hparse _), hown]
  kept hother h := placeSpecifier_kept hr hother h
  absolute hother hs hnew := by
    rw [placeSpecifier_kept hr hother (fun _ hpath => absurd hpath (by simp [hs]))]
    rw [hresolver, Resolver.ofFiles] at hr
    split at hr
    · rename_i u hu
      have hparse := parse_of_resolve hs hu
      have halike : cx.placedFiles.resolved u = cx.files.resolved u := by
        refine Files.resolved_congr (fun v hv => ?_)
        rw [Bool.eq_iff_iff, contains_placedFiles, or_iff_left_iff_imp]
        rintro ⟨c, hc, rfl⟩
        exact hnew u hparse c hc hv
      rw [Resolver.ofFiles_of_ok (resolve_of_parse hparse _), halike]
      exact hr
    · cases hr

/-- The chunk of `/src/i.d.ts` beside that of `/src/b.d.ts`. -/
def withShared (sources : List String) : Context :=
  let place (id : Nat) (path source : String) : PlacedChunk :=
    ⟨id, path, .ofPath path, id == 0, SeenSet.ofList [.ofPath source]⟩
  let files := sources.foldl (fun fs path => fs.insert (.ofPath path) ⟨none, []⟩) Files.empty
  { chunk := place 0 "/dist/index.d.ts" "/src/i.d.ts"
    files
    resolver := Resolver.ofFiles files
    membership :=
      ⟨[place 0 "/dist/index.d.ts" "/src/i.d.ts", place 1 "/dist/shared.d.ts" "/src/b.d.ts"], []⟩
    passes := [.add] }

/-- Of two files that differ in their extensions the first is found, whichever was meant. -/
theorem sibling_found_instead :
    ¬∀ (cx : Context) (s : String) (referrer r : Url), cx.resolver = Resolver.ofFiles cx.files →
      cx.resolver s referrer = some r →
        Resolver.ofFiles cx.placedFiles (cx.placeSpecifier s referrer) cx.chunk.specifier =
          some (cx.target r) := by
  intro halike
  have hr : (withShared ["/src/a.d.ts", "/src/a.d.mts", "/src/i.d.ts"]).resolver "./a.d.mts"
      (.ofPath "/src/i.d.ts") = some (.ofPath "/src/a.d.mts") := by decide +kernel
  have htarget := halike _ _ _ _ rfl hr
  revert htarget
  decide +kernel

theorem lead_alike_shared :
    let cx := withShared ["/src/b.d.ts", "/src/c.d.mts", "/src/i.d.ts"]
    Resolver.ofFiles cx.placedFiles (cx.placeSpecifier "./b" (.ofPath "/src/i.d.ts"))
        cx.chunk.specifier = some (.ofPath "/dist/shared.d.ts") ∧
      Resolver.ofFiles cx.placedFiles (cx.placeSpecifier "./c.mjs" (.ofPath "/src/i.d.ts"))
        cx.chunk.specifier = some (.ofPath "/src/c.d.mts") := by
  intro cx
  have hb : cx.resolver "./b" (.ofPath "/src/i.d.ts") = some (.ofPath "/src/b.d.ts") := by
    decide +kernel
  have hc : cx.resolver "./c.mjs" (.ofPath "/src/i.d.ts") = some (.ofPath "/src/c.d.mts") := by
    decide +kernel
  have hshared : cx.target (.ofPath "/src/b.d.ts") = .ofPath "/dist/shared.d.ts" := by
    decide +kernel
  have halone : cx.target (.ofPath "/src/c.d.mts") = .ofPath "/src/c.d.mts" := by decide +kernel
  have hbRewrites : cx.Rewrites "./b" (.ofPath "/src/b.d.ts") := Or.inl (by decide +kernel)
  have hcRewrites : cx.Rewrites "./c.mjs" (.ofPath "/src/c.d.mts") :=
    Or.inr ⟨by decide +kernel, by decide +kernel⟩
  have hbLies : Lies cx.chunk.specifier (cx.target (.ofPath "/src/b.d.ts")) ["dist".toList] [] []
      "index.d.ts".toList "shared.d.ts".toList "shared".toList := by
    rw [hshared]
    constructor <;> decide +kernel
  have hcLies : Lies cx.chunk.specifier (cx.target (.ofPath "/src/c.d.mts")) [] ["dist".toList]
      ["src".toList] "index.d.ts".toList "c.d.mts".toList "c".toList := by
    rw [halone]
    constructor <;> decide +kernel
  have hbAgain : cx.placedFiles.FoundAgain (cx.target (.ofPath "/src/b.d.ts")) := by
    rw [hshared]
    have hextensions : declarationExtensions = [] ++ ".d.ts" :: [".d.mts", ".d.cts"] := rfl
    refine .declaration hextensions ?_ ?_ ?_ ?_ ?_ ?_ <;> decide +kernel
  have hcAgain : cx.placedFiles.FoundAgain (cx.target (.ofPath "/src/c.d.mts")) := by
    rw [halone]
    have hextensions : declarationExtensions = [".d.ts"] ++ ".d.mts" :: [".d.cts"] := rfl
    refine .declaration hextensions ?_ ?_ ?_ ?_ ?_ ?_ <;> decide +kernel
  have hbSame := (specifiers_lead_alike rfl hb).same hbRewrites _ _ _ _ _ _ hbLies hbAgain
  have hcSame := (specifiers_lead_alike rfl hc).same hcRewrites _ _ _ _ _ _ hcLies hcAgain
  rw [hshared] at hbSame
  rw [halone] at hcSame
  exact ⟨hbSame, hcSame⟩

end Merge.Context

end AmbientBundle
