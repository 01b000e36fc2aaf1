import AmbientBundle.Proofs.Url.Paths
import AmbientBundle.Specifier
import Mathlib.Data.List.TakeWhile
/-!
The way from one file to another. Read from the first file, the specifier for the second is the
URL of that file without its extension.
-/
namespace AmbientBundle

open Url

namespace Url

section Steps

variable {p d name baseName : List Char} {dirs segments : List (List Char)}

theorem splitFileName_append (hd : '/' ∉ d) : splitFileName (p ++ '/' :: d) = (p, d) := by
  have hlast : ((p ++ '/' :: d).reverse.takeWhile (· != '/')).reverse = d := lastSegment_append hd
  have hfront : ((p ++ '/' :: d).reverse.dropWhile (· != '/')).reverse = p ++ ['/'] :=
    uptoLastSlash_append hd
  have hdrop : (p ++ '/' :: d).reverse.dropWhile (· != '/') = '/' :: p.reverse := by
    rw [← List.reverse_inj, hfront]
    simp
  rw [splitFileName, if_pos (by simp), hlast, hdrop]
  simp

theorem fields_append (hd : '/' ∉ d) {r s : List Char} {rest : List (List Char)}
    (hr : fields '/' r = s :: rest) : fields '/' (d ++ r) = (d ++ s) :: rest := by
  induction d with
  | nil => exact hr
  | cons c d ih =>
    obtain ⟨hc, hd⟩ : '/' ≠ c ∧ '/' ∉ d := by simpa using hd
    have hne : (c == '/') = false := by simpa using hc.symm
    simp [fields, hne, ih hd]

theorem fields_opened (hdirs : ∀ d ∈ dirs, '/' ∉ d) : fields '/' (opened dirs) = [] :: dirs := by
  induction dirs with
  | nil => rfl
  | cons d dirs ih =>
    obtain ⟨hd, hdirs⟩ := List.forall_mem_cons.1 hdirs
    have hopened : opened (d :: dirs) = '/' :: (d ++ opened dirs) := rfl
    have hfields := fields_append hd (ih hdirs)
    simp [hopened, fields, hfields]

theorem dropCommon_append {common left added : List (List Char)}
    (hapart : ∀ d ∈ left.head?, added.head? ≠ some d) :
    dropCommon ((common ++ left).map String.ofList) ((common ++ added).map String.ofList) =
      (left.map String.ofList, added.map String.ofList) := by
  induction common with
  | nil =>
    match left, added with
    | [], added => cases added <;> rfl
    | _ :: _, [] => rfl
    | d :: left, e :: added =>
      have hne : String.ofList d ≠ String.ofList e :=
        fun h => hapart d rfl (congrArg some (String.ofList_inj.1 h).symm)
      exact if_neg hne
  | cons d common ih =>
    rw [← ih]
    exact if_pos rfl

theorem addStep_toList {t : String} (ht : t ≠ "") (s : List Char) :
    (addStep t (String.ofList s)).toList = t.toList ++ '/' :: s := by
  have hempty : t.isEmpty = false := by simpa using ht
  simp [addStep, hempty]

theorem foldl_addStep {t : String} (ht : t ≠ "") (segments : List (List Char)) :
    ((segments.map String.ofList).foldl addStep t).toList ++ ['/'] =
      t.toList ++ '/' :: closed segments := by
  induction segments generalizing t with
  | nil => rfl
  | cons s segments ih =>
    have hstep := addStep_toList ht s
    have hne : addStep t (String.ofList s) ≠ "" := by
      intro h
      rw [h] at hstep
      simp at hstep
    rw [List.map_cons, List.foldl_cons, ih hne, hstep]
    simp

/-- The directories on the way, and behind them the name of the file. -/
theorem addFileName_toList (hne : ∀ s ∈ segments, s ≠ [])
    (hmoves : segments ≠ [] ∨ name ≠ baseName ∧ name ≠ []) :
    (addFileName ((segments.map String.ofList).foldl addStep "") (String.ofList baseName)
      (String.ofList name)).toList = closed segments ++ name := by
  cases segments with
  | nil =>
    obtain ⟨hbase, hname⟩ := hmoves.resolve_left (by simp)
    have hdiffer : (String.ofList baseName == String.ofList name) = false := by
      simpa [String.ofList_inj] using Ne.symm hbase
    have hempty : (String.ofList name).isEmpty = false := by simpa using hname
    simp [addFileName, addStep, hdiffer, hempty]
  | cons s segments =>
    have hs : String.ofList s ≠ "" := by simpa using hne s List.mem_cons_self
    have hsteps := foldl_addStep hs segments
    have hfirst : ((s :: segments).map String.ofList).foldl addStep "" =
        (segments.map String.ofList).foldl addStep (String.ofList s) := rfl
    rw [hfirst]
    generalize (segments.map String.ofList).foldl addStep (String.ofList s) = steps at hsteps
    rw [String.toList_ofList, ← closed_cons] at hsteps
    have hnonempty : steps ≠ "" := by
      rintro rfl
      have hlength := congrArg List.length hsteps
      have hpos := List.length_pos_iff.2 (hne s List.mem_cons_self)
      simp at hlength
      omega
    have hempty : steps.isEmpty = false := by simpa using hnonempty
    rw [addFileName, hempty, Bool.false_and, if_neg Bool.false_ne_true]
    split
    · rename_i hname
      obtain rfl : name = [] := by simpa using hname
      rw [String.toList_append, List.append_nil]
      exact hsteps
    · rw [addStep_toList hnonempty, ← hsteps]
      simp

/-- Directories outside the common front are left one by one. -/
theorem directorySteps_opened {common left added : List (List Char)}
    (hds : ∀ d ∈ common ++ left, '/' ∉ d) (hes : ∀ d ∈ common ++ added, '/' ∉ d)
    (hleft : ∀ d ∈ left, d ≠ []) (hapart : ∀ d ∈ left.head?, added.head? ≠ some d) :
    directorySteps ((fields '/' (opened (common ++ left))).map String.ofList)
        ((fields '/' (opened (common ++ added))).map String.ofList) =
      ((List.replicate left.length ['.', '.'] ++ added).map String.ofList).foldl addStep "" := by
  have hroot : dropCommon ("" :: (common ++ left).map String.ofList)
      ("" :: (common ++ added).map String.ofList) =
      (left.map String.ofList, added.map String.ofList) := by
    rw [← dropCommon_append hapart]
    exact if_pos rfl
  have hkept : (left.map String.ofList).takeWhile (fun s => !s.isEmpty) =
      left.map String.ofList := by
    rw [List.takeWhile_eq_self_iff]
    intro s hs
    obtain ⟨d, hd, rfl⟩ := List.mem_map.1 hs
    simpa using hleft d hd
  have hups : (left.map String.ofList).foldl (fun t _ => addStep t "..") "" =
      ((List.replicate left.length ['.', '.']).map String.ofList).foldl addStep "" := by
    rw [List.map_replicate]
    generalize "" = t
    clear hds hleft hapart hroot hkept
    induction left generalizing t with
    | nil => rfl
    | cons d left ih => exact ih _
  rw [fields_opened hds, fields_opened hes, directorySteps]
  simp only [List.map_cons, String.ofList_nil, hroot, hkept, hups]
  rw [List.map_append, List.foldl_append]

end Steps

section Strip

open Specifier Text

variable {a b e : String} {name kept : List Char} {dirs segments : List (List Char)}

theorem endsWith_append_left (h : ∀ c ∈ a.toList.getLast?, c ∉ e.toList) :
    endsWith (a ++ b) e = endsWith b e := by
  rw [Bool.eq_iff_iff, endsWith, endsWith, List.isSuffixOf_iff_suffix, List.isSuffixOf_iff_suffix,
    String.toList_append]
  refine ⟨fun hsuffix => ?_, List.suffix_append_of_suffix⟩
  obtain ⟨t, ht⟩ := hsuffix
  rcases List.append_eq_append_iff.1 ht with ⟨x, ha, he⟩ | ⟨x, -, hb⟩
  · rcases List.eq_nil_or_concat x with rfl | ⟨x, c, rfl⟩
    · rw [he]
      exact List.suffix_rfl
    · have hlast : c ∈ a.toList.getLast? := by simp [ha]
      exact absurd (by simp [he]) (h c hlast)
  · exact ⟨x, hb.symm⟩

theorem beforeEnd?_append_left (h : ∀ c ∈ a.toList.getLast?, c ∉ e.toList) :
    beforeEnd? (a ++ b) e = (beforeEnd? b e).map (a ++ ·) := by
  rw [beforeEnd?, beforeEnd?, endsWith_append_left h]
  split
  · rename_i hends
    have hlength : e.length ≤ b.length := by
      rw [endsWith, List.isSuffixOf_iff_suffix] at hends
      simpa only [String.length_toList] using hends.length_le
    have htake : (a ++ b).length - e.length = a.toList.length + (b.length - e.length) := by
      rw [String.length_append, String.length_toList]
      omega
    rw [htake, String.toList_append, List.take_length_add_append, String.ofList_append,
      String.ofList_toList]
    rfl
  · rfl

theorem findSome?_eq_map {α β γ : Type} {l : List α} {f : α → Option γ} {g : α → Option β}
    {h : β → γ} (hf : ∀ x ∈ l, f x = (g x).map h) : l.findSome? f = (l.findSome? g).map h := by
  induction l with
  | nil => rfl
  | cons x l ih =>
    obtain ⟨hx, hl⟩ := List.forall_mem_cons.1 hf
    rw [List.findSome?_cons, List.findSome?_cons, hx, ih hl]
    cases g x <;> rfl

/-- No extension reaches behind a character that parts of a URL are separated by. -/
theorem stripExtension_append (h : ∀ c ∈ a.toList.getLast?, c ∈ ['/', '?', '#']) :
    stripExtension (a ++ b) = a ++ stripExtension b := by
  have hmark : ∀ e ∈ declarationExtensions ++ sourceExtensions, ∀ c ∈ ['/', '?', '#'],
      c ∉ e.toList := by simp [declarationExtensions, sourceExtensions]
  have hends : (declarationExtensions ++ sourceExtensions).findSome? (beforeEnd? (a ++ b)) =
      ((declarationExtensions ++ sourceExtensions).findSome? (beforeEnd? b)).map (a ++ ·) :=
    findSome?_eq_map fun e he => beforeEnd?_append_left (fun c hc => hmark e he c (h c hc))
  rw [stripExtension, hends, stripExtension]
  cases (declarationExtensions ++ sourceExtensions).findSome? (beforeEnd? b) <;> rfl

/-- The URL without the extension at its end. -/
def trimmed (u : Url) : Url :=
  match u.fragment, u.query with
  | some f, _ => { u with fragment := some (stripExtension f) }
  | none, some q => { u with query := some (stripExtension q) }
  | none, none => { u with path := stripExtension u.path }

/-- What stands behind the path. -/
def tail (u : Url) : String := writePart "?" u.query ++ writePart "#" u.fragment

/-- What a relative text with the extension stripped ends with. -/
theorem stripExtension_relative {u : Url} (hpath : u.path.toList = '/' :: (closed dirs ++ name))
    (hkept : u.trimmed.path.toList = '/' :: (closed dirs ++ kept)) :
    stripExtension (String.ofList (closed segments ++ name) ++ u.tail) =
      String.ofList (closed segments ++ kept) ++ u.trimmed.tail := by
  have hname (h : u.trimmed.path = u.path) : kept = name := by
    rw [h, hpath] at hkept
    simpa using hkept.symm
  match hf : u.fragment, hq : u.query with
  | some f, _ =>
    have htrimmed : u.trimmed = { u with fragment := some (stripExtension f) } := by
      simp [trimmed, hf]
    rw [hname (by rw [htrimmed]), htrimmed, tail, tail, hf]
    change stripExtension (_ ++ (_ ++ ("#" ++ f))) = _ ++ (_ ++ ("#" ++ stripExtension f))
    rw [← String.append_assoc, ← String.append_assoc, stripExtension_append (by simp),
      String.append_assoc, String.append_assoc]
  | none, some q =>
    have htrimmed : u.trimmed = { u with query := some (stripExtension q) } := by
      simp [trimmed, hf, hq]
    rw [hname (by rw [htrimmed]), htrimmed, tail, tail, hf, hq]
    change stripExtension (_ ++ (("?" ++ q) ++ "")) = _ ++ (("?" ++ stripExtension q) ++ "")
    rw [String.append_empty, String.append_empty, ← String.append_assoc,
      stripExtension_append (by simp), String.append_assoc]
  | none, none =>
    have htrimmed : u.trimmed = { u with path := stripExtension u.path } := by
      simp [trimmed, hf, hq]
    have hfront : u.path = String.ofList ('/' :: closed dirs) ++ String.ofList name := by
      rw [← String.toList_inj, hpath]
      simp
    have hkept : kept = (stripExtension (String.ofList name)).toList := by
      rw [htrimmed, hfront, stripExtension_append (by simp [slash_closed])] at hkept
      simpa using hkept.symm
    have hlast : ∀ c ∈ (String.ofList (closed segments)).toList.getLast?, c ∈ ['/', '?', '#'] := by
      intro c hc
      rw [String.toList_ofList] at hc
      simp [getLast?_closed hc]
    rw [htrimmed, tail, tail, hf, hq, hkept]
    change stripExtension (_ ++ ("" ++ "")) = _ ++ ("" ++ "")
    rw [String.append_empty, String.append_empty, String.append_empty, String.ofList_append,
      stripExtension_append hlast, String.ofList_append, String.ofList_toList]

end Strip

/-- A query and a fragment as the parser leaves them. -/
structure PlainTail (u : Url) : Prop where
  query : ∀ q ∈ u.query, ∀ c ∈ q.toList, encodesInQuery u.isSpecial c = false
  fragment : ∀ f ∈ u.fragment, ∀ c ∈ f.toList, encodesInFragment c = false

/-- How a file lies from the file `base`: the directories that the two have in common, those of
`base` alone and those of the other, and the names, the second also without its extension. No drive
letter is left on the way, and the file is another one. -/
structure Lies (base target : Url) (common left added : List (List Char))
    (baseName name kept : List Char) : Prop where
  scheme : base.scheme = target.scheme
  authority : base.authority = target.authority
  plainTail : PlainTail target
  basePath : base.HasPath (common ++ left) baseName
  targetPath : target.HasPath (common ++ added) name
  keptPath : target.trimmed.HasPath (common ++ added) kept
  parts : ∀ d ∈ left.head?, added.head? ≠ some d
  drives : ∀ d ∈ left ++ [baseName], isDriveLetter d = false
  apart : left = [] → added = [] → name ≠ baseName ∧ name ≠ []

instance (u : Url) : Decidable (PlainTail u) :=
  decidable_of_iff ((∀ q ∈ u.query, (q.toList.any (encodesInQuery u.isSpecial)) = false) ∧
    ∀ f ∈ u.fragment, (f.toList.any encodesInFragment) = false)
    ⟨fun h => ⟨by simpa using h.1, by simpa using h.2⟩,
      fun h => ⟨by simpa using h.query, by simpa using h.fragment⟩⟩

section Between

open Specifier Text

variable {base target : Url} {common left added : List (List Char)}
  {baseName name kept : List Char} {dirs : List (List Char)}

theorem splitFileName_path {u : Url} (h : u.HasPath dirs name) :
    splitFileName u.path.toList = (opened dirs, name) := by
  rw [h.opened, splitFileName_append h.file.slash]

theorem Lies.plain_added (h : Lies base target common left added baseName name kept) :
    ∀ d ∈ added, PlainSegment d :=
  fun d hd => (h.keptPath.directory d (List.mem_append_right _ hd)).1

theorem Lies.makeRelative (h : Lies base target common left added baseName name kept) :
    makeRelative base target = some (String.ofList
      (closed (List.replicate left.length ['.', '.'] ++ added) ++ name) ++ target.tail) := by
  have hplace : (base.isOpaque || base.scheme != target.scheme || base.host? != target.host? ||
      base.portNumber? != target.portNumber?) = false := by
    simp [h.basePath.not_isOpaque, h.scheme, host?, portNumber?, h.authority]
  have hslashes {u : Url} {dirs : List (List Char)} {s : List Char} (hu : u.HasPath dirs s) :
      ∀ d ∈ dirs, '/' ∉ d := fun d hd => (hu.directory d hd).1.slash
  have hsteps := directorySteps_opened (hslashes h.basePath) (hslashes h.targetPath)
    (fun d hd => (h.basePath.directory d (List.mem_append_right _ hd)).2) h.parts
  have hsegments : ∀ s ∈ List.replicate left.length ['.', '.'] ++ added, s ≠ [] := by
    intro s hs
    rcases List.mem_append.1 hs with hs | hs
    · rw [List.eq_of_mem_replicate hs]
      simp
    · exact (h.targetPath.directory s (List.mem_append_right _ hs)).2
  have hmoves : List.replicate left.length ['.', '.'] ++ added ≠ [] ∨
      name ≠ baseName ∧ name ≠ [] := by
    rw [or_iff_not_imp_left, not_not, List.append_eq_nil_iff, List.replicate_eq_nil_iff]
    rintro ⟨hleft, hadded⟩
    exact h.apart (List.length_eq_zero_iff.1 hleft) hadded
  have hname := addFileName_toList hsegments hmoves
  rw [Url.makeRelative, hplace, splitFileName_path h.basePath, splitFileName_path h.targetPath]
  simp only [Bool.false_eq_true, if_false, hsteps, tail, ← String.append_assoc, ← hname,
    String.ofList_toList]

/-- What can stand behind the name does not make it a dot segment. -/
theorem PlainSegment.not_leads {s r : List Char} (h : PlainSegment s) (hr : r.head? ≠ some '.') :
    ¬ ['.', '.', '/'] <+: s ++ r := by
  rintro ⟨t, ht⟩
  match s, ht with
  | [], ht =>
    obtain rfl : '.' :: '.' :: '/' :: t = r := ht
    simp at hr
  | [a], ht =>
    obtain ⟨-, rfl⟩ : '.' = a ∧ '.' :: '/' :: t = r := by simpa using ht
    simp at hr
  | [a, b], ht =>
    obtain ⟨rfl, rfl, -⟩ : '.' = a ∧ '.' = b ∧ '/' :: t = r := by simpa using ht
    exact absurd h.doubleDot (by decide)
  | a :: b :: c :: s, ht =>
    obtain ⟨-, -, rfl, -⟩ : '.' = a ∧ '.' = b ∧ '/' = c ∧ t = s ++ r := by simpa using ht
    exact h.slash (by simp)

theorem not_leads {r : List Char} (hdirs : ∀ d ∈ dirs, PlainSegment d) (hname : PlainSegment name)
    (hr : r.head? ≠ some '.') : ¬ ['.', '.', '/'] <+: closed dirs ++ (name ++ r) := by
  cases dirs with
  | nil => exact hname.not_leads hr
  | cons d dirs =>
    rw [closed_cons, List.append_assoc, List.cons_append]
    exact (hdirs d List.mem_cons_self).not_leads (by simp)

/-- The tail of a URL is empty or starts with its mark. -/
theorem head?_tail (u : Url) : ∀ c ∈ u.tail.toList.head?, beginsTail c = true := by
  intro c hc
  match hq : u.query, hf : u.fragment with
  | some q, _ =>
    have hhead : u.tail.toList.head? = some '?' := by simp [tail, hq, writePart]
    obtain rfl : '?' = c := by simpa [hhead] using hc
    rfl
  | none, some f =>
    have hhead : u.tail.toList.head? = some '#' := by simp [tail, hq, hf, writePart]
    obtain rfl : '#' = c := by simpa [hhead] using hc
    rfl
  | none, none => simp [tail, hq, hf, writePart] at hc

/-- The specifier leads out of directories, and then down to the file without its extension. -/
theorem Lies.between? (h : Lies base target common left added baseName name kept) :
    Specifier.between? base target = some (String.ofList
      (closed (leads left.length ++ added) ++ kept) ++ target.trimmed.tail) := by
  rw [Specifier.between?, h.makeRelative, Option.bind_eq_bind, Option.bind_some,
    stripExtension_relative h.targetPath.path h.keptPath.path]
  cases left.length with
  | zero =>
    have htail : target.trimmed.tail.toList.head? ≠ some '.' := by
      intro hdot
      exact absurd (head?_tail _ '.' hdot) (by decide)
    have hbegins : startsWith (String.ofList (closed added ++ kept) ++ target.trimmed.tail) "../" =
        false := by
      have htext : (String.ofList (closed added ++ kept) ++ target.trimmed.tail).toList =
          closed added ++ (kept ++ target.trimmed.tail.toList) := by simp
      rw [startsWith, Bool.eq_false_iff, ne_eq, List.isPrefixOf_iff_prefix, htext]
      exact not_leads h.plain_added h.keptPath.file htail
    have hdot : String.ofList (closed (leads 0 ++ added) ++ kept) =
        "./" ++ String.ofList (closed added ++ kept) := by
      rw [← String.toList_inj]
      simp [leads]
    change some (if startsWith (String.ofList (closed added ++ kept) ++ target.trimmed.tail) "../"
      then _ else _) = _
    rw [hbegins, if_neg Bool.false_ne_true, hdot, String.append_assoc]
    rfl
  | succ n =>
    have hbegins : startsWith (String.ofList (closed (leads (n + 1) ++ added) ++ kept) ++
        target.trimmed.tail) "../" = true := by
      simp [startsWith, leads, List.replicate_succ]
    change some (if startsWith (String.ofList (closed (leads (n + 1) ++ added) ++ kept) ++
      target.trimmed.tail) "../" then _ else _) = _
    rw [if_pos hbegins]
    rfl

end Between

section Join

open Specifier Text

variable {base u v : Url} {text : String} {r : List Char}

theorem cleaned_eq_self (h : ∀ c ∈ text.toList, 0x20 < c.toNat) : cleaned text = text.toList := by
  have hvisible (cs : List Char) (hcs : ∀ c ∈ cs, 0x20 < c.toNat) :
      cs.dropWhile (fun c => c.toNat ≤ 0x20) = cs := by
    cases cs with
    | nil => rfl
    | cons c cs =>
      have hc : ¬ c.toNat ≤ 0x20 := Nat.not_le.2 (hcs c List.mem_cons_self)
      simp [hc]
  have hkept : ∀ c ∈ text.toList, !isTabOrBreak c := by
    intro c hc
    rw [not_isTabOrBreak (Nat.le_of_lt (h c hc))]
    rfl
  simp only [cleaned]
  rw [hvisible _ h, hvisible _ (fun c hc => h c (List.mem_reverse.1 hc)), List.reverse_reverse,
    List.filter_eq_self.2 hkept]

theorem splitScheme_dot (r : List Char) : splitScheme ('.' :: r) = none := by
  have hdot : isAsciiAlpha '.' = false := by decide
  rw [splitScheme, List.head?_cons]
  split
  · rename_i c _ hc _
    obtain rfl : '.' = c := Option.some.inj hc
    simp [hdot]
  · rfl

theorem parse_dot (hfirst : text.toList = '.' :: r) (h : ∀ c ∈ text.toList, 0x20 < c.toNat) :
    parse text = .error .relativeWithoutBase := by
  rw [parse, parseWith, cleaned_eq_self h, hfirst]
  simp only [splitScheme_dot]

/-- A text that starts with a dot is read beside the file. -/
theorem join_dot (hsegmented : base.isOpaque = false)
    (hfirst : text.toList = '.' :: r) (h : ∀ c ∈ text.toList, 0x20 < c.toNat) :
    base.join text = .ok (besideBase base ('.' :: r)) := by
  have hdot : isAsciiAlpha '.' = false := by decide
  have hletter : startsWithDriveLetter ('.' :: r) = false := by
    match r with
    | [] => rfl
    | [_] | _ :: _ :: _ => simp [startsWithDriveLetter, isDriveLetter, hdot]
  have hbeside : fileBeside (some base) ('.' :: r) = besideBase base ('.' :: r) := by
    simp [fileBeside, hletter]
  have hslash : isSlash '.' = false := by decide
  rw [join, parseWith, cleaned_eq_self h, hfirst]
  cases base.isFile with
  | true => simp [splitScheme_dot, hsegmented, fileRelative, hslash, hbeside]
  | false => simp [splitScheme_dot, hsegmented, relativeTo, hslash]

theorem withTail_tail (hu : u.isSpecial = v.isSpecial) (hv : PlainTail v) :
    u.withTail v.tail.toList = { u with query := v.query, fragment := v.fragment } := by
  have hquery (q : String) (hq : v.query = some q) :
      percentEncode (encodesInQuery u.isSpecial) q.toList = q.toList := by
    rw [hu]
    exact percentEncode_eq_self (hv.query q hq)
  have hfragment (f : String) (hf : v.fragment = some f) :
      percentEncode encodesInFragment f.toList = f.toList :=
    percentEncode_eq_self (hv.fragment f hf)
  have hhash (q : String) (hq : v.query = some q) : ∀ c ∈ q.toList, (c != '#') = true := by
    intro c hc
    rw [bne_iff_ne]
    rintro rfl
    have hencoded := hv.query q hq '#' hc
    simp [encodesInQuery] at hencoded
  match hq : v.query, hf : v.fragment with
  | some q, some f =>
    have htail : v.tail.toList = '?' :: (q.toList ++ '#' :: f.toList) := by
      simp [tail, hq, hf, writePart]
    rw [htail, withTail]
    simp [List.takeWhile_append_of_pos (hhash q hq), List.dropWhile_append_of_pos (hhash q hq),
      hquery q hq, hfragment f hf]
  | some q, none =>
    have htail : v.tail.toList = '?' :: q.toList := by simp [tail, hq, hf, writePart]
    rw [htail, withTail]
    simp [List.takeWhile_eq_self_iff.2 (hhash q hq), List.dropWhile_eq_nil_iff.2 (hhash q hq),
      hquery q hq]
  | none, some f =>
    have htail : v.tail.toList = '#' :: f.toList := by simp [tail, hq, hf, writePart]
    rw [htail, withTail]
    simp [hfragment f hf]
  | none, none =>
    have htail : v.tail.toList = [] := by simp [tail, hq, hf, writePart]
    rw [htail]
    rfl

end Join

section Resolve

open Specifier Text

variable {base target u : Url} {common left added : List (List Char)}
  {baseName name kept : List Char} {text : String}

theorem mem_stripExtension {c : Char} (h : c ∈ (stripExtension text).toList) : c ∈ text.toList := by
  rw [stripExtension] at h
  cases hs : (declarationExtensions ++ sourceExtensions).findSome? (beforeEnd? text) with
  | none =>
    rw [hs] at h
    exact h
  | some s =>
    rw [hs, Option.getD_some] at h
    obtain ⟨e, -, he⟩ := List.exists_of_findSome?_eq_some hs
    rw [beforeEnd?] at he
    split at he
    · obtain rfl := Option.some.inj he
      rw [String.toList_ofList] at h
      exact List.mem_of_mem_take h
    · cases he

theorem trimmed_scheme (u : Url) : u.trimmed.scheme = u.scheme := by
  rw [trimmed]
  split <;> rfl

theorem trimmed_authority (u : Url) : u.trimmed.authority = u.authority := by
  rw [trimmed]
  split <;> rfl

theorem trimmed_isSpecial (u : Url) : u.trimmed.isSpecial = u.isSpecial := by
  rw [isSpecial, isSpecial, u.trimmed_scheme]

theorem trimmed_isFile (u : Url) : u.trimmed.isFile = u.isFile := by
  rw [isFile, isFile, u.trimmed_scheme]

theorem PlainTail.trimmed (h : PlainTail u) : PlainTail u.trimmed := by
  constructor
  · intro q hq c hc
    rw [trimmed_isSpecial]
    match hf : u.fragment, hu : u.query with
    | some f, _ =>
      exact h.query q (by simpa [Url.trimmed, hf] using hq) c hc
    | none, some q' =>
      obtain rfl : stripExtension q' = q := by simpa [Url.trimmed, hf, hu] using hq
      exact h.query q' hu c (mem_stripExtension hc)
    | none, none => simp [Url.trimmed, hf, hu] at hq
  · intro f hf c hc
    match hu : u.fragment, hq : u.query with
    | some f', _ =>
      obtain rfl : stripExtension f' = f := by simpa [Url.trimmed, hu] using hf
      exact h.fragment f' hu c (mem_stripExtension hc)
    | none, some q' => simp [Url.trimmed, hu, hq] at hf
    | none, none => simp [Url.trimmed, hu, hq] at hf

theorem visible_of_not_encoded {c : Char} (hcontrol : encodesControl c = false) (hspace : c ≠ ' ') :
    0x20 < c.toNat := by
  have hne : c.toNat ≠ 0x20 := fun h => hspace (Char.toNat_inj.1 h)
  exact Nat.lt_of_le_of_ne (le_of_not_encodesControl hcontrol) hne.symm

theorem visible_of_path {c : Char} (h : encodesInPath c = false) : 0x20 < c.toNat := by
  refine visible_of_not_encoded (encodesControl_of_path h) ?_
  rintro rfl
  exact absurd h (by decide)

theorem PlainTail.visible (h : PlainTail u) : ∀ c ∈ u.tail.toList, 0x20 < c.toNat := by
  have hquery (q : String) (hq : u.query = some q) : ∀ c ∈ q.toList, 0x20 < c.toNat := by
    intro c hc
    have hencoded := h.query q hq c hc
    simp only [encodesInQuery, Bool.or_eq_false_iff] at hencoded
    refine visible_of_not_encoded hencoded.1.1 ?_
    rintro rfl
    exact absurd hencoded.1.2 (by decide)
  have hfragment (f : String) (hf : u.fragment = some f) : ∀ c ∈ f.toList, 0x20 < c.toNat := by
    intro c hc
    have hencoded := h.fragment f hf c hc
    simp only [encodesInFragment, Bool.or_eq_false_iff] at hencoded
    refine visible_of_not_encoded hencoded.1 ?_
    rintro rfl
    exact absurd hencoded.2 (by decide)
  have hpart {mark : String} (hmark : ∀ c ∈ mark.toList, 0x20 < c.toNat) {part : Option String}
      (hp : ∀ s, part = some s → ∀ c ∈ s.toList, 0x20 < c.toNat) :
      ∀ c ∈ (writePart mark part).toList, 0x20 < c.toNat := by
    cases part with
    | none => simp [writePart]
    | some s =>
      rw [writePart, String.toList_append, List.forall_mem_append]
      exact ⟨hmark, hp s rfl⟩
  rw [tail, String.toList_append, List.forall_mem_append]
  exact ⟨hpart (by simp) hquery, hpart (by simp) hfragment⟩

theorem startsAsPath_leads (n : Nat) (added : List (List Char)) (kept : List Char) (t : String) :
    startsAsPath (String.ofList (closed (leads n ++ added) ++ kept) ++ t) = true := by
  cases n with
  | zero => simp [startsAsPath, isRelative, startsWith, leads]
  | succ n => simp [startsAsPath, isRelative, startsWith, leads, List.replicate_succ]

/-- All characters in front of the tail belong to the path. -/
theorem not_encodes_leads {n : Nat} (hadded : ∀ d ∈ added, PlainSegment d)
    (hkept : PlainSegment kept) :
    ∀ c ∈ closed (leads n ++ added) ++ kept, encodesInPath c = false := by
  intro c hc
  rw [closed_append, List.append_assoc] at hc
  rcases List.mem_append.1 hc with hc | hc
  · have hdots : c = '/' ∨ c = '.' := by
      refine (mem_closed hc).imp_right ?_
      rintro ⟨d, hd, hcd⟩
      exact eq_dot_of_mem_leads hd hcd
    rcases hdots with rfl | rfl <;> decide
  · exact not_encodesInPath hadded hkept c hc

theorem not_beginsTail {cs : List Char} (h : ∀ c ∈ cs, encodesInPath c = false) :
    ∀ c ∈ cs, (!beginsTail c) = true := by
  intro c hc
  rw [Bool.not_eq_true', Bool.eq_false_iff]
  intro hbegins
  have hmark : c = '?' ∨ c = '#' := by simpa [beginsTail] using hbegins
  rcases hmark with rfl | rfl <;> exact absurd (h _ hc) (by decide)

theorem splits_tail {cs : List Char} (h : ∀ c ∈ cs, encodesInPath c = false) (u : Url) :
    beforeTail (cs ++ u.tail.toList) = cs ∧ tailOf (cs ++ u.tail.toList) = u.tail.toList := by
  rw [beforeTail, tailOf, List.takeWhile_append_of_pos (not_beginsTail h),
    List.dropWhile_append_of_pos (not_beginsTail h)]
  cases ht : u.tail.toList with
  | nil => exact ⟨List.append_nil cs, rfl⟩
  | cons c r =>
    have hc : beginsTail c = true := head?_tail u c (by rw [ht]; rfl)
    simp [hc]

/-- Beside the file, the specifier reads as the URL without its extension. -/
theorem Lies.besideBase (h : Lies base target common left added baseName name kept) :
    besideBase base (closed (leads left.length ++ added) ++ kept ++ target.trimmed.tail.toList) =
      target.trimmed := by
  have hauthority : base.authority = target.trimmed.authority :=
    h.authority.trans target.trimmed_authority.symm
  have hscheme : base.scheme = target.trimmed.scheme := h.scheme.trans target.trimmed_scheme.symm
  have hfile : base.isFile = target.trimmed.isFile := congrArg isFileScheme hscheme
  have hleads := not_encodes_leads (n := left.length) h.plain_added h.keptPath.file
  have hleft : ∀ d ∈ left, PlainSegment d ∧ isDriveLetter d = false :=
    fun d hd => ⟨(h.basePath.directory d (List.mem_append_right _ hd)).1,
      h.drives d (List.mem_append_left _ hd)⟩
  -- what is kept of the file's own path, and the text in front of the tail
  have hpop : popSegment base.isFile base.path.toList = '/' :: closed (common ++ left) := by
    rw [h.basePath.opened, popSegment, lastSegment_append h.basePath.file.slash,
      isNormalDriveLetter_of_not (h.drives baseName (by simp)),
      uptoLastSlash_append h.basePath.file.slash, slash_closed, Bool.and_false,
      if_neg Bool.false_ne_true]
  obtain ⟨hbefore, htail⟩ := splits_tail hleads target.trimmed
  have hextend : extendPath base.isSpecial base.isFile ('/' :: closed (common ++ left))
      (closed (leads left.length ++ added) ++ kept) = '/' :: (closed (common ++ added) ++ kept) :=
    extendPath_leads hleft h.keptPath.directory h.keptPath.file
      (fun hbase => h.keptPath.drive (hfile ▸ hbase))
  have hnormal : String.ofList ('/' :: (closed (common ++ added) ++ kept)) =
      target.trimmed.path := by
    rw [← h.keptPath.path, String.ofList_toList]
  rw [Url.besideBase, hpop, hbefore, htail]
  simp only [List.isEmpty_cons, Bool.false_and, Bool.false_eq_true, if_false]
  have hspecial : ({ base with path := target.trimmed.path } : Url).isSpecial =
      target.trimmed.isSpecial := congrArg isSpecialScheme hscheme
  rw [hextend, hnormal, withTail_tail hspecial h.plainTail.trimmed]
  simp only [hscheme, hauthority]

/-- The specifier denotes in the file the URL without its extension. -/
theorem Lies.resolve (h : Lies base target common left added baseName name kept) :
    ∃ s, Specifier.between? base target = some s ∧ startsAsPath s = true ∧
      Specifier.resolve s base = .ok target.trimmed := by
  have hpath := startsAsPath_leads left.length added kept target.trimmed.tail
  refine ⟨_, h.between?, hpath, ?_⟩
  have htext : (String.ofList (closed (leads left.length ++ added) ++ kept) ++
      target.trimmed.tail).toList =
      closed (leads left.length ++ added) ++ kept ++ target.trimmed.tail.toList := by simp
  generalize String.ofList (closed (leads left.length ++ added) ++ kept) ++
    target.trimmed.tail = s at hpath htext
  have hvisible : ∀ c ∈ s.toList, 0x20 < c.toNat := by
    rw [htext, List.forall_mem_append]
    exact ⟨fun c hc => visible_of_path (not_encodes_leads h.plain_added h.keptPath.file c hc),
      h.plainTail.trimmed.visible⟩
  obtain ⟨r, hr⟩ : ∃ r, s.toList = '.' :: r := by
    rw [htext]
    cases left.length with
    | zero => exact ⟨_, rfl⟩
    | succ n => exact ⟨_, rfl⟩
  have hjoin : base.join s = .ok target.trimmed := by
    rw [join_dot h.basePath.not_isOpaque hr hvisible, ← hr, htext, h.besideBase]
  simp only [Specifier.resolve, parse_dot hr hvisible, hpath, if_true, hjoin]
  rfl

end Resolve

end Url

end AmbientBundle
