import AmbientBundle.Url.Parse
import Mathlib.Data.List.Induction
/-!
Paths as directories and a name. A path that is written as the parser leaves it is read again as it
is, and `..` leads out of a directory unless it is a drive letter.
-/
namespace AmbientBundle.Url

/-- Directories, each with the slash that closes it. -/
def closed (dirs : List (List Char)) : List Char := dirs.flatMap (· ++ ['/'])

@[simp] theorem closed_nil : closed [] = [] := rfl

@[simp] theorem closed_cons (d : List Char) (dirs : List (List Char)) :
    closed (d :: dirs) = d ++ '/' :: closed dirs := by simp [closed]

@[simp] theorem closed_append (ds es : List (List Char)) :
    closed (ds ++ es) = closed ds ++ closed es := List.flatMap_append

/-- A segment as it stands in paths: no character separates or has to be encoded, and it is no dot
segment. -/
structure PlainSegment (s : List Char) : Prop where
  chars : ∀ c ∈ s, encodesInPath c = false ∧ c ≠ '/' ∧ c ≠ '\\'
  dot : isDot s = false
  doubleDot : isDoubleDot s = false

instance (s : List Char) : Decidable (PlainSegment s) :=
  decidable_of_iff (s.all (fun c => encodesInPath c == false && c != '/' && c != '\\') = true ∧
    isDot s = false ∧ isDoubleDot s = false)
    ⟨fun h => ⟨by simpa [and_assoc] using h.1, h.2.1, h.2.2⟩,
      fun h => ⟨by simpa [and_assoc] using h.chars, h.dot, h.doubleDot⟩⟩

/-- The path is that of the file in the directories, as the parser leaves it. -/
structure HasPath (u : Url) (dirs : List (List Char)) (name : List Char) : Prop where
  path : u.path.toList = '/' :: (closed dirs ++ name)
  directory : ∀ d ∈ dirs, PlainSegment d ∧ d ≠ []
  file : PlainSegment name
  drive : u.isFile = true →
    ∀ s ∈ (dirs ++ [name]).head?, isDriveLetter s = true → isNormalDriveLetter s = true

instance (u : Url) (dirs : List (List Char)) (name : List Char) : Decidable (HasPath u dirs name) :=
  decidable_of_iff (u.path.toList = '/' :: (closed dirs ++ name) ∧
    (∀ d ∈ dirs, PlainSegment d ∧ d ≠ []) ∧ PlainSegment name ∧ (u.isFile = true →
      ∀ s ∈ (dirs ++ [name]).head?, isDriveLetter s = true → isNormalDriveLetter s = true))
    ⟨fun h => ⟨h.1, h.2.1, h.2.2.1, h.2.2.2⟩, fun h => ⟨h.path, h.directory, h.file, h.drive⟩⟩

theorem PlainSegment.slash {s : List Char} (h : PlainSegment s) : '/' ∉ s :=
  fun hmem => (h.chars _ hmem).2.1 rfl

theorem percentEncode_eq_self {encodes : Char → Bool} {cs : List Char}
    (h : ∀ c ∈ cs, encodes c = false) : percentEncode encodes cs = cs := by
  induction cs with
  | nil => rfl
  | cons c cs ih =>
    obtain ⟨hc, hcs⟩ := List.forall_mem_cons.1 h
    change (if encodes c then encodeChar c else [c]) ++ percentEncode encodes cs = _
    rw [hc, ih hcs]
    rfl

theorem PlainSegment.encoded {s : List Char} (h : PlainSegment s) :
    percentEncode encodesInPath s = s :=
  percentEncode_eq_self (fun c hc => (h.chars c hc).1)

section Segments

variable {separates : Char → Bool} {s r : List Char} {c : Char}

theorem splitSegments_append (hs : ∀ c ∈ s, separates c = false) (hc : separates c = true) :
    splitSegments separates (s ++ c :: r) = (s, true) :: splitSegments separates r := by
  induction s with
  | nil => simp [splitSegments, hc]
  | cons d s ih =>
    obtain ⟨hd, hs⟩ := List.forall_mem_cons.1 hs
    simp [splitSegments, hd, ih hs]

theorem splitSegments_eq_self (hs : ∀ c ∈ s, separates c = false) :
    splitSegments separates s = [(s, false)] := by
  induction s with
  | nil => rfl
  | cons d s ih =>
    obtain ⟨hd, hs⟩ := List.forall_mem_cons.1 hs
    simp [splitSegments, hd, ih hs]

theorem splitSegments_closed {dirs : List (List Char)} {name : List Char}
    (hc : separates '/' = true) (hdirs : ∀ d ∈ dirs, ∀ c ∈ d, separates c = false)
    (hname : ∀ c ∈ name, separates c = false) :
    splitSegments separates (closed dirs ++ name) = dirs.map (·, true) ++ [(name, false)] := by
  induction dirs with
  | nil => simpa using splitSegments_eq_self hname
  | cons d dirs ih =>
    obtain ⟨hd, hdirs⟩ := List.forall_mem_cons.1 hdirs
    rw [closed_cons, List.append_assoc, List.cons_append, splitSegments_append hd hc, ih hdirs]
    rfl

end Segments

section Add

variable {file : Bool} {p s d : List Char}

/-- Behind a slash a segment needs no further slash in front. -/
theorem not_isNormalDriveLetter_drop (p : List Char) :
    isNormalDriveLetter ((p ++ ['/']).drop 1) = false := by
  match p with
  | [] => rfl
  | [_] => rfl
  | [_, a] => simp [isNormalDriveLetter]
  | _ :: a :: b :: r =>
    cases r <;> rfl

theorem addSegment_plain (hs : PlainSegment s)
    (hdrive : file = true → p = [] → isDriveLetter s = true → isNormalDriveLetter s = true)
    (isClosed : Bool) :
    addSegment file (p ++ ['/']) s isClosed =
      p ++ ['/'] ++ s ++ (if isClosed then ['/'] else []) := by
  have hnormal : isNormalDriveLetter s = true → s.take 1 ++ [':'] = s := by
    intro h
    match s, h with
    | [a, b], h =>
      obtain ⟨-, hb⟩ : isAsciiAlpha a = true ∧ b = ':' := by simpa [isNormalDriveLetter] using h
      simp [hb]
  simp only [addSegment, not_isNormalDriveLetter_drop, Bool.and_false, Bool.false_and,
    Bool.false_eq_true, if_false, hs.dot, hs.doubleDot]
  split
  · rename_i hfirst
    obtain ⟨⟨hfile, hlength⟩, hletter⟩ : (file = true ∧ p = []) ∧ isDriveLetter s = true := by
      simpa using hfirst
    rw [hnormal (hdrive hfile hlength hletter)]
  · rfl

theorem endsWithSlash_append (p : List Char) : endsWithSlash (p ++ ['/']) = true := by
  simp [endsWithSlash]

theorem addSegment_dot (file : Bool) (p : List Char) :
    addSegment file (p ++ ['/']) ['.'] true = p ++ ['/'] := by
  have hdot : isDot ['.'] = true := by decide
  have hdouble : isDoubleDot ['.'] = false := by decide
  simp only [addSegment, not_isNormalDriveLetter_drop, Bool.and_false, Bool.false_and,
    Bool.false_eq_true, if_false, hdot, hdouble, if_true, ensureSlash, endsWithSlash_append]

theorem ne_slash_of_mem_reverse (hd : '/' ∉ d) : ∀ c ∈ d.reverse, (c != '/') = true := by
  intro c hc
  have hne : c ≠ '/' := fun he => hd (he ▸ List.mem_reverse.1 hc)
  simpa using hne

theorem lastSegment_append (hd : '/' ∉ d) : lastSegment (p ++ '/' :: d) = d := by
  simp [lastSegment, List.takeWhile_append_of_pos (ne_slash_of_mem_reverse hd)]

theorem uptoLastSlash_append (hd : '/' ∉ d) : uptoLastSlash (p ++ '/' :: d) = p ++ ['/'] := by
  simp [uptoLastSlash, List.dropWhile_append_of_pos (ne_slash_of_mem_reverse hd)]

/-- A drive letter in normal form is one. -/
theorem isNormalDriveLetter_of_not (h : isDriveLetter d = false) :
    isNormalDriveLetter d = false := by
  match d with
  | [a, b] =>
    rw [isDriveLetter, Bool.and_eq_false_iff] at h
    rw [isNormalDriveLetter, Bool.and_eq_false_iff]
    exact h.imp_right (fun h => (Bool.or_eq_false_iff.1 h).1)
  | [] | [_] | _ :: _ :: _ :: _ => rfl

theorem PlainSegment.not_endsSegment (h : PlainSegment d) {c : Char} (hc : c ∈ d) :
    endsSegment c = false := by
  obtain ⟨hencoded, hslash, hback⟩ := h.chars c hc
  have hne : c ≠ '?' ∧ c ≠ '#' := by
    constructor <;> rintro rfl <;> exact absurd hencoded (by decide)
  simp [endsSegment, hslash, hback, hne]

theorem PlainSegment.not_startsWithDriveLetter (h : PlainSegment d)
    (hd : isDriveLetter d = false) : startsWithDriveLetter (d ++ ['/']) = false := by
  match d with
  | [] => rfl
  | [a] => simp [startsWithDriveLetter, isDriveLetter]
  | [a, b] => simp [startsWithDriveLetter, hd]
  | a :: b :: c :: r =>
    have hc : endsSegment c = false := h.not_endsSegment (by simp)
    simp [startsWithDriveLetter, hc]

/-- Two dots lead out of a directory. -/
theorem addSegment_doubleDot (h : PlainSegment d) (hd : isDriveLetter d = false) :
    addSegment file (p ++ '/' :: d ++ ['/']) ['.', '.'] true = p ++ ['/'] := by
  have hdouble : isDoubleDot ['.', '.'] = true := by decide
  have hdrop : dropLastSlash (p ++ '/' :: d ++ ['/']) = p ++ '/' :: d := by
    simp only [dropLastSlash, List.dropLast_concat, endsWithSlash_append,
      lastSegment_append h.slash, h.not_startsWithDriveLetter hd]
    simp
  have hpop : popSegment file (p ++ '/' :: d) = p ++ ['/'] := by
    simp only [popSegment, lastSegment_append h.slash, isNormalDriveLetter_of_not hd,
      uptoLastSlash_append h.slash, Bool.and_false, Bool.false_eq_true, if_false]
  simp only [addSegment, not_isNormalDriveLetter_drop, Bool.and_false, Bool.false_and,
    Bool.false_eq_true, if_false, hdouble, if_true, hdrop, hpop, ensureSlash,
    endsWithSlash_append]

end Add

section Walk

variable {special file : Bool} {ds es dirs : List (List Char)} {name : List Char}

/-- Directories, each behind a slash. -/
def opened (dirs : List (List Char)) : List Char := dirs.flatMap ('/' :: ·)

theorem slash_closed (dirs : List (List Char)) : '/' :: closed dirs = opened dirs ++ ['/'] := by
  induction dirs with
  | nil => rfl
  | cons d dirs ih =>
    rw [closed_cons, ih]
    simp [opened]

/-- The path of a file, up to the slash in front of its name. -/
theorem HasPath.opened {u : Url} (h : HasPath u dirs name) :
    u.path.toList = opened dirs ++ '/' :: name := by
  rw [h.path, ← List.cons_append, slash_closed]
  simp

theorem opened_eq_nil : opened dirs = [] ↔ dirs = [] := by
  cases dirs with
  | nil => simp [opened]
  | cons d dirs => simp [opened]

theorem getLast?_closed {c : Char} (h : c ∈ (closed dirs).getLast?) : c = '/' := by
  rcases List.eq_nil_or_concat dirs with rfl | ⟨dirs, d, rfl⟩
  · simp at h
  · simpa [eq_comm] using h

/-- One step of reading a path. -/
def addNext (file : Bool) (p : List Char) (s : List Char × Bool) : List Char :=
  addSegment file p (percentEncode encodesInPath s.1) s.2

theorem addNext_plain {s : List Char} (hs : PlainSegment s)
    (hdrive : file = true → ds = [] → isDriveLetter s = true → isNormalDriveLetter s = true)
    (isClosed : Bool) :
    addNext file ('/' :: closed ds) (s, isClosed) =
      '/' :: (closed ds ++ s) ++ (if isClosed then ['/'] else []) := by
  rw [addNext, hs.encoded, slash_closed,
    addSegment_plain hs (fun hfile hp => hdrive hfile (opened_eq_nil.1 hp)), ← slash_closed]
  simp

/-- Directories lead further down. -/
theorem foldl_addNext_down (hes : ∀ e ∈ es, PlainSegment e)
    (hdrive : file = true → ds = [] →
      ∀ e ∈ es.head?, isDriveLetter e = true → isNormalDriveLetter e = true) :
    (es.map (·, true)).foldl (addNext file) ('/' :: closed ds) = '/' :: closed (ds ++ es) := by
  induction es generalizing ds with
  | nil => simp
  | cons e es ih =>
    obtain ⟨he, hes⟩ := List.forall_mem_cons.1 hes
    have hstep : addNext file ('/' :: closed ds) (e, true) = '/' :: closed (ds ++ [e]) := by
      rw [addNext_plain he (fun hfile hds => hdrive hfile hds e rfl)]
      simp
    rw [List.map_cons, List.foldl_cons, hstep, ih hes (by simp)]
    simp

/-- As many times `..` as there are directories at the end leads out of them, if none of them is a
drive letter. -/
theorem foldl_addNext_up (hes : ∀ e ∈ es, PlainSegment e ∧ isDriveLetter e = false) :
    (List.replicate es.length (['.', '.'], true)).foldl (addNext file) ('/' :: closed (ds ++ es)) =
      '/' :: closed ds := by
  induction es using List.reverseRecOn with
  | nil => simp
  | append_singleton es e ih =>
    obtain ⟨he, hletter⟩ := hes e (by simp)
    have hdots : percentEncode encodesInPath ['.', '.'] = ['.', '.'] := by decide
    have hlast : '/' :: closed (ds ++ (es ++ [e])) = opened (ds ++ es) ++ '/' :: e ++ ['/'] := by
      rw [slash_closed]
      simp [opened]
    have hstep : addNext file ('/' :: closed (ds ++ (es ++ [e]))) (['.', '.'], true) =
        '/' :: closed (ds ++ es) := by
      rw [addNext, hdots, hlast, addSegment_doubleDot he hletter, slash_closed]
    rw [List.length_append, List.length_singleton, List.replicate_succ, List.foldl_cons, hstep]
    exact ih (fun e' he' => hes e' (by simp [he']))

/-- The segments by which a text begins that leads out of so many directories. -/
def leads : Nat → List (List Char)
  | 0 => [['.']]
  | n + 1 => List.replicate (n + 1) ['.', '.']

theorem eq_dot_of_mem_leads {n : Nat} {d : List Char} {c : Char} (hd : d ∈ leads n) (hc : c ∈ d) :
    c = '.' := by
  cases n with
  | zero =>
    obtain rfl : d = ['.'] := List.mem_singleton.1 hd
    exact List.mem_singleton.1 hc
  | succ n =>
    rw [List.eq_of_mem_replicate hd] at hc
    simpa using hc

theorem foldl_addNext_leads (hes : ∀ e ∈ es, PlainSegment e ∧ isDriveLetter e = false) :
    ((leads es.length).map (·, true)).foldl (addNext file) ('/' :: closed (ds ++ es)) =
      '/' :: closed ds := by
  cases hlength : es.length with
  | zero =>
    obtain rfl := List.length_eq_zero_iff.1 hlength
    have hdot : percentEncode encodesInPath ['.'] = ['.'] := by decide
    rw [List.append_nil]
    simp only [leads, List.map_cons, List.map_nil, List.foldl_cons, List.foldl_nil, addNext, hdot]
    rw [slash_closed, addSegment_dot]
  | succ n =>
    rw [leads, ← hlength, List.map_replicate]
    exact foldl_addNext_up hes

theorem PlainSegment.not_separates {s : List Char} (h : PlainSegment s) :
    ∀ c ∈ s, isSeparator special c = false := by
  intro c hc
  obtain ⟨-, hslash, hback⟩ := h.chars c hc
  simp [isSeparator, hslash, hback]

theorem extendPath_eq (p text : List Char) : extendPath special file p text =
    let q := (splitSegments (isSeparator special) text).foldl (addNext file) p
    if file then '/' :: q.dropWhile (· == '/') else q := rfl

theorem head?_closed (hdirs : ∀ d ∈ dirs, PlainSegment d ∧ d ≠ []) (hname : PlainSegment name) :
    (closed dirs ++ name).head? ≠ some '/' := by
  have hplain {s r : List Char} (hs : PlainSegment s) (hne : s ≠ []) :
      (s ++ r).head? ≠ some '/' := by
    obtain ⟨c, s, rfl⟩ := List.exists_cons_of_ne_nil hne
    simpa using (hs.chars c List.mem_cons_self).2.1
  cases dirs with
  | nil =>
    cases name with
    | nil => simp
    | cons c r =>
      have hne := hplain (r := []) hname (List.cons_ne_nil c r)
      rwa [List.append_nil] at hne
  | cons d dirs =>
    obtain ⟨hd, hne⟩ := hdirs d List.mem_cons_self
    rw [closed_cons, List.append_assoc]
    exact hplain hd hne

/-- Where the first segments of a text lead to directories, the rest leads down from there. -/
theorem extendPath_down {p : List Char} {first common added : List (List Char)}
    (hfirst : ∀ d ∈ first, ∀ c ∈ d, isSeparator special c = false)
    (hstart : (first.map (·, true)).foldl (addNext file) p = '/' :: closed common)
    (hdirs : ∀ d ∈ common ++ added, PlainSegment d ∧ d ≠ []) (hname : PlainSegment name)
    (hdrive : file = true → ∀ s ∈ (common ++ added ++ [name]).head?,
      isDriveLetter s = true → isNormalDriveLetter s = true) :
    extendPath special file p (closed (first ++ added) ++ name) =
      '/' :: (closed (common ++ added) ++ name) := by
  have hadded : ∀ d ∈ added, PlainSegment d := fun d hd => (hdirs d (List.mem_append_right _ hd)).1
  have hsegments : ∀ d ∈ first ++ added, ∀ c ∈ d, isSeparator special c = false := by
    intro d hd
    rcases List.mem_append.1 hd with hd | hd
    · exact hfirst d hd
    · exact (hadded d hd).not_separates
  have hdown : file = true → common = [] → ∀ e ∈ added.head?,
      isDriveLetter e = true → isNormalDriveLetter e = true := by
    rintro hfile rfl e he
    refine hdrive hfile e ?_
    rw [List.nil_append, List.head?_append, Option.mem_def.1 he]
    rfl
  have hlast : file = true → common ++ added = [] →
      isDriveLetter name = true → isNormalDriveLetter name = true :=
    fun hfile hnil => hdrive hfile name (by simp [hnil])
  rw [extendPath_eq, splitSegments_closed rfl hsegments hname.not_separates, List.map_append,
    List.append_assoc, List.foldl_append, hstart, List.foldl_append,
    foldl_addNext_down hadded hdown, List.foldl_cons, List.foldl_nil,
    addNext_plain hname hlast]
  simp only [Bool.false_eq_true, if_false, List.append_nil]
  split
  · have hhead := head?_closed hdirs hname
    cases hrest : closed (common ++ added) ++ name with
    | nil => simp
    | cons c r =>
      rw [hrest] at hhead
      have hc : (c == '/') = false := by simpa using hhead
      simp [hc]
  · rfl

/-- A text that leads out of the last directories and then down to a name leads there. -/
theorem extendPath_leads {common left added : List (List Char)}
    (hleft : ∀ d ∈ left, PlainSegment d ∧ isDriveLetter d = false)
    (hdirs : ∀ d ∈ common ++ added, PlainSegment d ∧ d ≠ []) (hname : PlainSegment name)
    (hdrive : file = true → ∀ s ∈ (common ++ added ++ [name]).head?,
      isDriveLetter s = true → isNormalDriveLetter s = true) :
    extendPath special file ('/' :: closed (common ++ left))
      (closed (leads left.length ++ added) ++ name) =
        '/' :: (closed (common ++ added) ++ name) := by
  refine extendPath_down (fun d hd c hc => ?_) (foldl_addNext_leads hleft) hdirs hname hdrive
  rw [eq_dot_of_mem_leads hd hc, isSeparator]
  cases special <;> decide

/-- A path is read as it is. -/
theorem extendPath_root (hdirs : ∀ d ∈ dirs, PlainSegment d ∧ d ≠ []) (hname : PlainSegment name)
    (hdrive : file = true → ∀ s ∈ (dirs ++ [name]).head?,
      isDriveLetter s = true → isNormalDriveLetter s = true) :
    extendPath special file ['/'] (closed dirs ++ name) = '/' :: (closed dirs ++ name) := by
  change extendPath special file ['/'] (closed ([] ++ dirs) ++ name) =
    '/' :: (closed ([] ++ dirs) ++ name)
  exact extendPath_down (by simp) rfl hdirs hname hdrive

end Walk

section Set

variable {u : Url} {dirs : List (List Char)} {name : List Char}

theorem isSpecial_of_file (h : u.isFile = true) : u.isSpecial = true := by
  have hscheme : u.scheme = "file" := by simpa [isFile, isFileScheme] using h
  rw [isSpecial, hscheme]
  decide

theorem HasPath.not_isOpaque (h : HasPath u dirs name) : u.isOpaque = false := by
  have hslash : u.path.startsWith "/" = true := by
    rw [String.startsWith_string_iff, h.path]
    exact ⟨_, rfl⟩
  rw [isOpaque, hslash]
  simp

theorem not_isTabOrBreak {c : Char} (hc : 0x20 ≤ c.toNat) : isTabOrBreak c = false := by
  have hne {d : Char} (hd : d.toNat < 0x20) : (c == d) = false := by
    rw [beq_eq_false_iff_ne]
    rintro rfl
    omega
  have htab : (c == '\t') = false := hne (by decide)
  have hbreak : (c == '\n') = false := hne (by decide)
  have hreturn : (c == '\r') = false := hne (by decide)
  rw [isTabOrBreak, htab, hbreak, hreturn]
  rfl

/-- Controls are encoded everywhere. -/
theorem le_of_not_encodesControl {c : Char} (h : encodesControl c = false) : 0x20 ≤ c.toNat := by
  simp only [encodesControl, Bool.or_eq_false_iff, decide_eq_false_iff_not] at h
  omega

theorem encodesControl_of_path {c : Char} (h : encodesInPath c = false) :
    encodesControl c = false := by
  simp only [encodesInPath, encodesInFragment, Bool.or_eq_false_iff] at h
  exact h.1.1

theorem mem_closed {c : Char} (h : c ∈ closed dirs) : c = '/' ∨ ∃ d ∈ dirs, c ∈ d := by
  obtain ⟨d, hd, hc⟩ := List.mem_flatMap.1 h
  rcases List.mem_append.1 hc with hc | hc
  · exact Or.inr ⟨d, hd, hc⟩
  · exact Or.inl (List.mem_singleton.1 hc)

/-- No character of a path as the parser leaves it has to be encoded. -/
theorem not_encodesInPath (hdirs : ∀ d ∈ dirs, PlainSegment d) (hname : PlainSegment name) :
    ∀ c ∈ closed dirs ++ name, encodesInPath c = false := by
  intro c hc
  rcases List.mem_append.1 hc with hc | hc
  · rcases mem_closed hc with rfl | ⟨d, hd, hc⟩
    · decide
    · exact ((hdirs d hd).chars c hc).1
  · exact (hname.chars c hc).1

/-- A path as the parser leaves it is set as it is. -/
theorem HasPath.setPath {p : String} (hp : HasPath { u with path := p } dirs name)
    (hfile : u.isFile = true) (hsegmented : u.isOpaque = false) :
    u.setPath p = { u with path := p } := by
  have hroot : extendPath true true ['/'] (closed dirs ++ name) = '/' :: (closed dirs ++ name) :=
    extendPath_root hp.directory hp.file (fun _ => hp.drive hfile)
  have hpath : p.toList = '/' :: (closed dirs ++ name) := hp.path
  have hkept : p.toList.filter (fun c => !isTabOrBreak c) = p.toList := by
    rw [List.filter_eq_self]
    intro c hc
    rw [hpath, List.mem_cons] at hc
    have hencoded : encodesInPath c = false := by
      rcases hc with rfl | hc
      · decide
      · exact not_encodesInPath (fun d hd => (hp.directory d hd).1) hp.file c hc
    rw [not_isTabOrBreak (le_of_not_encodesControl (encodesControl_of_path hencoded))]
    rfl
  have hempty : extendPath true true [] p.toList = p.toList := by
    rw [hpath]
    exact hroot
  have hslash : startPath true true p.toList = p.toList := by
    rw [hpath]
    exact hroot
  rw [Url.setPath, hkept, hsegmented, hfile, isSpecial_of_file hfile]
  cases u.host?.isSome <;>
    simp only [Bool.not_true, Bool.not_false, Bool.and_true, Bool.and_false, Bool.false_and,
      Bool.false_eq_true, if_true, if_false, hempty, hslash, String.ofList_toList]

end Set

end AmbientBundle.Url
