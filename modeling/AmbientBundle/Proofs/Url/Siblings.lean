import AmbientBundle.Proofs.Files.Extensions
import AmbientBundle.Proofs.Url.Paths
/-!
A path with another extension. However a path is read, an extension at its end stays as it is and
changes nothing in front of it.
-/
namespace AmbientBundle.Url

open Specifier

/-- A text that may end a segment and leaves it in place: it begins with a dot, no character of it
separates or is encoded, and with it no segment is a dot segment or a drive letter. -/
structure Suffix (t : List Char) : Prop where
  dot : t.head? = some '.'
  chars : ∀ c ∈ t, encodesInPath c = false ∧ c ≠ '/' ∧ c ≠ '\\'
  last : ['.', 'e', 'E', ':', '|'].contains (t.getLast?.getD '.') = false

instance (t : List Char) : Decidable (Suffix t) :=
  decidable_of_iff (t.head? = some '.' ∧
    t.all (fun c => encodesInPath c == false && c != '/' && c != '\\') = true ∧
      ['.', 'e', 'E', ':', '|'].contains (t.getLast?.getD '.') = false)
    ⟨fun h => ⟨h.1, by simpa [and_assoc] using h.2.1, h.2.2⟩,
      fun h => ⟨h.dot, by simpa [and_assoc] using h.chars, h.last⟩⟩

theorem suffix_extension : ∀ e ∈ declarationExtensions ++ sourceExtensions, Suffix e.toList := by
  decide

variable {u : Url} {special file : Bool} {p s t stem : List Char} {separates : Char → Bool}

theorem Suffix.exists_cons (h : Suffix t) : ∃ r, t = '.' :: r := by
  cases t with
  | nil => simpa using h.dot
  | cons c r => exact ⟨r, by simpa using h.dot⟩

/-- Behind anything the text ends a segment that is no dot segment and no drive letter. -/
theorem Suffix.append (h : Suffix t) (s : List Char) :
    isDot (s ++ t) = false ∧ isDoubleDot (s ++ t) = false ∧ isDriveLetter (s ++ t) = false := by
  obtain ⟨r, rfl⟩ := h.exists_cons
  have hlast : (s ++ '.' :: r).getLast?.getD '.' = ('.' :: r).getLast?.getD '.' := by
    rw [List.getLast?_append, List.getLast?_cons, Option.some_or]
  have hnot := hlast ▸ h.last
  generalize s ++ '.' :: r = l at hnot
  have hends {texts : List String}
      (htexts : ∀ x ∈ texts, ['.', 'e', 'E'].contains (x.toList.getLast?.getD '.') = true) :
      texts.contains (String.ofList l) = false := by
    rw [Bool.eq_false_iff]
    intro hmem
    have hin := htexts _ (List.contains_iff_mem.1 hmem)
    rw [String.toList_ofList] at hin
    simp only [List.contains_eq_mem, List.mem_cons, List.not_mem_nil, or_false, decide_eq_true_eq,
      decide_eq_false_iff_not] at hin hnot
    tauto
  refine ⟨hends (by decide), hends (by decide), ?_⟩
  match l with
  | [a, b] =>
    have hb : (b == ':' || b == '|') = false := by
      rw [List.contains_eq_mem, decide_eq_false_iff_not] at hnot
      simp only [List.getLast?_cons_cons, List.getLast?_singleton, Option.getD_some, List.mem_cons,
        List.not_mem_nil, or_false, not_or] at hnot
      simp [hnot]
    rw [isDriveLetter, hb, Bool.and_false]
  | [] | [_] | _ :: _ :: _ :: _ => rfl

theorem Suffix.encoded (h : Suffix t) : percentEncode encodesInPath (s ++ t) =
    percentEncode encodesInPath s ++ t := by
  rw [percentEncode, List.flatMap_append]
  exact congrArg _ (percentEncode_eq_self (fun c hc => (h.chars c hc).1))

/-- The last segment takes in what is written behind. -/
theorem splitSegments_append_suffix (separates : Char → Bool) (stem : List Char) :
    ∃ front l, ∀ t, (∀ c ∈ t, separates c = false) →
      splitSegments separates (stem ++ t) = front ++ [(l ++ t, false)] := by
  induction stem with
  | nil => exact ⟨[], [], fun t ht => by simpa using splitSegments_eq_self ht⟩
  | cons c stem ih =>
    obtain ⟨front, l, hsplit⟩ := ih
    by_cases hc : separates c = true
    · exact ⟨([], true) :: front, l, fun t ht => by simp [splitSegments, hc, hsplit t ht]⟩
    · cases front with
      | nil => exact ⟨[], c :: l, fun t ht => by simp [splitSegments, hc, hsplit t ht]⟩
      | cons s front =>
        exact ⟨(c :: s.1, s.2) :: front, l, fun t ht => by simp [splitSegments, hc, hsplit t ht]⟩

/-- Where a segment is put does not depend on its extension. -/
theorem addSegment_suffix (file : Bool) (p s : List Char) :
    ∃ q, ∀ t, Suffix t → addSegment file p (s ++ t) false = q ++ t := by
  refine ⟨(if file && isNormalDriveLetter (p.drop 1) then p ++ ['/'] else p) ++ s, fun t ht => ?_⟩
  obtain ⟨hdot, hdouble, hletter⟩ := ht.append s
  obtain ⟨r, rfl⟩ := ht.exists_cons
  have hempty : (s ++ '.' :: r).isEmpty = false := by simp
  simp only [addSegment, hempty, hdot, hdouble, hletter, Bool.not_false, Bool.and_true,
    Bool.and_false, Bool.false_eq_true, if_false, List.append_nil, List.append_assoc]

theorem extendPath_suffix (special file : Bool) (p stem : List Char) :
    ∃ q, ∀ t, Suffix t → extendPath special file p (stem ++ t) = q ++ t := by
  obtain ⟨front, l, hsplit⟩ := splitSegments_append_suffix (isSeparator special) stem
  obtain ⟨q, hq⟩ := addSegment_suffix file (front.foldl (addNext file) p)
    (percentEncode encodesInPath l)
  have hread {t : List Char} (ht : Suffix t) :
      (splitSegments (isSeparator special) (stem ++ t)).foldl (addNext file) p = q ++ t := by
    have hplain : ∀ c ∈ t, isSeparator special c = false := by
      intro c hc
      obtain ⟨-, hslash, hback⟩ := ht.chars c hc
      simp [isSeparator, hslash, hback]
    rw [hsplit t hplain, List.foldl_append, List.foldl_cons, List.foldl_nil, addNext, ht.encoded,
      hq t ht]
  refine ⟨if file then '/' :: q.dropWhile (· == '/') else q, fun t ht => ?_⟩
  rw [extendPath_eq, hread ht]
  cases file with
  | false => rfl
  | true =>
    obtain ⟨r, rfl⟩ := ht.exists_cons
    have hdot : ('.' == '/') = false := by decide
    have hkept : (q ++ '.' :: r).dropWhile (· == '/') = q.dropWhile (· == '/') ++ '.' :: r := by
      rw [List.dropWhile_append]
      split
      · rename_i hnil
        rw [List.isEmpty_iff.1 hnil, List.nil_append, List.dropWhile_cons_of_neg (by simp [hdot])]
      · rfl
    rw [if_pos rfl, if_pos rfl, hkept, List.cons_append]

theorem startPath_suffix (special file : Bool) (stem : List Char) :
    ∃ q, ∀ t, Suffix t → startPath special file (stem ++ t) = q ++ t := by
  obtain ⟨whole, hwhole⟩ := extendPath_suffix special file ['/'] stem
  obtain ⟨rest, hrest⟩ := extendPath_suffix special file ['/'] stem.tail
  obtain ⟨bare, hbare⟩ := extendPath_suffix special file [] stem
  refine ⟨if special then (if stem.head? = some '/' ∨ stem.head? = some '\\' then rest else whole)
    else if stem.head? = some '/' then bare else whole, fun t ht => ?_⟩
  have hw := hwhole t ht
  have hr := hrest t ht
  have hb := hbare t ht
  cases stem with
  | nil =>
    obtain ⟨r, rfl⟩ := ht.exists_cons
    cases special <;> simpa [startPath] using hw
  | cons c stem =>
    simp only [List.cons_append, List.tail_cons] at hw hr hb
    by_cases hslash : c = '/'
    · subst hslash
      cases special
      · simpa [startPath] using hb
      · simpa [startPath] using hr
    · by_cases hback : c = '\\'
      · subst hback
        cases special
        · simpa [startPath] using hw
        · simpa [startPath] using hr
      · cases special <;> simpa [startPath, hslash, hback] using hw

theorem Suffix.kept (h : Suffix t) : t.filter (fun c => !isTabOrBreak c) = t := by
  rw [List.filter_eq_self]
  intro c hc
  rw [not_isTabOrBreak (le_of_not_encodesControl (encodesControl_of_path (h.chars c hc).1))]
  rfl

theorem Suffix.encodedControl (h : Suffix t) : percentEncode encodesControl (s ++ t) =
    percentEncode encodesControl s ++ t := by
  rw [percentEncode, List.flatMap_append]
  exact congrArg _ (percentEncode_eq_self (fun c hc => encodesControl_of_path (h.chars c hc).1))

theorem opaquePath_suffix (stem : List Char) : ∃ q, ∀ t, Suffix t →
    (match stem ++ t with
      | '/' :: r => '%' :: '2' :: 'F' :: percentEncode encodesControl r
      | _ => percentEncode encodesControl (stem ++ t)) = q ++ t := by
  cases stem with
  | nil =>
    refine ⟨[], fun t ht => ?_⟩
    have hself : percentEncode encodesControl t = t := ht.encodedControl (s := [])
    obtain ⟨r, rfl⟩ := ht.exists_cons
    exact hself
  | cons c stem =>
    by_cases hslash : c = '/'
    · subst hslash
      exact ⟨'%' :: '2' :: 'F' :: percentEncode encodesControl stem,
        fun t ht => by simp [ht.encodedControl]⟩
    · refine ⟨percentEncode encodesControl (c :: stem), fun t ht => ?_⟩
      rw [← ht.encodedControl]
      simp [hslash]

/-- What is set for a path is set with any other extension too, unless nothing is set at all. -/
theorem setPath_suffix (u : Url) (stem : String) :
    (∃ q, ∀ t : String, Suffix t.toList → u.setPath (stem ++ t) = { u with path := q ++ t }) ∨
      ∀ t : String, Suffix t.toList → u.setPath (stem ++ t) = { u with path := "" } := by
  let kept := stem.toList.filter (fun c => !isTabOrBreak c)
  have hkept {t : String} (ht : Suffix t.toList) :
      (stem ++ t).toList.filter (fun c => !isTabOrBreak c) = kept ++ t.toList := by
    rw [String.toList_append, List.filter_append, ht.kept]
  have hset {q : List Char} {t : String} : ({ u with path := String.ofList (q ++ t.toList) } : Url) =
      { u with path := String.ofList q ++ t } := by
    rw [String.ofList_append, String.ofList_toList]
  obtain ⟨q₁, h₁⟩ := opaquePath_suffix kept
  obtain ⟨q₂, h₂⟩ := extendPath_suffix true true [] kept
  obtain ⟨q₃, h₃⟩ := startPath_suffix u.isSpecial u.isFile kept
  by_cases hopaque : u.isOpaque = true
  · refine Or.inl ⟨String.ofList q₁, fun t ht => ?_⟩
    rw [← hset, setPath, hkept ht, if_pos hopaque]
    exact congrArg (fun q => { u with path := String.ofList q }) (h₁ _ ht)
  by_cases hlocal : (u.isFile && !u.host?.isSome) = true
  · refine Or.inl ⟨String.ofList q₂, fun t ht => ?_⟩
    rw [← hset, ← h₂ _ ht, setPath, hkept ht, if_neg hopaque, if_pos hlocal]
  have htail {t : List Char} (ht : Suffix t) :
      ((kept ++ t).head?.map beginsTail).getD false = (kept.head?.map beginsTail).getD false := by
    obtain ⟨r, rfl⟩ := ht.exists_cons
    cases kept <;> simp [beginsTail]
  by_cases hempty : (!u.isSpecial && (kept.head?.map beginsTail).getD false) = true
  · refine Or.inr (fun t ht => ?_)
    rw [setPath, hkept ht, if_neg hopaque, if_neg hlocal, htail ht, if_pos hempty]
  · refine Or.inl ⟨String.ofList q₃, fun t ht => ?_⟩
    rw [← hset, ← h₃ _ ht, setPath, hkept ht, if_neg hopaque, if_neg hlocal, htail ht,
      if_neg hempty]

/-- If setting the path as it is changes nothing, neither does it beside another extension. -/
theorem setPath_sibling {stem e f : String} (hread : u.setPath u.path = u)
    (hpath : u.path = stem ++ e) (he : Suffix e.toList) (hf : Suffix f.toList) :
    u.setPath (stem ++ f) = { u with path := stem ++ f } := by
  rcases setPath_suffix u stem with ⟨q, hq⟩ | hnone
  · have hown : q ++ e = stem ++ e := by
      rw [← hpath, ← congrArg Url.path hread, hpath, hq e he]
    rw [hq f hf, (String.append_left_inj _).1 hown]
  · have hempty : stem ++ e = "" := by rw [← hpath, ← congrArg Url.path hread, hpath, hnone e he]
    obtain ⟨r, hr⟩ := he.exists_cons
    have hlist := congrArg String.toList hempty
    simp [hr] at hlist

variable {v : Url} {base e f : String}

/-- What is set in place of a path does not depend on its extension. -/
theorem setPath_congr (hu : u.path = base ++ e) (hv : v.path = base ++ f)
    (he : Suffix e.toList) (hf : Suffix f.toList) (hsame : { v with path := u.path } = u)
    (path : String) : v.setPath path = u.setPath path := by
  have hslash {w : Url} {t : String} (hw : w.path = base ++ t) (ht : Suffix t.toList) :
      w.path.startsWith "/" = decide (base.toList.head? = some '/') := by
    rw [Bool.eq_iff_iff, String.startsWith_string_iff, hw, decide_eq_true_eq, String.toList_append]
    obtain ⟨r, hr⟩ := ht.exists_cons
    cases base.toList with
    | nil => simp [hr]
    | cons c r => simp [eq_comm]
  have hopaque : v.isOpaque = u.isOpaque := by
    have hauthority : v.authority = u.authority := by rw [← hsame]
    rw [isOpaque, isOpaque, hauthority, hslash hu he, hslash hv hf]
  rw [← hsame] at hopaque ⊢
  rw [setPath, setPath, hopaque]
  rfl

end AmbientBundle.Url
