import AmbientBundle.Exports.DefaultName
import AmbientBundle.Merge.Namespace
import AmbientBundle.Proofs.Merge.Context
import AmbientBundle.Text.Ident
/-!
Names that are identifiers. The forms of an identifier are identifiers, and so are the names that are
made from the name of a file.
-/
namespace AmbientBundle.Names

open Text

/-- The name is an identifier. -/
def Legal (name : String) : Prop := isIdentName name.toList = true

instance (name : String) : Decidable (Legal name) := inferInstanceAs (Decidable (_ = true))

theorem Legal.append {name : String} (h : Legal name) {more : String}
    (hmore : ∀ c ∈ more.toList, isIdentPart c = true) : Legal (name ++ more) := by
  unfold Legal at h ⊢
  rw [String.toList_append]
  cases hcs : name.toList with
  | nil => simp [hcs, isIdentName] at h
  | cons c cs =>
    simp only [hcs, isIdentName, Bool.and_eq_true, List.cons_append, List.all_append] at h ⊢
    exact ⟨h.1, h.2, List.all_eq_true.2 hmore⟩

theorem isIdentPart_of_isDigit {c : Char} (h : c.isDigit = true) : isIdentPart c = true := by
  simp [isIdentPart, h]

/-- Behind an underscore an identifier may go on. -/
theorem Legal.underscore {name : String} (h : Legal name) : Legal ("_" ++ name) := by
  refine Legal.append (by decide) (fun c hc => ?_)
  unfold Legal at h
  cases hcs : name.toList with
  | nil => simp [hcs] at hc
  | cons d cs =>
    simp only [hcs, isIdentName, Bool.and_eq_true, List.all_eq_true] at h
    rcases List.mem_cons.1 (hcs ▸ hc) with rfl | hc
    · exact isIdentPart_of_isIdentStart h.1
    · exact h.2 c hc

theorem Legal.numbered {name : String} (h : Legal name) (k : Nat) :
    Legal (numbered (unreserved name) k) := by
  have hbase : Legal (unreserved name) := by
    unfold unreserved
    split
    · exact h.underscore
    · exact h
  cases k with
  | zero => exact hbase
  | succ k =>
    have hbar : Legal (unreserved name ++ "_") := hbase.append (by simp; decide)
    refine hbar.append (fun c hc => ?_)
    refine isIdentPart_of_isDigit (Nat.isDigit_of_mem_toDigits (b := 10) (n := k + 1) (by omega)
      (by omega) ?_)
    rwa [← Nat.toList_repr]

theorem Form.legal {n x : String} (h : Form n x) (hn : Legal n) : Legal x := by
  induction h with
  | same => exact hn
  | numbered _ k ih => exact ih.numbered k

section FileNames

open Exports

/-- A character that the name of a file hands on to a name. -/
theorem isIdentPart_of_isNameChar {c : Char} (h : isNameChar c = true) : isIdentPart c = true := by
  simp only [isNameChar, Char.isAlphanum, Bool.or_eq_true] at h
  rcases h with ((h | h) | h) | h
  · exact isIdentPart_of_isIdentStart (by simp [isIdentStart, h])
  · exact isIdentPart_of_isDigit h
  · exact isIdentPart_of_isIdentStart (by simp [isIdentStart, h])
  · exact isIdentPart_of_isIdentStart (by simp [isIdentStart, h])

theorem isIdentStart_of_isNameChar {c : Char} (h : isNameChar c = true) (hd : c.isDigit = false) :
    isIdentStart c = true := by
  simp only [isNameChar, Char.isAlphanum, hd, Bool.or_false, Bool.or_eq_true] at h
  rcases h with (h | h) | h <;> simp [isIdentStart, h]

theorem legal_ofList {c : Char} {cs : List Char} (h : ∀ d ∈ c :: cs, isNameChar d = true)
    (hd : c.isDigit = false) : Legal (String.ofList (c :: cs)) := by
  unfold Legal
  rw [String.toList_ofList, isIdentName, Bool.and_eq_true]
  refine ⟨isIdentStart_of_isNameChar (h c List.mem_cons_self) hd, List.all_eq_true.2 ?_⟩
  exact fun d hd => isIdentPart_of_isNameChar (h d (List.mem_cons_of_mem _ hd))

theorem legal_spaceName (file : Url) : Legal (Merge.spaceName file) := by
  unfold Merge.spaceName
  dsimp only
  generalize hcs : (Specifier.stem file).toList.map
    (fun c => if c.isAlphanum || c == '_' || c == '$' then c else '_') = cs
  have hall : ∀ c ∈ cs, isNameChar c = true := by
    intro c hc
    rw [← hcs] at hc
    obtain ⟨d, -, rfl⟩ := List.mem_map.1 hc
    split
    · assumption
    · decide
  have hmarked : ∀ c ∈ '_' :: cs, isNameChar c = true :=
    List.forall_mem_cons.2 ⟨by decide, hall⟩
  cases cs with
  | nil => exact legal_ofList hmarked (by decide)
  | cons c cs =>
    cases hd : c.isDigit with
    | true => simpa [hd] using legal_ofList hmarked (by decide)
    | false => simpa [hd] using legal_ofList hall hd

theorem toNat_lt_of_isNameChar {c : Char} (h : isNameChar c = true) : c.toNat < 128 := by
  have hval : c.toNat = c.val.toNat := rfl
  have halpha : c.isAlpha = (c.isUpper || c.isLower) := rfl
  have hupper : c.isUpper = decide ('A'.val ≤ c.val ∧ c.val ≤ 'Z'.val) := rfl
  have hlower : c.isLower = (decide ('a'.val ≤ c.val) && decide (c.val ≤ 'z'.val)) := rfl
  simp only [isNameChar, Char.isAlphanum, halpha, hupper, hlower, Char.isDigit, Bool.or_eq_true,
    Bool.and_eq_true, decide_eq_true_eq, beq_iff_eq, UInt32.le_iff_toNat_le, ge_iff_le] at h
  rcases h with (h | rfl) | rfl
  · have hZ : 'Z'.val.toNat = 90 := rfl
    have hz : 'z'.val.toNat = 122 := rfl
    have h9 : '9'.val.toNat = 57 := rfl
    omega
  · decide
  · decide

set_option maxRecDepth 10000 in
theorem isNameChar_changeCase {c : Char} (h : isNameChar c = true) :
    isNameChar c.toLower = true ∧ isNameChar c.toUpper = true := by
  have hall : ∀ n < 128, isNameChar (Char.ofNat n) = true →
      isNameChar (Char.ofNat n).toLower = true ∧ isNameChar (Char.ofNat n).toUpper = true := by
    decide +kernel
  have hc := hall c.toNat (toNat_lt_of_isNameChar h)
  rw [Char.ofNat_toNat] at hc
  exact hc h

theorem isNameChar_of_mem_nameParts {cs p : List Char} (h : p ∈ nameParts cs) :
    ∀ c ∈ p, isNameChar c = true := by
  induction cs generalizing p with
  | nil => cases h
  | cons c r ih =>
    unfold nameParts at h
    split at h
    · rename_i hc
      have hown : ∀ d ∈ [c], isNameChar d = true := by simpa using hc
      split at h
      · rename_i d r' q qs hparts
        have hq := ih (p := q) (by rw [hparts]; exact List.mem_cons_self)
        split at h
        · rcases List.mem_cons.1 h with rfl | h
          · exact List.forall_mem_cons.2 ⟨hc, hq⟩
          · exact ih (by rw [hparts]; exact List.mem_cons_of_mem _ h)
        · rcases List.mem_cons.1 h with rfl | h
          · exact hown
          · exact ih (by rw [hparts]; exact h)
      · rcases List.mem_cons.1 h with rfl | h
        · exact hown
        · exact ih h
    · exact ih h

theorem isNameChar_of_mem_joinParts {ps : List (List Char)}
    (h : ∀ p ∈ ps, ∀ c ∈ p, isNameChar c = true) : ∀ c ∈ joinParts ps, isNameChar c = true := by
  have hup (p : List Char) (hp : ∀ c ∈ p, isNameChar c = true) :
      ∀ c ∈ capitalize p, isNameChar c = true := by
    cases p with
    | nil => exact hp
    | cons d p =>
      rw [List.forall_mem_cons] at hp
      exact List.forall_mem_cons.2 ⟨(isNameChar_changeCase hp.1).2, hp.2⟩
  have hdown (p : List Char) (hp : ∀ c ∈ p, isNameChar c = true) :
      ∀ c ∈ uncapitalize p, isNameChar c = true := by
    cases p with
    | nil => exact hp
    | cons d p =>
      rw [List.forall_mem_cons] at hp
      exact List.forall_mem_cons.2 ⟨(isNameChar_changeCase hp.1).1, hp.2⟩
  cases ps with
  | nil => simp [joinParts]
  | cons p ps =>
    intro c hc
    rcases List.mem_append.1 hc with hc | hc
    · exact hdown p (h p List.mem_cons_self) c hc
    · obtain ⟨q, hq, hc⟩ := List.mem_flatMap.1 hc
      exact hup q (h q (List.mem_cons_of_mem _ hq)) c hc

theorem legal_defaultName (file : Url) (kind : DefaultKind) : Legal (defaultName file kind) := by
  have hending : ∀ c ∈ kind.ending.toList, isIdentPart c = true := by
    cases kind <;> simp [DefaultKind.ending] <;> decide
  unfold defaultName
  dsimp only
  have hparts : ∀ p ∈ nameParts (Specifier.stem file).toList, ∀ c ∈ p, isNameChar c = true :=
    fun _ hp => isNameChar_of_mem_nameParts hp
  have hall := isNameChar_of_mem_joinParts hparts
  generalize joinParts (nameParts (Specifier.stem file).toList) = cs at hall
  refine Legal.append ?_ hending
  cases cs with
  | nil => decide
  | cons c cs =>
    cases hd : c.isDigit with
    | true =>
      have hmarked : ∀ d ∈ '_' :: c :: cs, isNameChar d = true :=
        List.forall_mem_cons.2 ⟨by decide, hall⟩
      simpa [hd] using legal_ofList hmarked (by decide)
    | false => simpa [hd] using legal_ofList hall hd

/-- A nameless default export is not named by a reserved word. -/
theorem isReserved_defaultName (file : Url) (kind : DefaultKind) :
    isReserved (defaultName file kind) = false := by
  have hwords : ∀ w ∈ reservedWords, ¬kind.ending.toList <:+ w.toList := by
    cases kind <;> decide +kernel
  rw [isReserved, Bool.eq_false_iff]
  intro hr
  refine hwords _ (by simpa using hr) ?_
  unfold defaultName
  dsimp only
  rw [String.toList_append]
  exact List.suffix_append _ _

end FileNames

end AmbientBundle.Names
