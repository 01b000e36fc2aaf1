import AmbientBundle.Chunk.Basic
import Mathlib.Data.List.Basic
/-!
Extensions of source and declaration files: what is left of a text that ends with one, and which
declaration extension belongs to a source extension.
-/
namespace AmbientBundle.Specifier

open Text

variable {stem text e f : String}

theorem endsWith_iff : endsWith text e = true ↔ e.toList <:+ text.toList := by
  rw [endsWith, List.isSuffixOf_iff_suffix]

theorem endsWith_append_self (stem e : String) : endsWith (stem ++ e) e = true :=
  endsWith_iff.2 (by simp)

/-- Of two ends of a text one is an end of the other. -/
theorem endsWith_append_of_apart (hef : endsWith e f = false) (hfe : endsWith f e = false) :
    endsWith (stem ++ e) f = false := by
  rw [Bool.eq_false_iff] at hef hfe ⊢
  simp only [ne_eq, endsWith_iff] at hef hfe ⊢
  intro h
  have he : e.toList <:+ (stem ++ e).toList := by simp
  rcases List.suffix_or_suffix_of_suffix h he with h | h
  · exact hef h
  · exact hfe h

/-- The extensions that are tried before the given one. -/
def triedBefore (e : String) : List String :=
  (declarationExtensions ++ sourceExtensions).takeWhile (· != e)

theorem extensions_split : ∀ e ∈ declarationExtensions ++ sourceExtensions,
    declarationExtensions ++ sourceExtensions = triedBefore e ++
      e :: ((declarationExtensions ++ sourceExtensions).dropWhile (· != e)).tail := by decide

/-- No extension hides one that is tried later, but for a declaration extension a source one. -/
theorem apart_of_mem_triedBefore : ∀ e ∈ declarationExtensions ++ sourceExtensions,
    ∀ f ∈ triedBefore e, (endsWith e f = false ∧ endsWith f e = false) ∨
      (f ∈ declarationExtensions ∧ e ∈ sourceExtensions) := by decide

/-- An extension is taken off, unless that of a declaration file is. -/
theorem stripExtension_extension (he : e ∈ declarationExtensions ++ sourceExtensions)
    (hd : e ∈ sourceExtensions → ∀ d ∈ declarationExtensions, endsWith (stem ++ e) d = false) :
    stripExtension (stem ++ e) = stem := by
  have hearlier : ∀ f ∈ triedBefore e, endsWith (stem ++ e) f = false := by
    intro f hf
    rcases apart_of_mem_triedBefore e he f hf with ⟨hef, hfe⟩ | ⟨hf, he⟩
    · exact endsWith_append_of_apart hef hfe
    · exact hd he f hf
  have hnone : (triedBefore e).findSome? (beforeEnd? (stem ++ e)) = none :=
    List.findSome?_eq_none_iff.2 (fun f hf => by simp [beforeEnd?, hearlier f hf])
  rw [stripExtension, extensions_split e he, List.findSome?_append, hnone, Option.none_or,
    List.findSome?_cons, beforeEnd?_append]
  rfl

theorem stripExtension_declaration (he : e ∈ declarationExtensions) :
    stripExtension (stem ++ e) = stem := by
  have hnot : ∀ e ∈ declarationExtensions, e ∉ sourceExtensions := by decide
  exact stripExtension_extension (List.mem_append_left _ he)
    (fun hsource => absurd hsource (hnot e he))

/-- The extension of the declaration file that is emitted for a source file. -/
def emittedExtension (e : String) : String :=
  if e = ".mjs" ∨ e = ".mts" then ".d.mts"
  else if e = ".cjs" ∨ e = ".cts" then ".d.cts"
  else ".d.ts"

theorem emittedExtension_mem (e : String) : emittedExtension e ∈ declarationExtensions := by
  rw [emittedExtension]
  split
  · decide
  · split <;> decide

/-- A chunk's declaration file is named as the one that is emitted for the chunk's script. -/
theorem declarationFileName_append (he : e ∈ sourceExtensions)
    (hd : ∀ d ∈ declarationExtensions, endsWith (stem ++ e) d = false) :
    Chunk.declarationFileName (stem ++ e) = stem ++ emittedExtension e := by
  have hends : ∀ f ∈ [".mjs", ".mts", ".cjs", ".cts"],
      endsWith (stem ++ e) f = decide (e = f) := by
    intro f hf
    have hapart : ∀ e ∈ sourceExtensions, ∀ f ∈ [".mjs", ".mts", ".cjs", ".cts"],
        e = f ∨ (e ≠ f ∧ endsWith e f = false ∧ endsWith f e = false) := by decide
    rcases hapart e he f hf with rfl | ⟨hne, hef, hfe⟩
    · simp [endsWith_append_self]
    · simp [endsWith_append_of_apart hef hfe, hne]
  simp only [Chunk.declarationFileName, stripExtension_extension (List.mem_append_right _ he)
    (fun _ => hd), hends ".mjs" (by decide), hends ".mts" (by decide), hends ".cjs" (by decide),
    hends ".cts" (by decide), Bool.or_eq_true, decide_eq_true_eq, emittedExtension]

end AmbientBundle.Specifier
