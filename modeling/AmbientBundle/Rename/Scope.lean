import AmbientBundle.Syntax.Collect
/-!
Renamings and the names that binders hide from them: type parameters, the key of a mapped type,
and the names that `infer` brings into a conditional type.
-/
namespace AmbientBundle.Rename

open Syntax

/-- What a file's names stand for. -/
abbrev Renaming := String → String

/-- The renaming where the given names are bound again. -/
def hide (names : List String) (ρ : Renaming) : Renaming :=
  fun n => if names.contains n then n else ρ n

theorem hide_of_mem {names : List String} {n : String} (ρ : Renaming) (h : n ∈ names) :
    hide names ρ n = n := by
  simp [hide, h]

theorem hide_of_not_mem {names : List String} {n : String} (ρ : Renaming) (h : n ∉ names) :
    hide names ρ n = ρ n := by
  simp [hide, h]

/-- An `infer` gives its name; what stands inside it gives none. -/
def pickInfer : Pick String
  | .infer name _ => ([name], false)
  | _ => ([], true)

/-- The names that `infer` binds in a type. -/
def infers (t : Ty) : List String := t.collect pickInfer

end AmbientBundle.Rename
