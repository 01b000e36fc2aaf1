import AmbientBundle.Exports.Table
import AmbientBundle.Proofs.Syntax.Bound
import Mathlib.Data.List.Basic
/-!
Promotion of all exported declarations of a file. The split statements export under the same names
what the file exported before, in the same order, and they declare the same names. A nameless
default export comes to declare the name that the export table has for it.
-/
namespace AmbientBundle

open Syntax

/-- The symbol without the place of its declaration. -/
def ExportedSymbol.unplaced : ExportedSymbol → ExportedSymbol
  | .named name property src _ => .named name property src none
  | .all src => .all src
  | .allAs name src => .allAs name src

namespace Exports

/-- A file's statements with all that they export and declare at once split in two. -/
def promoteAll (file : Url) (items : List Item) : List Item :=
  items.flatMap (fun i => (promote file i).nodes i)

/-- The name that is made up for a nameless default export. -/
def madeNames (file : Url) : Item → List String
  | .exportDefaultDecl (.cls (.anonymous _) _) => [defaultName file .cls]
  | .exportDefaultDecl (.func (.anonymous _) _) => [defaultName file .func]
  | _ => []

variable {file : Url} {i : Item} {nodes : List Item}

theorem ofSpecifier_specifier (name exported : String) :
    ofSpecifier none (specifier name exported) = some (.named exported name none none) := by
  unfold specifier
  split
  · rename_i h
    simp [ofSpecifier, ExportName.text, h]
  · simp [ofSpecifier, ExportName.text]

theorem Promoted.table (h : Promoted file i nodes) :
    (nodes.flatMap (ofItem file)).map ExportedSymbol.unplaced =
      (ofItem file i).map ExportedSymbol.unplaced := by
  cases h with
  | decl hb =>
    simp [ofItem, list, ofSpecifier_specifier, ofIdent, ExportedSymbol.unplaced,
      List.filterMap_map, Function.comp_def]
  | default d => simp [ofItem, list, ofSpecifier_specifier, ofIdent, ExportedSymbol.unplaced]
  | importEquals he =>
    simp [ofItem, he, list, ofSpecifier_specifier, ofIdent, ExportedSymbol.unplaced]
  | same hi => simp

/-- After promotion nothing is exported where it is declared. -/
theorem Promoted.apart (h : Promoted file i nodes) : ∀ j ∈ nodes, exportsDeclared j = false := by
  cases h with
  | same hi => simpa using hi
  | _ => simp [exportsDeclared, list]

theorem map_name_knownAs (file : Url) (i : Item) :
    (knownAs file i).map Ident.name = i.declared.map Ident.name ++ madeNames file i := by
  cases i with
  | exportDefaultDecl d =>
    cases d with
    | cls name body => cases name <;> rfl
    | func name body => cases name <;> rfl
    | interface body => rfl
  | _ => simp [knownAs, madeNames]

/-- The table knows a nameless default export by the name that is made up for it. -/
theorem anonymous_knownAs (file : Url) (h : isAnonymousDefault i = true) : ∃ kind start,
    madeNames file i = [defaultName file kind] ∧
      knownAs file i = [⟨defaultName file kind, start⟩] ∧
      ofItem file i = [.named "default" (defaultName file kind) none (some ⟨file, start⟩)] := by
  cases i with
  | exportDefaultDecl d =>
    cases d with
    | cls name body =>
      cases name with
      | named id => cases h
      | anonymous start => exact ⟨.cls, start, rfl, rfl, rfl⟩
    | func name body =>
      cases name with
      | named id => cases h
      | anonymous start => exact ⟨.func, start, rfl, rfl, rfl⟩
    | interface body => cases h
  | _ => cases h

theorem declared_promoteAll (file : Url) (items : List Item) :
    (promoteAll file items).flatMap Item.declared = items.flatMap (knownAs file) := by
  unfold promoteAll
  rw [List.flatMap_assoc]
  exact List.flatMap_congr (fun i _ => (promoted_nodes file i).declared)

/-- Promoting all statements of a file keeps its export table, up to the places of declarations.
It keeps the names that are declared, too, and adds those of nameless default exports, which are
the ones in the table. -/
theorem promotion_keeps_exports (file : Url) (items : List Item) :
    (table file (promoteAll file items)).map ExportedSymbol.unplaced =
        (table file items).map ExportedSymbol.unplaced ∧
      ((promoteAll file items).flatMap Item.declared).map Ident.name =
        items.flatMap (fun i => i.declared.map Ident.name ++ madeNames file i) ∧
      (∀ i ∈ items, isAnonymousDefault i = true → ∃ name start,
        madeNames file i = [name] ∧
        ((promote file i).nodes i).flatMap Item.declared = [⟨name, start⟩] ∧
        ofItem file i = [.named "default" name none (some ⟨file, start⟩)]) ∧
      ∀ j ∈ promoteAll file items, exportsDeclared j = false := by
  refine ⟨?_, ?_, fun i _ hi => ?_, fun j hj => ?_⟩
  · unfold table promoteAll
    rw [List.flatMap_assoc, List.map_flatMap, List.map_flatMap]
    exact List.flatMap_congr (fun i _ => (promoted_nodes file i).table)
  · rw [declared_promoteAll, List.map_flatMap]
    exact List.flatMap_congr (fun i _ => map_name_knownAs file i)
  · obtain ⟨kind, start, hmade, hknown, hsymbol⟩ := anonymous_knownAs file hi
    exact ⟨_, start, hmade, (promoted_nodes file i).declared.trans hknown, hsymbol⟩
  · obtain ⟨i, -, hj⟩ := List.mem_flatMap.1 hj
    exact (promoted_nodes file i).apart j hj

end Exports

end AmbientBundle
