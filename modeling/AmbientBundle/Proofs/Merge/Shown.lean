import AmbientBundle.Merge.Inline
import AmbientBundle.Proofs.Declare
/-!
What a chunk shows of a statement, still under the file's own names: the statement itself, its
declaration with another modifier, an import with its target in place, or a list that exports what
the statement declares.
-/
namespace AmbientBundle

open Syntax

namespace Syntax

/-- The module that a statement imports or exports from. -/
def Item.source? : Item → Option StrLit
  | .importDecl d => some d.src
  | .importEquals d => match d.target with
    | .require src => some src
    | .entity _ => none
  | .exportList d => d.src
  | .exportAll d => some d.src
  | _ => none

theorem ExportList.src_rename (ρ : Rename.Renaming) (d : ExportList) :
    (d.rename ρ).src = d.src := by
  unfold ExportList.rename
  split <;> rfl

/-- The declaration as a statement. -/
def Item.ofDecl (isExport : Bool) (d : Decl) : Item := if isExport then .exportDecl d else .decl d

end Syntax

namespace Declare

theorem ensure_plainDefault (g : Url) (d : DefaultDecl) :
    ensure true (Exports.plainDefault g d) = Exports.plainDefault g d := by
  cases d <;> rfl

end Declare

namespace Merge

/-- `ShownAs cx g inBlock keep i j`: of the statement `i` of the file `g` a chunk may show `j`. In a
block no declaration has a modifier that can be dropped. -/
inductive ShownAs (cx : Context) (g : Url) (inBlock keep : Bool) : Item → Item → Prop where
  | same {i : Item} (hsrc : i.source? = none)
      (h : inBlock = true → keep = false → i = .empty ∨ ∃ e, i = .expr e) :
      ShownAs cx g inBlock keep i i
  | declared {d : Decl} {isExport isExport' declare : Bool} (h : inBlock = true → declare = false) :
      ShownAs cx g inBlock keep (.ofDecl isExport d) (.ofDecl isExport' (Declare.ensure declare d))
  | byDefault {d : DefaultDecl} {declare : Bool} (h : inBlock = true → declare = false) :
      ShownAs cx g inBlock keep (.exportDefaultDecl d)
        (.decl (Declare.ensure declare (Exports.plainDefault g d)))
  | equals {d e : ImportEquals} (hid : e.id = d.id) (ht : e.target = placeTarget cx g d.target) :
      ShownAs cx g inBlock keep (.importEquals d) (.importEquals e)
  | listed {d : Decl} (hkeep : keep = true) : ShownAs cx g inBlock keep (.exportDecl d)
      (Exports.list (d.bound.map (fun id => Exports.specifier id.name id.name)))
  | listedDefault {d : DefaultDecl} (hkeep : keep = true) :
      ShownAs cx g inBlock keep (.exportDefaultDecl d)
        (Exports.list [Exports.specifier (Exports.defaultIdent g d).name "default"])

section ShownAs

variable {cx : Context} {g : Url} {inBlock keep : Bool} {env : Environment} {i j : Item}

theorem dropDeclare_ofDecl (isExport : Bool) (d : Decl) :
    dropDeclare (.ofDecl isExport d) = .ofDecl isExport (Declare.ensure false d) := by
  cases isExport with
  | true => exact Declare.Pass.exportDecl_onItem? d
  | false => exact Declare.Pass.decl_onItem? .drop d

theorem mem_plain {is : List Item} (h : j ∈ plain inBlock is) :
    ∃ k ∈ is, j = if inBlock then dropDeclare k else k := by
  cases inBlock with
  | true =>
    obtain ⟨k, hk, rfl⟩ := List.mem_map.1 h
    exact ⟨k, hk, rfl⟩
  | false => exact ⟨j, h, rfl⟩

/-- A declaration loses its modifier in a block. -/
theorem ShownAs.plainDecl (isExport : Bool) {d : Decl} {isExport' declare : Bool} :
    ShownAs cx g inBlock keep (.ofDecl isExport d)
      (if inBlock then dropDeclare (.ofDecl isExport' (Declare.ensure declare d))
        else .ofDecl isExport' (Declare.ensure declare d)) := by
  cases inBlock with
  | true =>
    rw [if_pos rfl, dropDeclare_ofDecl, Declare.ensure_ensure]
    exact .declared (fun _ => rfl)
  | false => exact .declared (fun h => (by cases h))

/-- A declaration that stays as it stands outside of blocks. -/
theorem ShownAs.unchangedDecl (isExport : Bool) {d : Decl} :
    ShownAs cx g inBlock keep (.ofDecl isExport d)
      (if inBlock then dropDeclare (.ofDecl isExport d) else .ofDecl isExport d) := by
  cases inBlock with
  | true =>
    rw [if_pos rfl, dropDeclare_ofDecl]
    exact .declared (fun _ => rfl)
  | false => exact .same (by cases isExport <;> rfl) (fun h => (by cases h))

theorem dropDeclare_list (specifiers : List ExportSpecifier) :
    (if inBlock then dropDeclare (Exports.list specifiers) else Exports.list specifiers) =
      Exports.list specifiers := by
  cases inBlock <;> rfl

theorem promoted_exportDecl {d : Decl} (h : j ∈ promoted g keep (.exportDecl d)) :
    j = .ofDecl true d ∨ j = .ofDecl false (Declare.ensure true d) ∨
      keep = true ∧ j = Exports.list (d.bound.map (fun id => Exports.specifier id.name id.name)) := by
  by_cases hb : d.bound = []
  · refine Or.inl ?_
    cases keep <;>
      simpa [promoted, Exports.promote, hb, Placement.unchanged, Placement.nodes,
        Placement.ofOutcome, Outcome.nodes, isExportList, Item.ofDecl] using h
  · refine Or.inr ?_
    cases keep <;>
      simpa [promoted, Exports.promote, hb, Placement.nodes, Placement.ofOutcome,
        Placement.addAfter, Outcome.nodes, isExportList, Item.ofDecl, Exports.list] using h

theorem promoted_exportDefaultDecl {d : DefaultDecl}
    (h : j ∈ promoted g keep (.exportDefaultDecl d)) :
    j = .ofDecl false (Exports.plainDefault g d) ∨
      keep = true ∧ j = Exports.list [Exports.specifier (Exports.defaultIdent g d).name "default"] := by
  cases keep <;>
    simpa [promoted, Exports.promote, Placement.nodes, Placement.ofOutcome, Placement.addAfter,
      Outcome.nodes, isExportList, Item.ofDecl, Exports.list] using h

theorem promoted_importEquals {d : ImportEquals} (h : j ∈ promoted g false (.importEquals d)) :
    ∃ isExport, j = .importEquals { d with isExport := isExport } := by
  cases hexport : d.isExport with
  | true =>
    refine ⟨false, ?_⟩
    simpa [promoted, Exports.promote, hexport, Placement.nodes, Placement.ofOutcome,
      Placement.addAfter, Outcome.nodes, isExportList, Exports.list] using h
  | false =>
    refine ⟨false, ?_⟩
    have hj : j = .importEquals d := by
      simpa [promoted, Exports.promote, hexport, Placement.unchanged, Placement.nodes,
        Placement.ofOutcome, Outcome.nodes, isExportList] using h
    rw [hj, ← hexport]

/-- All that is shown of a statement. -/
theorem shownAs_of_mem (h : j ∈ shown cx g inBlock keep env i) : ShownAs cx g inBlock keep i j := by
  cases i with
  | empty =>
    obtain ⟨k, hk, rfl⟩ := mem_plain h
    obtain rfl := List.mem_singleton.1 hk
    rw [show dropDeclare .empty = .empty from rfl, ite_self]
    exact .same rfl (fun _ _ => Or.inl rfl)
  | expr e =>
    obtain ⟨k, hk, rfl⟩ := mem_plain h
    obtain rfl := List.mem_singleton.1 hk
    rw [show dropDeclare (.expr e) = .expr e from rfl, ite_self]
    exact .same rfl (fun _ _ => Or.inr ⟨e, rfl⟩)
  | decl d =>
    obtain ⟨k, hk, rfl⟩ := mem_plain h
    obtain rfl := List.mem_singleton.1 hk
    exact ShownAs.unchangedDecl false
  | importEquals d =>
    have hequals (isExport : Bool) : ShownAs cx g inBlock keep (.importEquals d)
        (.importEquals { d with target := placeTarget cx g d.target, isExport := isExport }) :=
      .equals rfl rfl
    simp only [shown] at h
    split at h
    · obtain rfl := List.mem_singleton.1 h
      exact hequals d.isExport
    · obtain ⟨k, hk, rfl⟩ := mem_plain h
      obtain ⟨isExport, rfl⟩ := promoted_importEquals hk
      rw [show dropDeclare (.importEquals _) = .importEquals _ from rfl, ite_self]
      exact hequals isExport
  | exportDecl d =>
    simp only [shown] at h
    split at h
    · rename_i hkept
      obtain rfl := List.mem_singleton.1 h
      refine .same rfl (fun _ hkeep => ?_)
      rw [hkeep] at hkept
      cases hkept
    · obtain ⟨k, hk, rfl⟩ := mem_plain h
      rcases promoted_exportDecl hk with rfl | rfl | ⟨hkeep, rfl⟩
      · exact ShownAs.unchangedDecl true
      · exact ShownAs.plainDecl true
      · rw [dropDeclare_list]
        exact .listed hkeep
  | exportDefaultDecl d =>
    simp only [shown] at h
    split at h
    · rename_i hkept
      obtain rfl := List.mem_singleton.1 h
      refine .same rfl (fun _ hkeep => ?_)
      rw [hkeep] at hkept
      cases hkept
    · obtain ⟨k, hk, rfl⟩ := mem_plain h
      rcases promoted_exportDefaultDecl hk with rfl | ⟨hkeep, rfl⟩
      · cases inBlock with
        | true =>
          rw [if_pos rfl, dropDeclare_ofDecl]
          exact .byDefault (fun _ => rfl)
        | false =>
          rw [if_neg Bool.false_ne_true, ← Declare.ensure_plainDefault]
          exact .byDefault (fun hno => (by cases hno))
      · rw [dropDeclare_list]
        exact .listedDefault hkeep
  | exportList d =>
    cases keep with
    | false => cases h
    | true =>
      cases hsrc : d.src with
      | none =>
        obtain rfl : j = .exportList d := by simpa [shown, hsrc] using h
        exact .same hsrc (fun _ hno => (by cases hno))
      | some src => simp [shown, hsrc] at h
  | importDecl d => cases h
  | exportAll d => cases h
  | _ =>
    cases keep with
    | false => cases h
    | true =>
      obtain rfl := List.mem_singleton.1 h
      exact .same rfl (fun _ hno => (by cases hno))

end ShownAs

end Merge

end AmbientBundle
