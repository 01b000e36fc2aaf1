import AmbientBundle.Proofs.Merge.Context
import AmbientBundle.Proofs.Names.Environment
import AmbientBundle.Proofs.Rename.Identity
import AmbientBundle.Proofs.Rename.Outline
import Mathlib.Data.List.Forall2
/-!
What a module has to do with other modules, at the top and in the bodies of namespaces and ambient
modules. Main statement: renaming changes nothing of a module but names; where a name in an export
list changes, the list says from then on under which name it is exported; imports, exports of other
modules and import types stay; and where each name stands for itself nothing changes at all.
-/
namespace AmbientBundle.Syntax

open Rename

section Within

mutual

/-- The statements in the body of a declaration and in the bodies of those, at any depth. -/
def Decl.inside : Decl → List Item
  | .space _ _ _ body => bodyWithin body
  | _ => []

def Item.inside : Item → List Item
  | .decl d => d.inside
  | .exportDecl d => d.inside
  | _ => []

/-- The statements, each followed by those inside of it. -/
def itemsWithin : List Item → List Item
  | [] => []
  | i :: is => i :: (i.inside ++ itemsWithin is)

def bodyWithin : Option (List Item) → List Item
  | none => []
  | some items => itemsWithin items

end

/-- Every statement within is renamed, each in the way of the body it stands in. -/
def Item.Renamed (i j : Item) : Prop := ∃ σ : Renaming, j = i.rename σ

mutual

theorem Decl.inside_rename (ρ : Renaming) (d : Decl) :
    List.Forall₂ Item.Renamed d.inside (d.rename ρ).inside := by
  cases d with
  | space declare name inner body =>
    simp only [Decl.rename, Decl.inside]
    exact bodyWithin_rename ρ body
  | _ => exact .nil

theorem Item.inside_rename (ρ : Renaming) (i : Item) :
    List.Forall₂ Item.Renamed i.inside (i.rename ρ).inside := by
  cases i with
  | decl d =>
    simp only [Item.rename, Item.inside]
    exact Decl.inside_rename ρ d
  | exportDecl d =>
    simp only [Item.rename, Item.inside]
    exact Decl.inside_rename ρ d
  | _ => exact .nil

theorem itemsWithin_rename (ρ : Renaming) (is : List Item) :
    List.Forall₂ Item.Renamed (itemsWithin is) (itemsWithin (renameItems ρ is)) := by
  cases is with
  | nil => exact .nil
  | cons i is =>
    simp only [renameItems, itemsWithin]
    exact .cons ⟨ρ, rfl⟩ (List.rel_append (Item.inside_rename ρ i) (itemsWithin_rename ρ is))

theorem bodyWithin_rename (ρ : Renaming) (body : Option (List Item)) :
    List.Forall₂ Item.Renamed (bodyWithin body) (bodyWithin (renameBody ρ body)) := by
  cases body with
  | none => exact .nil
  | some is =>
    simp only [renameBody, bodyWithin]
    exact itemsWithin_rename (hide (bodyNames is) ρ) is

end

end Within

section Lists

/-- How a specifier of the module's own names may change: not at all, or the name does, and the one
under which it is exported is written out from then on unless it was before. -/
inductive ExportSpecifier.Gains : ExportSpecifier → ExportSpecifier → Prop where
  | same (s : ExportSpecifier) : Gains s s
  | renamed (name final : String) (exported : ExportName) (typeOnly : Bool) :
      Gains (.named (.word name) (some exported) typeOnly)
        (.named (.word final) (some exported) typeOnly)
  | gained (name final : String) (typeOnly : Bool) (h : final ≠ name) :
      Gains (.named (.word name) none typeOnly)
        (.named (.word final) (some (.word name)) typeOnly)

/-- How an export list may change; one with a source does not. -/
inductive ExportList.Gains : ExportList → ExportList → Prop where
  | exportsFrom (d : ExportList) (h : d.src.isSome) : Gains d d
  | own {specifiers specifiers' : List ExportSpecifier} (typeOnly : Bool)
      (attrs : Option Attributes)
      (h : List.Forall₂ ExportSpecifier.Gains specifiers specifiers') :
      Gains ⟨specifiers, none, typeOnly, attrs⟩ ⟨specifiers', none, typeOnly, attrs⟩

def Item.exportList? : Item → Option ExportList
  | .exportList d => some d
  | _ => none

theorem ExportSpecifier.gains_rename (ρ : Renaming) (s : ExportSpecifier) : s.Gains (s.rename ρ) := by
  cases s with
  | named orig exported typeOnly =>
    cases orig with
    | word name =>
      rw [ExportSpecifier.rename]
      split
      · exact .same _
      · rename_i h
        cases exported with
        | none => exact .gained name (ρ name) typeOnly h
        | some exported => exact .renamed name (ρ name) exported typeOnly
    | str lit => exact .same _
  | all name => exact .same _

theorem ExportList.gains_rename (ρ : Renaming) (d : ExportList) : d.Gains (d.rename ρ) := by
  unfold ExportList.rename
  split
  · rename_i h
    exact .exportsFrom d h
  · rename_i h
    obtain ⟨specifiers, src, typeOnly, attrs⟩ := d
    obtain rfl : src = none := by simpa using h
    refine .own typeOnly attrs ?_
    rw [List.forall₂_map_right_iff, List.forall₂_same]
    exact fun s _ => s.gains_rename ρ

theorem Item.gains_of_renamed {i j : Item} (h : i.Renamed j) :
    Option.Rel ExportList.Gains i.exportList? j.exportList? := by
  obtain ⟨σ, rfl⟩ := h
  cases i with
  | exportList d => exact .some (d.gains_rename σ)
  | _ => exact .none

end Lists

section Outward

/-- What a statement has to do with other modules. -/
inductive Outward where
  | imports (d : ImportDecl)
  | requires (src : StrLit)
  | exportsFrom (d : ExportList)
  | exportsAll (d : ExportAll)
  | exports (name : String)
  | spaceName (name : String)

def Item.outward : Item → List Outward
  | .importDecl d => [.imports d]
  | .importEquals d =>
    match d.target with
    | .require src => [.requires src]
    | .entity _ => []
  | .exportList d =>
    if d.src.isSome then [.exportsFrom d]
    else d.specifiers.map (fun s => .exports (Merge.exportedName s))
  | .exportAll d => [.exportsAll d]
  | .exportAsNamespace name => [.spaceName name]
  | _ => []

theorem ExportSpecifier.Gains.exportedName {s t : ExportSpecifier} (h : s.Gains t) :
    Merge.exportedName t = Merge.exportedName s := by
  cases h with
  | same => rfl
  | renamed => rfl
  | gained => rfl

theorem Item.outward_rename (ρ : Renaming) (i : Item) : (i.rename ρ).outward = i.outward := by
  cases i with
  | importEquals d => cases h : d.target <;> simp [Item.rename, Item.outward, ImportTarget.rename, h]
  | exportList d =>
    unfold Item.rename ExportList.rename
    split
    · rfl
    · rename_i h
      simp [Item.outward, h, fun s => (ExportSpecifier.gains_rename ρ s).exportedName]
  | _ => rfl

/-- The module that an import type names, and what of it. -/
def pickImport : Pick (StrLit × Option Attributes × Option EntityName)
  | .imported arg attrs qualifier _ => ([(arg, attrs, qualifier)], true)
  | .importQuery arg attrs qualifier _ _ => ([(arg, attrs, qualifier)], true)
  | _ => ([], true)

theorem pickImport_blind : pickImport.Blind := by
  intro ρ b t
  cases t <;> rfl

end Outward

end AmbientBundle.Syntax

namespace AmbientBundle.Rename

open Syntax

/-- Where an environment answers each name of a file with the name itself it renames nothing. -/
theorem ofEnvironment_eq_id {env : Environment} {origin : Url}
    (h : ∀ name final, env.lookup origin name = some final → final = name) :
    ofEnvironment env origin = id := by
  funext name
  rw [ofEnvironment]
  cases hl : env.lookup origin name with
  | none => rfl
  | some final => exact h name final hl

/-- Renaming keeps the outline of a module, so that it changes names only. Of the export lists at any
depth those without source get names for what they rename; all else that looks outward stays, and so
do the import types; and an environment that answers each name with itself changes nothing. -/
theorem renameItems_changes_names (env : Environment) (origin : Url) (m : Module) :
    outlineItems (renameItems (ofEnvironment env origin) m.body) = outlineItems m.body ∧
    List.Forall₂ ExportList.Gains ((itemsWithin m.body).filterMap Item.exportList?)
      ((itemsWithin (renameItems (ofEnvironment env origin) m.body)).filterMap Item.exportList?) ∧
    (itemsWithin (renameItems (ofEnvironment env origin) m.body)).flatMap Item.outward =
      (itemsWithin m.body).flatMap Item.outward ∧
    collectItems pickImport (renameItems (ofEnvironment env origin) m.body) =
      collectItems pickImport m.body ∧
    ((∀ name final, env.lookup origin name = some final → final = name) →
      renameItems (ofEnvironment env origin) m.body = m.body) := by
  have hwithin := itemsWithin_rename (ofEnvironment env origin) m.body
  refine ⟨items_outline_rename _ _, ?_, ?_, items_collect_rename pickImport_blind _ _, fun h => ?_⟩
  · exact List.rel_filterMap (fun i j h => Item.gains_of_renamed h) hwithin
  · generalize itemsWithin m.body = is at hwithin
    generalize itemsWithin (renameItems (ofEnvironment env origin) m.body) = js at hwithin
    induction hwithin with
    | nil => rfl
    | cons hij _ ih =>
      obtain ⟨σ, rfl⟩ := hij
      rw [List.flatMap_cons, List.flatMap_cons, Item.outward_rename, ih]
  · rw [ofEnvironment_eq_id h, items_rename_id]

/-- An ambient module that exports a name of the file around it. -/
def ambientExport (orig : String) (exported : Option ExportName) : List Item :=
  [.decl (.space true (.str (StrLit.made "m")) []
    (some [.exportList ⟨[.named (.word orig) exported false], none, false, none⟩]))]

example : renameItems (fun name => if name = "A" then "A_1" else name) (ambientExport "A" none) =
    ambientExport "A_1" (some (.word "A")) := by
  rfl

theorem renameItems_changes_names_ambientExport :
    (∀ name final, (Environment.empty.bind (Url.ofPath "/a.d.ts") "A" "A").lookup
      (Url.ofPath "/a.d.ts") name = some final → final = name) ∧
    renameItems (ofEnvironment (Environment.empty.bind (Url.ofPath "/a.d.ts") "A" "A")
      (Url.ofPath "/a.d.ts")) (ambientExport "A" none) = ambientExport "A" none := by
  have hlookup : ∀ name final, (Environment.empty.bind (Url.ofPath "/a.d.ts") "A" "A").lookup
      (Url.ofPath "/a.d.ts") name = some final → final = name := by
    intro name final h
    rw [Environment.lookup_bind] at h
    split at h
    · rename_i heq
      exact (Option.some.inj h).symm.trans (congrArg Prod.snd heq)
    · cases h
  exact ⟨hlookup, (renameItems_changes_names _ _ ⟨none, ambientExport "A" none⟩).2.2.2.2 hlookup⟩

end AmbientBundle.Rename
