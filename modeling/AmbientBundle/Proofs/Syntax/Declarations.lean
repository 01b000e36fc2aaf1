import AmbientBundle.Proofs.Merge.Context
import AmbientBundle.Proofs.Merge.Exports
/-!
The declarations of a file, one for each statement that declares something. Whatever a chunk shows
of a statement shows its declaration once: modifiers may change and a default export becomes a
declaration of its own, but nothing is lost and nothing is added.
-/
namespace AmbientBundle

namespace Syntax

open Declare Rename ImportTypes

/-- The declaration that a statement of a file is, without its modifiers. -/
def Item.declaration (file : Url) : Item → List Item
  | .decl d => [.decl (setModifier false d)]
  | .exportDecl d => [.decl (setModifier false d)]
  | .exportDefaultDecl d => [.decl (setModifier false (Exports.plainDefault file d))]
  | .importEquals d => [.importEquals { d with isExport := false }]
  | _ => []

def Item.isDeclaration : Item → Bool
  | .decl _ => true
  | .exportDecl _ => true
  | .exportDefaultDecl _ => true
  | .importEquals _ => true
  | _ => false

theorem Item.isDeclaration_of_declaration {file : Url} {i : Item} (h : i.declaration file = []) :
    i.isDeclaration = false := by
  cases i with
  | decl d => cases h
  | exportDecl d => cases h
  | exportDefaultDecl d => cases h
  | importEquals d => cases h
  | _ => rfl

theorem setModifier_setModifier (a b : Bool) (d : Decl) :
    setModifier a (setModifier b d) = setModifier a d := by
  cases d with
  | space declare name inner body => cases name <;> rfl
  | _ => rfl

theorem setModifier_ensure (a b : Bool) (d : Decl) :
    setModifier a (ensure b d) = setModifier a d := by
  unfold ensure Declare.change?
  split
  · exact setModifier_setModifier a b d
  · rfl

theorem Decl.rename_setModifier (ρ : Renaming) (b : Bool) (d : Decl) :
    (setModifier b d).rename ρ = setModifier b (d.rename ρ) := by
  cases d with
  | space declare name inner body => cases name <;> simp [setModifier, Decl.rename, ModuleName.rename]
  | _ => simp [setModifier, Decl.rename]

theorem Decl.link_setModifier (τ : Targets) (b : Bool) (d : Decl) :
    (setModifier b d).link τ = setModifier b (d.link τ) := by
  cases d with
  | space declare name inner body => cases name <;> simp [setModifier, Decl.link]
  | _ => simp [setModifier, Decl.link]

theorem DefaultDecl.link_plainDefault (τ : Targets) (file : Url) (d : DefaultDecl) :
    (Exports.plainDefault file d).link τ = Exports.plainDefault file (d.link τ) := by
  cases d <;> simp [Exports.plainDefault, Decl.link, DefaultDecl.link]

theorem DefaultDecl.rename_plainDefault (ρ : Renaming) (file : Url) {d : DefaultDecl}
    (h : Exports.isAnonymousDefault (.exportDefaultDecl d) = false) :
    (Exports.plainDefault file d).rename ρ = Exports.plainDefault file (d.rename ρ) := by
  cases d with
  | cls name body =>
    cases name with
    | named id => simp [Exports.plainDefault, Exports.identOf, Decl.rename, DefaultDecl.rename,
        DefaultName.rename]
    | anonymous start => cases h
  | func name body =>
    cases name with
    | named id => simp [Exports.plainDefault, Exports.identOf, Decl.rename, DefaultDecl.rename,
        DefaultName.rename]
    | anonymous start => cases h
  | interface body => simp [Exports.plainDefault, Decl.rename, DefaultDecl.rename]

/-- Renaming changes names in the declaration, and linking its import types. -/
theorem Item.declaration_rename_link (ρ : Renaming) (τ : Targets) (file : Url) {i : Item}
    (h : Exports.isAnonymousDefault i = false) :
    ((i.rename ρ).link τ).declaration file =
      (i.declaration file).map (fun d => (d.rename ρ).link τ) := by
  cases i with
  | decl d => simp [declaration, Item.rename, Item.link, Decl.rename_setModifier,
      Decl.link_setModifier]
  | exportDecl d => simp [declaration, Item.rename, Item.link, Decl.rename_setModifier,
      Decl.link_setModifier]
  | exportDefaultDecl d => simp [declaration, Item.rename, Item.link, Decl.rename_setModifier,
      Decl.link_setModifier, DefaultDecl.rename_plainDefault ρ file h,
      DefaultDecl.link_plainDefault]
  | _ => simp [declaration, Item.rename, Item.link]

/-- A pass changes modifiers only. -/
theorem Item.declaration_onItem? (file : Url) (p : Pass) (i : Item) :
    ((p.onItem? i).getD i).declaration file = i.declaration file :=
  have hset (b : Bool) (d : Decl) := congrArg (fun e => [Item.decl e]) (setModifier_setModifier false b d)
  p.apply_onItem? (Item.declaration file) hset hset i

theorem Item.declaration_dropDeclare (file : Url) (i : Item) :
    (Merge.dropDeclare i).declaration file = i.declaration file :=
  Item.declaration_onItem? file .drop i

/-- A declaration beside an export list is that declaration alone. -/
theorem Item.declaration_promote (file : Url) (i : Item) :
    ((Exports.promote file i).nodes i).flatMap (Item.declaration file) = i.declaration file := by
  have hnodes := Exports.promoted_nodes file i
  generalize (Exports.promote file i).nodes i = nodes at hnodes ⊢
  cases hnodes with
  | decl hb => simp [Exports.list, declaration, setModifier_ensure]
  | default d => simp [Exports.list, declaration]
  | importEquals he => simp [Exports.list, declaration]
  | same hi => simp

end Syntax

namespace Merge

open Syntax

theorem isAnonymousDefault_promote {origin : Url} {i j : Item}
    (h : Exports.isAnonymousDefault i = false) (hj : j ∈ (Exports.promote origin i).nodes i) :
    Exports.isAnonymousDefault j = false := by
  have hnodes := Exports.promoted_nodes origin i
  generalize (Exports.promote origin i).nodes i = nodes at hnodes hj
  cases hnodes with
  | same hi => exact List.mem_singleton.1 hj ▸ h
  | _ =>
    simp only [List.mem_cons, List.not_mem_nil, or_false] at hj
    rcases hj with rfl | rfl <;> rfl

/-- An `import x = require(…)` takes its module from the chunk's place. -/
def placed (cx : Context) (origin : Url) : Item → Item
  | .importEquals d => .importEquals { d with target := placeTarget cx origin d.target }
  | i => i

section Shown

variable (cx : Context) (origin : Url)

theorem declaration_plain (inBlock : Bool) (items : List Item) :
    (plain inBlock items).flatMap (Item.declaration origin) =
      items.flatMap (Item.declaration origin) := by
  unfold plain
  split
  · simp [List.flatMap_map, Item.declaration_dropDeclare]
  · rfl

theorem declaration_promoted (keep : Bool) (i : Item) :
    (promoted origin keep i).flatMap (Item.declaration origin) = i.declaration origin := by
  unfold promoted
  split
  · exact Item.declaration_promote origin i
  · rw [← Item.declaration_promote origin i]
    induction (Exports.promote origin i).nodes i with
    | nil => rfl
    | cons j js ih =>
      rw [List.filter_cons]
      split
      · rw [List.flatMap_cons, List.flatMap_cons, ih]
      · rename_i hj
        rw [List.flatMap_cons, ih]
        cases j with
        | exportList d => rfl
        | _ => exact absurd rfl hj

/-- What a chunk shows of a statement is the declaration of the statement. -/
theorem declaration_shown (inBlock keep : Bool) (env : Environment) (i : Item) :
    (shown cx origin inBlock keep env i).flatMap (Item.declaration origin) =
      (i.declaration origin).map (placed cx origin) := by
  cases i with
  | exportDecl d =>
    simp only [shown]
    split
    · simp [Item.declaration, placed]
    · simp [declaration_plain, declaration_promoted, Item.declaration, placed]
  | exportDefaultDecl d =>
    simp only [shown]
    split
    · simp [Item.declaration, placed]
    · simp [declaration_plain, declaration_promoted, Item.declaration, placed]
  | importEquals d =>
    simp only [shown]
    split
    · simp [Item.declaration, placed]
    · simp [declaration_plain, declaration_promoted, Item.declaration, placed]
  | exportDefaultExpr e => cases keep <;> rfl
  | exportList d =>
    simp only [shown]
    split <;> simp [Item.declaration]
  | exportAssign e => cases keep <;> rfl
  | exportAsNamespace name => cases keep <;> rfl
  | importDecl d => rfl
  | exportAll d => rfl
  | _ => simp [shown, declaration_plain, Item.declaration, placed]

theorem isAnonymousDefault_dropDeclare (i : Item) :
    Exports.isAnonymousDefault (dropDeclare i) = Exports.isAnonymousDefault i :=
  dropDeclare_keeps Exports.isAnonymousDefault (fun _ _ => rfl) (fun _ _ => rfl) i

theorem isAnonymousDefault_shown {inBlock keep : Bool} {env : Environment} {i j : Item}
    (h : Exports.isAnonymousDefault i = false) (hj : j ∈ shown cx origin inBlock keep env i) :
    Exports.isAnonymousDefault j = false := by
  have hplain : ∀ is, (∀ k ∈ is, Exports.isAnonymousDefault k = false) →
      j ∈ plain inBlock is → Exports.isAnonymousDefault j = false := by
    intro is his hj
    unfold plain at hj
    split at hj
    · obtain ⟨k, hk, rfl⟩ := List.mem_map.1 hj
      rw [isAnonymousDefault_dropDeclare]
      exact his k hk
    · exact his j hj
  have hpromoted : ∀ keep i, Exports.isAnonymousDefault i = false →
      ∀ k ∈ promoted origin keep i, Exports.isAnonymousDefault k = false := by
    intro keep i hi k hk
    unfold promoted at hk
    split at hk
    · exact isAnonymousDefault_promote hi hk
    · exact isAnonymousDefault_promote hi (List.mem_filter.1 hk).1
  cases i with
  | exportDecl d =>
    simp only [shown] at hj
    split at hj
    · exact List.mem_singleton.1 hj ▸ h
    · exact hplain _ (hpromoted _ _ h) hj
  | exportDefaultDecl d =>
    simp only [shown] at hj
    split at hj
    · exact List.mem_singleton.1 hj ▸ h
    · exact hplain _ (hpromoted _ _ h) hj
  | importEquals d =>
    simp only [shown] at hj
    split at hj
    · exact List.mem_singleton.1 hj ▸ rfl
    · exact hplain _ (hpromoted _ _ rfl) hj
  | importDecl d => cases hj
  | exportAll d => cases hj
  | empty => exact hplain _ (by simpa using h) hj
  | expr e => exact hplain _ (by simpa using h) hj
  | decl d => exact hplain _ (by simpa using h) hj
  | _ =>
    simp only [shown] at hj
    split at hj
    · exact List.mem_singleton.1 hj ▸ rfl
    · cases hj

/-- Under final names the chunk shows the declaration of a statement once. -/
theorem declaration_printed (inBlock keep : Bool) (env : Environment) (ρ : Rename.Renaming)
    (τ : ImportTypes.Targets) {i : Item} (h : Exports.isAnonymousDefault i = false) :
    (linkItems τ (renameItems ρ (shown cx origin inBlock keep env i))).flatMap
        (Item.declaration origin) =
      (i.declaration origin).map (fun d => ((placed cx origin d).rename ρ).link τ) := by
  rw [linkItems_eq_map, renameItems_eq_map, List.flatMap_map, List.flatMap_map]
  have hnode : ∀ node ∈ shown cx origin inBlock keep env i,
      ((node.rename ρ).link τ).declaration origin =
        (node.declaration origin).map (fun d => (d.rename ρ).link τ) := fun node hnode =>
    Item.declaration_rename_link ρ τ origin (isAnonymousDefault_shown cx origin h hnode)
  rw [List.flatMap_congr hnode, ← List.map_flatMap, declaration_shown, List.map_map]
  rfl

end Shown

end Merge

end AmbientBundle
