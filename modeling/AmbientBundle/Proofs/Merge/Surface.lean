import AmbientBundle.Proofs.Merge.Exports
import AmbientBundle.Proofs.Merge.Resolution
import AmbientBundle.Proofs.Syntax.Declarations
/-!
What statements export: names, each with what it is bound to. What a chunk shows of a statement
exports what the statement exports by itself where exports are kept, with the bindings renamed, and
nothing elsewhere. Of the exports of all statements those are kept that stand with a declaration,
and of export lists the first of a name.
-/
namespace AmbientBundle

namespace Merge

/-- What a name is exported for: a binding of the module, a name or all names of another module, or
a value that has no name. -/
inductive Bound where
  | here (name : String)
  | there (name module : String)
  | space (module : String)
  | value
deriving DecidableEq, Repr

def Bound.rename (ρ : Rename.Renaming) : Bound → Bound
  | .here name => .here (ρ name)
  | b => b

@[simp] theorem Bound.rename_here (ρ : Rename.Renaming) (name : String) :
    (Bound.here name).rename ρ = .here (ρ name) := rfl

end Merge

namespace Syntax

open Merge

def Ident.bound (id : Ident) : Bound := .here id.name

def ExportSpecifier.bound (src : Option String) : ExportSpecifier → Bound
  | .named (.word orig) _ _ => (src.map (Bound.there orig)).getD (.here orig)
  | .named (.str lit) _ _ => (src.map (Bound.there lit.value)).getD .value
  | .all _ => (src.map Bound.space).getD .value

def Expr.bound : Expr → Bound
  | .ident name => .here name
  | _ => .value

/-- What a statement exports with a declaration. -/
def Item.directExports : Item → List (String × Bound)
  | .exportDecl d => d.bound.map (fun id => (id.name, id.bound))
  | .exportDefaultDecl d => [("default", (d.ident?.map Ident.bound).getD .value)]
  | .exportDefaultExpr e => [("default", e.bound)]
  | .importEquals d => if d.isExport then [(d.id.name, d.id.bound)] else []
  | _ => []

/-- What a statement exports by a list. -/
def Item.listExports : Item → List (String × Bound)
  | .exportList d => d.specifiers.map (fun sp => (exportedName sp, sp.bound (d.src.map StrLit.value)))
  | _ => []

/-- What a statement exports; stars are left out. -/
def Item.exports (i : Item) : List (String × Bound) := i.directExports ++ i.listExports

/-- The module of a star. -/
def Item.star? : Item → Option String
  | .exportAll d => some d.src.value
  | _ => none

/-- Whether a statement exports the module as a whole. -/
def Item.isWhole : Item → Bool
  | .exportAssign _ => true
  | .exportAsNamespace _ => true
  | _ => false

/-- What a statement exports otherwise than from another module. -/
def Item.ownExports : Item → List (String × Bound)
  | .exportList d => if d.src.isSome then [] else (Item.exportList d).listExports
  | i => i.directExports

@[simp] theorem Item.exports_decl (d : Decl) : (Item.decl d).exports = [] := rfl

@[simp] theorem Item.exports_exportList (d : ExportList) :
    (Item.exportList d).exports = (Item.exportList d).listExports := rfl

@[simp] theorem Item.exports_exportDecl (d : Decl) :
    (Item.exportDecl d).exports = d.bound.map (fun id => (id.name, id.bound)) :=
  List.append_nil _

@[simp] theorem Item.exports_importEquals (d : ImportEquals) :
    (Item.importEquals d).exports = if d.isExport then [(d.id.name, d.id.bound)] else [] :=
  List.append_nil _

theorem Item.exports_of_not_isExportList {i : Item} (h : isExportList i = false) :
    i.exports = i.directExports := by
  cases i with
  | exportList d => cases h
  | _ => simp [exports, listExports]

theorem Item.directExports_link (τ : ImportTypes.Targets) (i : Item) :
    (i.link τ).directExports = i.directExports := by
  cases i with
  | exportDecl d => simp [Item.link, directExports, Decl.bound_link]
  | exportDefaultDecl d => cases d <;> rfl
  | exportDefaultExpr e => cases e <;> simp [Item.link, Expr.link, directExports, Expr.bound]
  | _ => rfl

theorem Item.listExports_link (τ : ImportTypes.Targets) (i : Item) :
    (i.link τ).listExports = i.listExports := by
  cases i <;> rfl

theorem Item.exports_link (τ : ImportTypes.Targets) (i : Item) : (i.link τ).exports = i.exports := by
  rw [exports, exports, directExports_link, listExports_link]

@[simp] theorem Item.star?_link (τ : ImportTypes.Targets) (i : Item) : (i.link τ).star? = i.star? := by
  cases i <;> rfl

@[simp] theorem Item.isWhole_link (τ : ImportTypes.Targets) (i : Item) :
    (i.link τ).isWhole = i.isWhole := by
  cases i <;> rfl

@[simp] theorem Item.star?_rename (ρ : Rename.Renaming) (i : Item) : (i.rename ρ).star? = i.star? := by
  cases i <;> rfl

@[simp] theorem Item.isWhole_rename (ρ : Rename.Renaming) (i : Item) :
    (i.rename ρ).isWhole = i.isWhole := by
  cases i <;> rfl

end Syntax

namespace Merge

open Syntax

theorem directNames_eq (i : Item) : directNames i = i.directExports.map Prod.fst := by
  cases i with
  | exportDecl d => simp [directNames, Item.directExports]
  | importEquals d => cases he : d.isExport <;> simp [directNames, Item.directExports, he]
  | _ => rfl

@[simp] theorem exportedName_specifier (name exported : String) :
    exportedName (Exports.specifier name exported) = exported := by
  simp only [Exports.specifier, exportedName]
  split
  · rename_i h
    exact h
  · rfl

@[simp] theorem bound_specifier (name exported : String) :
    (Exports.specifier name exported).bound none = .here name := rfl

/-- A renamed specifier exports the renamed binding under the same name. -/
theorem exportedName_rename (ρ : Rename.Renaming) (sp : ExportSpecifier) :
    exportedName (sp.rename ρ) = exportedName sp := by
  cases sp with
  | all name => rfl
  | named orig exported typeOnly =>
    cases orig with
    | word name =>
      simp only [ExportSpecifier.rename]
      split <;> simp [exportedName]
    | str lit => rfl

theorem bound_rename (ρ : Rename.Renaming) (sp : ExportSpecifier) :
    (sp.rename ρ).bound none = (sp.bound none).rename ρ := by
  cases sp with
  | all name => rfl
  | named orig exported typeOnly =>
    cases orig with
    | word name =>
      simp only [ExportSpecifier.rename]
      split
      · rename_i h
        simp [ExportSpecifier.bound, h]
      · rfl
    | str lit => rfl

/-- An export under another name for its binding. -/
def renameExport (ρ : Rename.Renaming) (e : String × Bound) : String × Bound := (e.1, e.2.rename ρ)

@[simp] theorem renameExport_fst (ρ : Rename.Renaming) (e : String × Bound) :
    (renameExport ρ e).1 = e.1 := rfl

section Printed

variable (ρ : Rename.Renaming)

theorem listExports_rename {d : ExportList} (hsrc : d.src = none) :
    ((Item.exportList d).rename ρ).listExports =
      (Item.exportList d).listExports.map (renameExport ρ) := by
  simp [Item.rename, ExportList.rename, hsrc, Item.listExports, exportedName_rename, bound_rename,
    renameExport]

theorem exports_rename_list (specifiers : List ExportSpecifier) :
    ((Exports.list specifiers).rename ρ).exports =
      specifiers.map (fun sp => (exportedName sp, (sp.bound none).rename ρ)) := by
  rw [Exports.list, Item.rename, Item.exports_exportList, ← Item.rename,
    listExports_rename ρ rfl]
  simp [Item.listExports, renameExport]

/-- Promoting an exported statement moves its exports to an export list. -/
theorem exports_promote (origin : Url) {i : Item} (hi : isExportList i = false)
    (hnamed : Exports.isAnonymousDefault i = false) (hexpr : ∀ e, i ≠ .exportDefaultExpr e) :
    ((Exports.promote origin i).nodes i).flatMap (fun j => (j.rename ρ).exports) =
      i.directExports.map (renameExport ρ) := by
  cases i with
  | exportDecl d =>
    by_cases hb : d.bound = []
    · simp [Exports.promote, hb, Placement.unchanged, Placement.nodes, Placement.ofOutcome,
        Outcome.nodes, Item.rename, Item.directExports, Decl.bound_rename]
    · simp [Exports.promote, hb, Placement.nodes, Placement.ofOutcome, Placement.addAfter,
        Outcome.nodes, exports_rename_list, Item.rename, Item.directExports, renameExport,
        Ident.bound]
  | exportDefaultDecl d =>
    have hid : (d.ident?.map Ident.bound).getD .value = .here (Exports.defaultIdent origin d).name := by
      cases d with
      | interface body => rfl
      | cls name body =>
        cases name with
        | named id => rfl
        | anonymous start => cases hnamed
      | func name body =>
        cases name with
        | named id => rfl
        | anonymous start => cases hnamed
    simp [Exports.promote, Placement.nodes, Placement.ofOutcome, Placement.addAfter,
      Outcome.nodes, exports_rename_list, Item.rename, Item.directExports, renameExport, hid]
  | importEquals d =>
    by_cases he : d.isExport
    · simp [Exports.promote, he, Placement.nodes, Placement.ofOutcome, Placement.addAfter,
        Outcome.nodes, exports_rename_list, Item.rename, Item.directExports, renameExport,
        Ident.bound]
    · simp [Exports.promote, he, Placement.unchanged, Placement.nodes, Placement.ofOutcome,
        Outcome.nodes, Item.rename, Item.directExports]
  | exportList d => cases hi
  | exportDefaultExpr e => exact absurd rfl (hexpr e)
  | _ => rfl

theorem exports_dropDeclare (i : Item) :
    ((dropDeclare i).rename ρ).exports = (i.rename ρ).exports :=
  dropDeclare_keeps (fun i => (i.rename ρ).exports) (fun _ _ => rfl)
    (fun b d => by simp [Item.rename, Decl.bound_rename, Decl.bound_setModifier]) i

theorem exports_plain (inBlock : Bool) (is : List Item) :
    (plain inBlock is).flatMap (fun j => (j.rename ρ).exports) =
      is.flatMap (fun j => (j.rename ρ).exports) := by
  unfold plain
  split
  · simp [List.flatMap_map, exports_dropDeclare]
  · rfl

/-- Where exports are not kept no statement exports anything. -/
theorem exports_hidden (cx : Context) (origin : Url) (inBlock : Bool) (env : Environment)
    (i : Item) :
    (shown cx origin inBlock false env i).flatMap (fun j => (j.rename ρ).exports) = [] := by
  have hpromoted : ∀ i, isExportList i = false → (∀ e, i ≠ .exportDefaultExpr e) →
      (promoted origin false i).flatMap (fun j => (j.rename ρ).exports) = [] := by
    intro i hi he
    cases i with
    | exportDecl d =>
      by_cases hb : d.bound = []
      · simp [promoted, Exports.promote, hb, Placement.unchanged, Placement.nodes,
          Placement.ofOutcome, Outcome.nodes, isExportList, Item.rename, Decl.bound_rename]
      · simp [promoted, Exports.promote, hb, Placement.nodes, Placement.ofOutcome,
          Placement.addAfter, Outcome.nodes, Item.rename, isExportList, Exports.list]
    | exportDefaultDecl d =>
      simp [promoted, Exports.promote, Placement.nodes, Placement.ofOutcome,
        Placement.addAfter, Outcome.nodes, Item.rename, isExportList, Exports.list]
    | importEquals d =>
      by_cases hd : d.isExport
      · simp [promoted, Exports.promote, hd, Placement.nodes, Placement.ofOutcome,
          Placement.addAfter, Outcome.nodes, Item.rename, isExportList, Exports.list]
      · simp [promoted, Exports.promote, hd, Placement.unchanged, Placement.nodes,
          Placement.ofOutcome, Outcome.nodes, Item.rename, isExportList]
    | exportList d => cases hi
    | exportDefaultExpr e => exact absurd rfl (he e)
    | _ => rfl
  cases i with
  | exportDecl d =>
    simp only [shown, Bool.false_and, Bool.false_eq_true, if_false, exports_plain]
    exact hpromoted _ rfl (by simp)
  | exportDefaultDecl d =>
    simp only [shown, Bool.false_and, Bool.false_eq_true, if_false, exports_plain]
    exact hpromoted _ rfl (by simp)
  | importEquals d =>
    simp only [shown, Bool.false_eq_true, if_false, exports_plain]
    exact hpromoted _ rfl (by simp)
  | empty => simp only [shown, exports_plain]; rfl
  | expr e => simp only [shown, exports_plain]; rfl
  | decl d => simp only [shown, exports_plain]; rfl
  | _ => rfl

section Whole

variable {cx : Context} {origin : Url} {inBlock keep : Bool} {env : Environment} {i j : Item}
  {is : List Item}

/-- The statement is no star, and does not export the module as a whole. -/
def NamesOnly (i : Item) : Prop := i.star? = none ∧ i.isWhole = false

theorem NamesOnly.dropDeclare (h : NamesOnly i) : NamesOnly (dropDeclare i) :=
  (dropDeclare_keeps NamesOnly (fun _ _ => rfl) (fun _ _ => rfl) i).mpr h

theorem namesOnly_plain (h : ∀ k ∈ is, NamesOnly k) (hj : j ∈ plain inBlock is) : NamesOnly j := by
  unfold plain at hj
  split at hj
  · obtain ⟨k, hk, rfl⟩ := List.mem_map.1 hj
    exact (h k hk).dropDeclare
  · exact h j hj

theorem namesOnly_promoted (h : NamesOnly i) (hj : j ∈ promoted origin keep i) : NamesOnly j := by
  have hj : j ∈ (Exports.promote origin i).nodes i := by
    unfold promoted at hj
    split at hj
    · exact hj
    · exact (List.mem_filter.1 hj).1
  have hnodes := Exports.promoted_nodes origin i
  generalize (Exports.promote origin i).nodes i = nodes at hnodes hj
  cases hnodes with
  | same hi => exact List.mem_singleton.1 hj ▸ h
  | _ =>
    simp only [List.mem_cons, List.not_mem_nil, or_false] at hj
    rcases hj with rfl | rfl <;> exact ⟨rfl, rfl⟩

/-- What is shown of a statement is no star, and exports the module as a whole only if that is the
statement itself, where exports are kept. -/
theorem whole_of_mem_shown (h : j ∈ shown cx origin inBlock keep env i) :
    NamesOnly j ∨ i.isWhole = true ∧ keep = true ∧ j = i := by
  have hone (k : Item) (hk : NamesOnly k) : ∀ k' ∈ [k], NamesOnly k' :=
    fun k' hk' => List.mem_singleton.1 hk' ▸ hk
  have hexported (ids : List Ident) (hi : NamesOnly i) (hj : j ∈ if keep && !isRenamed env origin ids
      then [i] else plain inBlock (promoted origin keep i)) : NamesOnly j := by
    split at hj
    · exact hone i hi j hj
    · exact namesOnly_plain (fun k => namesOnly_promoted hi) hj
  have hkept (hj : j ∈ if keep = true then [i] else []) : keep = true ∧ j = i := by
    split at hj
    · rename_i hk
      exact ⟨hk, List.mem_singleton.1 hj⟩
    · cases hj
  cases i with
  | empty => exact Or.inl (namesOnly_plain (hone _ ⟨rfl, rfl⟩) h)
  | expr e => exact Or.inl (namesOnly_plain (hone _ ⟨rfl, rfl⟩) h)
  | decl d => exact Or.inl (namesOnly_plain (hone _ ⟨rfl, rfl⟩) h)
  | importDecl d => cases h
  | importEquals d =>
    simp only [shown] at h
    split at h
    · exact Or.inl (hone _ ⟨rfl, rfl⟩ j h)
    · exact Or.inl (namesOnly_plain (fun k => namesOnly_promoted ⟨rfl, rfl⟩) h)
  | exportDecl d => exact Or.inl (hexported _ ⟨rfl, rfl⟩ h)
  | exportDefaultDecl d => exact Or.inl (hexported _ ⟨rfl, rfl⟩ h)
  | exportDefaultExpr e => exact Or.inl ((hkept h).2 ▸ ⟨rfl, rfl⟩)
  | exportList d =>
    simp only [shown] at h
    split at h
    · exact Or.inl (hone _ ⟨rfl, rfl⟩ j h)
    · cases h
  | exportAll d => cases h
  | exportAssign e => exact Or.inr ⟨rfl, hkept h⟩
  | exportAsNamespace name => exact Or.inr ⟨rfl, hkept h⟩

end Whole

/-- An exported `import x = …` whose name is not taken. -/
def KeepsName (ρ : Rename.Renaming) (i : Item) : Prop :=
  ∀ d, i = .importEquals d → d.isExport = true → ρ d.id.name = d.id.name

/-- Exports whose names the renaming keeps stand with their declarations. -/
theorem directExports_rename {i : Item} (h : ∀ id ∈ i.declared, ρ id.name = id.name) :
    (i.rename ρ).directExports = i.directExports.map (renameExport ρ) := by
  cases i with
  | exportDecl d =>
    simp only [Item.rename, Item.directExports, Decl.bound_rename, List.map_map]
    exact List.map_congr_left (fun id hid => by
      simp [renameExport, Ident.bound, Ident.rename, h id hid])
  | exportDefaultDecl d =>
    have hid := DefaultDecl.ident?_rename ρ d
    cases hd : d.ident? <;>
      simp [Item.rename, Item.directExports, hid, hd, renameExport, Bound.rename, Ident.bound,
        Ident.rename]
  | exportDefaultExpr e =>
    cases e <;> simp [Item.rename, Expr.rename, Item.directExports, Expr.bound, renameExport,
      Bound.rename]
  | importEquals d =>
    have hid := h d.id (by simp [Item.declared])
    cases he : d.isExport <;>
      simp [Item.rename, Item.directExports, he, renameExport, Ident.bound, Ident.rename, hid]
  | _ => rfl

end Printed

section Kept

variable {cx : Context} {origin : Url} {env : Environment} {i : Item}

/-- What is shown of a statement whose names are not taken exports them with the declaration. -/
theorem directExports_kept
    (h : ∀ id ∈ i.declared, Rename.ofEnvironment env origin id.name = id.name) :
    i.directExports.map (renameExport (Rename.ofEnvironment env origin)) ⊆
      (shown cx origin false true env i).flatMap
        (fun j => (j.rename (Rename.ofEnvironment env origin)).directExports) := by
  rw [← directExports_rename _ h]
  cases i with
  | exportDecl d =>
    have hr : isRenamed env origin d.bound = false := by simpa [isRenamed, Item.declared] using h
    simp [shown, hr]
  | exportDefaultDecl d =>
    have hr : isRenamed env origin d.ident?.toList = false := by
      simpa [isRenamed, Item.declared] using h
    simp [shown, hr]
  | exportDefaultExpr e => simp [shown]
  | importEquals d => simp [shown, Item.rename, Item.directExports]
  | _ => exact List.nil_subset _

/-- An exported `import x = …` is shown with its final name. -/
theorem exports_alias (d : ImportEquals) (ρ : Rename.Renaming) :
    (shown cx origin false true env (.importEquals d)).flatMap (fun j => (j.rename ρ).exports) =
      if d.isExport then [(ρ d.id.name, .here (ρ d.id.name))] else [] := by
  simp [shown, Item.rename, Ident.bound, Ident.rename]

/-- What is shown of a statement where exports are kept exports what the statement exports by
itself. -/
theorem exports_kept (hnamed : Exports.isAnonymousDefault i = false)
    (hi : KeepsName (Rename.ofEnvironment env origin) i) :
    (shown cx origin false true env i).flatMap
        (fun j => (j.rename (Rename.ofEnvironment env origin)).exports) =
      i.ownExports.map (renameExport (Rename.ofEnvironment env origin)) := by
  cases i with
  | exportDecl d =>
    simp only [shown, Bool.true_and]
    split
    · rename_i hr
      have hsame : ∀ id ∈ d.bound, Rename.ofEnvironment env origin id.name = id.name := by
        simpa [isRenamed] using hr
      rw [List.flatMap_singleton, Item.exports_of_not_isExportList rfl]
      exact directExports_rename _ hsame
    · exact exports_promote _ origin rfl hnamed (by simp)
  | exportDefaultDecl d =>
    simp only [shown, Bool.true_and]
    split
    · rename_i hr
      have hsame : ∀ id ∈ d.ident?.toList, Rename.ofEnvironment env origin id.name = id.name := by
        simpa [isRenamed] using hr
      rw [List.flatMap_singleton, Item.exports_of_not_isExportList rfl]
      exact directExports_rename _ hsame
    · exact exports_promote _ origin rfl hnamed (by simp)
  | exportDefaultExpr e =>
    rw [shown, if_pos rfl, List.flatMap_singleton, Item.exports_of_not_isExportList rfl]
    exact directExports_rename _ (by simp [Item.declared])
  | importEquals d =>
    rw [shown, if_pos rfl, List.flatMap_singleton, Item.exports_of_not_isExportList rfl]
    cases he : d.isExport with
    | false => simp [Item.rename, Item.directExports, Item.ownExports, he]
    | true =>
      simp [Item.rename, Item.directExports, Item.ownExports, he, renameExport, Ident.bound,
        Ident.rename, hi d rfl he]
  | exportList d =>
    simp only [shown, Bool.true_and, Item.ownExports]
    cases hsrc : d.src with
    | none =>
      rw [Option.isNone_none, if_pos rfl, List.flatMap_singleton, Option.isSome_none,
        if_neg Bool.false_ne_true]
      exact listExports_rename _ hsrc
    | some src => simp
  | _ => rfl

end Kept

section Repeated

/-- The first export of a name. -/
def firstExport? (es : List (String × Bound)) (name : String) : Option (String × Bound) :=
  es.find? (fun e => e.1 == name)

theorem firstExport?_append (es es' : List (String × Bound)) (name : String) :
    firstExport? (es ++ es') name = (firstExport? es name).or (firstExport? es' name) :=
  List.find?_append

theorem firstExport?_cons (e : String × Bound) (es : List (String × Bound)) (name : String) :
    firstExport? (e :: es) name = if e.1 = name then some e else firstExport? es name := by
  rw [firstExport?, List.find?_cons]
  by_cases h : e.1 = name
  · simp [h]
  · rw [if_neg h, beq_eq_false_iff_ne.2 h]
    rfl

theorem firstExport?_eq_none {es : List (String × Bound)} {name : String} :
    firstExport? es name = none ↔ name ∉ es.map Prod.fst := by
  induction es with
  | nil => simp [firstExport?]
  | cons e es ih =>
    rw [firstExport?_cons, List.map_cons, List.mem_cons, not_or, ← ih]
    by_cases h : e.1 = name
    · simp [h]
    · simp [h, Ne.symm h]

theorem mem_of_firstExport? {es : List (String × Bound)} {name : String} {e : String × Bound}
    (h : firstExport? es name = some e) : e ∈ es ∧ e.1 = name :=
  ⟨List.mem_of_find?_eq_some h, by simpa using List.find?_some h⟩

theorem exists_firstExport? {es : List (String × Bound)} {name : String}
    (h : name ∈ es.map Prod.fst) : ∃ b, firstExport? es name = some (name, b) := by
  cases hf : firstExport? es name with
  | none => exact absurd h (firstExport?_eq_none.1 hf)
  | some e => exact ⟨e.2, congrArg some (Prod.ext (mem_of_firstExport? hf).2 rfl)⟩

variable {names : List String} {e : String × Bound} {src : Option String}

def listExport (src : Option String) (sp : ExportSpecifier) : String × Bound :=
  (exportedName sp, sp.bound src)

theorem mem_newSpecifiers_names {x : String} (ss : List ExportSpecifier) :
    x ∈ (newSpecifiers names ss).2 ↔ x ∈ names ∨ x ∈ (ss.map (listExport src)).map Prod.fst := by
  induction ss generalizing names with
  | nil => simp [newSpecifiers]
  | cons sp ss ih =>
    simp only [newSpecifiers]
    split
    · rename_i hold
      have hold' : exportedName sp ∈ names := by simpa using hold
      rw [ih, List.map_cons, List.map_cons, List.mem_cons]
      constructor
      · tauto
      · rintro (h | h | h)
        · exact Or.inl h
        · exact Or.inl (h ▸ hold')
        · exact Or.inr h
    · rw [ih, List.map_cons, List.map_cons, List.mem_cons, List.mem_cons]
      exact or_left_comm.symm.trans or_assoc.symm |>.symm

/-- Of the specifiers of new names the first of each name is kept. -/
theorem mem_newSpecifiers (ss : List ExportSpecifier) :
    e ∈ (newSpecifiers names ss).1.map (listExport src) ↔
      e.1 ∉ names ∧ firstExport? (ss.map (listExport src)) e.1 = some e := by
  induction ss generalizing names with
  | nil => simp [newSpecifiers, firstExport?]
  | cons sp ss ih =>
    have hcons : firstExport? ((sp :: ss).map (listExport src)) e.1 =
        if exportedName sp = e.1 then some (listExport src sp)
        else firstExport? (ss.map (listExport src)) e.1 :=
      firstExport?_cons _ _ _
    simp only [newSpecifiers]
    split
    · rename_i hold
      have hold' : exportedName sp ∈ names := by simpa using hold
      rw [ih, hcons]
      refine and_congr_right (fun hnew => ?_)
      have hne : exportedName sp ≠ e.1 := by
        intro h
        rw [h] at hold'
        exact hnew hold'
      rw [if_neg hne]
    · rename_i hnew
      have hnew' : exportedName sp ∉ names := by simpa using hnew
      rw [List.map_cons, List.mem_cons, ih, hcons]
      by_cases h : exportedName sp = e.1
      · rw [if_pos h]
        constructor
        · rintro (rfl | ⟨hmem, _⟩)
          · exact ⟨hnew', rfl⟩
          · exact absurd (by simp [h]) hmem
        · rintro ⟨_, he⟩
          exact Or.inl (Option.some.inj he).symm
      · rw [if_neg h]
        constructor
        · rintro (rfl | ⟨hmem, he⟩)
          · exact absurd rfl h
          · exact ⟨fun hold => hmem (by simp [hold]), he⟩
        · rintro ⟨hmem, he⟩
          exact Or.inr ⟨by simpa using ⟨fun h' => h h'.symm, hmem⟩, he⟩

theorem listExports_eq (d : ExportList) :
    (Item.exportList d).listExports =
      d.specifiers.map (listExport (d.src.map StrLit.value)) := rfl

theorem directExports_of_isExportStatement {i : Item} (h : isExportStatement i = true) :
    i.directExports = [] := by
  cases i with
  | exportList d => rfl
  | exportAll d => rfl
  | _ => cases h

theorem directExports_keepNewAll (seen : Exported) (ps : List Piece) :
    (keepNewAll seen ps).flatMap (fun p => p.item.directExports) =
      ps.flatMap (fun p => p.item.directExports) := by
  induction ps generalizing seen with
  | nil => rfl
  | cons p ps ih =>
    rw [keepNewAll, List.flatMap_append, List.flatMap_cons, ih]
    congr 1
    cases he : isExportStatement p.item with
    | false => simp [keepNew_of_not_isExportStatement he]
    | true =>
      rw [directExports_of_isExportStatement he, List.flatMap_eq_nil_iff]
      intro q hq
      obtain ⟨i, hi, rfl⟩ := List.mem_map.1 hq
      rcases mem_keepNew hi with rfl | ⟨_, hi⟩
      · exact directExports_of_isExportStatement he
      · exact directExports_of_isExportStatement hi

/-- An empty export list exports nothing, whether it stays or not. -/
theorem keepNew_of_empty {seen : Exported} {d : ExportList} (h : d.specifiers = []) :
    (keepNew seen (.exportList d)).2.names = seen.names ∧
      ∀ i ∈ (keepNew seen (.exportList d)).1.toList, i = .exportList d := by
  simp only [keepNew, h, List.isEmpty_nil, if_true]
  split
  · simp
  · split <;> simp

/-- Of a statement's export list the specifiers of new names are left. -/
theorem listExports_keepNew (seen : Exported) (i : Item) : ∃ src ss,
    i.listExports = ss.map (listExport src) ∧
      (keepNew seen i).1.toList.flatMap Item.listExports =
        (newSpecifiers seen.names ss).1.map (listExport src) ∧
      (keepNew seen i).2.names = (newSpecifiers seen.names ss).2 := by
  have hquiet : i.listExports = [] → (keepNew seen i).2.names = seen.names →
      (∀ j ∈ (keepNew seen i).1.toList, j.listExports = []) → ∃ src ss,
        i.listExports = ss.map (listExport src) ∧
          (keepNew seen i).1.toList.flatMap Item.listExports =
            (newSpecifiers seen.names ss).1.map (listExport src) ∧
          (keepNew seen i).2.names = (newSpecifiers seen.names ss).2 :=
    fun hi hnames hkept => ⟨none, [], hi, List.flatMap_eq_nil_iff.2 hkept, hnames⟩
  cases i with
  | exportList d =>
    by_cases hempty : d.specifiers = []
    · have hl : (Item.exportList d).listExports = [] := by simp [listExports_eq, hempty]
      obtain ⟨hnames, hkept⟩ := @keepNew_of_empty seen d hempty
      exact hquiet hl hnames (fun j hj => by rw [hkept j hj, hl])
    · refine ⟨d.src.map StrLit.value, d.specifiers, rfl, ?_, ?_⟩
      · simp only [keepNew, List.isEmpty_iff, hempty, if_false]
        split
        · rename_i hnil
          simp [hnil]
        · simp [listExports_eq]
      · simp only [keepNew, List.isEmpty_iff, hempty, if_false]
  | exportAll d =>
    refine hquiet rfl ?_ ?_ <;> rw [keepNew] <;> split <;> simp [Item.listExports]
  | _ =>
    refine hquiet rfl rfl (fun j hj => ?_)
    rw [List.mem_singleton.1 hj]
    rfl

/-- Behind names that are exported already, an export by a list stays if it is the first of its
name and the name is new. -/
theorem mem_listExports_keepNewAll (seen : Exported) (ps : List Piece) :
    e ∈ (keepNewAll seen ps).flatMap (fun p => p.item.listExports) ↔
      e.1 ∉ seen.names ∧ firstExport? (ps.flatMap (fun p => p.item.listExports)) e.1 = some e := by
  induction ps generalizing seen with
  | nil => simp [keepNewAll, firstExport?]
  | cons p ps ih =>
    obtain ⟨src, ss, hi, hkept, hnames⟩ := listExports_keepNew seen p.item
    rw [keepNewAll, List.flatMap_append, List.flatMap_map, hkept, List.mem_append, ih, hnames,
      mem_newSpecifiers, @mem_newSpecifiers_names _ src, List.flatMap_cons, hi, firstExport?_append]
    generalize ss.map (listExport src) = es
    cases hf : firstExport? es e.1 with
    | none =>
      have hmem := firstExport?_eq_none.1 hf
      simp [hmem]
    | some e' =>
      have hmem : e.1 ∈ es.map Prod.fst := by
        by_contra hn
        rw [firstExport?_eq_none.2 hn] at hf
        cases hf
      simp [hmem]

/-- What statements export with declarations, and by lists. -/
def directExportsOf (is : List Item) : List (String × Bound) := is.flatMap Item.directExports

def listExportsOf (is : List Item) : List (String × Bound) := is.flatMap Item.listExports

@[simp] theorem directExportsOf_append (is js : List Item) :
    directExportsOf (is ++ js) = directExportsOf is ++ directExportsOf js := List.flatMap_append

@[simp] theorem listExportsOf_append (is js : List Item) :
    listExportsOf (is ++ js) = listExportsOf is ++ listExportsOf js := List.flatMap_append

theorem directExportsOf_exports {is : List Item} (h : ∀ i ∈ is, isExportStatement i = true) :
    directExportsOf is = [] :=
  List.flatMap_eq_nil_iff.2 (fun i hi => directExports_of_isExportStatement (h i hi))

/-- What stays when repeated exports are dropped: all that is exported with a declaration, and of
other names what the first list exports. -/
inductive Stays (is : List Item) (e : String × Bound) : Prop where
  | direct (h : e ∈ directExportsOf is)
  | listed (hnew : e.1 ∉ (directExportsOf is).map Prod.fst)
      (h : firstExport? (listExportsOf is) e.1 = some e)

theorem mem_exports_dropRepeatedExports (ps : List Piece) :
    e ∈ (dropRepeatedExports ps).flatMap (fun p => p.item.exports) ↔
      Stays (ps.map Piece.item) e := by
  have hnames : ps.flatMap (fun p => directNames p.item) =
      (directExportsOf (ps.map Piece.item)).map Prod.fst := by
    simp only [directNames_eq, directExportsOf, List.map_flatMap, List.flatMap_map]
  have hsplit : e ∈ (dropRepeatedExports ps).flatMap (fun p => p.item.exports) ↔
      e ∈ (dropRepeatedExports ps).flatMap (fun p => p.item.directExports) ∨
        e ∈ (dropRepeatedExports ps).flatMap (fun p => p.item.listExports) := by
    simp only [Item.exports, List.mem_flatMap, List.mem_append, and_or_left, exists_or]
  have hdirect : ps.flatMap (fun p => p.item.directExports) =
      directExportsOf (ps.map Piece.item) := by
    rw [directExportsOf, List.flatMap_map]
  have hlisted : ps.flatMap (fun p => p.item.listExports) = listExportsOf (ps.map Piece.item) := by
    rw [listExportsOf, List.flatMap_map]
  rw [hsplit, dropRepeatedExports, directExports_keepNewAll, mem_listExports_keepNewAll, hnames,
    hdirect, hlisted]
  constructor
  · rintro (h | ⟨hnew, h⟩)
    · exact .direct h
    · exact .listed hnew h
  · rintro (h | ⟨hnew, h⟩)
    · exact Or.inl h
    · exact Or.inr ⟨hnew, h⟩

/-- Dropping repeated exports drops no name. -/
theorem exists_stays {is : List Item} {name : String}
    (h : name ∈ (directExportsOf is).map Prod.fst ∨ name ∈ (listExportsOf is).map Prod.fst) :
    ∃ b, Stays is (name, b) := by
  by_cases hd : name ∈ (directExportsOf is).map Prod.fst
  · obtain ⟨⟨_, b⟩, he, rfl⟩ := List.mem_map.1 hd
    exact ⟨b, .direct he⟩
  · obtain ⟨b, hb⟩ := exists_firstExport? (h.resolve_left hd)
    exact ⟨b, .listed hd hb⟩

end Repeated

end Merge

end AmbientBundle
