import AmbientBundle.Merge.Inline
import AmbientBundle.Proofs.Declare
/-!
The names that statements bind. Renaming a statement renames them, linking import types keeps
them, and what is shown of a statement in a chunk declares what the statement declares.
-/
namespace AmbientBundle.Syntax

open Rename

def ImportSpecifier.loc : ImportSpecifier → String
  | .named _ loc _ => loc
  | .default loc => loc
  | .all loc => loc

/-- The locals of an import declaration. -/
def Item.locals : Item → List String
  | .importDecl d => d.specifiers.map ImportSpecifier.loc
  | _ => []

/-- The names that a statement binds where it stands. -/
def Item.binds (i : Item) : List String := i.declared.map Ident.name ++ i.locals

theorem flatMap_binds (is : List Item) (h : is.flatMap Item.locals = []) :
    is.flatMap Item.binds = (is.flatMap Item.declared).map Ident.name := by
  induction is with
  | nil => rfl
  | cons i is ih =>
    rw [List.flatMap_cons, List.append_eq_nil_iff] at h
    simp [Item.binds, h.1, ih h.2]

section Rename

variable (ρ : Renaming)

mutual

theorem Pat.bound_rename (p : Pat) : (p.rename ρ true).bound = p.bound.map (Ident.rename ρ) := by
  cases p with
  | ident id isOptional ann => rfl
  | hole => rfl
  | array elems isOptional ann => simp [Pat.rename, Pat.bound, patsBound_rename elems]
  | object fields isOptional ann => simp [Pat.rename, Pat.bound, fieldsBound_rename fields]
  | rest arg ann => simp [Pat.rename, Pat.bound, Pat.bound_rename arg]
  | assign left right => simp [Pat.rename, Pat.bound, Pat.bound_rename left]

theorem patsBound_rename (ps : List Pat) :
    patsBound (renamePats ρ true ps) = (patsBound ps).map (Ident.rename ρ) := by
  cases ps with
  | nil => rfl
  | cons p ps => simp [renamePats, patsBound, Pat.bound_rename p, patsBound_rename ps]

theorem Field.bound_rename (f : Field) :
    (f.rename ρ true).bound = f.bound.map (Ident.rename ρ) := by
  cases f with
  | keyed key value => simp [Field.rename, Field.bound, Pat.bound_rename value]
  | short id default => rfl
  | rest arg => simp [Field.rename, Field.bound, Pat.bound_rename arg]

theorem fieldsBound_rename (fs : List Field) :
    fieldsBound (renameFields ρ true fs) = (fieldsBound fs).map (Ident.rename ρ) := by
  cases fs with
  | nil => rfl
  | cons f fs => simp [renameFields, fieldsBound, Field.bound_rename f, fieldsBound_rename fs]

end

theorem declarators_bound_rename (ds : List Declarator) :
    (ds.map (Declarator.rename ρ)).flatMap (fun d => d.pat.bound) =
      (ds.flatMap (fun d => d.pat.bound)).map (Ident.rename ρ) := by
  induction ds with
  | nil => rfl
  | cons d ds ih =>
    simp only [List.map_cons, List.flatMap_cons, List.map_append, ih]
    rw [Declarator.rename, Pat.bound_rename]

theorem Decl.bound_rename (d : Decl) : (d.rename ρ).bound = d.bound.map (Ident.rename ρ) := by
  cases d with
  | cls id declare body => rfl
  | func id declare body => rfl
  | var kind declare decls => exact declarators_bound_rename ρ decls
  | resource isAwait decls => exact declarators_bound_rename ρ decls
  | interface body => rfl
  | typeAlias id declare tparams ty => rfl
  | enum id declare isConst members => rfl
  | space declare name inner body => cases name <;> rfl

theorem DefaultName.ident?_rename (n : DefaultName) :
    (n.rename ρ).ident? = n.ident?.map (Ident.rename ρ) := by
  cases n <;> rfl

theorem DefaultDecl.ident?_rename (d : DefaultDecl) :
    (d.rename ρ).ident? = d.ident?.map (Ident.rename ρ) := by
  cases d with
  | cls name body => exact DefaultName.ident?_rename ρ name
  | func name body => exact DefaultName.ident?_rename ρ name
  | interface body => rfl

theorem Item.declared_rename (i : Item) :
    (i.rename ρ).declared = i.declared.map (Ident.rename ρ) := by
  cases i with
  | decl d => exact Decl.bound_rename ρ d
  | exportDecl d => exact Decl.bound_rename ρ d
  | exportDefaultDecl d =>
    simp only [Item.rename, Item.declared, DefaultDecl.ident?_rename]
    cases d.ident? <;> rfl
  | _ => rfl

theorem Item.locals_rename (i : Item) : (i.rename ρ).locals = i.locals := by
  cases i <;> rfl

theorem renameItems_eq_map (is : List Item) : renameItems ρ is = is.map (Item.rename ρ) := by
  induction is with
  | nil => rfl
  | cons i is ih => rw [renameItems, ih, List.map_cons]

end Rename

section Link

open ImportTypes

variable (τ : Targets)

mutual

theorem Pat.bound_link (p : Pat) : (p.link τ).bound = p.bound := by
  cases p with
  | ident id isOptional ann => rfl
  | hole => rfl
  | array elems isOptional ann => simp [Pat.link, Pat.bound, patsBound_link elems]
  | object fields isOptional ann => simp [Pat.link, Pat.bound, fieldsBound_link fields]
  | rest arg ann => simp [Pat.link, Pat.bound, Pat.bound_link arg]
  | assign left right => simp [Pat.link, Pat.bound, Pat.bound_link left]

theorem patsBound_link (ps : List Pat) : patsBound (linkPats τ ps) = patsBound ps := by
  cases ps with
  | nil => rfl
  | cons p ps => simp [linkPats, patsBound, Pat.bound_link p, patsBound_link ps]

theorem Field.bound_link (f : Field) : (f.link τ).bound = f.bound := by
  cases f with
  | keyed key value => simp [Field.link, Field.bound, Pat.bound_link value]
  | short id default => rfl
  | rest arg => simp [Field.link, Field.bound, Pat.bound_link arg]

theorem fieldsBound_link (fs : List Field) : fieldsBound (linkFields τ fs) = fieldsBound fs := by
  cases fs with
  | nil => rfl
  | cons f fs => simp [linkFields, fieldsBound, Field.bound_link f, fieldsBound_link fs]

end

theorem declarators_bound_link (ds : List Declarator) :
    (ds.map (Declarator.link τ)).flatMap (fun d => d.pat.bound) =
      ds.flatMap (fun d => d.pat.bound) := by
  induction ds with
  | nil => rfl
  | cons d ds ih =>
    simp only [List.map_cons, List.flatMap_cons, ih]
    rw [Declarator.link, Pat.bound_link]

theorem Decl.bound_link (d : Decl) : (d.link τ).bound = d.bound := by
  cases d with
  | var kind declare decls => exact declarators_bound_link τ decls
  | resource isAwait decls => exact declarators_bound_link τ decls
  | space declare name inner body => cases name <;> rfl
  | _ => rfl

theorem Item.declared_link (i : Item) : (i.link τ).declared = i.declared := by
  cases i with
  | decl d => exact Decl.bound_link τ d
  | exportDecl d => exact Decl.bound_link τ d
  | exportDefaultDecl d => cases d <;> rfl
  | _ => rfl

theorem Item.locals_link (i : Item) : (i.link τ).locals = i.locals := by
  cases i <;> rfl

theorem linkItems_eq_map (is : List Item) : linkItems τ is = is.map (Item.link τ) := by
  induction is with
  | nil => rfl
  | cons i is ih => rw [linkItems, ih, List.map_cons]

end Link

section Modifier

open Declare

theorem Decl.bound_setModifier (declare : Bool) (d : Decl) :
    (setModifier declare d).bound = d.bound := by
  cases d with
  | space old name inner body => cases name <;> rfl
  | _ => rfl

theorem Decl.bound_ensure (declare : Bool) (d : Decl) : (ensure declare d).bound = d.bound :=
  ensure_keeps (Decl.bound_setModifier declare) d

/-- In a block a declaration loses its modifier: what does not depend on it stays. -/
theorem dropDeclare_keeps {α : Type} (f : Item → α)
    (hdecl : ∀ b d, f (.decl (setModifier b d)) = f (.decl d))
    (hexport : ∀ b d, f (.exportDecl (setModifier b d)) = f (.exportDecl d)) (i : Item) :
    f (Merge.dropDeclare i) = f i :=
  Pass.apply_onItem? f hdecl hexport .drop i

theorem Item.declared_dropDeclare (i : Item) : (Merge.dropDeclare i).declared = i.declared :=
  dropDeclare_keeps Item.declared Decl.bound_setModifier Decl.bound_setModifier i

theorem Item.locals_dropDeclare (i : Item) : (Merge.dropDeclare i).locals = i.locals :=
  dropDeclare_keeps Item.locals (fun _ _ => rfl) (fun _ _ => rfl) i

end Modifier

end AmbientBundle.Syntax

namespace AmbientBundle.Exports

open Syntax

/-- The statement exports what it declares. A declaration that binds nothing exports nothing. -/
def exportsDeclared : Item → Bool
  | .exportDecl d => !d.bound.isEmpty
  | .exportDefaultDecl _ => true
  | .importEquals d => d.isExport
  | _ => false

/-- What promotion makes of a statement: its declaration and an export list that names what is
declared, or the statement alone where it exports nothing that it declares. -/
inductive Promoted (file : Url) : Item → List Item → Prop where
  | decl {d : Decl} (hb : d.bound ≠ []) : Promoted file (.exportDecl d)
    [.decl (Declare.ensure true d), list (d.bound.map (fun id => specifier id.name id.name))]
  | default (d : DefaultDecl) : Promoted file (.exportDefaultDecl d)
    [.decl (plainDefault file d), list [specifier (defaultIdent file d).name "default"]]
  | importEquals {d : ImportEquals} (he : d.isExport = true) : Promoted file (.importEquals d)
    [.importEquals { d with isExport := false }, list [specifier d.id.name d.id.name]]
  | same {i : Item} (h : exportsDeclared i = false) : Promoted file i [i]

theorem nodes_promote_default (file : Url) (d : DefaultDecl) :
    (promote file (.exportDefaultDecl d)).nodes (.exportDefaultDecl d) =
      [.decl (plainDefault file d), list [specifier (defaultIdent file d).name "default"]] :=
  rfl

theorem promoted_nodes (file : Url) (i : Item) : Promoted file i ((promote file i).nodes i) := by
  cases i with
  | exportDecl d =>
    by_cases hb : d.bound = []
    · simp only [promote, hb, List.isEmpty_nil, if_true]
      exact .same (by simp [exportsDeclared, hb])
    · simp only [promote, List.isEmpty_iff, hb, if_false]
      exact .decl hb
  | exportDefaultDecl d => exact .default d
  | importEquals d =>
    cases he : d.isExport with
    | true =>
      simp only [promote, he, if_true]
      exact .importEquals he
    | false =>
      simp only [promote, he, Bool.false_eq_true, if_false]
      exact .same he
  | _ => exact .same rfl

/-- The identifiers under which a file knows what a statement declares. -/
def knownAs (file : Url) : Item → List Ident
  | .exportDefaultDecl d => [defaultIdent file d]
  | i => i.declared

variable {file : Url} {i : Item} {nodes : List Item}

theorem bound_plainDefault (file : Url) (d : DefaultDecl) :
    (plainDefault file d).bound = [defaultIdent file d] := by
  cases d <;> rfl

theorem Promoted.declared (h : Promoted file i nodes) :
    nodes.flatMap Item.declared = knownAs file i := by
  cases h with
  | decl hb => simp [knownAs, list, Item.declared, Decl.bound_ensure]
  | default d => simp [knownAs, list, Item.declared, bound_plainDefault]
  | importEquals he => rfl
  | same hi =>
    cases i with
    | exportDefaultDecl d => cases hi
    | _ => simp [knownAs]

theorem knownAs_of_named (file : Url) (h : isAnonymousDefault i = false) :
    knownAs file i = i.declared := by
  cases i with
  | exportDefaultDecl d =>
    cases d with
    | cls name body =>
      cases name with
      | named id => rfl
      | anonymous start => cases h
    | func name body =>
      cases name with
      | named id => rfl
      | anonymous start => cases h
    | interface body => rfl
  | _ => rfl

end AmbientBundle.Exports

namespace AmbientBundle.Merge

open Syntax

theorem declared_plain (inBlock : Bool) (items : List Item) :
    (plain inBlock items).flatMap Item.declared = items.flatMap Item.declared := by
  unfold plain
  split
  · simp [List.flatMap_map, Item.declared_dropDeclare]
  · rfl

theorem declared_filter_isExportList (items : List Item) :
    (items.filter (fun n => !isExportList n)).flatMap Item.declared =
      items.flatMap Item.declared := by
  induction items with
  | nil => rfl
  | cons i items ih =>
    rw [List.filter_cons]
    split
    · rw [List.flatMap_cons, List.flatMap_cons, ih]
    · rename_i h
      rw [List.flatMap_cons, ih]
      cases i with
      | exportList d => rfl
      | _ => exact absurd rfl h

theorem declared_promote (origin : Url) {i : Item} (h : Exports.isAnonymousDefault i = false) :
    ((Exports.promote origin i).nodes i).flatMap Item.declared = i.declared :=
  (Exports.promoted_nodes origin i).declared.trans (Exports.knownAs_of_named origin h)

theorem declared_promoted (origin : Url) (keep : Bool) {i : Item}
    (h : Exports.isAnonymousDefault i = false) :
    (promoted origin keep i).flatMap Item.declared = i.declared := by
  unfold promoted
  split
  · exact declared_promote origin h
  · rw [declared_filter_isExportList, declared_promote origin h]

/-- What a chunk shows of a statement declares what the statement declares. -/
theorem declared_shown (cx : Context) (origin : Url) (inBlock keep : Bool) (env : Environment)
    {i : Item} (h : Exports.isAnonymousDefault i = false) :
    (shown cx origin inBlock keep env i).flatMap Item.declared = i.declared := by
  cases i with
  | exportDecl d =>
    simp only [shown]
    split
    · simp
    · rw [declared_plain, declared_promoted origin keep h]
  | exportDefaultDecl d =>
    simp only [shown]
    split
    · simp
    · rw [declared_plain, declared_promoted origin keep h]
  | importEquals d =>
    simp only [shown]
    split
    · simp [Item.declared]
    · rw [declared_plain, declared_promoted origin false rfl]
      rfl
  | importDecl d => rfl
  | exportAll d => rfl
  | exportDefaultExpr e => cases keep <;> rfl
  | exportList d =>
    simp only [shown]
    split <;> simp [Item.declared]
  | exportAssign e => cases keep <;> rfl
  | exportAsNamespace name => cases keep <;> rfl
  | _ => simp [shown, declared_plain]

theorem locals_plain (inBlock : Bool) (items : List Item) :
    (plain inBlock items).flatMap Item.locals = items.flatMap Item.locals := by
  unfold plain
  split
  · simp [List.flatMap_map, Item.locals_dropDeclare]
  · rfl

theorem locals_promoted (origin : Url) (keep : Bool) {i : Item} (h : i.locals = []) :
    (promoted origin keep i).flatMap Item.locals = [] := by
  have hp : ∀ j ∈ (Exports.promote origin i).nodes i, j.locals = [] := by
    have hnodes := Exports.promoted_nodes origin i
    generalize (Exports.promote origin i).nodes i = nodes at hnodes ⊢
    cases hnodes with
    | same hi => simpa using h
    | _ => simp [Item.locals, Exports.list]
  unfold promoted
  split
  · exact List.flatMap_eq_nil_iff.2 hp
  · exact List.flatMap_eq_nil_iff.2 (fun j hj => hp j (List.mem_filter.1 hj).1)

/-- What a chunk shows of a statement is no import declaration. -/
theorem locals_shown (cx : Context) (origin : Url) (inBlock keep : Bool) (env : Environment)
    (i : Item) : (shown cx origin inBlock keep env i).flatMap Item.locals = [] := by
  cases i with
  | exportDecl d =>
    simp only [shown]
    split
    · rfl
    · rw [locals_plain, locals_promoted origin keep rfl]
  | exportDefaultDecl d =>
    simp only [shown]
    split
    · rfl
    · rw [locals_plain, locals_promoted origin keep rfl]
  | importEquals d =>
    simp only [shown]
    split
    · rfl
    · rw [locals_plain, locals_promoted origin false rfl]
  | exportDefaultExpr e => cases keep <;> rfl
  | exportList d =>
    simp only [shown]
    split <;> rfl
  | exportAssign e => cases keep <;> rfl
  | exportAsNamespace name => cases keep <;> rfl
  | importDecl d => rfl
  | exportAll d => rfl
  | _ => simp [shown, locals_plain, Item.locals]

/-- What stands for a statement imports nothing. -/
theorem locals_printed (cx : Context) (origin : Url) (inBlock keep : Bool) (env : Environment)
    (ρ : Rename.Renaming) (τ : ImportTypes.Targets) (i : Item) :
    (linkItems τ (renameItems ρ (shown cx origin inBlock keep env i))).flatMap Item.locals = [] := by
  rw [linkItems_eq_map, renameItems_eq_map, List.flatMap_map, List.flatMap_map]
  simp only [Item.locals_link, Item.locals_rename]
  exact locals_shown cx origin inBlock keep env i

/-- Under final names a statement binds the final names of what it declares. -/
theorem binds_printed (cx : Context) (origin : Url) (inBlock keep : Bool) (env : Environment)
    (ρ : Rename.Renaming) (τ : ImportTypes.Targets) {i : Item}
    (h : Exports.isAnonymousDefault i = false) :
    (linkItems τ (renameItems ρ (shown cx origin inBlock keep env i))).flatMap Item.binds =
      i.declared.map (fun id => ρ id.name) := by
  rw [flatMap_binds _ (locals_printed cx origin inBlock keep env ρ τ i)]
  rw [linkItems_eq_map, renameItems_eq_map, List.flatMap_map, List.flatMap_map]
  simp only [Item.declared_link, Item.declared_rename]
  rw [← List.map_flatMap, declared_shown cx origin inBlock keep env h, List.map_map]
  rfl

end AmbientBundle.Merge
