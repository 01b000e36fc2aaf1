import AmbientBundle.Proofs.Merge.Shown
import AmbientBundle.Proofs.Names.Legal
import AmbientBundle.Proofs.Syntax.Identifiers
/-!
The names that the files of a chunk hand to merging: their identifiers, the strings that name what
they import or export, and what the names of files make.
-/
namespace AmbientBundle

open Syntax ImportTypes Names

namespace Merge.Context

/-- The names of the identifiers of a file. -/
def identifiers (cx : Context) (file : Url) : List String :=
  match cx.files.get? file with
  | some m => m.body.flatMap Item.identifiers
  | none => []

/-- The names that a file imports or exports as strings. -/
def quoted (cx : Context) (file : Url) : List String :=
  match cx.files.get? file with
  | some m => m.body.flatMap Item.quoted
  | none => []

/-- A name of the file: of one of its identifiers, or made for a nameless default export. -/
def OwnName (cx : Context) (file : Url) (x : String) : Prop :=
  x ∈ cx.identifiers file ∨ ∃ kind, x = Exports.defaultName file kind

/-- Where a name comes from that merging hands on. -/
inductive Source (cx : Context) : String → Prop where
  | own {g : Url} {x : String} (hg : cx.HasFile g) (hx : cx.OwnName g x) : Source cx x
  | quoted {g : Url} {x : String} (hg : cx.HasFile g) (hx : x ∈ cx.quoted g) : Source cx x
  | default : Source cx "default"
  | space (g : Url) : Source cx (spaceName g)

end Merge.Context

namespace Merge

variable {cx : Context} {g : Url} {i j : Item} {x : String}

/-- A statement holds nothing but names of the file. -/
structure Spelled (cx : Context) (g : Url) (i : Item) : Prop where
  identifiers : ∀ x ∈ i.identifiers, cx.OwnName g x ∨ x = "default"
  declared : ∀ id ∈ i.declared, cx.OwnName g id.name
  quoted : ∀ x ∈ i.quoted, x ∈ cx.quoted g

section Lists

theorem occurrences_specifier {a : Rename.Place} {name exported : String} {o : Rename.Occurrence}
    (ho : o ∈ (Exports.specifier name exported).occurrences a) : o.name = name ∨ o.name = exported := by
  unfold Exports.specifier at ho
  rcases List.mem_cons.1 ho with rfl | ho
  · exact Or.inl rfl
  · split at ho
    · rw [List.mem_singleton.1 ho]
      exact Or.inl rfl
    · rw [List.mem_singleton.1 ho]
      exact Or.inr rfl

/-- An export list has the names of its specifiers, whether or not it exports from a module. -/
theorem mem_identifiers_exportList {d : ExportList} : x ∈ (Item.exportList d).identifiers ↔
    ∃ sp ∈ d.specifiers, ∃ o ∈ sp.occurrences .top, o.name = x := by
  have hnone : ∀ key ∈ (Item.exportList d).collect pickKey, key.head ≠ some x := by
    intro key hkey
    cases hkey
  rw [Item.mem_identifiers]
  refine ⟨fun h => ?_, fun ⟨sp, hsp, o, ho, hx⟩ => Or.inl ?_⟩
  · obtain ⟨o, ho, rfl⟩ := h.resolve_right (fun ⟨key, hkey, hx⟩ => hnone key hkey hx)
    simp only [Item.occurrences, ExportList.occurrences] at ho
    split at ho
    · obtain ⟨o', ho', rfl⟩ := List.mem_map.1 ho
      obtain ⟨sp, hsp, hmem⟩ := List.mem_flatMap.1 ho'
      exact ⟨sp, hsp, o', hmem, rfl⟩
    · obtain ⟨sp, hsp, hmem⟩ := List.mem_flatMap.1 ho
      exact ⟨sp, hsp, o, hmem, rfl⟩
  · have hmem : o ∈ d.specifiers.flatMap (ExportSpecifier.occurrences .top) :=
      List.mem_flatMap.2 ⟨sp, hsp, ho⟩
    simp only [Item.occurrences, ExportList.occurrences]
    split
    · exact ⟨_, List.mem_map_of_mem hmem, hx⟩
    · exact ⟨o, hmem, hx⟩

end Lists

/-- A default export as a declaration has its identifiers, and a name if it had none. -/
theorem mem_identifiers_plainDefault {d : DefaultDecl}
    (hx : x ∈ (Item.decl (Exports.plainDefault g d)).identifiers) :
    x ∈ (Item.exportDefaultDecl d).identifiers ∨ x = (Exports.defaultIdent g d).name := by
  rcases Item.mem_identifiers.1 hx with ⟨o, ho, rfl⟩ | ⟨key, hkey, hhead⟩
  · simp only [Item.occurrences] at ho
    have hrest (h : o ∈ d.occurrences .top) : o.name ∈ (Item.exportDefaultDecl d).identifiers :=
      Item.mem_identifiers.2 (Or.inl ⟨o, h, rfl⟩)
    cases d with
    | cls name body =>
      rcases List.mem_cons.1 ho with rfl | ho
      · exact Or.inr rfl
      · exact Or.inl (hrest (List.mem_append_right _ ho))
    | func name body =>
      rcases List.mem_cons.1 ho with rfl | ho
      · exact Or.inr rfl
      · exact Or.inl (hrest (List.mem_append_right _ ho))
    | interface body => exact Or.inl (hrest ho)
  · rw [Item.collect, keys_plainDefault] at hkey
    exact Or.inl (Item.mem_identifiers.2 (Or.inr ⟨key, hkey, hhead⟩))

namespace Spelled

theorem of_file {m : Module} (hm : cx.files.get? g = some m) (hi : i ∈ m.body) :
    Spelled cx g i := by
  have hids : ∀ x ∈ i.identifiers, x ∈ cx.identifiers g := by
    intro x hx
    rw [Context.identifiers, hm]
    exact List.mem_flatMap.2 ⟨i, hi, hx⟩
  refine ⟨fun x hx => Or.inl (Or.inl (hids x hx)), fun id hid => Or.inl (hids _ ?_), fun x hx => ?_⟩
  · exact Item.name_declared hid
  · rw [Context.quoted, hm]
    exact List.mem_flatMap.2 ⟨i, hi, hx⟩

/-- Neither the modifier of a declaration nor `export` counts. -/
theorem ensure (isExport isExport' : Bool) {d : Decl} {declare : Bool}
    (h : Spelled cx g (.ofDecl isExport d)) :
    Spelled cx g (.ofDecl isExport' (Declare.ensure declare d)) := by
  refine ⟨fun x hx => h.identifiers x ?_, fun id hid => h.declared id ?_, fun x hx => ?_⟩
  · rwa [Item.identifiers_ensure isExport] at hx
  · have hbound : id ∈ (Declare.ensure declare d).bound := by
      cases isExport' <;> exact hid
    rw [Decl.bound_ensure] at hbound
    cases isExport <;> exact hbound
  · cases isExport' <;> cases hx

theorem onItem? (h : Spelled cx g i) (p : Declare.Pass) : Spelled cx g ((p.onItem? i).getD i) := by
  cases i with
  | decl d =>
    rw [Declare.Pass.decl_onItem?]
    exact Spelled.ensure false false h
  | exportDecl d =>
    cases p with
    | add => exact h
    | drop =>
      rw [Declare.Pass.exportDecl_onItem?]
      exact Spelled.ensure true true h
  | _ => cases p <;> exact h

/-- A list that exports names of the file. -/
theorem list {specifiers : List ExportSpecifier} (h : ∀ sp ∈ specifiers, ∃ name exported,
    cx.OwnName g name ∧ (cx.OwnName g exported ∨ exported = "default") ∧
      sp = Exports.specifier name exported) : Spelled cx g (Exports.list specifiers) := by
  refine ⟨fun x hx => ?_, fun id hid => (by cases hid), fun x hx => ?_⟩
  · obtain ⟨sp, hsp, o, ho, rfl⟩ := mem_identifiers_exportList.1 hx
    obtain ⟨name, exported, hname, hexported, rfl⟩ := h sp hsp
    rcases occurrences_specifier ho with hx | hx
    · exact hx ▸ Or.inl hname
    · exact hx ▸ hexported
  · obtain ⟨sp, hsp, hx⟩ := List.mem_flatMap.1 hx
    obtain ⟨name, exported, -, -, rfl⟩ := h sp hsp
    simp only [Exports.specifier, ExportSpecifier.quoted] at hx
    split at hx <;> simp [ExportName.quoted] at hx

theorem listDeclared (ids : List Ident) (h : ∀ id ∈ ids, cx.OwnName g id.name) :
    Spelled cx g (Exports.list (ids.map (fun id => Exports.specifier id.name id.name))) := by
  refine .list (fun sp hsp => ?_)
  obtain ⟨id, hid, rfl⟩ := List.mem_map.1 hsp
  exact ⟨id.name, id.name, h id hid, Or.inl (h id hid), rfl⟩

section Default

variable {d : DefaultDecl}

theorem defaultIdent (h : Spelled cx g (.exportDefaultDecl d)) :
    cx.OwnName g (Exports.defaultIdent g d).name := by
  have hname (name : DefaultName) (kind : Exports.DefaultKind)
      (hids : name.ident? = d.ident?) : cx.OwnName g (Exports.identOf g kind name).name := by
    cases name with
    | named id =>
      refine h.declared id ?_
      rw [Item.declared, ← hids]
      exact List.mem_singleton_self _
    | anonymous start => exact Or.inr ⟨kind, rfl⟩
  cases d with
  | cls name body => exact hname name .cls rfl
  | func name body => exact hname name .func rfl
  | interface body => exact h.declared body.id (List.mem_singleton_self _)

theorem listDefault (h : Spelled cx g (.exportDefaultDecl d)) :
    Spelled cx g (Exports.list [Exports.specifier (Exports.defaultIdent g d).name "default"]) := by
  refine .list (fun sp hsp => ?_)
  exact ⟨_, _, h.defaultIdent, Or.inr rfl, List.mem_singleton.1 hsp⟩

/-- The declaration holds the identifiers of the default export, with its name if it had none. -/
theorem plainDefault (h : Spelled cx g (.exportDefaultDecl d)) :
    Spelled cx g (.decl (Exports.plainDefault g d)) := by
  have hown := h.defaultIdent
  refine ⟨fun x hx => ?_, fun id hid => ?_, fun x hx => (by cases hx)⟩
  · rcases mem_identifiers_plainDefault hx with hx | rfl
    · exact h.identifiers x hx
    · exact Or.inl hown
  · cases d with
    | cls name body => exact List.mem_singleton.1 hid ▸ hown
    | func name body => exact List.mem_singleton.1 hid ▸ hown
    | interface body => exact List.mem_singleton.1 hid ▸ hown

end Default

/-- What stands for a statement whose nameless default export is named. -/
theorem nameDefaults {is : List Item} (h : ∀ i ∈ is, Spelled cx g i) :
    ∀ j ∈ Merge.nameDefaults g is, Spelled cx g j := by
  intro j hj
  obtain ⟨i, hi, hij⟩ := List.mem_flatMap.1 hj
  split at hij
  · rename_i hanonymous
    cases i with
    | exportDefaultDecl d =>
      rw [Exports.nodes_promote_default, List.mem_pair] at hij
      rcases hij with rfl | rfl
      · exact (h _ hi).plainDefault
      · exact (h _ hi).listDefault
    | _ => cases hanonymous
  · exact List.mem_singleton.1 hij ▸ h i hi

theorem body (hi : i ∈ cx.body g) : Spelled cx g i := by
  unfold Context.body at hi
  cases hm : cx.files.get? g with
  | none => simp [hm] at hi
  | some m =>
    simp only [hm] at hi
    -- The passes keep what is spelled, one after the other.
    have hpasses (ps : List Declare.Pass) : ∀ m : Module, (∀ i ∈ m.body, Spelled cx g i) →
        ∀ i ∈ (ps.foldl (fun m p => p.run m) m).body, Spelled cx g i := by
      induction ps with
      | nil => exact fun m h => h
      | cons p ps ih =>
        refine fun m h => ih (p.run m) (fun i hi => ?_)
        rw [Declare.Pass.body_run] at hi
        obtain ⟨j, hj, rfl⟩ := List.mem_map.1 hi
        exact (h j hj).onItem? p
    exact nameDefaults (hpasses cx.passes m (fun i hi => of_file hm hi)) i hi

/-- An `import x = require` holds its local only, be it as an import or as an export. -/
theorem splitImport (h : Spelled cx g i) :
    (∀ d ∈ (Merge.splitImport cx g i).1, Spelled cx g (.importDecl d)) ∧
      ∀ j ∈ (Merge.splitImport cx g i).2, Spelled cx g j := by
  have hsame : (∀ d ∈ ([] : List ImportDecl), Spelled cx g (.importDecl d)) ∧
      ∀ j ∈ [i], Spelled cx g j :=
    ⟨fun _ hd => (by cases hd), fun j hj => List.mem_singleton.1 hj ▸ h⟩
  cases i with
  | importDecl d => exact ⟨fun e he => List.mem_singleton.1 he ▸ h, fun _ hj => (by cases hj)⟩
  | importEquals d =>
    have hown : cx.OwnName g d.id.name := h.declared d.id (List.mem_singleton_self _)
    simp only [Merge.splitImport]
    split
    · refine ⟨fun e he => ?_, fun j hj => ?_⟩
      · obtain rfl := List.mem_singleton.1 he
        refine ⟨fun x hx => ?_, fun id hid => (by cases hid), fun x hx => (by cases hx)⟩
        obtain rfl : x = d.id.name := by
          simpa [Item.identifiers, Item.occurrences, requireAsImport, ImportSpecifier.occurrences,
            Item.collect] using hx
        exact Or.inl hown
      · split at hj
        · rw [List.mem_singleton.1 hj]
          exact .listDeclared [d.id] (fun id hid => List.mem_singleton.1 hid ▸ hown)
        · cases hj
    · exact hsame
  | _ => exact hsame

theorem statements (hi : i ∈ cx.statements g) : Spelled cx g i := by
  obtain ⟨j, hj, hij⟩ := List.mem_flatMap.1 hi
  exact (Spelled.body hj).splitImport.2 i hij

theorem imports {d : ImportDecl} (hd : d ∈ cx.imports g) : Spelled cx g (.importDecl d) := by
  obtain ⟨j, hj, hdj⟩ := List.mem_flatMap.1 hd
  exact (Spelled.body hj).splitImport.1 d hdj

/-- What a chunk shows of a statement holds names of the file. -/
theorem shownAs {inBlock keep : Bool} (h : Spelled cx g i) (hj : ShownAs cx g inBlock keep i j) :
    Spelled cx g j := by
  cases hj with
  | same => exact h
  | declared => exact Spelled.ensure _ _ h
  | byDefault => exact Spelled.ensure false false h.plainDefault
  | @equals d e hid ht =>
    have htarget : e.target.occurrences .top = d.target.occurrences .top := by
      rw [ht]
      cases d.target <;> rfl
    have hsame : (Item.importEquals e).identifiers = (Item.importEquals d).identifiers := by
      simp only [Item.identifiers, Item.occurrences, hid, htarget, Item.collect]
    refine ⟨fun x hx => h.identifiers x (hsame ▸ hx), fun id hid' => h.declared id ?_,
      fun x hx => (by cases hx)⟩
    simpa [Item.declared, hid] using hid'
  | listed => exact .listDeclared _ h.declared
  | listedDefault => exact h.listDefault

end Spelled

section Written

/-- A name that a statement of a file has, as an identifier or as a string, has its source there. -/
theorem Spelled.source (h : Spelled cx g i) (hg : cx.HasFile g)
    (hx : x ∈ i.identifiers ∨ x ∈ i.quoted) : cx.Source x := by
  rcases hx with hx | hx
  · rcases h.identifiers x hx with hown | rfl
    · exact .own hg hown
    · exact .default
  · exact .quoted hg (h.quoted x hx)

theorem Spelled.source_exportList {d : ExportList} {sp : ExportSpecifier}
    (h : Spelled cx g (.exportList d)) (hg : cx.HasFile g) (hsp : sp ∈ d.specifiers)
    (hx : sp.Holds x) : cx.Source x :=
  h.source hg (hx.imp (fun hname => mem_identifiers_exportList.2 ⟨sp, hsp, hname⟩)
    (fun hquoted => List.mem_flatMap.2 ⟨sp, hsp, hquoted⟩))

theorem Spelled.source_importDecl {d : ImportDecl} {sp : ImportSpecifier}
    (h : Spelled cx g (.importDecl d)) (hg : cx.HasFile g) (hsp : sp ∈ d.specifiers)
    (hx : sp.Holds x) : cx.Source x := by
  rcases hx with ⟨o, ho, hname⟩ | hquoted
  · have hmem := List.mem_flatMap.2 ⟨sp, hsp, ho⟩
    exact h.source hg (Or.inl (Item.mem_identifiers.2 (Or.inl ⟨o, hmem, hname⟩)))
  · exact h.source hg (Or.inr (List.mem_flatMap.2 ⟨sp, hsp, hquoted⟩))

/-- What a statement exports has names of the file, and behind `from` it is asked for by one. -/
theorem Spelled.source_ofItem {s : ExportedSymbol} (h : Spelled cx g i) (hg : cx.HasFile g)
    (hs : s ∈ Exports.ofItem g i) : (∀ name, s.exportedName? = some name → cx.Source name) ∧
      ∀ name property src id, s = .named name property (some src) id → cx.Source property := by
  have hident {id : Ident} {name : String} (hid : cx.Source name)
      (hs : s = Exports.ofIdent g name id) :
      (∀ name, s.exportedName? = some name → cx.Source name) ∧
        ∀ name property src id, s = .named name property (some src) id → cx.Source property := by
    subst hs
    exact ⟨fun _ hn => Option.some.inj hn ▸ hid, fun _ _ _ _ he => (by cases he)⟩
  cases i with
  | exportAll d =>
    obtain rfl := List.mem_singleton.1 hs
    exact ⟨fun _ hn => (by cases hn), fun _ _ _ _ he => (by cases he)⟩
  | exportList d =>
    obtain ⟨sp, hsp, hof⟩ := List.mem_filterMap.1 hs
    cases sp with
    | named orig exported typeOnly =>
      obtain rfl := Option.some.inj hof
      refine ⟨fun _ hn => ?_, fun _ _ _ _ he => ?_⟩
      · obtain rfl := Option.some.inj hn
        exact h.source_exportList hg hsp
          (ExportSpecifier.holds_exported orig exported typeOnly)
      · obtain ⟨-, rfl, -, -⟩ := ExportedSymbol.named.inj he
        exact h.source_exportList hg hsp (ExportSpecifier.holds_orig orig exported typeOnly)
    | all name =>
      obtain ⟨src, -, rfl⟩ := Option.map_eq_some_iff.1 hof
      refine ⟨fun _ hn => ?_, fun _ _ _ _ he => (by cases he)⟩
      obtain rfl := Option.some.inj hn
      exact h.source_exportList hg hsp name.text_mem
  | exportDecl d =>
    obtain ⟨id, hid, rfl⟩ := List.mem_map.1 hs
    exact hident (.own hg (h.declared id hid)) rfl
  | exportDefaultDecl d => exact hident .default (List.mem_singleton.1 hs)
  | exportDefaultExpr e =>
    cases e with
    | ident name =>
      obtain rfl := List.mem_singleton.1 hs
      exact ⟨fun _ hn => Option.some.inj hn ▸ .default, fun _ _ _ _ he => (by cases he)⟩
    | _ => cases hs
  | importEquals d =>
    simp only [Exports.ofItem] at hs
    split at hs
    · exact hident (.own hg (h.declared d.id (List.mem_singleton_self _))) (List.mem_singleton.1 hs)
    · cases hs
  | _ => cases hs

theorem source_of_mem_exports {s : ExportedSymbol} (hg : cx.HasFile g) (hs : s ∈ cx.exports g) :
    (∀ name, s.exportedName? = some name → cx.Source name) ∧
      ∀ name property src id, s = .named name property (some src) id → cx.Source property := by
  unfold Context.exports at hs
  cases hm : cx.files.get? g with
  | none => simp [hm] at hs
  | some m =>
    simp only [hm] at hs
    obtain ⟨i, hi, hsi⟩ := List.mem_flatMap.1 hs
    exact (Spelled.of_file hm hi).source_ofItem hg hsi

/-- What an import specifier asks for. -/
theorem holds_of_ofSpecifier {sp : ImportSpecifier} (h : (ofSpecifier sp).2.1 = .named x) :
    sp.Holds x := by
  have htext (name : String) (hname : ImportedName.ofText name = .named x) : x = name := by
    unfold ImportedName.ofText at hname
    split at hname
    · cases hname
    · exact (ImportedName.named.inj hname).symm
  cases sp with
  | named imported loc typeOnly =>
    cases imported with
    | none => exact htext loc h ▸ ImportSpecifier.holds_loc (.named none loc typeOnly)
    | some n => exact htext n.text h ▸ ImportSpecifier.holds_imported n loc typeOnly
  | default loc => cases h
  | all loc => cases h

/-- Every name that a file writes where merging looks has its source. -/
theorem Context.Writes.source {n : String} (h : cx.Writes n) : cx.Source n := by
  cases h with
  | declared hg hid =>
    obtain ⟨i, hi, hid⟩ := List.mem_flatMap.1 hid
    exact .own hg ((Spelled.statements hi).declared _ hid)
  | loc hg hd hsp => exact (Spelled.imports hd).source_importDecl hg hsp (ImportSpecifier.holds_loc _)
  | imported hg hd hsp hn =>
    exact (Spelled.imports hd).source_importDecl hg hsp (holds_of_ofSpecifier hn)
  | exported hg hs hn => exact (source_of_mem_exports hg hs).1 _ hn
  | property hg hs => exact (source_of_mem_exports hg hs).2 _ _ _ _ rfl
  | head hg hkey hhead =>
    obtain ⟨i, hi, hkey⟩ := mem_collectItems.1 hkey
    refine (Spelled.statements hi).source hg (Or.inl ?_)
    exact Item.mem_identifiers.2 (Or.inr ⟨_, hkey, hhead⟩)
  | space => exact .space _

end Written

end Merge

end AmbientBundle
