import AmbientBundle.Proofs.Merge.Context
import AmbientBundle.Proofs.OrderedMap
/-!
The import declarations of a chunk take the symbols that stay and nothing else. They bind the locals
of these to them, each local as often as it is one.
-/
namespace AmbientBundle.Merge

open Syntax

/-- A binding that an import makes: a local for a symbol of a module. Without a symbol the local
stands for the whole module. -/
structure ImportBinding where
  module : String
  symbol : Option String
  loc : String
deriving DecidableEq, Repr

def bindingOf (module : String) (sp : ImportSpecifier) : ImportBinding :=
  ⟨module, (ofSpecifier sp).2.1.text?, sp.loc⟩

def importBindings : Item → List ImportBinding
  | .importDecl d => d.specifiers.map (bindingOf d.src.value)
  | _ => []

/-- All locals of the imports that stay. -/
def localsOf (ps : PreservedImports) : List String := ps.entries.flatMap (fun e => e.2.locals)

/-- The bindings that the imports that stay are to make. -/
def bindingsOf (ps : PreservedImports) : List ImportBinding :=
  ps.entries.flatMap (fun e => e.2.locals.map (ImportBinding.mk e.1.1 e.1.2.text?))

theorem map_loc_bindingsOf (ps : PreservedImports) :
    (bindingsOf ps).map ImportBinding.loc = localsOf ps := by
  simp [bindingsOf, localsOf, List.map_flatMap, Function.comp_def]

section Specifiers

/-- A specifier that imports the symbol. -/
inductive SpecifierOf : ImportedName → ImportSpecifier → Prop where
  | named (name loc : String) : SpecifierOf (.named name) (namedSpecifier name loc)
  | default (loc : String) : SpecifierOf .default (.default loc)
  | secondDefault (loc : String) : SpecifierOf .default (namedSpecifier "default" loc)
  | all (loc : String) : SpecifierOf .all (.all loc)

theorem text?_ofText (name : String) : (ImportedName.ofText name).text? = some name := by
  unfold ImportedName.ofText
  split
  · rename_i h
    rw [h]
    rfl
  · rfl

theorem text?_namedSpecifier (name loc : String) :
    (ofSpecifier (namedSpecifier name loc)).2.1.text? = some name := by
  unfold namedSpecifier
  split
  · rename_i h
    simp [ofSpecifier, text?_ofText, h]
  · simp [ofSpecifier, text?_ofText, ExportName.text]

theorem SpecifierOf.bindingOf {imported : ImportedName} {sp : ImportSpecifier}
    (h : SpecifierOf imported sp) (module : String) :
    bindingOf module sp = ⟨module, imported.text?, sp.loc⟩ := by
  unfold Merge.bindingOf
  congr 1
  cases h with
  | named name loc => exact text?_namedSpecifier name loc
  | default loc => rfl
  | secondDefault loc => exact text?_namedSpecifier "default" loc
  | all loc => rfl

namespace ModuleImports

/-- The specifiers by which a module is imported. -/
def specifiers (m : ModuleImports) : List ImportSpecifier :=
  (m.default.map ImportSpecifier.default).toList ++ m.named ++
    m.spaces.map (fun s => .all s.1)

variable {m : ModuleImports} {imported : ImportedName} {typeOnly : Bool} {sp : ImportSpecifier}

/-- A local brings in one specifier, at the end of those of its sort. -/
theorem perm_specifiers_addLocal (imported : ImportedName) (typeOnly : Bool) (m : ModuleImports)
    (loc : String) : ∃ sp, SpecifierOf imported sp ∧ sp.loc = loc ∧
      (m.addLocal imported typeOnly loc).specifiers.Perm (sp :: m.specifiers) := by
  have hnamed (sp : ImportSpecifier) (as bs cs : List ImportSpecifier) :
      (as ++ (bs ++ [sp]) ++ cs).Perm (sp :: (as ++ bs ++ cs)) := by
    rw [← List.append_assoc, List.append_assoc _ [sp] cs]
    exact List.perm_middle
  cases imported with
  | named name => exact ⟨_, .named name loc, rfl, hnamed _ _ _ _⟩
  | default =>
    cases hd : m.default with
    | none => exact ⟨_, .default loc, rfl, by simp [addLocal, specifiers, hd]⟩
    | some d =>
      refine ⟨_, .secondDefault loc, rfl, ?_⟩
      simp only [addLocal, hd, Option.isNone_some, Bool.false_eq_true, if_false, specifiers]
      exact hnamed _ _ _ _
  | all =>
    refine ⟨_, .all loc, rfl, ?_⟩
    simp only [addLocal, specifiers, List.map_append, List.map_cons, List.map_nil,
      ← List.append_assoc]
    exact List.perm_append_singleton _ _

theorem mem_specifiers_addLocal {loc : String}
    (h : sp ∈ (m.addLocal imported typeOnly loc).specifiers) :
    sp ∈ m.specifiers ∨ SpecifierOf imported sp ∧ sp.loc = loc := by
  obtain ⟨sp', hof, hloc, hperm⟩ := perm_specifiers_addLocal imported typeOnly m loc
  rcases List.mem_cons.1 (hperm.mem_iff.1 h) with rfl | h
  · exact Or.inr ⟨hof, hloc⟩
  · exact Or.inl h

theorem mem_specifiers_addLocals {locs : List String}
    (h : sp ∈ (locs.foldl (addLocal imported typeOnly) m).specifiers) :
    sp ∈ m.specifiers ∨ SpecifierOf imported sp ∧ sp.loc ∈ locs := by
  induction locs generalizing m with
  | nil => exact Or.inl h
  | cons loc locs ih =>
    rcases ih h with h | ⟨hsp, hloc⟩
    · refine (mem_specifiers_addLocal h).imp_right (And.imp_right ?_)
      rintro rfl
      exact List.mem_cons_self
    · exact Or.inr ⟨hsp, List.mem_cons_of_mem loc hloc⟩

/-- All that is imported from the module is imported as a type. -/
structure Typed (m : ModuleImports) : Prop where
  typeOnly : m.typeOnly = true
  spaces : ∀ s ∈ m.spaces, s.2 = true

theorem Typed.addLocals (h : m.Typed) (imported : ImportedName) (locs : List String) :
    (locs.foldl (addLocal imported true) m).Typed := by
  induction locs generalizing m with
  | nil => exact h
  | cons loc locs ih =>
    refine ih ?_
    cases imported with
    | all =>
      refine ⟨h.typeOnly, fun s hs => ?_⟩
      rcases List.mem_append.1 hs with hs | hs
      · exact h.spaces s hs
      · rw [List.mem_singleton.1 hs]
    | named name => exact ⟨by simp [addLocal, h.typeOnly], h.spaces⟩
    | default =>
      simp only [addLocal]
      split
      · exact ⟨by simp [h.typeOnly], h.spaces⟩
      · exact ⟨by simp [h.typeOnly], h.spaces⟩

/-- Each import declaration of a module imports something from it. It is a type import if all
imports of the module are, unless it holds a default binding and others. -/
theorem mem_items {module : String} {i : Item} (h : i ∈ m.items module) :
    ∃ sps isType, i = importOf sps module isType ∧ sps ⊆ m.specifiers ∧ sps ≠ [] ∧
      (m.Typed → isType = true ∨ ∃ loc, .default loc ∈ sps) := by
  unfold items at h
  rcases List.mem_append.1 h with h | h
  · split at h
    · cases h
    · rename_i hne
      refine ⟨_, _, List.mem_singleton.1 h, List.subset_append_left _ _, by simpa using hne,
        fun htyped => ?_⟩
      cases hdefault : m.default with
      | none => exact Or.inl (by simp [htyped.typeOnly])
      | some loc => exact Or.inr ⟨loc, by simp⟩
  · obtain ⟨s, hs, rfl⟩ := List.mem_map.1 h
    refine ⟨_, _, rfl, List.cons_subset.2 ⟨?_, List.nil_subset _⟩, List.cons_ne_nil _ _,
      fun htyped => Or.inl (htyped.spaces s hs)⟩
    exact List.mem_append_right _ (List.mem_map.2 ⟨s, hs, rfl⟩)

end ModuleImports

/-- The specifier imports a symbol that stays, from the module and under a local of it. -/
def TakesEntry (ps : PreservedImports) (module : String) (sp : ImportSpecifier) : Prop :=
  ∃ e ∈ ps.entries, e.1.1 = module ∧ SpecifierOf e.1.2 sp ∧ sp.loc ∈ e.2.locals

/-- What holds of a module without imports and is kept by adding those of a symbol that stays. -/
theorem byModule_inv {ps : PreservedImports} (P : String → ModuleImports → Prop)
    (hempty : ∀ module, P module .empty)
    (hadd : ∀ e ∈ ps.entries, ∀ m, P e.1.1 m →
      P e.1.1 (e.2.locals.foldl (ModuleImports.addLocal e.1.2 e.2.typeOnly) m)) :
    ∀ e ∈ (byModule ps).entries, P e.1 e.2 := by
  refine List.foldlRecOn (motive := fun ms : OrderedMap String ModuleImports =>
    ∀ e ∈ ms.entries, P e.1 e.2) _ _ (fun _ he => (nomatch he)) (fun ms hms p hp e he => ?_)
  rcases OrderedMap.mem_entries_put he with rfl | he
  · refine hadd p hp _ ?_
    cases hm : ms.get? p.1.1 with
    | none => exact hempty _
    | some m => exact hms _ (OrderedMap.mem_entries_of_get? hm)
  · exact hms e he

theorem takesEntry_byModule {ps : PreservedImports} :
    ∀ e ∈ (byModule ps).entries, ∀ sp ∈ e.2.specifiers, TakesEntry ps e.1 sp := by
  refine byModule_inv (fun module m => ∀ sp ∈ m.specifiers, TakesEntry ps module sp)
    (fun _ sp hsp => (nomatch hsp)) (fun e he m hm sp hsp => ?_)
  rcases ModuleImports.mem_specifiers_addLocals hsp with hsp | ⟨hof, hloc⟩
  · exact hm sp hsp
  · exact ⟨e, he, rfl, hof, hloc⟩

/-- The module's symbols that stay are imported as types. -/
def StaysTyped (ps : PreservedImports) (module : String) : Prop :=
  ∀ e ∈ ps.entries, e.1.1 = module → e.2.typeOnly = true

theorem typed_byModule {ps : PreservedImports} :
    ∀ e ∈ (byModule ps).entries, StaysTyped ps e.1 → e.2.Typed := by
  refine byModule_inv (fun module m => StaysTyped ps module → m.Typed)
    (fun _ _ => ⟨rfl, fun _ hs => (nomatch hs)⟩) (fun e he m hm htyped => ?_)
  rw [htyped e he rfl]
  exact (hm htyped).addLocals _ _

/-- The imports of a chunk take symbols that stay, or run a module that is only run. Those of a
module whose symbols are types are type imports, unless they hold a default binding. -/
theorem mem_hoistedImports {ps : PreservedImports} {run : SeenSet String} {i : Item}
    (h : i ∈ hoistedImports ps run) : ∃ sps module isType, i = importOf sps module isType ∧
      (∀ sp ∈ sps, TakesEntry ps module sp) ∧ (sps = [] → module ∈ run.items) ∧
      (StaysTyped ps module → isType = true ∨ sps = [] ∨ ∃ loc, .default loc ∈ sps) := by
  rcases List.mem_append.1 h with h | h
  · obtain ⟨e, he, hi⟩ := List.mem_flatMap.1 h
    obtain ⟨sps, isType, rfl, hsub, hne, htyped⟩ := ModuleImports.mem_items hi
    exact ⟨sps, e.1, isType, rfl, fun sp hsp => takesEntry_byModule e he sp (hsub hsp),
      fun hnil => absurd hnil hne, fun hstays => (htyped (typed_byModule e he hstays)).imp_right
        Or.inr⟩
  · obtain ⟨module, hm, rfl⟩ := List.mem_map.1 h
    exact ⟨[], module, false, rfl, by simp, fun _ => (List.mem_filter.1 hm).1,
      fun _ => Or.inr (Or.inl rfl)⟩

/-- The imports that stay are import declarations. -/
theorem importDecl_of_mem_hoistedImports {ps : PreservedImports} {run : SeenSet String} {i : Item}
    (h : i ∈ hoistedImports ps run) : ∃ d, i = .importDecl d := by
  obtain ⟨sps, module, isType, rfl, -⟩ := mem_hoistedImports h
  exact ⟨_, rfl⟩

end Specifiers

section Bindings

namespace ModuleImports

variable (module : String)

theorem perm_bindings_addLocals (imported : ImportedName) (typeOnly : Bool) (m : ModuleImports)
    (locs : List String) :
    ((locs.foldl (addLocal imported typeOnly) m).specifiers.map (bindingOf module)).Perm
      (locs.map (ImportBinding.mk module imported.text?) ++
        m.specifiers.map (bindingOf module)) := by
  induction locs generalizing m with
  | nil => exact List.Perm.refl _
  | cons loc locs ih =>
    obtain ⟨sp, hof, rfl, hperm⟩ := perm_specifiers_addLocal imported typeOnly m loc
    have hstep := hperm.map (bindingOf module)
    rw [List.map_cons, hof.bindingOf] at hstep
    exact ((ih _).trans (hstep.append_left _)).trans List.perm_middle

/-- The import declarations of a module have its specifiers. -/
theorem importBindings_items (m : ModuleImports) :
    (m.items module).flatMap importBindings = m.specifiers.map (bindingOf module) := by
  have hspaces : (m.spaces.map (fun s => importOf [.all s.1] module s.2)).flatMap importBindings =
      (m.spaces.map (fun s => ImportSpecifier.all s.1)).map (bindingOf module) := by
    rw [List.flatMap_map, List.map_map]
    exact List.map_eq_flatMap.symm
  unfold items specifiers
  rw [List.flatMap_append, hspaces, List.map_append]
  congr 1
  split
  · rename_i hnil
    rw [List.isEmpty_iff.1 hnil]
    rfl
  · exact List.flatMap_singleton _ _

end ModuleImports

/-- Sorting what stays of a symbol into its module adds the symbol's bindings. -/
theorem count_bindings_addPreserved (ms : OrderedMap String ModuleImports)
    (p : (String × ImportedName) × Preserved) (b : ImportBinding) :
    ((addPreserved ms p).entries.flatMap (fun e => e.2.specifiers.map (bindingOf e.1))).count b =
      (ms.entries.flatMap (fun e => e.2.specifiers.map (bindingOf e.1))).count b +
        (p.2.locals.map (ImportBinding.mk p.1.1 p.1.2.text?)).count b := by
  unfold addPreserved
  have hput := ms.count_flatMap_put (fun e => e.2.specifiers.map (bindingOf e.1)) p.1.1
    (p.2.locals.foldl (ModuleImports.addLocal p.1.2 p.2.typeOnly)
      ((ms.get? p.1.1).getD ModuleImports.empty)) b
  rw [(ModuleImports.perm_bindings_addLocals _ _ _ _ _).count_eq, List.count_append] at hput
  cases hm : ms.get? p.1.1 with
  | none =>
    have hempty : (ModuleImports.empty.specifiers.map (bindingOf p.1.1)).count b = 0 := rfl
    simp only [hm, Option.map_none, Option.getD_none, List.count_nil, hempty] at hput ⊢
    omega
  | some m =>
    simp only [hm, Option.map_some, Option.getD_some] at hput ⊢
    omega

theorem count_bindings_byModule (ps : PreservedImports) (b : ImportBinding) :
    ((byModule ps).entries.flatMap (fun e => e.2.specifiers.map (bindingOf e.1))).count b =
      (bindingsOf ps).count b := by
  suffices H : ∀ (es : List ((String × ImportedName) × Preserved))
      (ms : OrderedMap String ModuleImports),
      ((es.foldl addPreserved ms).entries.flatMap
          (fun e => e.2.specifiers.map (bindingOf e.1))).count b =
        (ms.entries.flatMap (fun e => e.2.specifiers.map (bindingOf e.1))).count b +
          (es.flatMap (fun e => e.2.locals.map (ImportBinding.mk e.1.1 e.1.2.text?))).count b by
    have h := H ps.entries OrderedMap.empty
    have hempty : ((OrderedMap.empty : OrderedMap String ModuleImports).entries.flatMap
      (fun e => e.2.specifiers.map (bindingOf e.1))).count b = 0 := rfl
    rwa [hempty, Nat.zero_add] at h
  intro es
  induction es with
  | nil => simp
  | cons e es ih =>
    intro ms
    rw [List.foldl_cons, ih, count_bindings_addPreserved, List.flatMap_cons, List.count_append]
    omega

/-- The import declarations of a chunk make the bindings of the imports that stay, and no others. -/
theorem perm_importBindings_hoistedImports (ps : PreservedImports) (run : SeenSet String) :
    ((hoistedImports ps run).flatMap importBindings).Perm (bindingsOf ps) := by
  have hrun (modules : List String) :
      (modules.map (fun m => importOf [] m false)).flatMap importBindings = [] :=
    List.flatMap_eq_nil_iff.2 (fun i hi => by obtain ⟨m, _, rfl⟩ := List.mem_map.1 hi; rfl)
  unfold hoistedImports
  rw [List.flatMap_append, hrun, List.append_nil, List.flatMap_assoc]
  simp only [ModuleImports.importBindings_items]
  exact List.perm_iff_count.2 (count_bindings_byModule ps)

theorem perm_binds_hoistedImports (ps : PreservedImports) (run : SeenSet String) :
    ((hoistedImports ps run).flatMap Item.binds).Perm (localsOf ps) := by
  have hbinds : (hoistedImports ps run).flatMap Item.binds =
      ((hoistedImports ps run).flatMap importBindings).map ImportBinding.loc := by
    rw [List.map_flatMap]
    refine List.flatMap_congr (fun i hi => ?_)
    obtain ⟨d, rfl⟩ := importDecl_of_mem_hoistedImports hi
    simp [Item.binds, Item.declared, Item.locals, importBindings, bindingOf, Function.comp_def]
  rw [hbinds, ← map_loc_bindingsOf]
  exact (perm_importBindings_hoistedImports ps run).map _

theorem count_binds_hoistedImports (ps : PreservedImports) (run : SeenSet String) (x : String) :
    ((hoistedImports ps run).flatMap Item.binds).count x = (localsOf ps).count x :=
  (perm_binds_hoistedImports ps run).count_eq x

end Bindings

end AmbientBundle.Merge
