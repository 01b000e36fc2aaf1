import AmbientBundle.Proofs.Merge.Moves
import AmbientBundle.Proofs.Merge.Owners
/-!
The import declarations at the head of a chunk. They make each binding that stays once, and those
of one module in one declaration, apart from the bindings of the module as a whole. A declaration
is a type import only if all that it takes was imported as types. A module that is only run is
imported once, without bindings.
-/
namespace AmbientBundle.Merge

open Names Syntax

/-- The declaration takes single symbols of its module. -/
def takesSymbols (d : ImportDecl) : Bool :=
  d.specifiers.any (fun sp => decide ((ofSpecifier sp).2.1 ≠ .all))

/-- The declaration `import "module"`. -/
def bareImport (module : String) : ImportDecl := ⟨[], StrLit.made module, false, none⟩

/-- The declarations make the imports that stay, and run the other modules that are to be run. A
type import takes types only, and a default binding without others; a module as a whole has a
declaration of its own, and the single symbols of a module have one together. -/
structure Hoists (ps : PreservedImports) (run : SeenSet String) (ds : List ImportDecl) : Prop where
  bindings : (ds.flatMap (fun d => importBindings (.importDecl d))).Perm (bindingsOf ps)
  locals : (localsOf ps).Nodup
  typeOnly : ∀ d ∈ ds, d.typeOnly = true → ∀ sp ∈ d.specifiers, ∀ e ∈ ps.entries,
    sp.loc ∈ e.2.locals → e.2.typeOnly = true
  default : ∀ d ∈ ds, d.typeOnly = true → ∀ loc, .default loc ∈ d.specifiers →
    d.specifiers = [.default loc]
  all : ∀ d ∈ ds, ∀ loc, .all loc ∈ d.specifiers → d.specifiers = [.all loc]
  sources : ((ds.filter takesSymbols).map (fun d => d.src.value)).Nodup
  bare : ds.filter (fun d => d.specifiers.isEmpty) =
    (run.items.filter (fun module => ∀ e ∈ ps.entries, e.1.1 ≠ module)).map bareImport
  bareSources : ((ds.filter (fun d => d.specifiers.isEmpty)).map (fun d => d.src.value)).Nodup

/-- A local of a symbol that is imported as a type. -/
def TypeLocal (ps : PreservedImports) (loc : String) : Prop :=
  ∃ e ∈ ps.entries, loc ∈ e.2.locals ∧ e.2.typeOnly = true

namespace ModuleImports

/-- The specifiers of the declaration that takes single symbols. -/
def symbols (m : ModuleImports) : List ImportSpecifier :=
  (m.default.map ImportSpecifier.default).toList ++ m.named

/-- The import declarations of a module. -/
def decls (module : String) (m : ModuleImports) : List ImportDecl :=
  (if m.symbols.isEmpty then []
    else [⟨m.symbols, StrLit.made module,
      m.typeOnly && (m.default.isNone || m.named.isEmpty), none⟩]) ++
    m.spaces.map (fun s => ⟨[.all s.1], StrLit.made module, s.2, none⟩)

theorem items_eq (module : String) (m : ModuleImports) :
    m.items module = (m.decls module).map Item.importDecl := by
  unfold decls
  rw [List.map_append, List.map_map, apply_ite (List.map Item.importDecl)]
  rfl

/-- What is sorted into a module: its named symbols are no namespaces, and what is flagged as a
type was imported as one. -/
structure Fits (ps : PreservedImports) (m : ModuleImports) : Prop where
  named : ∀ sp ∈ m.named, ∃ imported loc, sp = namedSpecifier imported loc
  symbols : m.typeOnly = true → ∀ sp ∈ m.symbols, TypeLocal ps sp.loc
  spaces : ∀ s ∈ m.spaces, s.2 = true → TypeLocal ps s.1

variable {ps : PreservedImports} {m : ModuleImports} {module loc : String} {d : ImportDecl}

theorem Fits.addLocal {typeOnly : Bool} (h : Fits ps m) (imported : ImportedName)
    (hloc : typeOnly = true → TypeLocal ps loc) :
    Fits ps (m.addLocal imported typeOnly loc) := by
  have hnamed (name : String) : Fits ps { m with
      named := m.named ++ [namedSpecifier name loc]
      typeOnly := m.typeOnly && typeOnly } := by
    refine ⟨fun sp hsp => ?_, fun htyped sp hsp => ?_, h.spaces⟩
    · rcases List.mem_append.1 hsp with hsp | hsp
      · exact h.named sp hsp
      · exact ⟨name, loc, List.mem_singleton.1 hsp⟩
    · obtain ⟨hm, ht⟩ := Bool.and_eq_true_iff.1 htyped
      simp only [ModuleImports.symbols, ← List.append_assoc] at hsp
      rcases List.mem_append.1 hsp with hsp | hsp
      · exact h.symbols hm sp hsp
      · rw [List.mem_singleton.1 hsp]
        exact hloc ht
  cases imported with
  | named name => exact hnamed name
  | default =>
    simp only [ModuleImports.addLocal]
    split
    · refine ⟨h.named, fun htyped sp hsp => ?_, h.spaces⟩
      obtain ⟨hm, ht⟩ := Bool.and_eq_true_iff.1 htyped
      rcases List.mem_cons.1 hsp with rfl | hsp
      · exact hloc ht
      · exact h.symbols hm sp (List.mem_append_right _ hsp)
    · exact hnamed "default"
  | all =>
    refine ⟨h.named, h.symbols, fun s hs htyped => ?_⟩
    rcases List.mem_append.1 hs with hs | hs
    · exact h.spaces s hs htyped
    · obtain rfl := List.mem_singleton.1 hs
      exact hloc htyped

theorem Fits.addLocals (h : Fits ps m) (imported : ImportedName) (typeOnly : Bool)
    {locs : List String} (hlocs : ∀ loc ∈ locs, typeOnly = true → TypeLocal ps loc) :
    Fits ps (locs.foldl (ModuleImports.addLocal imported typeOnly) m) := by
  induction locs generalizing m with
  | nil => exact h
  | cons loc locs ih =>
    exact ih (h.addLocal imported (hlocs loc List.mem_cons_self))
      (fun loc' h' => hlocs loc' (List.mem_cons_of_mem loc h'))

theorem mem_decls (hd : d ∈ m.decls module) :
    (d.specifiers = m.symbols ∧ m.symbols ≠ [] ∧
        d.typeOnly = (m.typeOnly && (m.default.isNone || m.named.isEmpty))) ∨
      ∃ s ∈ m.spaces, d.specifiers = [.all s.1] ∧ d.typeOnly = s.2 := by
  rcases List.mem_append.1 hd with hd | hd
  · split at hd
    · cases hd
    · rename_i hne
      obtain rfl := List.mem_singleton.1 hd
      exact Or.inl ⟨rfl, by simpa using hne, rfl⟩
  · obtain ⟨s, hs, rfl⟩ := List.mem_map.1 hd
    exact Or.inr ⟨s, hs, rfl, rfl⟩

/-- None of the single symbols is the module as a whole. -/
theorem Fits.ne_all (h : Fits ps m) : ∀ sp ∈ m.symbols, (ofSpecifier sp).2.1 ≠ .all := by
  intro sp hsp hall
  rcases List.mem_append.1 hsp with hsp | hsp
  · obtain ⟨loc, -, rfl⟩ := Option.map_eq_some_iff.1 (Option.mem_toList.1 hsp)
    cases hall
  · obtain ⟨imported, loc, rfl⟩ := h.named sp hsp
    have htext := text?_namedSpecifier imported loc
    rw [hall] at htext
    cases htext

theorem Fits.typeLocal (h : Fits ps m) (hd : d ∈ m.decls module) (htyped : d.typeOnly = true) :
    ∀ sp ∈ d.specifiers, TypeLocal ps sp.loc := by
  rcases mem_decls hd with ⟨hsps, -, htype⟩ | ⟨s, hs, hsps, htype⟩
  · rw [hsps]
    rw [htype] at htyped
    exact h.symbols (Bool.and_eq_true_iff.1 htyped).1
  · rw [hsps]
    rw [htype] at htyped
    intro sp hsp
    rw [List.mem_singleton.1 hsp]
    exact h.spaces s hs htyped

/-- A type import of a default binding takes nothing else. -/
theorem Fits.default_alone (h : Fits ps m) (hd : d ∈ m.decls module) (htyped : d.typeOnly = true)
    (hloc : .default loc ∈ d.specifiers) : d.specifiers = [.default loc] := by
  rcases mem_decls hd with ⟨hsps, -, htype⟩ | ⟨s, -, hsps, -⟩
  · rw [hsps] at hloc ⊢
    have hnot : ∀ sp ∈ m.named, sp ≠ .default loc := by
      rintro sp hsp rfl
      obtain ⟨imported, loc', he⟩ := h.named _ hsp
      cases he
    have hdefault : m.default = some loc := by
      rcases List.mem_append.1 hloc with hloc | hloc
      · obtain ⟨loc', hloc', he⟩ := Option.map_eq_some_iff.1 (Option.mem_toList.1 hloc)
        cases he
        exact hloc'
      · exact absurd rfl (hnot _ hloc)
    -- the flag is off where there are named symbols beside the default binding
    rw [htype, hdefault] at htyped
    have hnamed : m.named = [] := by simpa using (Bool.and_eq_true_iff.1 htyped).2
    simp [ModuleImports.symbols, hdefault, hnamed]
  · rw [hsps] at hloc
    cases List.mem_singleton.1 hloc

theorem Fits.all_alone (h : Fits ps m) (hd : d ∈ m.decls module)
    (hloc : .all loc ∈ d.specifiers) : d.specifiers = [.all loc] := by
  rcases mem_decls hd with ⟨hsps, -, -⟩ | ⟨s, -, hsps, -⟩
  · rw [hsps] at hloc
    exact absurd rfl (h.ne_all _ hloc)
  · rw [hsps] at hloc ⊢
    rw [List.mem_singleton.1 hloc]

/-- The single symbols of a module are taken by one declaration. -/
theorem sources_sublist (module : String) (m : ModuleImports) :
    (((m.decls module).filter takesSymbols).map (fun d => d.src.value)).Sublist [module] := by
  have hspaces : (m.spaces.map (fun s => (⟨[.all s.1], StrLit.made module, s.2, none⟩ :
      ImportDecl))).filter takesSymbols = [] := by
    refine List.filter_eq_nil_iff.2 (fun d hd => ?_)
    obtain ⟨s, -, rfl⟩ := List.mem_map.1 hd
    simp [takesSymbols, ofSpecifier]
  unfold decls
  rw [List.filter_append, hspaces, List.append_nil]
  split
  · exact List.nil_sublist _
  · exact List.filter_sublist.map (fun d : ImportDecl => d.src.value)

theorem filter_isEmpty_decls (module : String) (m : ModuleImports) :
    (m.decls module).filter (fun d => d.specifiers.isEmpty) = [] := by
  refine List.filter_eq_nil_iff.2 (fun d hd => ?_)
  rcases mem_decls hd with ⟨hsps, hne, -⟩ | ⟨s, -, hsps, -⟩
  · simpa [hsps] using hne
  · simp [hsps]

end ModuleImports

section Hoisted

variable (ps : PreservedImports) (run : SeenSet String)

theorem fits_byModule : ∀ e ∈ (byModule ps).entries, e.2.Fits ps := by
  refine byModule_inv (fun _ m => m.Fits ps) (fun _ => ⟨by simp [ModuleImports.empty],
    by simp [ModuleImports.empty, ModuleImports.symbols], by simp [ModuleImports.empty]⟩) ?_
  exact fun e he m hm =>
    hm.addLocals e.1.2 e.2.typeOnly (fun loc hloc htyped => ⟨e, he, hloc, htyped⟩)

/-- The modules that something stays imported from. -/
theorem mem_keys_byModule (module : String) :
    module ∈ (byModule ps).keys ↔ ∃ e ∈ ps.entries, e.1.1 = module := by
  suffices H : ∀ (es : List ((String × ImportedName) × Preserved))
      (ms : OrderedMap String ModuleImports), module ∈ (es.foldl addPreserved ms).keys ↔
        module ∈ ms.keys ∨ ∃ e ∈ es, e.1.1 = module by
    rw [byModule, H]
    exact or_iff_right (by simp [OrderedMap.keys, OrderedMap.empty])
  intro es
  induction es with
  | nil => simp
  | cons e es ih =>
    intro ms
    have hstep : module ∈ (addPreserved ms e).keys ↔ module ∈ ms.keys ∨ e.1.1 = module := by
      unfold addPreserved
      rw [OrderedMap.keys_put]
      split
      · rename_i hmem
        exact (or_iff_left_of_imp (fun he => he ▸ hmem)).symm
      · rw [List.mem_append, List.mem_singleton, eq_comm]
    rw [List.foldl_cons, ih, hstep, or_assoc, List.exists_mem_cons_iff]

/-- The import declarations of a chunk. -/
def hoistedDecls : List ImportDecl :=
  (byModule ps).entries.flatMap (fun e => e.2.decls e.1) ++
    (run.items.filter (fun module => ∀ e ∈ ps.entries, e.1.1 ≠ module)).map bareImport

theorem hoistedImports_eq : hoistedImports ps run = (hoistedDecls ps run).map Item.importDecl := by
  have hother (module : String) : (!(byModule ps).contains module) =
      decide (∀ e ∈ ps.entries, e.1.1 ≠ module) := by
    rw [Bool.eq_iff_iff, Bool.not_eq_true', decide_eq_true_iff, OrderedMap.contains,
      Bool.eq_false_iff, ne_eq, Option.isSome_iff_exists, ← OrderedMap.mem_keys_iff,
      mem_keys_byModule]
    simp only [not_exists, not_and, ne_eq]
  unfold hoistedImports hoistedDecls
  simp only [hother, ModuleImports.items_eq]
  rw [List.map_append, List.map_flatMap, List.map_map]
  rfl

theorem mem_hoistedDecls {d : ImportDecl} (hd : d ∈ hoistedDecls ps run) :
    (∃ module, ∃ m : ModuleImports, m.Fits ps ∧ d ∈ m.decls module) ∨
      ∃ module, d = bareImport module := by
  rcases List.mem_append.1 hd with hd | hd
  · obtain ⟨e, he, hd⟩ := List.mem_flatMap.1 hd
    exact Or.inl ⟨e.1, e.2, fits_byModule ps e he, hd⟩
  · obtain ⟨module, -, rfl⟩ := List.mem_map.1 hd
    exact Or.inr ⟨module, rfl⟩

/-- The single symbols of all modules are taken by one declaration for each of these. -/
theorem sources_hoistedDecls :
    (((hoistedDecls ps run).filter takesSymbols).map (fun d => d.src.value)).Nodup := by
  have hbare (modules : List String) : (modules.map bareImport).filter takesSymbols = [] := by
    refine List.filter_eq_nil_iff.2 (fun d hd => ?_)
    obtain ⟨module, -, rfl⟩ := List.mem_map.1 hd
    simp [takesSymbols, bareImport]
  unfold hoistedDecls
  rw [List.filter_append, hbare, List.append_nil, List.filter_flatMap, List.map_flatMap]
  refine List.Nodup.sublist ?_ (byModule ps).keys_nodup
  rw [List.map_eq_flatMap]
  exact List.Sublist.flatMap_right _ (fun e _ => ModuleImports.sources_sublist e.1 e.2)

theorem bare_hoistedDecls : (hoistedDecls ps run).filter (fun d => d.specifiers.isEmpty) =
    (run.items.filter (fun module => ∀ e ∈ ps.entries, e.1.1 ≠ module)).map bareImport := by
  unfold hoistedDecls
  rw [List.filter_append, List.filter_flatMap]
  simp only [ModuleImports.filter_isEmpty_decls]
  rw [List.flatMap_eq_nil_iff.2 (fun _ _ => rfl), List.nil_append, List.filter_eq_self]
  intro d hd
  obtain ⟨module, -, rfl⟩ := List.mem_map.1 hd
  rfl

variable {ps}

/-- Where no local is one of two symbols, a local tells its symbol. -/
theorem eq_of_mem_locals (hlocals : (localsOf ps).Nodup)
    {e e' : (String × ImportedName) × Preserved} (he : e ∈ ps.entries) (he' : e' ∈ ps.entries)
    {loc : String} (hloc : loc ∈ e.2.locals) (hloc' : loc ∈ e'.2.locals) : e = e' := by
  by_contra hne
  have hpairs := (List.nodup_flatMap.1 hlocals).2
  have hsymm : Std.Symm (Function.onFun List.Disjoint
      (fun e : (String × ImportedName) × Preserved => e.2.locals)) := ⟨fun _ _ h => h.symm⟩
  exact hpairs.forall he he' hne hloc hloc'

theorem hoists_hoistedDecls (hlocals : (localsOf ps).Nodup) :
    Hoists ps run (hoistedDecls ps run) where
  bindings := by
    have hperm := perm_importBindings_hoistedImports ps run
    rwa [hoistedImports_eq, List.flatMap_map] at hperm
  locals := hlocals
  typeOnly := by
    intro d hd htyped sp hsp e he hloc
    rcases mem_hoistedDecls ps run hd with ⟨module, m, hfits, hd⟩ | ⟨module, rfl⟩
    · -- the local was imported as a type by some symbol, and it is a local of no other
      obtain ⟨e', he', hloc', htyped'⟩ := hfits.typeLocal hd htyped sp hsp
      rwa [eq_of_mem_locals hlocals he he' hloc hloc']
    · cases hsp
  default := by
    intro d hd htyped loc hloc
    rcases mem_hoistedDecls ps run hd with ⟨module, m, hfits, hd⟩ | ⟨module, rfl⟩
    · exact hfits.default_alone hd htyped hloc
    · cases hloc
  all := by
    intro d hd loc hloc
    rcases mem_hoistedDecls ps run hd with ⟨module, m, hfits, hd⟩ | ⟨module, rfl⟩
    · exact hfits.all_alone hd hloc
    · cases hloc
  sources := sources_hoistedDecls ps run
  bare := bare_hoistedDecls ps run
  bareSources := by
    rw [bare_hoistedDecls, List.map_map]
    exact (run.nodup.filter _).map (fun _ _ h => h)

end Hoisted

variable {cx : Context} {n : Nat} {r : Role} {files : List Url} {t : State} {y : Yield}

/-- The locals of the imports that stay are claimed one by one. -/
theorem Run.nodup_localsOf {included : SeenSet Url}
    (h : Run cx n r files (.start included) y t) : (localsOf t.preserved).Nodup := by
  refine List.nodup_iff_count_le_one.2 (fun x => ?_)
  have huses := h.uses_le x
  have hone : (State.start included).uses x = 1 := rfl
  rw [hone] at huses
  unfold State.uses at huses
  omega

/-- Two default bindings of a module are no type import together, even if both are types. -/
example : hoistedImports
    ((OrderedMap.empty.put ("m", .default) ⟨"D", ["D_1"], true⟩).put ("m", .all) ⟨"S", [], true⟩)
    (SeenSet.ofList ["m", "polyfill"]) =
      [importOf [.default "D", namedSpecifier "default" "D_1"] "m" false,
        importOf [.all "S"] "m" true, importOf [] "polyfill" false] := rfl

end AmbientBundle.Merge
