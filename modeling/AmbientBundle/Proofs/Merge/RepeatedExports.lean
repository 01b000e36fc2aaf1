import AmbientBundle.Proofs.Merge.ExportedOnce
import AmbientBundle.Proofs.Merge.OuterStars
/-!
Dropping repeated exports, exactly. Export statements fall into parts, each of which exports one
thing: a name, all names of a module, or nothing at all. What is left of a chunk's statements has
the first part of each kind, apart from the names that are exported with a declaration. All other
statements stay, nothing changes its place, and nothing is left to drop a second time.
-/
namespace AmbientBundle.Merge

open Names Syntax

section Firsts

variable {κ α : Type} [DecidableEq κ]

/-- The entries whose keys are not seen, of each key the first. -/
def firsts (seen : List κ) : List (κ × α) → List (κ × α)
  | [] => []
  | e :: es => if e.1 ∈ seen then firsts seen es else e :: firsts (e.1 :: seen) es

variable {seen seen' : List κ} {es : List (κ × α)} {k : κ}

theorem firsts_congr (h : ∀ k, k ∈ seen ↔ k ∈ seen') : firsts seen es = firsts seen' es := by
  induction es generalizing seen seen' with
  | nil => rfl
  | cons e es ih =>
    have hcons : firsts (e.1 :: seen) es = firsts (e.1 :: seen') es := ih (by simp [h])
    rw [firsts, firsts, ih h, hcons]
    simp only [h]

theorem firsts_append (es es' : List (κ × α)) :
    firsts seen (es ++ es') = firsts seen es ++ firsts (es.map Prod.fst ++ seen) es' := by
  induction es generalizing seen with
  | nil => rfl
  | cons e es ih =>
    rw [List.cons_append, firsts, firsts]
    split
    · rename_i hold
      rw [ih]
      congr 1
      refine firsts_congr (fun k => ?_)
      simp only [List.map_cons, List.mem_append, List.mem_cons]
      grind
    · rw [ih, List.cons_append]
      congr 2
      refine firsts_congr (fun k => ?_)
      simp only [List.map_cons, List.mem_append, List.mem_cons]
      tauto

theorem find_firsts :
    OrderedMap.find k (firsts seen es) = if k ∈ seen then none else OrderedMap.find k es := by
  induction es generalizing seen with
  | nil => simp [firsts, OrderedMap.find]
  | cons e es ih =>
    rw [firsts, OrderedMap.find]
    by_cases hk : e.1 = k
    · subst hk
      by_cases hold : e.1 ∈ seen <;> simp [hold, ih, OrderedMap.find]
    · by_cases hold : e.1 ∈ seen <;> simp [hold, ih, OrderedMap.find, hk, Ne.symm hk]

theorem mem_keys_firsts :
    k ∈ (firsts seen es).map Prod.fst ↔ k ∉ seen ∧ k ∈ es.map Prod.fst := by
  rw [← OrderedMap.find_isSome_iff, ← OrderedMap.find_isSome_iff, find_firsts]
  split <;> simp_all

theorem nodup_keys_firsts : ((firsts seen es).map Prod.fst).Nodup := by
  induction es generalizing seen with
  | nil => exact List.nodup_nil
  | cons e es ih =>
    rw [firsts]
    split
    · exact ih
    · rw [List.map_cons, List.nodup_cons]
      exact ⟨fun h => (mem_keys_firsts.1 h).1 List.mem_cons_self, ih⟩

/-- Where no key comes twice, and none is seen, all entries stay. -/
theorem firsts_eq_self (hnodup : (es.map Prod.fst).Nodup) (hnew : ∀ k ∈ es.map Prod.fst, k ∉ seen) :
    firsts seen es = es := by
  induction es generalizing seen with
  | nil => rfl
  | cons e es ih =>
    obtain ⟨hfirst, hrest⟩ := List.nodup_cons.1 hnodup
    rw [firsts, if_neg (hnew e.1 (by simp)), ih hrest]
    intro k hk hold
    rcases List.mem_cons.1 hold with rfl | hold
    · exact hfirst hk
    · exact hnew k (List.mem_cons_of_mem _ hk) hold

end Firsts

section Parts

/-- What a part of an export statement exports. -/
inductive Mark where
  | name (name : String)
  | star (specifier : String)
  | nothing
deriving DecidableEq, Repr

def Mark.name? : Mark → Option String
  | .name n => some n
  | _ => none

def Mark.star? : Mark → Option String
  | .star src => some src
  | _ => none

/-- An export list without names. -/
def isEmptyList : Item → Bool
  | .exportList d => d.specifiers.isEmpty && d.src.isNone
  | _ => false

/-- The list with one specifier alone. -/
def listPart (owner : Owner) (d : ExportList) (sp : ExportSpecifier) : Mark × Piece :=
  (.name (exportedName sp), ⟨owner, .exportList { d with specifiers := [sp] }⟩)

/-- The parts of an export statement, each a statement of its own. A list that names a module and
nothing of it has none. -/
def Piece.parts (p : Piece) : List (Mark × Piece) :=
  match p.item with
  | .exportList d =>
    if isEmptyList (.exportList d) then [(.nothing, p)] else d.specifiers.map (listPart p.owner d)
  | .exportAll d => [(.star d.src.value, p)]
  | _ => []

def Piece.marks (p : Piece) : List Mark := p.parts.map Prod.fst

def partsOf (ps : List Piece) : List (Mark × Piece) := ps.flatMap Piece.parts

def marksOf (ps : List Piece) : List Mark := (partsOf ps).map Prod.fst

/-- What the statements so far export. -/
def Exported.marks (seen : Exported) : List Mark :=
  seen.names.map .name ++ seen.stars.map .star ++ if seen.hasEmpty then [.nothing] else []

variable {seen : Exported} {owner : Owner} {d : ExportList} {name : String}

@[simp] theorem mem_marks_name : .name name ∈ seen.marks ↔ name ∈ seen.names := by
  simp [Exported.marks]

@[simp] theorem mem_marks_star : .star name ∈ seen.marks ↔ name ∈ seen.stars := by
  simp [Exported.marks]

@[simp] theorem mem_marks_nothing : .nothing ∈ seen.marks ↔ seen.hasEmpty = true := by
  simp [Exported.marks]

theorem listPart_injective (owner : Owner) (d : ExportList) :
    Function.Injective (listPart owner d) := by
  intro sp sp' h
  simpa [listPart] using congrArg Prod.snd h

theorem isEmptyList_iff :
    isEmptyList (.exportList d) = true ↔ d.specifiers = [] ∧ d.src = none := by
  simp [isEmptyList]

theorem parts_list (h : isEmptyList (.exportList d) = false) :
    Piece.parts ⟨owner, .exportList d⟩ = d.specifiers.map (listPart owner d) := by
  simp [Piece.parts, h]

theorem parts_specifiers (h : d.specifiers ≠ []) :
    Piece.parts ⟨owner, .exportList d⟩ = d.specifiers.map (listPart owner d) :=
  parts_list (by simp [isEmptyList, h])

/-- The first specifiers of new names are the first parts. -/
theorem map_newSpecifiers {names : List String} {marks : List Mark}
    (h : ∀ n, .name n ∈ marks ↔ n ∈ names) (ss : List ExportSpecifier) :
    (newSpecifiers names ss).1.map (listPart owner d) =
      firsts marks (ss.map (listPart owner d)) := by
  induction ss generalizing names marks with
  | nil => rfl
  | cons sp ss ih =>
    have hmark : (listPart owner d sp).1 ∈ marks ↔ exportedName sp ∈ names := h _
    rw [List.map_cons, newSpecifiers, firsts]
    simp only [hmark, List.contains_iff_mem]
    split
    · exact ih h
    · rw [List.map_cons, @ih _ ((listPart owner d sp).1 :: marks)]
      intro n
      simp [listPart, h]

theorem keepNew_list (h : d.specifiers ≠ []) : keepNew seen (.exportList d) =
    (if (newSpecifiers seen.names d.specifiers).1 = [] then none
      else some (.exportList { d with specifiers := (newSpecifiers seen.names d.specifiers).1 }),
      { seen with names := (newSpecifiers seen.names d.specifiers).2 }) := by
  simp [keepNew, h]

theorem partsOf_cons (p : Piece) (ps : List Piece) : partsOf (p :: ps) = p.parts ++ partsOf ps :=
  List.flatMap_cons

end Parts

section Thinned

variable {seen seen' : List Mark} {ps qs : List Piece} {k : Mark}

/-- The second list holds what is left of the first where all that `seen` tells is exported already.
A statement stays if it has no parts or all its parts are the first of their kind, a list stays with
its first parts, and a statement none of whose parts is a first one is dropped. -/
inductive Thinned : List Mark → List Piece → List Piece → Prop where
  | nil (seen : List Mark) : Thinned seen [] []
  | kept {seen : List Mark} {p : Piece} {ps qs : List Piece} (hp : firsts seen p.parts = p.parts)
      (h : Thinned (p.marks ++ seen) ps qs) : Thinned seen (p :: ps) (p :: qs)
  | fewer {seen : List Mark} {owner : Owner} {d : ExportList} {ss : List ExportSpecifier}
      {ps qs : List Piece} (hne : ss ≠ [])
      (hss : ss.map (listPart owner d) = firsts seen (d.specifiers.map (listPart owner d)))
      (h : Thinned (Piece.marks ⟨owner, .exportList d⟩ ++ seen) ps qs) :
      Thinned seen (⟨owner, .exportList d⟩ :: ps)
        (⟨owner, .exportList { d with specifiers := ss }⟩ :: qs)
  | dropped {seen : List Mark} {p : Piece} {ps qs : List Piece} (hne : p.parts ≠ [])
      (hp : firsts seen p.parts = []) (h : Thinned (p.marks ++ seen) ps qs) :
      Thinned seen (p :: ps) qs

namespace Thinned

theorem congr (h : Thinned seen ps qs) (hseen : ∀ k, k ∈ seen ↔ k ∈ seen') :
    Thinned seen' ps qs := by
  induction h generalizing seen' with
  | nil => exact .nil seen'
  | kept hp h ih =>
    exact .kept (firsts_congr hseen ▸ hp) (ih (fun k => by simp [hseen]))
  | fewer hne hss h ih =>
    exact .fewer hne (firsts_congr hseen ▸ hss) (ih (fun k => by simp [hseen]))
  | dropped hne hp h ih =>
    exact .dropped hne (firsts_congr hseen ▸ hp) (ih (fun k => by simp [hseen]))

/-- A list that keeps a specifier had one. -/
theorem specifiers_ne_nil {owner : Owner} {d : ExportList} {ss : List ExportSpecifier}
    (hne : ss ≠ [])
    (hss : ss.map (listPart owner d) = firsts seen (d.specifiers.map (listPart owner d))) :
    d.specifiers ≠ [] := by
  intro hnil
  rw [hnil] at hss
  exact hne (List.map_eq_nil_iff.1 hss)

theorem partsOf_eq (h : Thinned seen ps qs) : partsOf qs = firsts seen (partsOf ps) := by
  induction h with
  | nil => rfl
  | kept hp h ih => rw [partsOf_cons, partsOf_cons, firsts_append, hp, ih]; rfl
  | @fewer seen owner d ss ps qs hne hss h ih =>
    rw [partsOf_cons, partsOf_cons, firsts_append, ih, parts_specifiers (specifiers_ne_nil hne hss),
      ← hss, parts_specifiers (d := { d with specifiers := ss }) hne]
    rw [Piece.marks, parts_specifiers (specifiers_ne_nil hne hss)]
    rfl
  | dropped hne hp h ih => rw [partsOf_cons, firsts_append, hp, ih]; rfl

theorem marksOf_cons_apart {p : Piece} (hnodup : (marksOf (p :: ps)).Nodup)
    (hnew : ∀ k ∈ marksOf (p :: ps), k ∉ seen) : firsts seen p.parts = p.parts ∧
      (marksOf ps).Nodup ∧ ∀ k ∈ marksOf ps, k ∉ p.marks ++ seen := by
  have hcons : marksOf (p :: ps) = p.marks ++ marksOf ps := by
    rw [marksOf, partsOf_cons, List.map_append]
    rfl
  rw [hcons, List.nodup_append] at hnodup
  rw [hcons] at hnew
  obtain ⟨hfirst, hrest, hapart⟩ := hnodup
  refine ⟨firsts_eq_self hfirst (fun k hk => hnew k (List.mem_append_left _ hk)), hrest,
    fun k hk hold => ?_⟩
  rcases List.mem_append.1 hold with hold | hold
  · exact hapart k hold k hk rfl
  · exact hnew k (List.mem_append_right _ hk) hold

/-- What comes from statements without parts only, comes in the same order. -/
theorem flatMap_eq {α : Type} {f : Piece → List α} (h : Thinned seen ps qs)
    (hf : ∀ p, p.parts ≠ [] → f p = []) : qs.flatMap f = ps.flatMap f := by
  induction h with
  | nil => rfl
  | kept hp h ih => rw [List.flatMap_cons, List.flatMap_cons, ih]
  | @fewer seen owner d ss ps qs hne hss h ih =>
    have hlist {d : ExportList} (h : d.specifiers ≠ []) : f ⟨owner, .exportList d⟩ = [] :=
      hf _ (by rw [parts_specifiers h]; simpa using h)
    rw [List.flatMap_cons, List.flatMap_cons, ih, hlist (specifiers_ne_nil hne hss), hlist hne]
  | dropped hne hp h ih => rw [List.flatMap_cons, ih, hf _ hne, List.nil_append]

/-- The statements without parts all stay. -/
theorem others_eq (h : Thinned seen ps qs) :
    qs.filter (fun p => p.parts.isEmpty) = ps.filter (fun p => p.parts.isEmpty) := by
  rw [← List.filterMap_eq_filter, List.filterMap_eq_flatMap_toList,
    List.filterMap_eq_flatMap_toList]
  refine h.flatMap_eq (fun p hp => ?_)
  simp [Option.guard, hp]

/-- Where no part is exported already or comes twice, all statements stay. -/
theorem eq_self (h : Thinned seen ps qs) (hnodup : (marksOf ps).Nodup)
    (hnew : ∀ k ∈ marksOf ps, k ∉ seen) : qs = ps := by
  induction h with
  | nil => rfl
  | @kept seen p ps qs hp h ih =>
    obtain ⟨-, hrest, hnew'⟩ := marksOf_cons_apart hnodup hnew
    rw [ih hrest hnew']
  | @fewer seen owner d ss ps qs hne hss h ih =>
    obtain ⟨hfirst, hrest, hnew'⟩ := marksOf_cons_apart hnodup hnew
    rw [parts_specifiers (specifiers_ne_nil hne hss), ← hss] at hfirst
    rw [ih hrest hnew', List.map_injective_iff.2 (listPart_injective owner d) hfirst]
  | @dropped seen p ps qs hne hp h ih =>
    obtain ⟨hfirst, -, -⟩ := marksOf_cons_apart hnodup hnew
    exact absurd (hfirst.symm.trans hp) hne

section Step

variable {exported : Exported} {owner : Owner} {d : ExportList}

theorem step_nothing (hempty : isEmptyList (.exportList d) = true)
    (h : Thinned (keepNew exported (.exportList d)).2.marks ps qs) :
    Thinned exported.marks (⟨owner, .exportList d⟩ :: ps)
      ((keepNew exported (.exportList d)).1.toList.map (Piece.mk owner) ++ qs) := by
  obtain ⟨hss, hsrc⟩ := isEmptyList_iff.1 hempty
  have hparts : Piece.parts ⟨owner, .exportList d⟩ = [(.nothing, ⟨owner, .exportList d⟩)] := by
    simp [Piece.parts, hempty]
  cases hseen : exported.hasEmpty with
  | true =>
    simp only [keepNew, hss, hsrc, hseen, List.isEmpty_nil, Option.isSome_none] at h ⊢
    refine .dropped (by simp [hparts]) (by simp [hparts, firsts, hseen]) (h.congr ?_)
    rintro (n | src | _) <;> simp [Piece.marks, hparts, hseen]
  | false =>
    simp only [keepNew, hss, hsrc, hseen, List.isEmpty_nil, Option.isSome_none] at h ⊢
    refine .kept (by simp [hparts, firsts, hseen]) (h.congr ?_)
    rintro (n | src | _) <;> simp [Piece.marks, hparts]

theorem step_specifiers (hss : d.specifiers ≠ [])
    (h : Thinned (keepNew exported (.exportList d)).2.marks ps qs) :
    Thinned exported.marks (⟨owner, .exportList d⟩ :: ps)
      ((keepNew exported (.exportList d)).1.toList.map (Piece.mk owner) ++ qs) := by
  have hleft : (newSpecifiers exported.names d.specifiers).1.map (listPart owner d) =
      firsts exported.marks (d.specifiers.map (listPart owner d)) :=
    map_newSpecifiers (fun n => mem_marks_name) d.specifiers
  have hmarks : ∀ k, k ∈ (keepNew exported (.exportList d)).2.marks ↔
      k ∈ Piece.marks ⟨owner, .exportList d⟩ ++ exported.marks := by
    rw [keepNew_list hss, Piece.marks, parts_specifiers hss]
    rintro (n | src | _)
    · rw [mem_marks_name, List.mem_append, mem_marks_name, @mem_newSpecifiers_names _ none, or_comm]
      simp [listPart, listExport]
    · simp [listPart]
    · simp [listPart]
  have hrest := h.congr hmarks
  rw [keepNew_list hss]
  split
  · rename_i hnone
    refine .dropped (by rw [parts_specifiers hss]; simpa using hss) ?_ hrest
    rw [parts_specifiers hss, ← hleft, hnone, List.map_nil]
  · rename_i hsome
    exact .fewer hsome hleft hrest

/-- What the step for one statement leaves, and what it counts as exported behind it. -/
theorem step {p : Piece} (h : Thinned (keepNew exported p.item).2.marks ps qs) :
    Thinned exported.marks (p :: ps)
      ((keepNew exported p.item).1.toList.map (Piece.mk p.owner) ++ qs) := by
  obtain ⟨owner, i⟩ := p
  cases i with
  | exportList d =>
    by_cases hempty : isEmptyList (.exportList d) = true
    · exact step_nothing hempty h
    · by_cases hss : d.specifiers = []
      · -- a list that only names a module has no parts
        have hparts : Piece.parts ⟨owner, .exportList d⟩ = [] := by
          rw [parts_list (by simpa using hempty), hss, List.map_nil]
        have hsrc : d.src.isSome = true :=
          Option.ne_none_iff_isSome.1 (fun h => hempty (isEmptyList_iff.2 ⟨hss, h⟩))
        simp only [keepNew, hss, hsrc, List.isEmpty_nil, if_true] at h ⊢
        exact .kept (by rw [hparts]; rfl) (h.congr (fun k => by simp [Piece.marks, hparts]))
      · exact step_specifiers hss h
  | exportAll d =>
    by_cases hold : d.src.value ∈ exported.stars
    · simp only [keepNew, List.contains_iff_mem, hold, if_true] at h ⊢
      refine .dropped (List.cons_ne_nil _ _) (by simp [Piece.parts, firsts, hold]) (h.congr ?_)
      rintro (n | src | _) <;> simp [Piece.marks, Piece.parts]
      rintro rfl
      exact hold
    · simp only [keepNew, List.contains_iff_mem, hold, if_false] at h ⊢
      refine .kept (by simp [Piece.parts, firsts, hold]) (h.congr ?_)
      rintro (n | src | _) <;> simp [Piece.marks, Piece.parts]
  | _ => exact .kept rfl h

end Step

end Thinned

theorem thinned_keepNewAll (seen : Exported) (ps : List Piece) :
    Thinned seen.marks ps (keepNewAll seen ps) := by
  induction ps generalizing seen with
  | nil => exact .nil _
  | cons p ps ih => exact (ih _).step

end Thinned

/-- Statements that export no name twice, and none that is exported already, stay as they are. -/
theorem keepNewAll_eq_self {exported : Exported} {ps : List Piece} (hnodup : (marksOf ps).Nodup)
    (hnew : ∀ k ∈ marksOf ps, k ∉ exported.marks) : keepNewAll exported ps = ps :=
  (thinned_keepNewAll exported ps).eq_self hnodup hnew

section Repeated

variable (ps : List Piece)

theorem filterMap_marksOf {α : Type} (f : Mark → Option α) : (marksOf ps).filterMap f =
    ps.flatMap (fun p => (p.parts.map Prod.fst).filterMap f) := by
  rw [marksOf, partsOf, List.map_flatMap, List.filterMap_flatMap]

theorem listedNames_eq : listedNames ps = (marksOf ps).filterMap Mark.name? := by
  rw [filterMap_marksOf, listedNames, List.map_flatMap]
  refine List.flatMap_congr (fun p _ => ?_)
  obtain ⟨owner, i⟩ := p
  cases i with
  | exportList d =>
    by_cases hempty : isEmptyList (.exportList d) = true
    · simp [Piece.parts, hempty, Item.listExports, (isEmptyList_iff.1 hempty).1, Mark.name?]
    · rw [parts_list (by simpa using hempty)]
      simp [Item.listExports, listPart, Mark.name?, List.filterMap_map, Function.comp_def]
  | _ => rfl

theorem starsOf_eq : starsOf (ps.map Piece.item) = (marksOf ps).filterMap Mark.star? := by
  rw [filterMap_marksOf, starsOf, List.filterMap_map, List.filterMap_eq_flatMap_toList]
  refine List.flatMap_congr (fun p _ => ?_)
  obtain ⟨owner, i⟩ := p
  cases i with
  | exportList d =>
    by_cases hempty : isEmptyList (.exportList d) = true
    · simp [Piece.parts, hempty, Item.star?, Mark.star?]
    · rw [parts_list (by simpa using hempty)]
      simp [Item.star?, listPart, Mark.star?, List.filterMap_map, Function.comp_def]
  | _ => rfl

theorem countP_isEmptyList :
    ps.countP (fun p => isEmptyList p.item) = (marksOf ps).count .nothing := by
  induction ps with
  | nil => rfl
  | cons p ps ih =>
    rw [List.countP_cons, ih, marksOf, marksOf, partsOf_cons, List.map_append, List.count_append,
      Nat.add_comm]
    congr 1
    obtain ⟨owner, i⟩ := p
    cases i with
    | exportList d =>
      by_cases hempty : isEmptyList (.exportList d) = true
      · simp [Piece.parts, hempty]
      · have hnone : ((d.specifiers.map (listPart owner d)).map Prod.fst).count .nothing = 0 :=
          List.count_eq_zero.2 (by simp [listPart])
        rw [parts_list (by simpa using hempty), hnone, if_neg hempty]
    | _ => rfl

variable {ps}

theorem mem_listedNames {n : String} : n ∈ listedNames ps ↔ .name n ∈ marksOf ps := by
  rw [listedNames_eq, List.mem_filterMap]
  constructor
  · rintro ⟨k, hk, hn⟩
    cases k <;> simp_all [Mark.name?]
  · exact fun h => ⟨_, h, rfl⟩

theorem mem_starsOf {src : String} :
    src ∈ starsOf (ps.map Piece.item) ↔ .star src ∈ marksOf ps := by
  rw [starsOf_eq, List.mem_filterMap]
  constructor
  · rintro ⟨k, hk, hsrc⟩
    cases k <;> simp_all [Mark.star?]
  · exact fun h => ⟨_, h, rfl⟩

/-- No part comes twice just if no list names a name twice, there is one star for each module and
one list without names. -/
theorem nodup_marksOf : (marksOf ps).Nodup ↔ (listedNames ps).Nodup ∧
    (starsOf (ps.map Piece.item)).Nodup ∧ ps.countP (fun p => isEmptyList p.item) ≤ 1 := by
  have hname (n : String) : (listedNames ps).count n = (marksOf ps).count (.name n) := by
    rw [listedNames_eq, List.count_filterMap, List.count_eq_countP]
    refine List.countP_congr (fun k _ => ?_)
    cases k <;> simp [Mark.name?]
  have hstar (src : String) :
      (starsOf (ps.map Piece.item)).count src = (marksOf ps).count (.star src) := by
    rw [starsOf_eq, List.count_filterMap, List.count_eq_countP]
    refine List.countP_congr (fun k _ => ?_)
    cases k <;> simp [Mark.star?]
  simp only [List.nodup_iff_count_le_one, countP_isEmptyList, hname, hstar]
  constructor
  · exact fun h => ⟨fun n => h _, fun src => h _, h _⟩
  · rintro ⟨hnames, hstars, hnothing⟩ (n | src | _)
    · exact hnames n
    · exact hstars src
    · exact hnothing

/-- The names that statements export with declarations. -/
def directNamesOf (ps : List Piece) : List String :=
  (ps.flatMap (fun p => p.item.directExports)).map Prod.fst

theorem flatMap_directNames : ps.flatMap (fun p => directNames p.item) = directNamesOf ps := by
  simp only [directNamesOf, directNames_eq, List.map_flatMap]

theorem directExports_of_parts {p : Piece} (h : p.parts ≠ []) : p.item.directExports = [] := by
  obtain ⟨owner, i⟩ := p
  cases i with
  | exportList d => rfl
  | exportAll d => rfl
  | _ => exact absurd rfl h

/-- What is dropped depends on the names only that declarations export. -/
theorem dropRepeatedExports_eq_keepNewAll :
    dropRepeatedExports ps = keepNewAll ⟨directNamesOf ps, [], false⟩ ps := by
  rw [dropRepeatedExports, flatMap_directNames]

/-- The second list is the first without repeated exports: both export the same, the second by no
list twice or beside a declaration, and of what the first repeats the first part is left. -/
structure WithoutRepeats (ps qs : List Piece) : Prop where
  names : ∀ n, n ∈ directNamesOf qs ∨ n ∈ listedNames qs ↔ n ∈ directNamesOf ps ∨ n ∈ listedNames ps
  stars : ∀ src, src ∈ starsOf (qs.map Piece.item) ↔ src ∈ starsOf (ps.map Piece.item)
  listedOnce : (listedNames qs).Nodup
  listedAlone : ∀ n ∈ listedNames qs, n ∉ directNamesOf qs
  starsOnce : (starsOf (qs.map Piece.item)).Nodup
  emptyOnce : qs.countP (fun p => isEmptyList p.item) ≤ 1
  first : ∀ n ∉ directNamesOf ps,
    OrderedMap.find (.name n) (partsOf qs) = OrderedMap.find (.name n) (partsOf ps)
  others : qs.filter (fun p => p.parts.isEmpty) = ps.filter (fun p => p.parts.isEmpty)
  order : Thinned ((directNamesOf ps).map .name) ps qs

/-- Dropping repeated exports drops exactly those, and nothing when it is done again. -/
theorem repeated_exports_dropped (ps : List Piece) : WithoutRepeats ps (dropRepeatedExports ps) ∧
    dropRepeatedExports (dropRepeatedExports ps) = dropRepeatedExports ps := by
  have order : Thinned ((directNamesOf ps).map .name) ps (dropRepeatedExports ps) := by
    rw [dropRepeatedExports_eq_keepNewAll]
    exact (thinned_keepNewAll _ ps).congr (fun k => by simp [Exported.marks])
  have hdirect : directNamesOf (dropRepeatedExports ps) = directNamesOf ps := by
    rw [directNamesOf, order.flatMap_eq (fun _ => directExports_of_parts)]
    rfl
  have hmarks (k : Mark) : k ∈ marksOf (dropRepeatedExports ps) ↔
      k ∉ (directNamesOf ps).map .name ∧ k ∈ marksOf ps := by
    rw [marksOf, order.partsOf_eq, mem_keys_firsts]
    rfl
  have honce : (marksOf (dropRepeatedExports ps)).Nodup := by
    rw [marksOf, order.partsOf_eq]
    exact nodup_keys_firsts
  obtain ⟨hnames, hstars, hempty⟩ := nodup_marksOf.1 honce
  refine ⟨⟨fun n => ?_, fun src => ?_, hnames, fun n hn => ?_, hstars, hempty, fun n hn => ?_,
    order.others_eq, order⟩, ?_⟩
  · rw [hdirect, mem_listedNames, mem_listedNames, hmarks]
    by_cases hn : n ∈ directNamesOf ps <;> simp [hn]
  · rw [mem_starsOf, mem_starsOf, hmarks]
    simp
  · rw [mem_listedNames, hmarks] at hn
    rw [hdirect]
    simpa using hn.1
  · rw [order.partsOf_eq, find_firsts, if_neg (by simpa using hn)]
  · rw [@dropRepeatedExports_eq_keepNewAll (dropRepeatedExports ps), hdirect]
    refine keepNewAll_eq_self honce (fun k hk => ?_)
    simpa [Exported.marks] using ((hmarks k).1 hk).1

end Repeated

end AmbientBundle.Merge
