import AmbientBundle.Proofs.Merge.ExportSurface
import AmbientBundle.Proofs.Merge.StarOrder
/-!
What an entry file exports without names. A star that leads out of the chunk stays, be it the
file's own or one of a file to which its stars lead. What exports the module as a whole stays under
final names where the file is inlined.
-/
namespace AmbientBundle.Merge

open Step Syntax

/-- The modules of the stars among the statements. -/
def starsOf (is : List Item) : List String := is.filterMap Item.star?

/-- The statements that export the module as a whole. -/
def wholesOf (is : List Item) : List Item := is.filter Item.isWhole

section Lists

variable {is js : List Item}

@[simp] theorem starsOf_append (is js : List Item) :
    starsOf (is ++ js) = starsOf is ++ starsOf js := List.filterMap_append

@[simp] theorem wholesOf_append (is js : List Item) :
    wholesOf (is ++ js) = wholesOf is ++ wholesOf js := List.filter_append ..

theorem starsOf_eq_nil (h : ∀ i ∈ is, i.star? = none) : starsOf is = [] :=
  List.filterMap_eq_nil_iff.2 h

theorem wholesOf_eq_nil (h : ∀ i ∈ is, i.isWhole = false) : wholesOf is = [] :=
  List.filter_eq_nil_iff.2 (fun i hi => by simp [h i hi])

theorem wholesOf_exports (h : ∀ i ∈ is, isExportStatement i = true) : wholesOf is = [] := by
  refine wholesOf_eq_nil (fun i hi => ?_)
  cases i with
  | exportAssign e => cases h _ hi
  | exportAsNamespace name => cases h _ hi
  | _ => rfl

theorem Silent.stars {ps : List Piece} (h : Silent ps) : starsOf (ps.map Piece.item) = [] := by
  refine starsOf_eq_nil (fun i hi => ?_)
  obtain ⟨p, hp, rfl⟩ := List.mem_map.1 hi
  exact (h p hp).namesOnly.1

theorem Silent.wholes {ps : List Piece} (h : Silent ps) : wholesOf (ps.map Piece.item) = [] := by
  refine wholesOf_eq_nil (fun i hi => ?_)
  obtain ⟨p, hp, rfl⟩ := List.mem_map.1 hi
  exact (h p hp).namesOnly.2

theorem starsOf_surface (sf : Surface) : starsOf sf.items = sf.stars := by
  have hlist : starsOf (if (sf.names.map (fun n => Exports.specifier n.2 n.1)).isEmpty then []
      else [Exports.list (sf.names.map (fun n => Exports.specifier n.2 n.1))]) = [] := by
    split <;> rfl
  rw [Surface.items, starsOf_append, hlist, List.nil_append, starsOf, List.filterMap_map]
  exact List.filterMap_some

end Lists

section Reexport

variable {cx : Context} {n : Nat} {f g : Url} {i : Item} {s t : State} {es : List Item} {x : String}

/-- The specifier of a star that leads out of the chunk: of the statement itself, or of a file to
which the statement leads as a star. -/
inductive LeadsOut (cx : Context) (f : Url) : Item → String → Prop where
  | here {d : ExportAll} (hout : cx.inChunk? d.src.value f = none) :
      LeadsOut cx f (.exportAll d) (cx.placeSpecifier d.src.value f)
  | through {d : ExportAll} {target g : Url} {x : String}
      (hin : cx.inChunk? d.src.value f = some target) (hw : cx.Within target g)
      (hx : x ∈ cx.outerStars g) : LeadsOut cx f (.exportAll d) x

/-- The stars of a file that lead out of the chunk are those of its statements. -/
theorem leadsOut_iff : (∃ i ∈ cx.statements f, LeadsOut cx f i x) ↔
    ∃ g, cx.Within f g ∧ x ∈ cx.outerStars g := by
  constructor
  · rintro ⟨i, hi, hlead⟩
    cases hlead with
    | here hout =>
      exact ⟨f, .refl, Context.mem_outerStars.2 ⟨_, Context.mem_exports_of_star hi, hout, rfl⟩⟩
    | through hin hw hx =>
      exact ⟨_, .head ⟨_, Context.mem_exports_of_star hi, hin⟩ hw, hx⟩
  · have hstatement {src : String} (hsrc : .all src ∈ cx.exports f) :
        ∃ d : ExportAll, .exportAll d ∈ cx.statements f ∧ d.src.value = src := by
      cases Context.symbol_of_mem_exports hsrc with
      | star hi => exact ⟨_, Context.mem_statements_of_written hi rfl, rfl⟩
    rintro ⟨g, hw, hx⟩
    rcases Relation.ReflTransGen.cases_head hw with rfl | ⟨target, ⟨src, hsrc, hin⟩, hw⟩
    · obtain ⟨src, hsrc, hout, rfl⟩ := Context.mem_outerStars.1 hx
      obtain ⟨d, hd, rfl⟩ := hstatement hsrc
      exact ⟨_, hd, .here hout⟩
    · obtain ⟨d, hd, rfl⟩ := hstatement hsrc
      exact ⟨_, hd, .through hin hw hx⟩

theorem stars_of_mergeStar {d : ExportAll} (h : mergeStar cx n f d.src.value s = some (es, t)) :
    x ∈ starsOf es ↔ LeadsOut cx f (.exportAll d) x := by
  cases n with
  | zero => exact (failure_inv h).elim
  | succ n =>
  cases mergeStar_inv h with
  | outer hin =>
    rw [show starsOf [starOf (cx.placeSpecifier d.src.value f)] =
      [cx.placeSpecifier d.src.value f] from rfl, List.mem_singleton]
    constructor
    · rintro rfl
      exact .here hin
    · intro hlead
      cases hlead with
      | here => rfl
      | through hin' => cases hin.symm.trans hin'
  | @inner file c _ hin hc =>
    rw [starsOf_surface, show c.surface.stars = c.stars from rfl, (stars_of_collect hc).2]
    constructor
    · rintro ⟨g, hw, hx⟩
      exact .through hin hw hx
    · intro hlead
      cases hlead with
      | here hout => cases hin.symm.trans hout
      | through hin' hw hx =>
        obtain rfl := Option.some.inj (hin.symm.trans hin')
        exact ⟨_, hw, hx⟩

theorem stars_of_mergeReexport {d : ExportList} {src : String}
    (h : mergeReexport cx n f d src s = some (es, t)) : starsOf es = [] := by
  cases n with
  | zero => exact (failure_inv h).elim
  | succ n =>
  cases mergeReexport_inv h with
  | outer => rfl
  | inner => split <;> rfl

/-- The stars that stand for a statement of an entry file. -/
theorem stars_of_reexport (h : reexport cx n f i s = some (es, t)) :
    x ∈ starsOf es ↔ LeadsOut cx f i x := by
  cases n with
  | zero => exact (failure_inv h).elim
  | succ n =>
  have hnil (hes : starsOf es = []) (hi : ∀ d, i ≠ .exportAll d) :
      x ∈ starsOf es ↔ LeadsOut cx f i x := by
    rw [hes]
    refine iff_of_false List.not_mem_nil (fun hlead => ?_)
    cases hlead <;> exact hi _ rfl
  cases reexport_inv h with
  | list _ h => exact hnil (stars_of_mergeReexport h) (by simp)
  | star h => exact stars_of_mergeStar h
  | nothing _ hstar => exact hnil rfl hstar

end Reexport

section Printed

variable {cx : Context} {earlier : SeenSet Url} {f : Url} {s t : State}

/-- The statement under final names, and with what its import types refer to. -/
def Renders (ρ : Rename.Renaming) (i j : Item) : Prop := ∃ τ, j = (i.rename ρ).link τ

/-- Of what is shown of a statement nothing is a star, and what exports the module as a whole is
the statement. -/
theorem unnamed_shown (env : Environment) (ρ : Rename.Renaming) (τ : ImportTypes.Targets)
    (i : Item) : starsOf (linkItems τ (renameItems ρ (shown cx f false true env i))) = [] ∧
      List.Forall₂ (Renders ρ) (wholesOf [i])
        (wholesOf (linkItems τ (renameItems ρ (shown cx f false true env i)))) := by
  rw [linkItems_eq_map, renameItems_eq_map, List.map_map]
  have hstar : ∀ j ∈ shown cx f false true env i, j.star? = none := by
    intro j hj
    rcases whole_of_mem_shown hj with hnames | ⟨hwhole, -, rfl⟩
    · exact hnames.1
    · cases j with
      | exportAll d => cases hwhole
      | _ => rfl
  refine ⟨starsOf_eq_nil (fun j hj => ?_), ?_⟩
  · obtain ⟨k, hk, rfl⟩ := List.mem_map.1 hj
    exact ((Item.star?_link τ _).trans (Item.star?_rename ρ k)).trans (hstar k hk)
  · cases hi : i.isWhole with
    | true =>
      have hshown : shown cx f false true env i = [i] := by
        cases i with
        | exportAssign e => rfl
        | exportAsNamespace name => rfl
        | _ => cases hi
      have hkept : ((i.rename ρ).link τ).isWhole = true :=
        ((Item.isWhole_link τ _).trans (Item.isWhole_rename ρ i)).trans hi
      rw [hshown]
      simp only [wholesOf, List.map_cons, List.map_nil, Function.comp_apply, List.filter_cons, hi,
        hkept, if_true, List.filter_nil]
      exact .cons ⟨τ, rfl⟩ .nil
    | false =>
      have hnone : wholesOf ((shown cx f false true env i).map
          ((fun j => j.link τ) ∘ fun j => j.rename ρ)) = [] := by
        refine wholesOf_eq_nil (fun j hj => ?_)
        obtain ⟨k, hk, rfl⟩ := List.mem_map.1 hj
        rcases whole_of_mem_shown hk with hnames | ⟨hwhole, -, rfl⟩
        · exact ((Item.isWhole_link τ _).trans (Item.isWhole_rename ρ k)).trans hnames.2
        · rw [hi] at hwhole
          cases hwhole
      rw [hnone, wholesOf_eq_nil (by simpa using hi)]
      exact .nil

/-- What merging puts for a statement of an entry file has the stars by which the statement leads
out of the chunk, and what exports the module as a whole. -/
theorem EntryPart.unnamed {i : Item} {part : List Item} (h : EntryPart cx earlier f s t i part) :
    (∀ x, x ∈ starsOf part ↔ LeadsOut cx f i x) ∧
      List.Forall₂ (Renders (Rename.ofEnvironment t.root.env f)) (wholesOf [i]) (wholesOf part) := by
  obtain ⟨τ, env, es, rfl, -, -, hes, k, s₁, t₁, hx⟩ := h.inv
  obtain ⟨hstars, hwholes⟩ := @unnamed_shown cx f env (Rename.ofEnvironment t.root.env f) τ i
  refine ⟨fun x => ?_, ?_⟩
  · rw [starsOf_append, hstars, List.nil_append]
    exact stars_of_reexport hx
  · rw [wholesOf_append, wholesOf_exports hes.lists, List.append_nil]
    exact hwholes

theorem starsOf_parts {R : Item → List Item → Prop} {is : List Item} {parts : List (List Item)}
    {P : Item → String → Prop} (hR : ∀ i part, R i part → ∀ x, x ∈ starsOf part ↔ P i x)
    (h : List.Forall₂ R is parts) (x : String) : x ∈ starsOf parts.flatten ↔ ∃ i ∈ is, P i x := by
  induction h with
  | nil => simp [starsOf]
  | cons hpart _ ih => simp [hR _ _ hpart, ih]

theorem wholesOf_parts {R : Item → List Item → Prop} {S : Item → Item → Prop} {is : List Item}
    {parts : List (List Item)}
    (hR : ∀ i part, R i part → List.Forall₂ S (wholesOf [i]) (wholesOf part))
    (h : List.Forall₂ R is parts) : List.Forall₂ S (wholesOf is) (wholesOf parts.flatten) := by
  induction h with
  | nil => exact .nil
  | @cons i part is parts hpart _ ih =>
    rw [List.flatten_cons, wholesOf_append, ← List.singleton_append, wholesOf_append]
    exact List.rel_append (hR i part hpart) ih

end Printed

end AmbientBundle.Merge
