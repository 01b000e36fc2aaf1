import AmbientBundle.Proofs.Merge.ExportBinding
import AmbientBundle.Proofs.Merge.ExportedOnce
import AmbientBundle.Proofs.Merge.OriginExports
import AmbientBundle.Proofs.Merge.OuterStars
import AmbientBundle.Proofs.Merge.Precedence
import AmbientBundle.Proofs.Merge.Termination
/-!
An entry file that is new is inlined, and each of its statements exports what it does. If the
entries before it lead to it, it is inlined already, and its exports are gathered once more. Both
ways the file exports the same: the same stars, the same names, each for the same declaration. Only
what no export table has is lost when exports are gathered: what exports the module as a whole, and
values without a name.
-/
namespace AmbientBundle.Merge

open Step Syntax

/-- What statements export. -/
def exportsOf (is : List Item) : List (String × Bound) := is.flatMap Item.exports

/-- The statements that the root has in addition. -/
def State.addedItems (s t : State) : List Item :=
  (t.root.items.drop s.root.items.length).map Piece.item

section Lists

variable {is js : List Item} {name : String} {e : String × Bound} {s t : State}
  {added ps : List Piece}

theorem mem_exportsOf : e ∈ exportsOf is ↔ e ∈ directExportsOf is ∨ e ∈ listExportsOf is := by
  simp only [exportsOf, directExportsOf, listExportsOf, Item.exports, List.mem_flatMap,
    List.mem_append, and_or_left, exists_or]

theorem mem_namesOf_exportsOf : name ∈ namesOf (exportsOf is) ↔
    name ∈ namesOf (directExportsOf is) ∨ name ∈ namesOf (listExportsOf is) := by
  simp only [namesOf, List.mem_map, mem_exportsOf, or_and_right, exists_or]

theorem addedItems_eq (h : t.root.items = s.root.items ++ added ++ ps) :
    s.addedItems t = added.map Piece.item ++ ps.map Piece.item := by
  rw [State.addedItems, h, List.append_assoc, List.drop_left, List.map_append]

/-- Silent statements add nothing to what others export. -/
theorem Silent.exportsOf_append (h : Silent added) (is : List Item) :
    exportsOf (added.map Piece.item ++ is) = exportsOf is := by
  have hnone : (added.map Piece.item).flatMap Item.exports = [] := by
    refine List.flatMap_eq_nil_iff.2 (fun i hi => ?_)
    obtain ⟨p, hp, rfl⟩ := List.mem_map.1 hi
    exact (h p hp).exports
  rw [exportsOf, List.flatMap_append, hnone, List.nil_append, exportsOf]

theorem exportsOf_exports (h : ∀ i ∈ is, isExportStatement i = true) :
    exportsOf is = listExportsOf is := by
  refine List.flatMap_congr (fun i hi => ?_)
  rw [Item.exports, directExports_of_isExportStatement (h i hi), List.nil_append]

end Lists

section Alike

variable {cx : Context} {earlier : SeenSet Url} {env : Environment} {f d g : Url} {i : Item}
  {name k : String} {b : Bound} {files : List Url}

namespace Context

/-- The file's export table has the name for each statement that exports it otherwise than from
another module. -/
def Tracks (cx : Context) (f : Url) (name : String) : Prop :=
  ∀ i ∈ cx.written f, name ∈ ownNames i →
    name ∈ (Exports.ofItem f i).filterMap ExportedSymbol.exportedName?

instance (cx : Context) (f : Url) (name : String) : Decidable (cx.Tracks f name) :=
  inferInstanceAs (Decidable (∀ i ∈ cx.written f, name ∈ ownNames i → _))

theorem Tracks.lists (h : cx.Tracks f name) (hi : i ∈ cx.statements f) (hn : name ∈ ownNames i) :
    cx.Lists f name := by
  have hmem : name ∈ (cx.written f).flatMap ownNames :=
    ownNames_statements ▸ List.mem_flatMap.2 ⟨i, hi, hn⟩
  obtain ⟨j, hj, hn⟩ := List.mem_flatMap.1 hmem
  obtain ⟨e, he, hname⟩ := List.mem_filterMap.1 (h j hj hn)
  rw [lists_iff, exports_eq_written]
  exact List.mem_filterMap.2 ⟨e, List.mem_flatMap.2 ⟨j, hj, he⟩, hname⟩

end Context

/-- What a statement exposes is among the exports of the file. -/
theorem offers_of_exposes (hi : i ∈ cx.statements f) (ht : cx.Tracks f name)
    (hk : ¬TakenAlias cx env f name) (h : Exposes cx env f i name b) :
    ∃ g, cx.Offers f true g name := by
  have hself (hl : cx.Lists f name) : ∃ g, cx.Offers f true g name :=
    ⟨f, .refl, hl, fun _ => ⟨rfl, rfl⟩⟩
  have hlisted {d : ExportList} {src : StrLit} {sp : ExportSpecifier}
      (hd : .exportList d ∈ cx.statements f) (hsrc : d.src = some src) (hsp : sp ∈ d.specifiers)
      (hname : exportedName sp = name) : cx.Lists f name := by
    obtain ⟨e, he, hof⟩ := Context.mem_exports_of_specifier hd hsrc hsp
    refine Context.lists_iff.2 (List.mem_filterMap.2 ⟨e, he, ?_⟩)
    cases sp with
    | named orig exported typeOnly =>
      cases hof
      exact congrArg some hname
    | all x =>
      cases hof
      exact congrArg some hname
  cases h with
  | own he => exact hself (ht.lists hi (List.mem_map_of_mem he))
  | @aliased d he =>
    by_cases hsame : Rename.ofEnvironment env f d.id.name = d.id.name
    · refine hself (ht.lists hi ?_)
      rw [hsame]
      simp [ownNames, namesOf, Item.ownExports, Item.directExports, he]
    · exact absurd ⟨d, hi, he, rfl, hsame⟩ hk
  | taken hsrc hsp => exact hself (hlisted hi hsrc hsp rfl)
  | space hsrc hsp => exact hself (hlisted hi hsrc hsp rfl)
  | outer hsrc hsp => exact hself (hlisted hi hsrc hsp rfl)
  | star hin hg =>
    have hstar : cx.Stars f _ := ⟨_, Context.mem_exports_of_star hi, hin⟩
    exact ⟨_, .head hstar hg.within, hg.lists, fun he => absurd (hg.default he).2 (by simp)⟩

/-- An exported `import x = …` of the file has the name if and only if it keeps it. -/
structure PlainAliases (cx : Context) (env : Environment) (f : Url) (name : String) : Prop where
  kept : KeepsAlias cx env f name
  taken : ¬TakenAlias cx env f name

/-- What the file exports explicitly under the name comes before its stars: some statement other than
a star exports the name, and does so with a declaration that has kept its names, or before all stars
that lead to the name. -/
def ExplicitComesFirst (cx : Context) (earlier : SeenSet Url) (env : Environment) (f : Url)
    (name : String) : Prop :=
  ∃ before i after, cx.statements f = before ++ i :: after ∧ (∀ d, i ≠ .exportAll d) ∧
    Promises cx earlier f i name ∧
    ((∀ id ∈ i.declared, Rename.ofEnvironment env f id.name = id.name) ∧
      name ∈ namesOf i.directExports ∨ NoStar cx f before name)

/-- All that the file exports under the name is the one origin, be it explicitly or, where it does
not export the name explicitly, by its stars. What it exports of its own has a final name for
sure. -/
structure FileExportsOnly (cx : Context) (earlier : SeenSet Url) (env : Environment) (f : Url)
    (name : String) (o : Origin) : Prop where
  explicit : ∀ i ∈ cx.statements f, (∀ d, i ≠ .exportAll d) → ∀ o', cx.Yields f i name o' →
    o' = some o
  offered : ∀ g, cx.Offers f true g name → (cx.Lists f name → g = f) → ∀ o',
    cx.From (.exported g name) o' → o' = o
  found : ∀ i ∈ cx.statements f, ∀ x, (name, .here x) ∈ i.ownExports → Found cx earlier f x
  first : cx.Lists f name → ExplicitComesFirst cx earlier env f name

/-- What is exported is the origin: under its final name, or taken from the module outside of the
chunk. -/
def Bound.Shows (s : State) (o : Origin) : Bound → Prop
  | .here v => o.Named s v
  | .there x module => o = .outer module (.ofText x)
  | .space module => o = .outer module .all
  | .value => False

theorem Bound.Shows.addItems {s : State} {o : Origin} (h : b.Shows s o) (ps : List Piece) :
    b.Shows (s.addItems ps) o := by
  cases b with
  | here v => cases o <;> simpa [Bound.Shows, Origin.Named] using h
  | _ => exact h

/-- What stands for an origin is the origin, unless something else is exported, too. -/
theorem Bound.StandsFor.shows {s : State} {o o' : Origin} (h : b.StandsFor cx s o') (he : o' = o)
    (honly : ∀ g k, o' = .decl g k → ∀ o'', cx.From (.own g k) o'' → o'' = o) : b.Shows s o := by
  subst he
  cases b with
  | here v =>
    rcases h with hnamed | ⟨g, k, o'', hdecl, hfrom, hne⟩
    · exact hnamed
    · exact absurd (honly g k hdecl o'' hfrom) hne
  | there x module => exact h
  | space module => exact h
  | value => exact h

/-- An export that has a source is the origin if the file exports nothing else under the name. -/
theorem Sourced.shows {s : State} {o : Origin} (h : Sourced cx s f i (name, b))
    (hi : i ∈ cx.statements f) (honly : FileExportsOnly cx earlier s.root.env f name o)
    (hstar : (∃ d, i = .exportAll d) → ¬cx.Lists f name)
    (hown : ∀ x, Found cx earlier f x → ∃ v, s.root.env.lookup f x = some v)
    (htraced : Traced cx s) (htaken : ¬TakenAlias cx s.root.env f name) : b.Shows s o := by
  -- what the file exports of its own has a final name that is traced
  have hlocal {x : String} (hx : (name, .here x) ∈ i.ownExports) (hstatement : ∀ d, i ≠ .exportAll d) :
      (Bound.here (Rename.ofEnvironment s.root.env f x)).Shows s o := by
    obtain ⟨v, hv⟩ := hown x (honly.found i hi x hx)
    obtain ⟨o', hfrom, hstands⟩ := htraced f x v hv
    rw [Rename.ofEnvironment, hv, Option.getD_some]
    have hexplicit {o'' : Origin} (hfrom : cx.From (.own f x) o'') : o'' = o :=
      Option.some.inj (honly.explicit i hi hstatement _ (.own hx hfrom))
    refine Bound.StandsFor.shows (b := .here v) hstands (hexplicit hfrom) ?_
    rintro g k rfl o'' ho
    exact hexplicit (hfrom.through ho)
  cases h with
  | own h =>
    cases h with
    | @own e' hmem hi' he =>
      obtain ⟨name', b'⟩ := e'
      obtain ⟨rfl, rfl⟩ := Prod.mk.inj he
      have hstatement : ∀ d, i ≠ .exportAll d := by
        rintro d rfl
        cases hmem
      by_cases hb : ∃ x, b' = .here x
      · obtain ⟨x, rfl⟩ := hb
        exact hlocal hmem hstatement
      · have hvalue := honly.explicit i hi hstatement _ (.value hmem (fun x hx => hb ⟨x, hx⟩))
        cases hvalue
    | @aliased d hd hexport he =>
      subst hd
      obtain ⟨hname, rfl⟩ := Prod.mk.inj he
      have hsame : Rename.ofEnvironment s.root.env f d.id.name = d.id.name := by
        by_contra hne
        exact htaken ⟨d, hi, hexport, hname, hname ▸ hne⟩
      refine hlocal (x := d.id.name) ?_ (by simp)
      simp [Item.ownExports, Item.directExports, hexport, hname, hsame, Ident.bound]
  | @handed o' hy hb =>
    have hyields {o'' : Origin} (hy : cx.Yields f i name (some o'')) : o'' = o := by
      by_cases hd : ∃ d, i = .exportAll d
      · have hlists := hstar hd
        obtain ⟨d, rfl⟩ := hd
        cases hy with
        | own hx => cases hx
        | star hin hg _ hfrom =>
          have hoffers : cx.Offers f true _ name :=
            ⟨.head ⟨_, Context.mem_exports_of_star hi, hin⟩ hg.within, hg.lists,
              fun he => absurd (hg.default he).2 (by simp)⟩
          exact honly.offered _ hoffers (fun hl => absurd hl hlists) _ hfrom
      · exact Option.some.inj (honly.explicit i hi (fun d hi' => hd ⟨d, hi'⟩) _ hy)
    refine hb.shows (hyields hy) ?_
    rintro g k rfl o'' ho
    exact hyields (hy.through ho)

/-- The statements export what the file does: the stars of the file and of those to which its stars
lead, the names that it offers, and the origins. -/
structure ExportsFile (cx : Context) (earlier : SeenSet Url) (f : Url) (s : State)
    (plain : String → Prop) (only : String → Origin → Prop) (is : List Item) : Prop where
  stars : ∀ x, x ∈ starsOf is ↔ ∃ g, cx.Within f g ∧ x ∈ cx.outerStars g
  names : ∀ name, plain name → cx.Tracks f name → ¬Dead cx earlier f true name →
    (name ∈ namesOf (exportsOf is) ↔ ∃ g, cx.Offers f true g name)
  bound : ∀ name o, plain name → only name o → ∀ b, Stays is (name, b) → b.Shows s o

section Step

variable {n : Nat} {s t u : State} {ps : List Piece}

/-- An export that stays among the parts for an entry's statements is the origin that the file
exports under the name. -/
theorem shows_of_stays {parts : List (List Item)} {o : Origin} (htracing : Tracing cx [f] t)
    (hparts : List.Forall₂ (EntryPart cx earlier f t u) (cx.statements f) parts)
    (hown : ∀ x, Found cx earlier f x → ∃ v, u.root.env.lookup f x = some v)
    (hfinal : Traced cx u) (hplain : PlainAliases cx u.root.env f name)
    (honly : FileExportsOnly cx earlier u.root.env f name o)
    (hb : Stays parts.flatten (name, b)) : b.Shows u o := by
  by_cases hl : cx.Lists f name
  · -- an explicit export of the name comes first, and no star exports it
    obtain ⟨before, i, after, hstatements, hi, hp, hfirst⟩ := honly.first hl
    have hkeeps : KeepsName (Rename.ofEnvironment u.root.env f) i := by
      rintro d rfl hd
      cases hp with
      | own he =>
        simp only [Item.ownExports, Item.directExports, hd, if_true, List.mem_singleton] at he
        subst he
        exact hplain.kept d (by simp [hstatements]) hd rfl
    obtain ⟨j, hj, hstar, part, hpart, he⟩ := inExplicit_of_stays
      (fun _ _ hpart => hpart.exposure) hparts hstatements hi hkeeps hp hfirst hb
    exact (hpart.sourced htracing he).shows hj honly
      (fun hall => hall.elim (fun d hd => absurd hd (hstar d))) hown hfinal hplain.taken
  · have he : (name, b) ∈ directExportsOf parts.flatten ∨
        (name, b) ∈ listExportsOf parts.flatten := by
      cases hb with
      | direct he => exact Or.inl he
      | listed _ he => exact Or.inr (mem_of_firstExport? he).1
    obtain ⟨part, hpart, he⟩ := mem_exports_flatten.1 he
    obtain ⟨i, hi, hpart⟩ := forall₂_mem_right hparts hpart
    exact (hpart.sourced htracing he).shows hi honly (fun _ => hl) hown hfinal hplain.taken

/-- A new entry file exports what its statements do. -/
theorem exportsFile_inlined (hs : Reached cx earlier files s) (hhas : cx.HasFile f)
    (hnew : s.included.contains f = false)
    (imports : Run cx n .entry [f] ((s.addFile f).bindFile (cx.statements f) f)
      ⟨[], cx.specifiers f, []⟩ t)
    (ht : AtRoot cx earlier [f] [] t) (prints : Run cx n .entry [f] t ⟨ps, [], cx.statements f⟩ u) :
    ExportsFile cx earlier f (u.addItems ps) (PlainAliases cx u.root.env f)
      (FileExportsOnly cx earlier u.root.env f) (s.addedItems (u.addItems ps)) ∧
    List.Forall₂ (Renders (Rename.ofEnvironment u.root.env f)) (wholesOf (cx.statements f))
      (wholesOf (s.addedItems (u.addItems ps))) := by
  have hroot := hs.atRoot
  have hu := (hs.entry hhas (.inlined hnew imports ht prints)).atRoot.linked
  have hincluded : u.included.contains f = true :=
    prints.grows.contains (ht.rooted.begun f (List.mem_singleton_self f))
  have hold : earlier.contains f = false := by
    rw [Bool.eq_false_iff]
    intro hmem
    rw [hs.contains hmem] at hnew
    cases hnew
  -- final names are traced when the file begins, when its imports are linked, and at the end
  have hbegun := hs.tracing.traced.beginFile hroot.rooted hnew
  have htraced := imports.traced (fun k _ => findsOrigin cx k) (hroot.formed.beginFile hhas)
    (hroot.rooted.beginFile (cx.statements f) f) hbegun.1
  have htracing : Tracing cx [f] t := ⟨ht.root, ht.formed, ht.rooted, htraced.1⟩
  obtain ⟨added, hsilent, hitems⟩ := items_of_inlined imports ht prints
  obtain ⟨parts, hparts, hplaced⟩ := prints.parts rfl rfl ht rfl
  have hexposures := hparts.imp (fun _ _ hpart => hpart.exposure)
  have hsame : SameExports (added.map Piece.item ++ ps.map Piece.item) parts.flatten :=
    (SameExports.silent hsilent).append hplaced.sameExports
  have hmem (e : String × Bound) : e ∈ exportsOf (added.map Piece.item ++ ps.map Piece.item) ↔
      ∃ part ∈ parts, e ∈ directExportsOf part ∨ e ∈ listExportsOf part := by
    rw [mem_exportsOf, hsame.direct, hsame.listed, mem_exports_flatten]
  rw [addedItems_eq hitems]
  refine ⟨⟨fun x => ?_, fun name hplain htracked hlive => ⟨fun hname => ?_, fun hoffers => ?_⟩,
    fun name o hplain honly b hb => ?_⟩, ?_⟩
  · rw [starsOf_append, hsilent.stars, List.nil_append,
      hplaced.collected starsOf_append (fun _ h => h.stars),
      starsOf_parts (fun _ _ hpart => hpart.unnamed.1) hparts, leadsOut_iff]
  · obtain ⟨e, he, rfl⟩ := List.mem_map.1 hname
    obtain ⟨part, hpart, he⟩ := (hmem e).1 he
    obtain ⟨i, hi, hexposure⟩ := forall₂_mem_right hexposures hpart
    exact offers_of_exposes hi htracked hplain.taken (hexposure.sound e he)
  · obtain ⟨g, hg⟩ := hoffers
    obtain ⟨i, hi, hpromise⟩ := promises_of_offers hg hlive
    obtain ⟨part, hpart, hexposure⟩ := forall₂_mem_left hexposures hi
    rw [mem_namesOf_exportsOf, hsame.direct, hsame.listed]
    exact mem_names_flatten hpart (hexposure.promised hi hplain.kept hpromise)
  · have hown (x : String) (hx : Found cx earlier f x) : ∃ v, u.root.env.lookup f x = some v := by
      rw [← Option.isSome_iff_exists, ← State.root_addItems_env u ps]
      rcases hx with hd | ⟨e, he, rfl, hlive⟩
      · exact hu.bound f x (by simpa using hincluded) hold hd
      · exact hu.done f (by simpa using hincluded) hold (by simp) e he hlive
    have hfinal := (htracing.goesOn prints).1.traced
    exact (shows_of_stays htracing hparts hown hfinal hplain honly (hsame.stays.1 hb)).addItems ps
  · rw [wholesOf_append, hsilent.wholes, List.nil_append,
      hplaced.collected wholesOf_append (fun _ h => h.wholes)]
    exact wholesOf_parts (fun _ _ hpart => hpart.unnamed.2) hparts

/-- What is gathered for an entry file that is inlined already is what the file exports, but
nothing that exports the module as a whole. -/
theorem exportsFile_gathered (env : Environment) {c : Collected} (hs : Reached cx earlier files s)
    (hhas : cx.HasFile f) (hold : s.included.contains f = true)
    (hc : collect cx n f true Collected.empty s = some (c, t)) :
    ExportsFile cx earlier f (t.addItems (c.surface.items.map (Piece.ofFile f)))
      (fun _ => True) (FileExportsOnly cx earlier env f)
      (s.addedItems (t.addItems (c.surface.items.map (Piece.ofFile f)))) ∧
    wholesOf (s.addedItems (t.addItems (c.surface.items.map (Piece.ofFile f)))) = [] := by
  have hlead : cx.LeadTo [] f := fun _ hmem => (by cases hmem)
  obtain ⟨added, hsilent, hitems⟩ :=
    @items_of_gathered _ _ _ _ _ _ _ (c.surface.items.map (Piece.ofFile f)) hs.atRoot hhas hc
  obtain ⟨-, hsound, hcomplete⟩ := collect_gathered hs.atRoot hlead hhas hold hc
  obtain ⟨-, hcame⟩ := collect_came hs.tracing hlead hhas hold hc
  have hlists : ∀ i ∈ c.surface.items, isExportStatement i = true :=
    fun i hi => isExportStatement_of_mem_items hi
  rw [addedItems_eq hitems, List.map_map, show Piece.item ∘ Piece.ofFile f = id from rfl,
    List.map_id]
  have hexports : exportsOf (added.map Piece.item ++ c.surface.items) =
      c.names.map (fun e => (e.1, .here e.2)) := by
    rw [hsilent.exportsOf_append, exportsOf_exports hlists]
    exact listExports_surface c.surface
  refine ⟨⟨fun x => ?_, fun name _ _ hlive => ⟨fun hname => ?_, fun hoffers => ?_⟩,
    fun name o _ honly b hb => ?_⟩, ?_⟩
  · rw [starsOf_append, hsilent.stars, List.nil_append, starsOf_surface]
    exact (stars_of_collect hc).2 x
  · rw [hexports, namesOf, List.map_map] at hname
    obtain ⟨⟨_, v⟩, he, rfl⟩ := List.mem_map.1 hname
    obtain ⟨g, hg⟩ := hsound _ v he
    exact ⟨g, hg.toOffers⟩
  · obtain ⟨g, hg⟩ := hoffers
    rw [hexports, namesOf, List.map_map]
    exact hcomplete g name hg hlive
  · have he : (name, b) ∈ exportsOf (added.map Piece.item ++ c.surface.items) := by
      rw [mem_exportsOf]
      cases hb with
      | direct he => exact Or.inl he
      | listed _ he => exact Or.inr (mem_of_firstExport? he).1
    rw [hexports] at he
    obtain ⟨⟨_, v⟩, hmem, heq⟩ := List.mem_map.1 he
    cases heq
    obtain ⟨g, hg, hfirst, o', hfrom, hstands⟩ := hcame _ v hmem
    have hone := honly.offered g hg hfirst
    refine Bound.Shows.addItems (Bound.StandsFor.shows (b := .here v) hstands (hone o' hfrom) ?_) _
    rintro h k rfl o'' ho
    exact hone o'' (hfrom.through ho)
  · rw [wholesOf_append, hsilent.wholes, List.nil_append, wholesOf_exports hlists]

end Step

/-- What a file exports when it is inlined as an entry, which leads to `t`, and when its exports are
gathered, which leads to `t'`: the same stars, the same names, and, of the exports of a name that
stay, the same origins. -/
structure ExportsAlike (cx : Context) (earlier : SeenSet Url) (f : Url) (t t' : State)
    (is js : List Item) : Prop where
  stars : ∀ x, x ∈ starsOf is ↔ x ∈ starsOf js
  names : ∀ name, PlainAliases cx t.root.env f name → cx.Tracks f name →
    ¬Dead cx earlier f true name → (name ∈ namesOf (exportsOf is) ↔ name ∈ namesOf (exportsOf js))
  bound : ∀ name o, PlainAliases cx t.root.env f name →
    FileExportsOnly cx earlier t.root.env f name o →
      (∀ b, Stays is (name, b) → b.Shows t o) ∧ ∀ b, Stays js (name, b) → b.Shows t' o
  wholes : List.Forall₂ (Renders (Rename.ofEnvironment t.root.env f)) (wholesOf (cx.statements f))
    (wholesOf is) ∧ wholesOf js = []

variable {files' : List Url} {n : Nat} {s s' : State}

/-- An entry file exports the same whether it is new when it is included or inlined already, since
entries before it lead to it. -/
theorem entry_exports_alike (hs : Reached cx earlier files s) (hs' : Reached cx earlier files' s')
    (hhas : cx.HasFile f) (hnew : s.included.contains f = false)
    (hold : s'.included.contains f = true) (hn : depthBound cx.files ≤ n) :
    ∃ t t', includeFile cx n f .entry s = some ((), t) ∧
      includeFile cx n f .entry s' = some ((), t') ∧
      ExportsAlike cx earlier f t t' (s.addedItems t) (s'.addedItems t') := by
  have hends (u : State) (hu : AtRoot cx earlier [] [] u) :
      ∃ t, includeFile cx n f .entry u = some ((), t) := by
    obtain ⟨_, t, ht, -⟩ := (ending cx _).includeEntry hhas.mem_fileSet hu.root
      (cx.depth_le_depthBound u)
    exact ⟨t, ht n hn⟩
  obtain ⟨t, ht⟩ := hends s hs.atRoot
  obtain ⟨t', ht'⟩ := hends s' hs'.atRoot
  refine ⟨t, t', ht, ht', ?_⟩
  obtain ⟨k, hstep⟩ := entryStep_of_includeFile hs.atRoot hhas ht
  obtain ⟨k', hstep'⟩ := entryStep_of_includeFile hs'.atRoot hhas ht'
  cases hstep with
  | again hold' => rw [hnew] at hold'; cases hold'
  | @inlined _ u ps _ imports hbegun prints =>
    cases hstep' with
    | inlined hnew' => rw [hold] at hnew'; cases hnew'
    | again _ hc =>
      obtain ⟨h, hwholes⟩ := exportsFile_inlined hs hhas hnew imports hbegun prints
      obtain ⟨h', hwholes'⟩ := exportsFile_gathered u.root.env hs' hhas hold hc
      rw [← State.root_addItems_env u ps] at h hwholes h'
      exact
        { stars := fun x => (h.stars x).trans (h'.stars x).symm
          names := fun name hplain htracked hlive =>
            (h.names name hplain htracked hlive).trans (h'.names name trivial htracked hlive).symm
          bound := fun name o hplain honly =>
            ⟨h.bound name o hplain honly, h'.bound name o trivial honly⟩
          wholes := ⟨hwholes, hwholes'⟩ }

/-- `export { orig as exported } from "src";` -/
def taking (orig exported src : String) : Item :=
  .exportList ⟨[Exports.specifier orig exported], some (StrLit.made src), false, none⟩

/-- `export * from "src";` -/
def allOf (src : String) : Item := .exportAll ⟨StrLit.made src, false, none⟩

/-- `/f.d.ts` takes a class of `/a.d.ts` and a symbol of a module outside of the chunk, and has stars
of `/c.d.ts`, which exports a class of that name, too, and of a module outside; `/b.d.ts` imports
it. -/
def takingAll : Context := sharedFiles
  [("/a.d.ts", [.exportDecl (emptyClass "N")]),
    ("/c.d.ts", [.exportDecl (emptyClass "N"), .exportDecl (emptyClass "M")]),
    ("/f.d.ts", [taking "N" "N" "/a.d.ts", taking "Q" "R" "npm:q", allOf "/c.d.ts",
      allOf "npm:all", .exportDecl (emptyClass "K")]),
    ("/b.d.ts", [.importDecl ⟨[], StrLit.made "/f.d.ts", false, none⟩, .decl (emptyClass "K")])]

theorem statements_takingAll : takingAll.statements (.ofPath "/f.d.ts") = [taking "N" "N" "/a.d.ts",
    taking "Q" "R" "npm:q", allOf "/c.d.ts", allOf "npm:all", .exportDecl (emptyClass "K")] := rfl

set_option maxRecDepth 100000 in
theorem only_taken (env : Environment) : FileExportsOnly takingAll ∅ env (.ofPath "/f.d.ts") "N"
    (.decl (.ofPath "/a.d.ts") "N") := by
  have hin : takingAll.inChunk? "/a.d.ts" (.ofPath "/f.d.ts") = some (.ofPath "/a.d.ts") := by
    decide +kernel
  have hone : takingAll.OneOrigin [.exported (.ofPath "/f.d.ts") "N",
      .exported (.ofPath "/a.d.ts") "N", .own (.ofPath "/a.d.ts") "N"]
      (.decl (.ofPath "/a.d.ts") "N") := by decide +kernel
  have hlists : takingAll.Lists (.ofPath "/f.d.ts") "N" := by
    unfold Context.Lists
    decide +kernel
  have htaken {i : Item} (hi : i ∈ takingAll.statements (.ofPath "/f.d.ts"))
      (hstar : ∀ d, i ≠ .exportAll d) (hname : "N" ∈ namesOf i.exports) :
      i = taking "N" "N" "/a.d.ts" := by
    rw [statements_takingAll] at hi
    simp only [List.mem_cons, List.not_mem_nil, or_false] at hi
    rcases hi with rfl | rfl | rfl | rfl | rfl
    · rfl
    · exact absurd hname (by decide)
    · exact absurd rfl (hstar _)
    · exact absurd rfl (hstar _)
    · exact absurd hname (by decide)
  refine ⟨fun i hi hstar o' hy => ?_, fun g hg hfirst o' hfrom => ?_, fun i hi x hx => ?_, fun _ => ?_⟩
  · obtain rfl := htaken hi hstar (hy.mem_namesOf hstar)
    generalize hi : taking "N" "N" "/a.d.ts" = i at hy
    generalize hname : "N" = name at hy
    cases hy with
    | own hx => subst hi; cases hx
    | value hx => subst hi; cases hx
    | @taken _ src orig exported typeOnly target o hsrc hsp hin' ho =>
      cases hi
      cases hsrc
      obtain rfl := Option.some.inj (hin.symm.trans hin')
      obtain ⟨rfl, rfl, -⟩ := ExportSpecifier.named.inj (List.mem_singleton.1 hsp)
      exact congrArg some (hone.only (by simp [ExportName.text]) ho)
    | outer hsrc _ hout =>
      cases hi
      cases hsrc
      cases hin.symm.trans hout
    | space _ hsp =>
      cases hi
      cases List.mem_singleton.1 hsp
    | star => cases hi
  · obtain rfl := hfirst hlists
    exact hone.only (by simp) hfrom
  · have hstar : ∀ d, i ≠ .exportAll d := by
      rintro d rfl
      cases hx
    obtain rfl := htaken hi hstar (List.mem_map.2 ⟨_, ownExports_subset _ hx, rfl⟩)
    cases hx
  · refine ⟨[], taking "N" "N" "/a.d.ts", _, statements_takingAll, by simp [taking], ?_,
      Or.inr (by simp [NoStar])⟩
    have hx : takingAll.explicit? (.ofPath "/a.d.ts") "N" =
        some (.named "N" "N" none (some ⟨.ofPath "/a.d.ts", 0⟩)) := by decide +kernel
    have hlive : Live takingAll ∅ Idle (.ofPath "/a.d.ts") "N" (.decl (.ofPath "/a.d.ts") "N") :=
      .declared hx (by decide) (by decide +kernel)
    exact @Promises.taken _ _ _ _ _ (.word "N") none _ _ _ rfl (List.mem_singleton_self _) hin hlive

set_option maxRecDepth 100000 in
/-- The file takes the class of `/a.d.ts` both ways, and what it takes from outside of the chunk;
where its exports are gathered the class of `/b.d.ts` has kept its name. -/
theorem entry_exports_alike_taking : ∃ s s', Reached takingAll ∅ [] s ∧
    Reached takingAll ∅ [.ofPath "/b.d.ts"] s' ∧ takingAll.HasFile (.ofPath "/f.d.ts") ∧
    s.included.contains (.ofPath "/f.d.ts") = false ∧
    s'.included.contains (.ofPath "/f.d.ts") = true ∧ ∃ t t',
      ExportsAlike takingAll ∅ (.ofPath "/f.d.ts") t t' (s.addedItems t) (s'.addedItems t') ∧
      exportsOf (s.addedItems t) = [("N", .here "N"), ("R", .there "Q" "npm:q"), ("N", .here "N_1"),
        ("M", .here "M"), ("K", .here "K")] ∧
      exportsOf (s'.addedItems t') = [("N", .here "N"), ("R", .here "R"), ("K", .here "K_1"),
        ("M", .here "M")] ∧
      (∀ b, Stays (s.addedItems t) ("N", b) →
        b.Shows t (.decl (.ofPath "/a.d.ts") "N")) ∧
      ∀ b, Stays (s'.addedItems t') ("N", b) → b.Shows t' (.decl (.ofPath "/a.d.ts") "N") := by
  let n := depthBound takingAll.files
  have hhas : takingAll.HasFile (.ofPath "/f.d.ts") :=
    .entry (m := .ofPath "/f.d.ts") (by decide +kernel) (by decide +kernel)
  have hhas' : takingAll.HasFile (.ofPath "/b.d.ts") :=
    .entry (m := .ofPath "/b.d.ts") (by decide +kernel) (by decide +kernel)
  have hcheck : (includeFile takingAll n (.ofPath "/f.d.ts") .entry (State.start ∅)).any
      (fun r => exportsOf ((State.start ∅).addedItems r.2) ==
        [("N", .here "N"), ("R", .there "Q" "npm:q"), ("N", .here "N_1"), ("M", .here "M"),
          ("K", .here "K")]) := by decide +kernel
  have hcheck' : (includeFile takingAll n (.ofPath "/b.d.ts") .entry (State.start ∅)).any
      (fun r => r.2.included.contains (.ofPath "/f.d.ts") &&
        (includeFile takingAll n (.ofPath "/f.d.ts") .entry r.2).any
          (fun r' => exportsOf (r.2.addedItems r'.2) ==
            [("N", .here "N"), ("R", .here "R"), ("K", .here "K_1"), ("M", .here "M")])) := by
    decide +kernel
  obtain ⟨⟨⟨⟩, s'⟩, hs', hr⟩ := (Option.any_eq_true _ _).1 hcheck'
  obtain ⟨hold, hr⟩ := Bool.and_eq_true_iff.1 hr
  obtain ⟨k, hstep⟩ := entryStep_of_includeFile Reached.start.atRoot hhas' hs'
  have hreached : Reached takingAll ∅ [.ofPath "/b.d.ts"] s' := Reached.start.entry hhas' hstep
  obtain ⟨t, t', ht, ht', halike⟩ :=
    entry_exports_alike .start hreached hhas (by decide +kernel) hold (Nat.le_refl n)
  rw [ht] at hcheck
  rw [ht'] at hr
  have hplain : PlainAliases takingAll t.root.env (.ofPath "/f.d.ts") "N" := by
    have hstatements : ∀ d, .importEquals d ∉ takingAll.statements (.ofPath "/f.d.ts") := by
      simp [statements_takingAll, taking, allOf]
    exact ⟨fun d hd => absurd hd (hstatements d), fun ⟨d, hd, _⟩ => hstatements d hd⟩
  exact ⟨_, s', .start, hreached, hhas, by decide +kernel, hold, t, t', halike, by simpa using hcheck,
    by simpa using hr, halike.bound "N" _ hplain (only_taken _)⟩

/-- `/f.d.ts` exports a class as the module, and `/b.d.ts` imports it. -/
def assigning : Context := sharedFiles
  [("/f.d.ts", [.decl (emptyClass "A"), .exportAssign (.ident "A")]),
    ("/b.d.ts", [.importDecl ⟨[], StrLit.made "/f.d.ts", false, none⟩])]

set_option maxRecDepth 100000 in
/-- The class is exported as the module where `/f.d.ts` is included first, and not where `/b.d.ts`
was included before it. -/
theorem assignment_not_gathered :
    ¬∀ files files' n s s' t t', Reached assigning ∅ files s → Reached assigning ∅ files' s' →
      s.included.contains (.ofPath "/f.d.ts") = false →
      s'.included.contains (.ofPath "/f.d.ts") = true →
      includeFile assigning n (.ofPath "/f.d.ts") .entry s = some ((), t) →
      includeFile assigning n (.ofPath "/f.d.ts") .entry s' = some ((), t') →
        ∀ i, i ∈ wholesOf (s.addedItems t) ↔ i ∈ wholesOf (s'.addedItems t') := by
  intro halike
  let n := depthBound assigning.files
  have hcheck : (includeFile assigning n (.ofPath "/f.d.ts") .entry (State.start ∅)).any
      (fun r => !(wholesOf ((State.start ∅).addedItems r.2)).isEmpty) := by
    decide +kernel
  have hcheck' : (includeFile assigning n (.ofPath "/b.d.ts") .entry (State.start ∅)).any
      (fun r => r.2.included.contains (.ofPath "/f.d.ts") &&
        (includeFile assigning n (.ofPath "/f.d.ts") .entry r.2).any
          (fun r' => (wholesOf (r.2.addedItems r'.2)).isEmpty)) := by
    decide +kernel
  have hhas : assigning.HasFile (.ofPath "/b.d.ts") :=
    .entry (m := .ofPath "/b.d.ts") (by decide +kernel) (by decide +kernel)
  obtain ⟨⟨⟨⟩, t⟩, ht, hkept⟩ := (Option.any_eq_true _ _).1 hcheck
  obtain ⟨⟨⟨⟩, s'⟩, hs', hr⟩ := (Option.any_eq_true _ _).1 hcheck'
  obtain ⟨hold, hr⟩ := Bool.and_eq_true_iff.1 hr
  obtain ⟨⟨⟨⟩, t'⟩, ht', hnone⟩ := (Option.any_eq_true _ _).1 hr
  obtain ⟨k, hstep⟩ := entryStep_of_includeFile Reached.start.atRoot hhas hs'
  have hiff := halike [] _ n _ s' t t' .start (Reached.start.entry hhas hstep) (by decide +kernel)
    hold ht ht'
  obtain ⟨i, hi⟩ := List.isEmpty_eq_false_iff_exists_mem.1 (by simpa using hkept)
  have hmem := (hiff i).1 hi
  rw [List.isEmpty_iff.1 hnone] at hmem
  cases hmem

end Alike

end AmbientBundle.Merge
