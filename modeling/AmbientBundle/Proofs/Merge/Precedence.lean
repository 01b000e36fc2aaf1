import AmbientBundle.Proofs.Merge.ExportSurface
/-!
Which export of a name counts where one entry file exports it in several ways. An export that stands
with a declaration comes before all others. An export by a list comes before the stars behind it,
but a star before it comes first: of lists the first one of a name stays, and what a star of a file
of the chunk exports becomes a list where the star stood. Where an entry was inlined before, and its
exports are gathered, its own exports come before its stars in any order.
-/
namespace AmbientBundle.Merge

open Syntax

section Single

variable {cx : Context} {earlier : SeenSet Url} {env : Environment} {f : Url} {is : List Item}
  {before after : List Item} {i : Item} {name : String} {b : Bound}

/-- What a chunk with one entry file exports stands for the statements of that file, or is what is
gathered for it. -/
inductive OneEntry (cx : Context) (earlier : SeenSet Url) (env : Environment) (f : Url) :
    List Item → Prop where
  | printed {parts : List (List Item)} (hnew : earlier.contains f = false)
      (alone : ∀ x, cx.Declares f x → (∀ e ∈ cx.specifiers f, e.2.loc ≠ x) →
        Rename.ofEnvironment env f x = x)
      (h : List.Forall₂ (Exposure cx earlier env f) (cx.statements f) parts) :
      OneEntry cx earlier env f parts.flatten
  | again {js : List Item} (hold : earlier.contains f = true) (direct : directExportsOf js = [])
      (sound : ∀ e ∈ listExportsOf js, ∃ g v, e.2 = .here v ∧ Gathered cx env f true g e.1 v) :
      OneEntry cx earlier env f js

theorem Entries.one (h : Entries cx earlier env [f] is) : OneEntry cx earlier env f is := by
  generalize hfiles : [f] = files at h
  cases h with
  | nil => cases hfiles
  | @printed files is f' parts before hnew alone hparts =>
    obtain ⟨rfl, hf⟩ := List.append_inj' (show [] ++ [f] = files ++ [f'] from hfiles) rfl
    cases hf
    obtain rfl := before.eq_nil
    exact .printed hnew (alone rfl) hparts
  | @again files is js f' before hold direct sound complete =>
    obtain ⟨rfl, hf⟩ := List.append_inj' (show [] ++ [f] = files ++ [f'] from hfiles) rfl
    cases hf
    obtain rfl := before.eq_nil
    exact .again (hold.resolve_right (by simp)) direct sound

/-- Parts split where the statements do. -/
theorem parts_split {R : Item → List Item → Prop} {parts : List (List Item)}
    (h : List.Forall₂ R (before ++ i :: after) parts) :
    ∃ front part back, parts.flatten = front.flatten ++ (part ++ back.flatten) ∧
      List.Forall₂ R before front ∧ R i part ∧ List.Forall₂ R after back := by
  induction before generalizing parts with
  | nil =>
    obtain ⟨part, back, hpart, hback, rfl⟩ := List.forall₂_cons_left_iff.1 h
    exact ⟨[], part, back, by simp, .nil, hpart, hback⟩
  | cons j before ih =>
    obtain ⟨part', rest, hpart', hrest, rfl⟩ := List.forall₂_cons_left_iff.1 h
    obtain ⟨front, part, back, hflat, hfront, hpart, hback⟩ := ih hrest
    exact ⟨part' :: front, part, back, by simp [hflat], .cons hpart' hfront, hpart, hback⟩

/-- Some statement of the file other than a star exports the name so. -/
def Explicitly (cx : Context) (env : Environment) (f : Url) (name : String) (b : Bound) : Prop :=
  ∃ j ∈ cx.statements f, (∀ d, j ≠ .exportAll d) ∧ Exposes cx env f j name b

/-- No star among the statements leads to a file of the chunk that exports the name. -/
def NoStar (cx : Context) (f : Url) (is : List Item) (name : String) : Prop :=
  ∀ d, .exportAll d ∈ is → ∀ target, cx.inChunk? d.src.value f = some target →
    ∀ g, ¬cx.Offers target false g name

/-- The export is in a part of a statement other than a star. -/
def InExplicit (cx : Context) (f : Url) (R : Item → List Item → Prop) (e : String × Bound) : Prop :=
  ∃ j ∈ cx.statements f, (∀ d, j ≠ .exportAll d) ∧
    ∃ part, R j part ∧ (e ∈ directExportsOf part ∨ e ∈ listExportsOf part)

section Parts

variable {R : Item → List Item → Prop} {parts : List (List Item)} {e : String × Bound}

/-- What stands with a declaration stands for a statement that is no star. -/
theorem inExplicit_of_direct (hR : ∀ j part, R j part → Exposure cx earlier env f j part)
    (h : List.Forall₂ R (cx.statements f) parts) (he : e ∈ directExportsOf parts.flatten) :
    InExplicit cx f R e := by
  simp only [directExportsOf, List.mem_flatMap, List.mem_flatten] at he
  obtain ⟨j', ⟨part, hpart, hj'⟩, he⟩ := he
  have he : e ∈ directExportsOf part := List.mem_flatMap.2 ⟨j', hj', he⟩
  obtain ⟨j, hj, hpart⟩ := forall₂_mem_right h hpart
  refine ⟨j, hj, fun d hd => ?_, part, hpart, Or.inl he⟩
  rw [(hR j part hpart).star d hd] at he
  cases he

/-- What stands for statements among which no star exports the name. -/
theorem inExplicit_of_noStar (hR : ∀ j part, R j part → Exposure cx earlier env f j part)
    (h : List.Forall₂ R is parts) (his : is ⊆ cx.statements f) (hstar : NoStar cx f is e.1)
    (he : e ∈ listExportsOf parts.flatten) : InExplicit cx f R e := by
  simp only [listExportsOf, List.mem_flatMap, List.mem_flatten] at he
  obtain ⟨j', ⟨part, hpart, hj'⟩, he⟩ := he
  have he : e ∈ listExportsOf part := List.mem_flatMap.2 ⟨j', hj', he⟩
  obtain ⟨j, hj, hpart⟩ := forall₂_mem_right h hpart
  refine ⟨j, his hj, fun d hd => ?_, part, hpart, Or.inr he⟩
  subst hd
  obtain ⟨name, b⟩ := e
  have hexposes : Exposes cx env f (.exportAll d) name b := (hR _ part hpart).sound _ (Or.inr he)
  cases hexposes with
  | own _ hi => simp [Item.ownExports, Item.directExports] at *
  | star hin hg => exact hstar d hj _ hin _ hg.toOffers

/-- What stays of a name that a statement other than a star exports is such an export, if the
statement exports the name with a declaration, or if no star before it exports the name. -/
theorem inExplicit_of_stays (hR : ∀ j part, R j part → Exposure cx earlier env f j part)
    (h : List.Forall₂ R (cx.statements f) parts) (hstatements : cx.statements f = before ++ i :: after)
    (hi : ∀ d, i ≠ .exportAll d) (hkeeps : KeepsName (Rename.ofEnvironment env f) i)
    (hp : Promises cx earlier f i name)
    (hfirst : (∀ id ∈ i.declared, Rename.ofEnvironment env f id.name = id.name) ∧
      name ∈ namesOf i.directExports ∨ NoStar cx f before name)
    (hb : Stays parts.flatten (name, b)) : InExplicit cx f R (name, b) := by
  have hsplit := h
  rw [hstatements] at hsplit
  obtain ⟨front, part, back, hflat, hfront, hpart, -⟩ := parts_split hsplit
  cases hb with
  | direct he => exact inExplicit_of_direct hR h he
  | listed hlisted he =>
    rw [hflat, directExportsOf_append, directExportsOf_append, List.map_append,
      List.map_append, List.mem_append, List.mem_append, not_or, not_or] at hlisted
    have hpartDirect : name ∉ namesOf (directExportsOf part) := hlisted.2.1
    have hstar : NoStar cx f before name := by
      refine hfirst.resolve_left (fun ⟨hown, hd⟩ => hpartDirect ?_)
      obtain ⟨e, hmem, rfl⟩ := List.mem_map.1 hd
      exact (hR i part hpart).direct hown e hmem
    have hpartListed : name ∈ namesOf (listExportsOf part) :=
      ((hR i part hpart).complete hkeeps name hp).resolve_left hpartDirect
    rw [hflat, listExportsOf_append, listExportsOf_append, firstExport?_append,
      firstExport?_append] at he
    have hbefore : before ⊆ cx.statements f := by simp [hstatements]
    cases hfront' : firstExport? (listExportsOf front.flatten) name with
    | some e =>
      rw [hfront', Option.some_or] at he
      obtain rfl := Option.some.inj he
      exact inExplicit_of_noStar hR hfront hbefore hstar (mem_of_firstExport? hfront').1
    | none =>
      obtain ⟨b', hb'⟩ := exists_firstExport? hpartListed
      rw [hfront', Option.none_or, hb', Option.some_or] at he
      cases he
      exact ⟨i, by simp [hstatements], hi, part, hpart, Or.inr (mem_of_firstExport? hb').1⟩

end Parts

end Single

section Precedence

variable {cx : Context} {included included' : SeenSet Url} {m : Merged} {warnings : List Warning}
  {f : Url}

/-- Of the ways in which an entry file exports a name the explicit ones count. Where the file is
inlined, an export with a declaration comes before all stars, and one by a list before those that do
not stand before it. Where the exports of the file are gathered, every explicit one does. -/
structure ExplicitFirst (cx : Context) (earlier : SeenSet Url) (m : Merged) (f : Url) : Prop where
  inlined : earlier.contains f = false → ∀ before i after name,
    cx.statements f = before ++ i :: after → (∀ d, i ≠ .exportAll d) →
    (∀ e ∈ cx.specifiers f, ∀ id ∈ i.declared, e.2.loc ≠ id.name) →
    Promises cx earlier f i name → name ∈ namesOf i.directExports ∨ NoStar cx f before name →
      name ∈ namesOf m.exports ∧ ∀ b, (name, b) ∈ m.exports → Explicitly cx m.names f name b
  gathered : earlier.contains f = true → ∀ name, cx.Lists f name → ∀ b, (name, b) ∈ m.exports →
    ∃ v, b = .here v ∧ Fits cx m.names (.exported f name) v

theorem explicit_exports_first (h : mergeChunk? cx included = some (m, included', warnings))
    (hentry : cx.entryFiles = [f]) : ExplicitFirst cx included m f := by
  obtain ⟨is, his, hexports⟩ := entries_of_mergeChunk? h
  rw [hentry] at his
  refine ⟨fun hnew before i after name hstatements hi hlocal hp hfirst => ?_,
    fun hold name hl b hb => ?_⟩
  · cases his.one with
    | again hold => simp [hold] at hnew
    | @printed parts _ alone hparts =>
    have hmem : i ∈ cx.statements f := by simp [hstatements]
    have hown : ∀ id ∈ i.declared, Rename.ofEnvironment m.names f id.name = id.name := by
      intro id hid
      refine alone id.name (List.mem_map_of_mem (List.mem_flatMap.2 ⟨i, hmem, hid⟩)) ?_
      exact fun e he => hlocal e he id hid
    have hkeeps : KeepsName (Rename.ofEnvironment m.names f) i := by
      rintro d rfl -
      exact hown d.id (by simp [Item.declared])
    obtain ⟨part, hmem', hpart⟩ := forall₂_mem_left hparts hmem
    obtain ⟨b, hb⟩ := exists_stays (mem_names_flatten hmem' (hpart.complete hkeeps name hp))
    refine ⟨List.mem_map.2 ⟨_, (hexports _).2 hb, rfl⟩, fun b hb => ?_⟩
    obtain ⟨j, hj, hstar, part, hpart, he⟩ := inExplicit_of_stays (fun _ _ h => h) hparts hstatements
      hi hkeeps hp (hfirst.imp_left (fun hd => ⟨hown, hd⟩)) ((hexports _).1 hb)
    exact ⟨j, hj, hstar, hpart.sound _ he⟩
  · cases his.one with
    | printed hnew => simp [hold] at hnew
    | again _ direct sound =>
    cases (hexports _).1 hb with
    | direct he => simp [direct] at he
    | listed _ he =>
      obtain ⟨g, v, hv, hg⟩ := sound _ (mem_of_firstExport? he).1
      obtain rfl := hg.first hl
      exact ⟨v, hv, hg.fits⟩

/-- Two files that export a class of one name, and an entry with the given statements. -/
def twoClasses (statements : List Item) : Context := .ofFiles
  [("/a.d.ts", [.exportDecl (emptyClass "N")]), ("/b.d.ts", [.exportDecl (emptyClass "N")]),
    ("/i.d.ts", statements)]

def allOfA : Item := .exportAll ⟨StrLit.made "/a.d.ts", false, none⟩

def namedOfB : Item :=
  .exportList ⟨[.named (.word "N") none false], some (StrLit.made "/b.d.ts"), false, none⟩

set_option maxRecDepth 100000 in
/-- The class of the entry itself is exported, though all of `/a.d.ts` stands before it. -/
theorem explicit_exports_first_class :
    (twoClasses [allOfA, .exportDecl (emptyClass "N")]).entryFiles = [.ofPath "/i.d.ts"] ∧
      ∃ m included' warnings,
        mergeChunk? (twoClasses [allOfA, .exportDecl (emptyClass "N")]) ∅ =
          some (m, included', warnings) ∧ m.exports = [("N", .here "N")] ∧
        m.names.lookup (.ofPath "/a.d.ts") "N" = some "N_1" ∧
        Explicitly (twoClasses [allOfA, .exportDecl (emptyClass "N")]) m.names (.ofPath "/i.d.ts")
          "N" (.here "N") := by
  have hentry : (twoClasses [allOfA, .exportDecl (emptyClass "N")]).entryFiles =
      [.ofPath "/i.d.ts"] := by decide +kernel
  have hcheck : (mergeChunk? (twoClasses [allOfA, .exportDecl (emptyClass "N")]) ∅).any
      (fun r => r.1.exports == [("N", .here "N")] &&
        r.1.names.lookup (.ofPath "/a.d.ts") "N" == some "N_1") := by decide +kernel
  obtain ⟨⟨m, included', warnings⟩, hm, hr⟩ := (Option.any_eq_true _ _).1 hcheck
  obtain ⟨hexports, hlookup⟩ : m.exports = [("N", .here "N")] ∧
      m.names.lookup (.ofPath "/a.d.ts") "N" = some "N_1" := by
    simpa only [Bool.and_eq_true, beq_iff_eq] using hr
  have hspecifiers : (twoClasses [allOfA, .exportDecl (emptyClass "N")]).specifiers
      (.ofPath "/i.d.ts") = [] := rfl
  have hfirst := (explicit_exports_first hm hentry).inlined (by decide) [allOfA]
    (.exportDecl (emptyClass "N")) [] "N" rfl (by simp) (by simp [hspecifiers])
    (.own (e := ("N", .here "N")) List.mem_cons_self) (Or.inl (by decide))
  exact ⟨hentry, m, included', warnings, hm, hexports, hlookup, hfirst.2 _ (by simp [hexports])⟩

set_option maxRecDepth 100000 in
/-- All of `/a.d.ts` stands before the list that exports the class of `/b.d.ts`, and wins. -/
theorem star_before_list :
    ¬∀ m included' warnings,
      mergeChunk? (twoClasses [allOfA, namedOfB]) ∅ = some (m, included', warnings) →
        ∀ b, ("N", b) ∈ m.exports →
          Explicitly (twoClasses [allOfA, namedOfB]) m.names (.ofPath "/i.d.ts") "N" b := by
  intro hexplicit
  have hcheck : (mergeChunk? (twoClasses [allOfA, namedOfB]) ∅).any
      (fun r => r.1.exports == [("N", .here "N")] &&
        r.1.names.lookup (.ofPath "/b.d.ts") "N" == some "N_1") := by decide +kernel
  obtain ⟨⟨m, included', warnings⟩, hm, hr⟩ := (Option.any_eq_true _ _).1 hcheck
  obtain ⟨hexports, hlookup⟩ : m.exports = [("N", .here "N")] ∧
      m.names.lookup (.ofPath "/b.d.ts") "N" = some "N_1" := by
    simpa only [Bool.and_eq_true, beq_iff_eq] using hr
  have hmeans : (twoClasses [allOfA, namedOfB]).Means (.exported (.ofPath "/b.d.ts") "N")
      (.ofPath "/b.d.ts") "N" := by
    have hclosed : (twoClasses [allOfA, namedOfB]).ClosedFor
        [.exported (.ofPath "/b.d.ts") "N", .own (.ofPath "/b.d.ts") "N"] (.ofPath "/b.d.ts")
        "N" := by decide +kernel
    exact hclosed.means (by simp) (.next (b := .own (.ofPath "/b.d.ts") "N") (by decide +kernel)
      (.here (by decide +kernel)))
  obtain ⟨j, hj, hstar, hexposes⟩ := hexplicit m included' warnings hm (.here "N") (by simp [hexports])
  have hstatements : (twoClasses [allOfA, namedOfB]).statements (.ofPath "/i.d.ts") =
      [allOfA, namedOfB] := rfl
  rw [hstatements] at hj
  obtain rfl : j = namedOfB := by
    rcases List.mem_cons.1 hj with rfl | hj
    · exact absurd rfl (hstar _)
    · exact List.mem_singleton.1 hj
  generalize hb : Bound.here "N" = b at hexposes
  generalize hn : "N" = name at hexposes
  cases hexposes with
  | own he => cases he
  | @taken _ src orig exported typeOnly target v hsrc hsp hin hv =>
    cases hb
    obtain rfl : src = StrLit.made "/b.d.ts" := (Option.some.inj hsrc).symm
    obtain ⟨rfl, -, -⟩ : orig = .word "N" ∧ exported = none ∧ typeOnly = false := by
      simpa using hsp
    have hinb : (twoClasses [allOfA, namedOfB]).inChunk? "/b.d.ts" (.ofPath "/i.d.ts") =
        some (.ofPath "/b.d.ts") := by decide +kernel
    obtain rfl := Option.some.inj (hinb.symm.trans hin)
    have hlookup' := hv.fits _ _ hmeans
    simp [hlookup] at hlookup'
  | space _ hsp => simp at hsp
  | outer hsrc _ hout =>
    cases hsrc
    exact absurd hout (by decide +kernel)

end Precedence

end AmbientBundle.Merge
