import AmbientBundle.Proofs.Merge.BlockReferences
import AmbientBundle.Proofs.Merge.EntryExports
/-!
What a namespace block exports: the names that are found for the exports of its file, each for the
binding that it leads to. The binding is inside of the block for what the file declares, and
otherwise outside, where the block binds its name only as a reference out of the block may be bound.
-/
namespace AmbientBundle.Merge

open Names Syntax

section Members

variable {i : Item}

theorem directNames_of_exports (h : i.exports = []) : directNames i = [] := by
  rw [directNames_eq, (List.append_eq_nil_iff.1 h).1, List.map_nil]

/-- What exports and imports nothing is a member under the names that it binds. -/
theorem memberNames_eq_binds (h : i.exports = []) (hl : i.locals = []) :
    memberNames i = i.binds := by
  have hd := directNames_of_exports h
  cases i with
  | decl d => simp [memberNames, Item.binds, Item.declared, Item.locals]
  | importEquals d => simp [memberNames, Item.binds, Item.declared, Item.locals]
  | exportDecl d =>
    simpa [memberNames, Item.binds, Item.declared, Item.locals, directNames] using hd
  | importDecl d => simpa [memberNames, Item.binds, Item.declared, Item.locals] using hl.symm
  | exportDefaultDecl d => cases hd
  | _ => rfl

/-- A member that is exported is exported under its names. -/
theorem directNames_exportMember (h : memberNames i ≠ []) :
    directNames (exportMember i) = memberNames i := by
  cases i with
  | decl d => rfl
  | importEquals d => rfl
  | _ => exact absurd rfl h

theorem directNames_aliasOf (x f : String) : directNames (aliasOf x f true) = [x] := rfl

end Members

namespace Space

variable {b : Space} {x f : String}

/-- The names that the body of the block exports. -/
def exported (b : Space) : List String := b.body.flatMap directNames

theorem mem_exported_of_alias (h : (x, f) ∈ b.exports) (hne : x ≠ f) : x ∈ b.exported := by
  refine List.mem_flatMap.2
    ⟨aliasOf x f true, List.mem_append_right _ ?_, by simp [directNames_aliasOf]⟩
  exact List.mem_map.2 ⟨(x, f), List.mem_filter.2 ⟨h, by simpa using hne⟩, rfl⟩

theorem mem_exported_of_member (h : (x, x) ∈ b.exports) (hm : x ∈ b.members) : x ∈ b.exported := by
  obtain ⟨i, hi, hx⟩ := List.mem_flatMap.1 hm
  have hany : (memberNames i).any
      ((b.exports.filter (fun e => e.1 == e.2)).map Prod.fst).contains := by
    refine List.any_eq_true.2 ⟨x, hx, List.contains_iff_mem.2 (List.mem_map.2 ⟨(x, x), ?_, rfl⟩)⟩
    exact List.mem_filter.2 ⟨h, by simp⟩
  refine List.mem_flatMap.2 ⟨exportMember i, List.mem_append_left _ ?_, ?_⟩
  · exact List.mem_map.2 ⟨i, hi, if_pos hany⟩
  · rwa [directNames_exportMember (List.ne_nil_of_mem hx)]

/-- A statement in the body of the block is one of those in the block as it is, or it exports
something that the block has an export for. -/
theorem of_mem_body {j : Item} (h : j ∈ b.body) : (∃ p ∈ b.pieces, j = p.item) ∨
    ∃ x ∈ directNames j, x ∈ b.exports.map Prod.fst := by
  rcases List.mem_append.1 h with h | h
  · obtain ⟨i, hi, rfl⟩ := List.mem_map.1 h
    split
    · rename_i hany
      obtain ⟨x, hx, hdirect⟩ := List.any_eq_true.1 hany
      refine Or.inr ⟨x, by rwa [directNames_exportMember (List.ne_nil_of_mem hx)], ?_⟩
      exact List.map_subset _ (List.filter_subset_self _) (List.contains_iff_mem.1 hdirect)
    · obtain ⟨p, hp, rfl⟩ := List.mem_map.1 hi
      exact Or.inl ⟨p, hp, rfl⟩
  · obtain ⟨e, he, rfl⟩ := List.mem_map.1 h
    exact Or.inr ⟨e.1, by simp [directNames_aliasOf], List.mem_map_of_mem (List.mem_filter.1 he).1⟩

end Space

variable {cx : Context} {fin : State} {o : Opening} {os : List Opening} {ps : List Piece}
  {b : Space} {g : Url} {k v x f : String}

/-- What the chunk makes up exports nothing by itself. -/
theorem Part.directNames_made {P : List Opening → List Piece → Space → Prop} {p : Piece}
    (h : Part P os ps p) (ho : p.owner = .chunk) : directNames p.item = [] := by
  cases h with
  | statement file i => cases ho
  | _ => rfl

/-- What stands for a statement of a block's file exports and imports nothing by itself. -/
theorem StandsFor.plain {i j : Item} {is : List Item} (h : StandsFor cx fin os g i is)
    (hj : j ∈ is) : j.exports = [] ∧ j.locals = [] := by
  obtain ⟨env, env', τ, -, -, rfl⟩ := h
  have hlocals := locals_printed cx g true false env' (Rename.ofEnvironment env g) τ i
  exact ⟨(silent_hidden g true env' (Rename.ofEnvironment env g) τ i (.ofFile g j)
    (List.mem_map_of_mem hj)).exports, List.flatMap_eq_nil_iff.1 hlocals j hj⟩

namespace SpaceOf

theorem directNames_nil (h : SpaceOf cx fin os ps b)
    (hparts : ∀ p ∈ b.pieces, Part (SpaceOf cx fin) (b.opening :: os) b.pieces p) :
    ∀ p ∈ b.pieces, directNames p.item = [] := by
  intro p hp
  cases ho : p.owner with
  | chunk => exact (hparts p hp).directNames_made ho
  | file f =>
    obtain ⟨rfl, i, _, is, hstands, hmem⟩ := (h.pieces p hp).ofFile b.opening rfl f ho
    exact directNames_of_exports (hstands.plain hmem).1

/-- A declaration of the block's file is a member of the block, under a name for it. -/
theorem member (h : SpaceOf cx fin os ps b) (hk : cx.Declares b.file k) :
    ∃ p ∈ b.pieces, p.owner = .file b.file ∧ ∃ y ∈ p.item.binds, y ∈ memberNames p.item ∧
      KnownAs fin.root.env (b.opening :: os) b.file k y := by
  obtain ⟨id, hid, rfl⟩ := List.mem_map.1 hk
  obtain ⟨i, hi, hid⟩ := List.mem_flatMap.1 hid
  obtain ⟨is, hstands, hmem⟩ := h.shown i hi
  have hplain := fun j (hj : j ∈ is) => hstands.plain hj
  obtain ⟨env, env', τ, hn, -, rfl⟩ := hstands
  obtain ⟨y, hl, hy⟩ := hn.declared id.name hk
  have hbinds := binds_printed cx b.file true false env' (Rename.ofEnvironment env b.file) τ
    (Context.isAnonymousDefault_of_mem_statements hi)
  have hy' : y ∈ i.declared.map (fun id => Rename.ofEnvironment env b.file id.name) := by
    refine List.mem_map.2 ⟨id, hid, ?_⟩
    rw [Rename.ofEnvironment, hl, Option.getD_some]
  rw [← hbinds] at hy'
  obtain ⟨j, hj, hbound⟩ := List.mem_flatMap.1 hy'
  refine ⟨.ofFile b.file j, hmem j hj, rfl, y, hbound, ?_, hy⟩
  rw [Piece.ofFile, memberNames_eq_binds (hplain j hj).1 (hplain j hj).2]
  exact hbound

/-- If the root has no name for a declaration of the block's file, then a name that is known for it
in the block is the one that it got when the block was opened. -/
theorem named_of_knownAs (h : SpaceOf cx fin os ps b)
    (hv : KnownAs fin.root.env (b.opening :: os) b.file k v)
    (hroot : fin.root.env.lookup b.file k = none) : b.opening.named k = some v := by
  rcases hv with ⟨q, hq, ht, hv⟩ | hv
  · rcases List.mem_cons.1 hq with rfl | hq
    · exact hv
    · exact absurd ht (h.nested.1.new q hq)
  · cases hroot.symm.trans hv

/-- Such a name is that of the declaration's member. -/
theorem member_of_knownAs (h : SpaceOf cx fin os ps b) (hk : cx.Declares b.file k)
    (hv : KnownAs fin.root.env (b.opening :: os) b.file k v)
    (hroot : fin.root.env.lookup b.file k = none) :
    ∃ p ∈ b.pieces, p.owner = .file b.file ∧ v ∈ p.item.binds ∧ v ∈ memberNames p.item := by
  obtain ⟨p, hp, ho, y, hbound, hmember, hy⟩ := h.member hk
  obtain rfl : y = v :=
    Option.some.inj ((h.named_of_knownAs hy hroot).symm.trans (h.named_of_knownAs hv hroot))
  exact ⟨p, hp, ho, hbound, hmember⟩

end SpaceOf

/-- `f` is another name for `v`, which is no member of the block: the chunk made it up for an alias
beside the block, or for a further local of an import. -/
structure Another (fin : State) (ps : List Piece) (b : Space) (v f : String) : Prop where
  out : v ∉ b.members
  claimed : fin.root.env.owner? f = some .chunk
  stands : .made (aliasOf f v false) ∈ ps ∨ SameImport fin v f

/-- What a block exports. Its names are those that are found for the exports of its file, and each
stands for a binding that fits what the file exports, or for another name of that binding. What the
file declares itself is bound in the block, unless the file is at the root, too. What leads to
another file's declaration is not, and what the chunk made up is bound there by nothing else, unless
by an alias for an export or under a name that the root gave away later. -/
structure ExposesExports (cx : Context) (fin : State) (os : List Opening) (ps : List Piece)
    (b : Space) : Prop where
  resolved : ∃ c k s t, collect cx k b.file false Collected.empty s = some (c, t) ∧
    c.names.map Prod.fst = b.exports.map Prod.fst
  offered : ∀ x ∈ b.exports.map Prod.fst, ∃ g, cx.Offers b.file false g x
  complete : ∀ g x, cx.Offers b.file false g x → x ∈ b.exports.map Prod.fst ∨
    ∃ g, .unknownExport g x ∈ fin.warnings
  exported : ∀ x ∈ b.exports.map Prod.fst, x ∈ b.exported ∨ .selfExport x ∈ fin.warnings
  only : ∀ j ∈ b.body, directNames j ≠ [] → ∃ x ∈ directNames j, x ∈ b.exports.map Prod.fst
  fits : ∀ x f, (x, f) ∈ b.exports → ∃ v,
    FitsIn cx fin.root.env (b.opening :: os) (.exported b.file x) v ∧
      (f = v ∧ (x = v → v ∈ b.members) ∨ x = v ∧ Another fin ps b v f)
  inside : ∀ x f k, (x, f) ∈ b.exports → cx.Means (.exported b.file x) b.file k →
    fin.root.env.lookup b.file k = none →
    ∃ p ∈ b.pieces, p.owner = .file b.file ∧ f ∈ p.item.binds
  outside : ∀ x f g k, (x, f) ∈ b.exports → g ≠ b.file → cx.Means (.exported b.file x) g k →
    b.Binds f → b.Aliases f ∨ GivenLater fin.root.env (b.opening :: os) f
  made : ∀ x f, (x, f) ∈ b.exports → fin.root.env.owner? f = some .chunk → b.Binds f →
    (∃ p ∈ b.pieces, p.owner = .chunk ∧ f ∈ p.item.binds) ∨ b.Aliases f ∨
      GivenLater fin.root.env (b.opening :: os) f

namespace Exporting

variable {c : Collected}

theorem names_eq (h : Exporting cx fin os ps b c) :
    c.names.map Prod.fst = b.exports.map Prod.fst := by
  rw [← List.forall₂_eq_eq_eq, List.forall₂_map_left_iff, List.forall₂_map_right_iff]
  refine h.named.imp (fun a e he => ?_)
  cases he with
  | same he => rw [he]
  | renamed _ _ he => exact he.symm

/-- Each export of the block was collected. -/
theorem becomes (h : Exporting cx fin os ps b c) (hx : (x, f) ∈ b.exports) :
    ∃ a ∈ c.names, Becomes fin ps b a (x, f) := by
  have hfind : ∀ (as es : List (String × String)), List.Forall₂ (Becomes fin ps b) as es →
      (x, f) ∈ es → ∃ a ∈ as, Becomes fin ps b a (x, f) := by
    intro as es hall
    induction hall with
    | nil => simp
    | @cons a e as es he _ ih =>
      intro hx
      rcases List.mem_cons.1 hx with rfl | hx
      · exact ⟨a, List.mem_cons_self, he⟩
      · obtain ⟨a', ha', he'⟩ := ih hx
        exact ⟨a', List.mem_cons_of_mem _ ha', he'⟩
  exact hfind _ _ h.named hx

/-- An export stands for a binding that fits it, or for another name of that binding, which the
chunk's statements in the block do not bind. -/
theorem fits_or_another (h : Exporting cx fin os ps b c) (hx : (x, f) ∈ b.exports) :
    ∃ v, FitsIn cx fin.root.env (b.opening :: os) (.exported b.file x) v ∧
      (f = v ∧ (x = v → v ∈ b.members) ∨ x = v ∧ Another fin ps b v f ∧
        ∀ p ∈ b.pieces, p.owner = .chunk → f ∉ p.item.binds) := by
  obtain ⟨⟨y, v⟩, ha, hbecomes⟩ := h.becomes hx
  have hfits := (h.fits y v ha).2
  cases hbecomes with
  | same he hm =>
    cases he
    exact ⟨f, hfits, Or.inl ⟨rfl, hm⟩⟩
  | renamed hv hm he claimed new bound =>
    obtain rfl : x = y := he
    obtain rfl : v = x := hv.symm
    exact ⟨v, hfits, Or.inr ⟨rfl, ⟨hm, claimed, bound⟩, new⟩⟩

theorem exported (h : Exporting cx fin os ps b c) (hx : x ∈ b.exports.map Prod.fst) :
    x ∈ b.exported ∨ .selfExport x ∈ fin.warnings := by
  obtain ⟨⟨x, f⟩, he, rfl⟩ := List.mem_map.1 hx
  by_cases hf : x = f
  · subst hf
    by_cases hm : x ∈ b.members
    · exact Or.inl (Space.mem_exported_of_member he hm)
    · have hunbound : (!((b.pieces.map Piece.item).flatMap memberNames).contains x) = true := by
        rw [Bool.not_eq_true', ← Bool.not_eq_true, List.contains_iff_mem]
        exact hm
      refine Or.inr (h.unbound x (List.mem_filter.2 ⟨?_, hunbound⟩))
      rw [SeenSet.mem_ofList]
      exact List.mem_map.2 ⟨(x, x), List.mem_filter.2 ⟨he, by simp⟩, rfl⟩
  · exact Or.inl (Space.mem_exported_of_alias he hf)

end Exporting

namespace SpaceOf

theorem inside (h : SpaceOf cx fin os ps b) {c : Collected} (hc : Exporting cx fin os ps b c)
    (hx : (x, f) ∈ b.exports) (hm : cx.Means (.exported b.file x) b.file k)
    (hroot : fin.root.env.lookup b.file k = none) :
    ∃ p ∈ b.pieces, p.owner = .file b.file ∧ f ∈ p.item.binds := by
  obtain ⟨v, hfits, hv⟩ := hc.fits_or_another hx
  obtain ⟨p, hp, ho, hbound, hmember⟩ := h.member_of_knownAs hm.declares (hfits.fits _ k hm) hroot
  rcases hv with ⟨rfl, -⟩ | ⟨-, hother, -⟩
  · exact ⟨p, hp, ho, hbound⟩
  · exact absurd (List.mem_flatMap.2 ⟨p.item, List.mem_map_of_mem hp, hmember⟩) hother.out

/-- A name that the chunk made up is bound in the block by what the chunk made up there, by an alias
for an export, or by a declaration that has got the name before. -/
theorem bound_of_claimed (h : SpaceOf cx fin os ps b) (hn : NamesOwned cx fin.root.env)
    (hf : fin.root.env.owner? f = some .chunk) (hb : b.Binds f) :
    (∃ p ∈ b.pieces, p.owner = .chunk ∧ f ∈ p.item.binds) ∨ b.Aliases f ∨
      GivenLater fin.root.env (b.opening :: os) f := by
  rcases Space.binds_iff.1 hb with ⟨p, hp, hx⟩ | hb
  · cases ho : p.owner with
    | chunk => exact Or.inl ⟨p, hp, ho, hx⟩
    | file e =>
      obtain ⟨k, hd, hk⟩ := (h.pieces p hp).named ho hx
      refine Or.inr (Or.inr ⟨by simp [hf], ?_⟩)
      rcases hk with ⟨q, hq, -, hk⟩ | hk
      · exact ⟨q, hq, ⟨k, hk⟩, (h.nested.late hq ⟨k, hk⟩ hf).resolve_left (by simp)⟩
      · cases (hn.owned _ k f hd hk).symm.trans hf
  · exact Or.inr (Or.inl hb)

theorem outside (h : SpaceOf cx fin os ps b) (hn : NamesOwned cx fin.root.env) {c : Collected}
    (hc : Exporting cx fin os ps b c) (hx : (x, f) ∈ b.exports) (hg : g ≠ b.file)
    (hm : cx.Means (.exported b.file x) g k) (hb : b.Binds f) :
    b.Aliases f ∨ GivenLater fin.root.env (b.opening :: os) f := by
  obtain ⟨v, hfits, hv⟩ := hc.fits_or_another hx
  rcases hv with ⟨rfl, -⟩ | ⟨-, hother, hnew⟩
  · exact (h.reachesOut hn hm.declares hg (hfits.fits g k hm)).bound hb
  · refine (h.bound_of_claimed hn hother.claimed hb).resolve_left ?_
    rintro ⟨p, hp, ho, hbound⟩
    exact hnew p hp ho hbound

theorem exposes (h : SpaceOf cx fin os ps b) (hn : NamesOwned cx fin.root.env)
    (hparts : ∀ p ∈ b.pieces, Part (SpaceOf cx fin) (b.opening :: os) b.pieces p) :
    ExposesExports cx fin os ps b := by
  obtain ⟨c, hc⟩ := h.exports
  refine ⟨?_, fun x hx => ?_, fun g x ho => ?_, fun x hx => hc.exported hx, fun j hj hne => ?_,
    fun x f hx => ?_, fun x f k hx hm hroot => h.inside hc hx hm hroot,
    fun x f g k hx hg hm hb => h.outside hn hc hx hg hm hb,
    fun x f _ hf hb => h.bound_of_claimed hn hf hb⟩
  · obtain ⟨k, s, t, hcollect⟩ := hc.collected
    exact ⟨c, k, s, t, hcollect, hc.names_eq⟩
  · rw [← hc.names_eq] at hx
    obtain ⟨⟨x, f⟩, ha, rfl⟩ := List.mem_map.1 hx
    exact (hc.fits x f ha).1
  · rw [← hc.names_eq]
    exact hc.all g x ho
  · rcases Space.of_mem_body hj with ⟨p, hp, rfl⟩ | hj
    · exact absurd (h.directNames_nil hparts p hp) hne
    · exact hj
  · obtain ⟨v, hfits, hv⟩ := hc.fits_or_another hx
    exact ⟨v, hfits, hv.imp_right (fun hv => ⟨hv.1, hv.2.1⟩)⟩

end SpaceOf

/-- `export import x = f.…`, as `x` and `f`. -/
def exportedAlias? : Item → Option (String × String)
  | .importEquals ⟨true, _, id, .entity name⟩ => some (id.name, name.head)
  | _ => none

/-- `/i.d.ts`, the entry, runs `/b.d.ts` and exports all of `/a.d.ts` as a namespace. That file
hands on the class of `/b.d.ts`, and declares one under the name that an alias of that class gets. -/
def handingOut : Context := .ofFiles
  [("/b.d.ts", [.exportDecl (emptyClass "B")]),
    ("/a.d.ts", [.importDecl (oneImport "B" "B" "/b.d.ts").1, .decl (emptyClass "B_1"),
      Exports.list [Exports.specifier "B" "B"]]),
    ("/i.d.ts", [importOf [] "/b.d.ts" false,
      .exportList ⟨[.all (.word "NS")], some (StrLit.made "/a.d.ts"), false, none⟩])]

end AmbientBundle.Merge
