import AmbientBundle.Proofs.Merge.BlockSurface
/-!
Which statements of a namespace block bind one name. What the block's file declares has other names
than what the chunk makes up in the block, where no name comes twice, and so does each alias for an
export among the aliases. But the aliases are named like the exports, whatever the members are
called: an alias has the name of a declared member where the export leads elsewhere.
-/
namespace AmbientBundle.Merge

open Names Step Syntax

variable {cx : Context} {fin : State} {os : List Opening} {ps : List Piece} {b : Space} {n : Nat}
  {target : Url} {c c' : Collected} {s t : State} {i j : Item} {k x f : String}

section Collected

/-- The collected names are among the seen ones, each once. -/
structure Collected.Distinct (c : Collected) : Prop where
  nodup : (c.names.map Prod.fst).Nodup
  seen : c.names.map Prod.fst ⊆ c.seen

theorem Collected.Distinct.of_nameStep {withDefault : Bool} {name : String} (hc : c.Distinct)
    (h : NameStep cx n target withDefault name c s c' t) : c'.Distinct := by
  cases h with
  | skip => exact hc
  | @found f _ _ _ hnew =>
    refine ⟨?_, ?_⟩
    · rw [List.map_append, List.nodup_append_comm]
      exact List.nodup_cons.2 ⟨fun hmem => hnew (hc.seen hmem), hc.nodup⟩
    · rw [List.map_append]
      exact List.append_subset.2 ⟨List.subset_cons_of_subset _ hc.seen, by simp⟩
  | missing => exact ⟨hc.nodup, List.subset_cons_of_subset _ hc.seen⟩

theorem Collected.Distinct.of_collect {withDefault : Bool} (hc : c.Distinct)
    (h : collect cx n target withDefault c s = some (c', t)) : c'.Distinct := by
  induction n generalizing target withDefault c c' s t with
  | zero => exact (failure_inv h).elim
  | succ n ih =>
    cases collect_inv h with
    | again => exact hc
    | all _ names stars =>
      refine stars.inv (fun _ b _ => b.Distinct) ?_ ?_
      · exact names.inv (fun _ b _ => b.Distinct) ⟨hc.nodup, hc.seen⟩
          (fun _ _ _ _ _ _ _ hb hstep => hb.of_nameStep hstep)
      · rintro _ _ b₁ b₂ _ _ _ hb hstep
        cases hstep with
        | skip => exact hb
        | outer =>
          unfold Collected.addStar
          split <;> exact ⟨hb.nodup, hb.seen⟩
        | inner _ _ _ hcollect => exact ih hb hcollect

/-- A block exports no name twice. -/
theorem Exporting.nodup (h : Exporting cx fin os ps b c) : (b.exports.map Prod.fst).Nodup := by
  obtain ⟨k, s, t, hcollect⟩ := h.collected
  rw [← h.names_eq]
  have hempty : Collected.empty.Distinct := ⟨List.nodup_nil, List.Subset.refl _⟩
  exact (hempty.of_collect hcollect).nodup

end Collected

section Pieces

/-- The statements that the chunk makes up have no name in common. -/
theorem pairwise_made (h : ∀ x, madeCount ps x ≤ 1) : ps.Pairwise (fun p q =>
    p.owner = .chunk → q.owner = .chunk → ∀ x ∈ p.item.binds, x ∉ q.item.binds) := by
  induction ps with
  | nil => exact .nil
  | cons p ps ih =>
    have hsplit (x : String) : madeCount (p :: ps) x = madeCount [p] x + madeCount ps x :=
      madeCount_append [p] ps x
    refine List.pairwise_cons.2 ⟨fun q hq hp hc x hx hx' => ?_, ih (fun x => ?_)⟩
    · have hfirst : 0 < madeCount [p] x :=
        List.count_pos_iff.2 (List.mem_flatMap.2 ⟨p, by simp, mem_bindings.2 ⟨hp, hx⟩⟩)
      have hrest : 0 < madeCount ps x :=
        List.count_pos_iff.2 (List.mem_flatMap.2 ⟨q, hq, mem_bindings.2 ⟨hc, hx'⟩⟩)
      have hone := h x
      rw [hsplit] at hone
      omega
    · have hone := h x
      rw [hsplit] at hone
      omega

/-- In the innermost of the blocks the statement stands, exported or not, for one of the file that
declares `k`, and `x` is a name for that inside of the blocks. -/
structure DeclaredAs (cx : Context) (fin : State) (os : List Opening) (file : Url) (i : Item)
    (k x : String) : Prop where
  known : KnownAs fin.root.env os file k x
  shown : ∃ j ∈ cx.statements file, k ∈ j.declared.map Ident.name ∧
    ∃ is, StandsFor cx fin os file j is ∧ (i ∈ is ∨ ∃ l ∈ is, i = exportMember l)

/-- What a statement of a block's file binds is declared in the statement for which it stands. -/
theorem PieceIn.declaredAs {p : Piece} {g : Url} (h : PieceIn cx fin (b.opening :: os) p)
    (ho : p.owner = .file g) (hx : x ∈ p.item.binds) (hi : i = p.item ∨ i = exportMember p.item) :
    ∃ k, cx.Declares b.file k ∧ DeclaredAs cx fin (b.opening :: os) b.file i k x := by
  obtain ⟨j, hj, id, hid, hk, is, hstands, hp⟩ := h.declares ho hx
  refine ⟨id.name, List.mem_map_of_mem (List.mem_flatMap_of_mem hj hid), hk, j, hj,
    List.mem_map_of_mem hid, is, hstands, ?_⟩
  exact hi.imp (fun hi => by rwa [hi]) (fun hi => ⟨_, hp, hi⟩)

/-- Different declarations of the file have different names inside of the blocks. -/
def NamesDiffer (cx : Context) (root : Environment) (os : List Opening) (file : Url) : Prop :=
  ∀ k k' x, cx.Declares file k → cx.Declares file k' → KnownAs root os file k x →
    KnownAs root os file k' x → k = k'

end Pieces

namespace Space

/-- How the block shows one of its statements: exported if it has an export by that name. -/
def shown (b : Space) (i : Item) : Item :=
  if (memberNames i).any ((b.exports.filter (fun e => e.1 == e.2)).map Prod.fst).contains then
    exportMember i
  else i

/-- The exports for which the block has aliases. -/
def aliases (b : Space) : List (String × String) := b.exports.filter (fun e => e.1 != e.2)

theorem body_eq (b : Space) : b.body = b.pieces.map (fun p => b.shown p.item) ++
    b.aliases.map (fun e => aliasOf e.1 e.2 true) := by
  rw [body, exportMembers, List.map_map]
  rfl

theorem shown_cases (b : Space) (i : Item) : b.shown i = i ∨ b.shown i = exportMember i := by
  unfold shown
  split
  · exact Or.inr rfl
  · exact Or.inl rfl

theorem binds_shown (b : Space) (i : Item) : (b.shown i).binds = i.binds := by
  rcases b.shown_cases i with h | h <;> rw [h]
  exact binds_exportMember i

theorem mem_aliases : (x, f) ∈ b.aliases ↔ (x, f) ∈ b.exports ∧ x ≠ f := by
  simp [aliases]

end Space

/-- `i` and `j` stand for declarations of one name of the block's file. -/
def DeclareAlike (cx : Context) (fin : State) (os : List Opening) (b : Space) (i j : Item)
    (x : String) : Prop :=
  ∃ k, DeclaredAs cx fin (b.opening :: os) b.file i k x ∧
    DeclaredAs cx fin (b.opening :: os) b.file j k x

/-- `j` is the alias for the export `x`, which is not for what the member `i` stands for: if that
is a declaration of the block's file, then the export does not lead there, unless the file is at the
root, too. -/
structure AliasBeside (cx : Context) (fin : State) (os : List Opening) (b : Space) (i j : Item)
    (x : String) : Prop where
  target : ∃ f, (x, f) ∈ b.exports ∧ x ≠ f ∧ j = aliasOf x f true
  member : fin.root.env.owner? x = some .chunk ∨
    ∃ k, DeclaredAs cx fin (b.opening :: os) b.file i k x
  elsewhere : ∀ k, DeclaredAs cx fin (b.opening :: os) b.file i k x →
    cx.Means (.exported b.file x) b.file k → (fin.root.env.lookup b.file k).isSome

/-- No two statements of the block's body bind one name, but for declarations of one name of the
block's file, and for aliases. -/
def MembersApart (cx : Context) (fin : State) (os : List Opening) (b : Space) : Prop :=
  b.body.Pairwise (fun i j => ∀ x ∈ i.binds, x ∈ j.binds →
    DeclareAlike cx fin os b i j x ∨ AliasBeside cx fin os b i j x)

namespace SpaceOf

/-- The statements of the block as it is, before its exports are added. -/
theorem pieces_apart (h : SpaceOf cx fin os ps b) (hn : NamesOwned cx fin.root.env)
    (hnames : NamesDiffer cx fin.root.env (b.opening :: os) b.file) :
    b.pieces.Pairwise (fun p q => ∀ x ∈ p.item.binds, x ∈ q.item.binds →
      DeclareAlike cx fin os b (b.shown p.item) (b.shown q.item) x) := by
  have hapart {p q : Piece} {g : Url} {x : String} (hp : p ∈ b.pieces) (hq : q ∈ b.pieces)
      (ho : p.owner = .file g) (hc : q.owner = .chunk) (hx : x ∈ p.item.binds) :
      x ∉ q.item.binds := by
    intro hx'
    obtain ⟨k, hk, hdecl⟩ := (h.pieces p hp).declaredAs ho hx (Or.inl rfl)
    obtain ⟨hclaimed, hos⟩ := (h.pieces q hq).made hc x hx'
    exact hdecl.known.not_made hn hk hclaimed hos
  refine (pairwise_made h.madeOnce).imp_of_mem (fun {p q} hp hq hmade x hx hx' => ?_)
  cases hop : p.owner with
  | chunk =>
    cases hoq : q.owner with
    | chunk => exact absurd hx' (hmade hop hoq x hx)
    | file g => exact absurd hx (hapart hq hp hoq hop hx')
  | file g =>
    cases hoq : q.owner with
    | chunk => exact absurd hx' (hapart hp hq hop hoq hx)
    | file g' =>
      obtain ⟨k, hk, hp'⟩ := (h.pieces p hp).declaredAs hop hx (b.shown_cases p.item)
      obtain ⟨k', hk', hq'⟩ := (h.pieces q hq).declaredAs hoq hx' (b.shown_cases q.item)
      obtain rfl := hnames k k' x hk hk' hp'.known hq'.known
      exact ⟨k, hp', hq'⟩

/-- An export of what a member declares gets no alias under the member's name. -/
theorem eq_of_means {c : Collected} (h : SpaceOf cx fin os ps b) (hc : Exporting cx fin os ps b c)
    (hx : (x, f) ∈ b.exports) (hk : KnownAs fin.root.env (b.opening :: os) b.file k x)
    (hm : cx.Means (.exported b.file x) b.file k) (hroot : fin.root.env.lookup b.file k = none) :
    f = x := by
  obtain ⟨v, hfits, hv⟩ := hc.fits_or_another hx
  have hknown := hfits.fits _ k hm
  obtain rfl : v = x := Option.some.inj
    ((h.named_of_knownAs hknown hroot).symm.trans (h.named_of_knownAs hk hroot))
  rcases hv with ⟨rfl, -⟩ | ⟨-, hother, -⟩
  · rfl
  · obtain ⟨p, hp, -, -, hmember⟩ := h.member_of_knownAs hm.declares hknown hroot
    exact absurd (List.mem_flatMap.2 ⟨p.item, List.mem_map_of_mem hp, hmember⟩) hother.out

theorem membersApart (h : SpaceOf cx fin os ps b) (hn : NamesOwned cx fin.root.env)
    (hnames : NamesDiffer cx fin.root.env (b.opening :: os) b.file) :
    MembersApart cx fin os b := by
  obtain ⟨c, hc⟩ := h.exports
  rw [MembersApart, b.body_eq, List.pairwise_append]
  refine ⟨?_, ?_, ?_⟩
  · rw [List.pairwise_map]
    refine (h.pieces_apart hn hnames).imp (fun hpq x hx hx' => ?_)
    rw [b.binds_shown] at hx hx'
    exact Or.inl (hpq x hx hx')
  · rw [List.pairwise_map]
    have hnodup : (b.aliases.map Prod.fst).Nodup :=
      hc.nodup.sublist (List.filter_sublist.map _)
    refine (List.pairwise_map.1 hnodup).imp (fun hne x hx hx' => ?_)
    rw [binds_aliasOf, List.mem_singleton] at hx hx'
    exact absurd (hx.symm.trans hx') hne
  · intro i hi j hj x hx hx'
    obtain ⟨p, hp, rfl⟩ := List.mem_map.1 hi
    obtain ⟨⟨y, f⟩, he, rfl⟩ := List.mem_map.1 hj
    rw [binds_aliasOf, List.mem_singleton] at hx'
    subst hx'
    obtain ⟨hexport, hne⟩ := Space.mem_aliases.1 he
    refine Or.inr ⟨⟨f, hexport, hne, rfl⟩, ?_, fun k hdecl hm => ?_⟩
    · rw [b.binds_shown] at hx
      cases ho : p.owner with
      | chunk => exact Or.inl ((h.pieces p hp).made ho x hx).1
      | file g =>
        obtain ⟨k, -, hdecl⟩ := (h.pieces p hp).declaredAs ho hx (b.shown_cases p.item)
        exact Or.inr ⟨k, hdecl⟩
    · rw [Option.isSome_iff_ne_none]
      intro hroot
      exact hne (h.eq_of_means hc hexport hdecl.known hm hroot).symm

end SpaceOf

/-- Names differ if no file declares more than one. -/
theorem namesDiffer_of_files (h : ∀ e ∈ cx.files.modules.entries,
    ∀ id ∈ (cx.statements e.1).flatMap Item.declared,
      ∀ id' ∈ (cx.statements e.1).flatMap Item.declared, id.name = id'.name)
    (root : Environment) (os : List Opening) (file : Url) : NamesDiffer cx root os file := by
  intro k k' x hk hk' _ _
  obtain ⟨id, hid, rfl⟩ := List.mem_map.1 hk
  obtain ⟨id', hid', rfl⟩ := List.mem_map.1 hk'
  cases hm : cx.files.get? file with
  | some m => exact h _ (OrderedMap.mem_entries_of_get? hm) id hid id' hid'
  | none =>
    have hbody : cx.body file = [] := Context.body_of_none hm
    simp [Context.statements, hbody] at hid

/-- `/i.d.ts`, the entry, exports all of `/a.d.ts` as a namespace. That file has two classes and
exports the second by the name of the first. -/
def swappedNames : Context := .ofFiles
  [("/a.d.ts", [.decl (emptyClass "X"), .decl (emptyClass "Y"),
      Exports.list [Exports.specifier "Y" "X"]]),
    ("/i.d.ts", [.exportList ⟨[.all (.word "NS")], some (StrLit.made "/a.d.ts"), false, none⟩])]

end AmbientBundle.Merge
