import AmbientBundle.Proofs.Merge.Spaces
/-!
What a run puts into the scopes: the statements that it adds to the current scope and to the root,
and those that it hands back, are placed as they have to be. By induction on runs this reaches all
blocks of a chunk.
-/
namespace AmbientBundle.Merge

open Names Syntax

variable {cx : Context} {earlier : SeenSet Url} {n : Nat} {r : Role} {files : List Url}
  {s t u fin : State} {y z : Yield} {os : List Opening} {ws : List (SeenSet Url × List Opening)}

/-- From `s` to `t` statements are added that are placed as they have to be, as far as `fin` knows.
So are those that are handed back, among which are those for the statements of the current file. -/
structure Puts (cx : Context) (fin : State) (os : List Opening) (s t : State) (y : Yield) :
    Prop where
  scope : ∃ ps, t.scope.items = s.scope.items ++ ps ∧ Placed cx fin os ps
  root : ∃ ps, t.root.items = s.root.items ++ ps ∧ Placed cx fin [] ps
  pieces : Placed cx fin os y.pieces
  printed : ∀ o ∈ os.head?, ∀ i ∈ y.printed, ∃ is,
    StandsFor cx fin os o.target i is ∧ ∀ j ∈ is, .ofFile o.target j ∈ y.pieces

namespace Puts

/-- Nothing is added or handed back. -/
theorem of_eq (hi : t.scope.items = s.scope.items) (hr : t.root.items = s.root.items)
    (hp : y.pieces = []) (hy : y.printed = []) : Puts cx fin os s t y where
  scope := ⟨[], by simp [hi], .nil⟩
  root := ⟨[], by simp [hr], .nil⟩
  pieces := hp ▸ .nil
  printed := by simp [hy]

/-- Nothing is added behind the last statements. -/
theorem congr (h : Puts cx fin os s t y) (hi : u.scope.items = t.scope.items)
    (hr : u.root.items = t.root.items) (hp : z.pieces = y.pieces) (hy : z.printed = y.printed) :
    Puts cx fin os s u z where
  scope := hi ▸ h.scope
  root := hr ▸ h.root
  pieces := hp ▸ h.pieces
  printed := hp ▸ hy ▸ h.printed

theorem trans (h : Puts cx fin os s t y) (h' : Puts cx fin os t u z) :
    Puts cx fin os s u (y ++ z) where
  scope := by
    obtain ⟨ps, hps, hplaced⟩ := h.scope
    obtain ⟨qs, hqs, hplaced'⟩ := h'.scope
    exact ⟨ps ++ qs, by rw [hqs, hps, List.append_assoc], hplaced.append hplaced'⟩
  root := by
    obtain ⟨ps, hps, hplaced⟩ := h.root
    obtain ⟨qs, hqs, hplaced'⟩ := h'.root
    exact ⟨ps ++ qs, by rw [hqs, hps, List.append_assoc], hplaced.append hplaced'⟩
  pieces := h.pieces.append h'.pieces
  printed o ho i hi := by
    rcases List.mem_append.1 hi with hi | hi
    · obtain ⟨is, hstands, hmem⟩ := h.printed o ho i hi
      exact ⟨is, hstands, fun j hj => List.mem_append_left _ (hmem j hj)⟩
    · obtain ⟨is, hstands, hmem⟩ := h'.printed o ho i hi
      exact ⟨is, hstands, fun j hj => List.mem_append_right _ (hmem j hj)⟩

/-- Statements are added to the current scope. -/
theorem addItems {ps : List Piece} (hs : s.inBlock = false → os = [])
    (hp : Placed cx fin os ps) : Puts cx fin os s (s.addItems ps) ∅ where
  scope := ⟨ps, State.items_addItems s ps, hp⟩
  root := by
    rw [State.root_addItems_items]
    cases hb : s.inBlock with
    | true => exact ⟨[], by simp, .nil⟩
    | false => exact ⟨ps, rfl, hs hb ▸ hp⟩
  pieces := .nil
  printed := by simp

/-- Where the current scope is the root it is enough to look at the root. -/
theorem of_root (hs : s.inBlock = false) (ht : t.inBlock = false)
    (h : ∃ ps, t.root.items = s.root.items ++ ps ∧ Placed cx fin [] ps) : Puts cx fin [] s t ∅ where
  scope := by
    rw [State.scope_of_root hs, State.scope_of_root ht]
    exact h
  root := h
  pieces := .nil
  printed := by simp

end Puts

/-- The chunk makes up a statement that binds a fresh name. -/
theorem Standing.pieceIn_made (h : Standing cx earlier files os ws s) {wanted : String} {i : Item}
    (hl : Widens cx (s.claim (s.freshName wanted)).root.env fin.root.env)
    (hi : i.binds = [s.freshName wanted]) : PieceIn cx fin os (.made i) := by
  refine ⟨fun _ _ f hf => (by cases hf), fun _ x hx => ?_⟩
  change x ∈ i.binds at hx
  rw [hi, List.mem_singleton] at hx
  exact hx ▸ ⟨hl.owner _ _ (s.owner?_claim_freshName wanted), h.not_has_freshName wanted⟩

/-- The names under which a statement is put into a block fit. -/
theorem Standing.fitNames (hd : cx.ImportsApart) (h : Standing cx earlier files os ws s)
    {origin : Url} {i : Item} {keep : Bool} {env : Environment} {τ : ImportTypes.Targets} {k : Nat}
    (hhead : s.targets.head? = some origin) (hlead : cx.LeadTo files origin)
    (hhas : cx.HasFile origin) (hi : i ∈ cx.statements origin)
    (hlink : TypeLinks cx n origin (renameItems (Rename.ofEnvironment s.scope.env origin)
      (shown cx origin true keep env i)) (s.takeItems k).2 τ u)
    (hl : Widens cx u.root.env fin.root.env) (hlu : Widens cx s.root.env fin.root.env) :
    FitNames cx fin.root.env os origin s.scope.env τ := by
  have hsees := h.blocks.sees h.grounded.linked.sound
  refine ⟨fun k hk => ?_, fun k x hx => (hsees.sound origin k x hx).widen hlu, ?_⟩
  · have hb : s.inBlock = true := by
      rw [State.inBlock_eq]
      cases ht : s.targets with
      | nil => simp [ht] at hhead
      | cons f fs => rfl
    obtain ⟨o, os', b, bs, rfl, hn⟩ := h.blocks.cons_of_inBlock hb
    obtain rfl := h.eq_target hhead o rfl
    have hscope : s.scope = b.scope := by simp [State.scope, hn]
    have hnested := h.blocks.nested
    rw [hn] at hnested
    rw [hscope]
    cases hnested with
    | cons _ within _ _ _ =>
      obtain ⟨x, hx⟩ := Option.isSome_iff_exists.1 (within.bound k hk)
      refine ⟨x, hx, ?_⟩
      rcases within.names k x hk hx with hx | hx
      · exact Or.inl ⟨o, List.mem_cons_self, rfl, hx⟩
      · exact Or.inr (hlu.named _ k x hk hx)
  · intro key head f g hτ hkey hin
    refine (TypeLinks.fitsIn hd (h.takeItems k) hlead hhas (fun key hkey => ?_) hlink hτ hkey
      hin).widen hl
    exact mem_collectItems.2 ⟨i, hi, keys_rename_shown cx origin true keep env _ i hkey⟩

/-- What stands for a statement of the current file is placed as it has to be. -/
theorem placed_printed {origin : Url} {i : Item} {is : List Item}
    (hi : i ∈ cx.statements origin)
    (h : ∀ o ∈ os.head?, origin = o.target ∧ StandsFor cx fin os origin i is) :
    Placed cx fin os (is.map (Piece.ofFile origin)) := by
  intro p hp
  obtain ⟨j, hj, rfl⟩ := List.mem_map.1 hp
  refine ⟨⟨fun o ho f hf => ?_, fun hc => (by cases hc)⟩, .statement origin j⟩
  obtain rfl := Owner.file.inj hf
  obtain ⟨rfl, hstands⟩ := h o ho
  exact ⟨rfl, i, hi, is, hstands, hj⟩

/-- In the innermost of the blocks all imports of its file were dealt with. -/
def AllTried (cx : Context) (os : List Opening) (s : State) : Prop :=
  ∀ o ∈ os.head?, ∀ e ∈ cx.specifiers o.target, Tried s.warnings s.scope.env o.target e.2.loc

theorem AllTried.of_run {o : Opening} (hs : Standing cx earlier files (o :: os) ws s)
    (run : Run cx n r files s y t) (hy : y.tried = cx.specifiers o.target) :
    AllTried cx (o :: os) t := by
  rintro o' ho e he
  obtain rfl : o = o' := Option.some.inj ho
  exact run.tried (hs.inBlock List.mem_cons_self) (hs.head_targets rfl) e (hy ▸ he)

theorem AllTried.run (h : AllTried cx os s) (hs : Standing cx earlier files os ws s)
    (run : Run cx n r files s y t) : AllTried cx os t :=
  fun o ho e he => (h o ho e he).run run (hs.inBlock (List.mem_of_mem_head? ho))

section Print

variable {origin : Url} {i : Item} {exports : List Item} {τ : ImportTypes.Targets}

/-- In a block, where no exports are kept, what is printed of a statement stands for it. -/
theorem Standing.standsFor_printed (hd : cx.ImportsApart)
    (hs : Standing cx earlier files os ws s) (hcur : Current cx files origin s)
    (hi : i ∈ cx.statements origin)
    (hx : (keepsExports r s = true ∧ ∃ k < n, reexport cx k origin i s = some (exports, t)) ∨
      (keepsExports r s = false ∧ exports = [] ∧ t = s))
    (hlink : ∃ k < n, TypeLinks cx k origin (renameItems (Rename.ofEnvironment t.scope.env origin)
      (shown cx origin s.inBlock (keepsExports r s) s.scope.env i))
      (t.takeItems s.scope.items.length).2 τ u)
    (htried : AllTried cx os s) (hlt : Later cx t fin) (hl : Later cx u fin) :
    ∀ o ∈ os.head?, origin = o.target ∧ StandsFor cx fin os origin i
      (linkItems τ (renameItems (Rename.ofEnvironment t.scope.env origin)
        (shown cx origin s.inBlock (keepsExports r s) s.scope.env i)) ++ exports) := by
  intro o ho
  have hb := hs.inBlock (List.mem_of_mem_head? ho)
  have hkeep : keepsExports r s = false := by simp [keepsExports, hb]
  obtain ⟨k, _, hlink⟩ := hlink
  rw [hkeep, hb] at hlink ⊢
  rcases hx with ⟨hx, _⟩ | ⟨_, rfl, rfl⟩
  · rw [hkeep] at hx
    cases hx
  · obtain rfl := hs.eq_target (hcur.block hb) o ho
    refine ⟨rfl, _, _, τ, ?_, fun e he => ?_, List.append_nil _⟩
    · exact hs.fitNames hd (hcur.block hb) hcur.lead hcur.file hi hlink hl.widens hlt.widens
    · exact (htried o ho e he).mono hlt.warnings (.refl _)

/-- What was put into the scope on the way to the exports is handed back before the statement. -/
theorem Puts.print {is : List Item} (run : Run cx n r files s ∅ t) (hi : i ∈ cx.statements origin)
    (h₁ : Puts cx fin os s t ∅) (h₂ : Puts cx fin os (t.takeItems s.scope.items.length).2 u ∅)
    (hstands : ∀ o ∈ os.head?, origin = o.target ∧ StandsFor cx fin os origin i is) :
    Puts cx fin os s u
      ⟨(t.takeItems s.scope.items.length).1 ++ is.map (Piece.ofFile origin), [], [i]⟩ := by
  obtain ⟨ps, hps, hplaced⟩ := h₁.scope
  have htaken : (t.takeItems s.scope.items.length).1 = ps := by
    rw [State.takeItems, hps, List.drop_left]
  have hleft : (t.takeItems s.scope.items.length).2.scope.items = s.scope.items := by
    rw [State.scope_items_takeItems, hps, List.take_left]
  refine ⟨?_, ?_, ?_, fun o ho j hj => ?_⟩
  · obtain ⟨qs, hqs, hplaced'⟩ := h₂.scope
    exact ⟨qs, by rw [hqs, hleft], hplaced'⟩
  · obtain ⟨rs, hrs, hplaced₁⟩ := h₁.root
    obtain ⟨qs, hqs, hplaced₂⟩ := h₂.root
    cases hb : s.inBlock with
    | true =>
      rw [State.root_takeItems_items, run.inBlock_eq.trans hb, if_pos rfl, hrs,
        List.append_assoc] at hqs
      exact ⟨rs ++ qs, hqs, hplaced₁.append hplaced₂⟩
    | false =>
      have hbt : (t.takeItems s.scope.items.length).2.inBlock = false :=
        (State.inBlock_congr (State.targets_takeItems t _)).trans (run.inBlock_eq.trans hb)
      rw [State.scope_of_root hbt] at hleft
      exact ⟨qs, by rw [hqs, hleft, State.scope_of_root hb], hplaced₂⟩
  · rw [htaken]
    exact hplaced.append (placed_printed hi hstands)
  · obtain rfl := List.mem_singleton.1 hj
    obtain ⟨rfl, his⟩ := hstands o ho
    exact ⟨is, his, fun j hj => List.mem_append_right _ (List.mem_map_of_mem hj)⟩

end Print

/-- Claiming a fresh name adds no statements. -/
theorem State.madeCount_claim_le (s : State) (wanted x : String) :
    madeCount (s.claim (s.freshName wanted)).scope.items x + 0 +
      (s.claim (s.freshName wanted)).free x ≤ madeCount s.scope.items x + s.free x := by
  have hclaim := s.free_claim_freshName wanted x
  rw [State.items_claim]
  omega

/-- In a block the statements that a run adds or hands back bind each name that is still free when
the run begins at most once, as far as the chunk makes them up, and no other name. -/
theorem Run.madeCount_le (h : Run cx n r files s y t) (hb : s.inBlock = true) (x : String) :
    madeCount t.scope.items x + madeCount y.pieces x + t.free x ≤
      madeCount s.scope.items x + s.free x := by
  induction h with
  | nothing => simp [madeCount_nil]
  | andThen first _ ih₁ ih₂ =>
    have hfirst := ih₁ hb
    have hsecond := ih₂ (first.inBlock_eq.trans hb)
    rw [Yield.pieces_append, madeCount_append]
    omega
  | warn w => exact Nat.le_refl _
  | keepRun module => exact Nat.le_refl _
  | preserve typeOnly hkey hw => exact State.madeCount_claim_le _ _ x
  | preserveAgain typeOnly hkey => exact Nat.le_refl _
  | aliasImport hf hkey => exact State.madeCount_claim_le _ _ x
  | @aliasBinding _ _ s f hf =>
    have hclaim := s.free_claim_freshName f x
    have hfree := (Grows.addItems (s.claim (s.freshName f))
      [.made (aliasOf (s.freshName f) f false)]).free_le x
    rw [State.items_addItems, State.items_claim, madeCount_append, madeCount_made, binds_aliasOf,
      Yield.pieces_empty, madeCount_nil]
    omega
  | @link _ _ s t origin d sp f _ _ _ _ _ ih =>
    have hrun := ih hb
    have hfree := (Grows.link t origin sp.loc f).free_le x
    rw [State.scope_items_link]
    simp only [Yield.pieces_empty, madeCount_nil] at hrun ⊢
    omega
  | unlinked target _ _ _ _ ih => exact ih hb
  | @print _ _ s t u origin i exports τ _ _ _ _ _ _ run links ih₁ ih₂ =>
    have hbt := run.inBlock_eq.trans hb
    have hrun := ih₁ hb
    have hlinks := ih₂ ((State.inBlock_congr (State.targets_takeItems t _)).trans hbt)
    have hfree := (Grows.takeItems t s.scope.items.length).free_le x
    have hsplit : madeCount t.scope.items x =
        madeCount (t.scope.items.take s.scope.items.length) x +
          madeCount (t.takeItems s.scope.items.length).1 x := by
      rw [State.takeItems, ← madeCount_append, List.take_append_drop]
    rw [State.scope_items_takeItems] at hlinks
    rw [madeCount_append, madeCount_ofFile]
    simp only [Yield.pieces_empty, madeCount_nil] at hrun hlinks
    omega
  | inlined hroot => cases hroot.symm.trans hb
  | @atRoot _ _ s t hblock run =>
    have hfree := (Run.atRoot hblock run (r := r)).grows.free_le x
    rw [run.scope_items_resume hblock, Yield.pieces_empty, madeCount_nil]
    omega
  | @block _ _ s t u v w target wanted ps exports _ _ _ _ _ imports prints collects aliases _ _ _
      ih₄ =>
    have hclaimed : (s.claim (s.freshName wanted)).inBlock = true :=
      (State.inBlock_congr (State.targets_claim s _)).trans hb
    have hclaim := s.free_claim_freshName wanted x
    have hfree := (Run.grows_closeBlock imports prints collects).free_le x
    have haliases := ih₄ ((State.inBlock_congr (Run.closes imports prints collects).2).trans
      hclaimed)
    have hadd := (Grows.addItems w [.made (spaceOf (!w.inBlock) (s.freshName wanted)
      (exportMembers (v.closeBlock.1.map Piece.item) exports))]).free_le x
    rw [Run.scope_items_closeBlock hclaimed imports prints collects, State.items_claim] at haliases
    rw [State.items_addItems, madeCount_append, madeCount_made, binds_spaceOf]
    simp only [Yield.pieces_empty, madeCount_nil] at haliases ⊢
    omega
  | exportAgain hroot => cases hroot.symm.trans hb

section Block

variable {o : Opening} {v w : State} {declare : Bool} {exports : List (String × String)}
  {qs : List Piece}

/-- What becomes of the exports of a block behind its end. -/
theorem becomes_of_exportOf {a e : String × String} (hcur : ∀ p ∈ v.closeBlock.1,
      p.owner = .chunk → ∀ x ∈ p.item.binds, v.root.env.owner? x = some .chunk)
    (hqs : w.scope.items = v.closeBlock.2.scope.items ++ qs) (hl : Later cx w fin)
    (h : ExportOf ((v.closeBlock.1.map Piece.item).flatMap memberNames) v.closeBlock.2 w a e) :
    Becomes fin qs ⟨o, declare, v.closeBlock.1, exports⟩ a e := by
  cases h with
  | same he hm => exact .same he hm
  | renamed ha hm he again =>
    refine .renamed ha hm he (hl.widens.owner _ _ again.claimed) (fun p hp ho hx => ?_) ?_
    · have hnew := again.new
      rw [State.root_closeBlock, hcur p hp ho _ hx] at hnew
      cases hnew
    · refine again.bound.imp ?_ (hl.imports _ _)
      rintro ⟨ps, hps, hmem⟩
      exact List.append_cancel_left (hqs.symm.trans hps) ▸ hmem

theorem exporting_of_spaceExports (hd : cx.ImportsApart)
    (hs : Standing cx earlier files (o :: os) ws s) (hlead : cx.LeadTo files o.target)
    (hhas : cx.HasFile o.target) (h : SpaceExports cx n o.target s v w exports)
    (hcur : ∀ p ∈ v.closeBlock.1,
      p.owner = .chunk → ∀ x ∈ p.item.binds, v.root.env.owner? x = some .chunk)
    (hqs : w.scope.items = v.closeBlock.2.scope.items ++ qs) (hlv : Later cx v fin)
    (hl : Later cx w fin) :
    ∃ c, Exporting cx fin os qs ⟨o, declare, v.closeBlock.1, exports⟩ c := by
  obtain ⟨warnings, c, t, k, _, hcollect, hv, hwarn, hnamed, hunbound⟩ := h
  have hs' := hs.warned warnings
  have hblock := hs'.inBlock List.mem_cons_self
  obtain ⟨hfits, hall⟩ :=
    collect_fitsIn hd hs' hlead hhas (fun hb => absurd (hblock.symm.trans hb) (by simp)) hcollect
  have hroot : t.root = v.root := by rw [hv]
  rw [hroot] at hfits
  refine ⟨c, ⟨k, _, t, hcollect⟩, fun x f hx => ?_, fun g x ho => ?_, ?_, fun x hx => ?_⟩
  · exact (hfits x f hx).imp_right (fun hf => hf.widen hlv.widens)
  · exact (hall g x ho).imp_right (fun ⟨g, hg⟩ => ⟨g, hlv.warnings (hwarn hg)⟩)
  · exact hnamed.imp (fun _ _ he => becomes_of_exportOf hcur hqs hl he)
  · exact hl.warnings (hunbound x hx)

/-- What the chunk makes up in a block binds no name twice. -/
theorem Run.madeOnce {target : Url} {name : String}
    (imports : Run cx n r files
      ((s.openBlock target name).bindFile (cx.statements target) target) y t)
    (prints : Run cx n r files t z u) (collects : Run cx n r files (u.addItems z.pieces) ∅ v)
    (x : String) : madeCount v.scope.items x ≤ 1 := by
  have hbt : t.inBlock = true := imports.inBlock_begunBlock
  have himports := imports.madeCount_le (State.inBlock_begunBlock _ _ _ _) x
  have hprints := prints.madeCount_le hbt x
  have hcollects := collects.madeCount_le ((State.inBlock_congr (State.targets_addItems u _)).trans
    (prints.inBlock_eq.trans hbt)) x
  have hfree := (Grows.addItems u z.pieces).free_le x
  have hone : ((s.openBlock target name).bindFile (cx.statements target) target).free x ≤ 1 := by
    unfold State.free
    split <;> omega
  rw [State.scope_items_begunBlock, madeCount_nil] at himports
  rw [State.items_addItems, madeCount_append] at hcollects
  omega

/-- A block that is closed holds what its file and the runs for it put there. -/
theorem spaceOf_closed (declare : Bool) (hd : cx.ImportsApart) {body : Yield} {s' : State}
    (hbody : ∀ {fin : State}, Later cx v fin → Puts cx fin (o :: os) s v body)
    (hempty : s.scope.items = []) (hps : body.pieces ⊆ v.scope.items)
    (hall : body.printed = cx.statements o.target) (honce : ∀ x, madeCount v.scope.items x ≤ 1)
    (hs : Standing cx earlier files (o :: os) ws s') (hv : Standing cx earlier files (o :: os) ws v)
    (hlead : cx.LeadTo files o.target) (hhas : cx.HasFile o.target)
    (hexports : SpaceExports cx n o.target s' v w exports)
    (hqs : w.scope.items = v.closeBlock.2.scope.items ++ qs) (hlv : Later cx v fin)
    (hl : Later cx w fin) : Placed cx fin (o :: os) v.closeBlock.1 ∧
      SpaceOf cx fin os qs ⟨o, declare, v.closeBlock.1, exports⟩ := by
  have hclose : v.closeBlock.1 = v.scope.items :=
    State.closeBlock_fst (hv.inBlock List.mem_cons_self)
  have hplaced : ∀ {fin : State}, Later cx v fin → Placed cx fin (o :: os) v.closeBlock.1 := by
    intro fin hl
    obtain ⟨ps, hps, hplaced⟩ := (hbody hl).scope
    rw [hempty, List.nil_append] at hps
    rwa [hclose, hps]
  have hcur : ∀ p ∈ v.closeBlock.1, p.owner = .chunk → ∀ x ∈ p.item.binds,
      v.root.env.owner? x = some .chunk :=
    fun p hp ho x hx => ((hplaced (.refl cx v) p hp).1.made ho x hx).1
  refine ⟨hplaced hlv, hv.blocks.nested.isNested.widen hlv.widens,
    fun p hp => (hplaced hlv p hp).1, fun i hi => ?_, fun x => hclose.symm ▸ honce x,
    exporting_of_spaceExports hd hs hlead hhas hexports hcur hqs hlv hl⟩
  obtain ⟨is, hstands, hmem⟩ := (hbody hlv).printed o rfl i (hall ▸ hi)
  exact ⟨is, hstands, fun j hj => hclose ▸ hps (hmem j hj)⟩

/-- What is put into a block from its beginning to its end. -/
theorem Puts.body {q : Role} {ps : List Piece} {xs : List (ImportDecl × ImportSpecifier)}
    {is : List Item} (hd : cx.ImportsApart) (hs : Standing cx earlier files os ws s)
    (imports : Run cx n q files s ⟨[], xs, []⟩ t) (prints : Run cx n q files t ⟨ps, [], is⟩ u)
    (collects : Run cx n q files (u.addItems ps) ∅ v)
    (h₁ : ∀ {fin}, Later cx t fin → Puts cx fin os s t ⟨[], xs, []⟩)
    (h₂ : ∀ {fin}, Later cx u fin → Puts cx fin os t u ⟨ps, [], is⟩)
    (h₃ : ∀ {fin}, Later cx v fin → Puts cx fin os (u.addItems ps) v ∅) (hl : Later cx v fin) :
    Puts cx fin os s v ⟨ps, xs, is⟩ := by
  have ht := hs.run hd imports
  have hu := ht.run hd prints
  have hu' := hu.addItems (prints.formed ht.grounded.formed).2
  have hlu : Later cx u fin := (Later.addItems u ps).trans ((Later.run hd hu' collects).trans hl)
  have hput := (((h₁ ((Later.run hd ht prints).trans hlu)).trans (h₂ hlu)).trans
    (.addItems (fun hb => (hu.blocks.nil_of_root hb).1) (h₂ hlu).pieces)).trans (h₃ hl)
  rwa [Yield.append_empty, Yield.append_empty, Yield.mk_append, List.append_nil] at hput

/-- A closed block stands behind the aliases for its exports. -/
theorem Puts.close {ps : List Piece} (hs : Standing cx earlier files os ws s)
    (hroot : ∃ rs, v.root.items = s.root.items ++ rs ∧ Placed cx fin [] rs)
    (hclosed : s.inBlock = true → v.closeBlock.2.scope.items = s.scope.items)
    (hbv : v.closeBlock.2.inBlock = s.inBlock) (hbw : w.inBlock = s.inBlock)
    (aliases : Puts cx fin os v.closeBlock.2 w ∅)
    (hqs : w.scope.items = v.closeBlock.2.scope.items ++ qs)
    (hadded : Placed cx fin os (qs ++ ps)) :
    Puts cx fin os s (w.addItems ps) ∅ := by
  obtain ⟨rs, hrs, hplaced₁⟩ := hroot
  cases hb : s.inBlock with
  | true =>
    obtain ⟨rs', hrs', hplaced₂⟩ := aliases.root
    refine ⟨⟨_, ?_, hadded⟩, ⟨rs ++ rs', ?_, hplaced₁.append hplaced₂⟩, .nil, by simp⟩
    · rw [State.items_addItems, hqs, hclosed hb, List.append_assoc]
    · rw [State.root_addItems_items, hbw, hb, if_pos rfl, hrs', State.root_closeBlock, hrs,
        List.append_assoc]
  | false =>
    obtain ⟨rfl, _⟩ := hs.blocks.nil_of_root hb
    rw [State.scope_of_root (hbw.trans hb), State.scope_of_root (hbv.trans hb),
      State.root_closeBlock, hrs] at hqs
    refine .of_root hb ((State.inBlock_congr (State.targets_addItems w _)).trans (hbw.trans hb))
      ⟨_, ?_, hplaced₁.append hadded⟩
    rw [State.root_addItems_items, hbw, hb, if_neg Bool.false_ne_true, hqs, List.append_assoc,
      List.append_assoc]

end Block

/-- Statements of a block's file are printed once all its imports were dealt with. -/
theorem Run.puts (hd : cx.ImportsApart) (h : Run cx n r files s y t)
    (hs : Standing cx earlier files os ws s) (ht : y.printed = [] ∨ AllTried cx os s)
    (hl : Later cx t fin) : Puts cx fin os s t y := by
  induction h generalizing os ws fin with
  | nothing => exact .of_eq rfl rfl rfl rfl
  | andThen first second ih₁ ih₂ =>
    have hmid := hs.run hd first
    have hlater := (Later.run hd hmid second).trans hl
    rcases ht with ht | ht
    · rw [Yield.printed_append, List.append_eq_nil_iff] at ht
      exact (ih₁ hs (Or.inl ht.1) hlater).trans (ih₂ hmid (Or.inl ht.2) hl)
    · exact (ih₁ hs (Or.inr ht) hlater).trans (ih₂ hmid (Or.inr (ht.run hs first)) hl)
  | warn w => exact .of_eq rfl rfl rfl rfl
  | keepRun module => exact .of_eq rfl rfl rfl rfl
  | preserve typeOnly hkey hw => exact .of_eq (State.items_claim _ _) rfl rfl rfl
  | preserveAgain typeOnly hkey => exact .of_eq rfl rfl rfl rfl
  | aliasImport hf hkey => exact .of_eq (State.items_claim _ _) rfl rfl rfl
  | @aliasBinding r files s f hf =>
    have hclaim : Puts cx fin os s (s.claim (s.freshName f)) ∅ :=
      .of_eq (State.items_claim _ _) rfl rfl rfl
    refine hclaim.trans (.addItems (fun hb => ?_) ?_)
    · rw [State.inBlock_congr (State.targets_claim s _)] at hb
      exact (hs.blocks.nil_of_root hb).1
    · intro p hp
      obtain rfl := List.mem_singleton.1 hp
      exact ⟨hs.pieceIn_made ((Later.addItems _ _).trans hl).widens (binds_aliasOf _ _ _),
        .named _ _⟩
  | @link r files s t origin d sp f hcur hsp hf run hres ih =>
    have hx : ¬cx.Declares origin sp.loc := fun hx => by
      obtain ⟨id, hid, he⟩ := List.mem_map.1 hx
      exact hd origin id hid _ hsp he.symm
    exact (ih hs (Or.inl rfl) ((Later.link t f hx).trans hl)).congr (State.scope_items_link _ _ _ _)
      (by simp) rfl rfl
  | @unlinked r files s t origin d sp target _ _ _ _ ih =>
    have hwarn : Later cx t (t.warn (.unknownImport target origin sp.loc)) :=
      .of_eq rfl rfl (List.subset_append_left _ _)
    exact (ih hs (Or.inl rfl) (hwarn.trans hl)).congr rfl rfl rfl rfl
  | @print r files s t u origin i exports τ hcur hi _ hx _ hlink run links ih₁ ih₂ =>
    have hleft := (hs.run hd run).takeItems s.scope.items.length
    have hlt : Later cx t fin := (Later.takeItems t _).trans ((Later.run hd hleft links).trans hl)
    refine .print run hi (ih₁ hs (Or.inl rfl) hlt) (ih₂ hleft (Or.inl rfl) hl) ?_
    exact hs.standsFor_printed hd hcur hi hx hlink (ht.resolve_left (by simp)) hlt hl
  | @inlined r q files s t u file ps hroot hnew hfile _ _ imports prints ih₁ ih₂ =>
    obtain ⟨rfl, _⟩ := hs.blocks.nil_of_root hroot
    have hs₁ := hs.beginFile hroot hnew hfile
    have hs₂ := hs₁.run hd imports
    have hlu : Later cx u fin := (Later.addItems u ps).trans hl
    have hbu : u.inBlock = false := prints.inBlock_eq.trans (imports.inBlock_begunFile hroot)
    have h₂ := ih₂ hs₂ (Or.inr (by simp [AllTried])) hlu
    have hall := ((ih₁ hs₁ (Or.inl rfl) ((Later.run hd hs₂ prints).trans hlu)).trans h₂).trans
      (.addItems (fun _ => rfl) h₂.pieces)
    have hall := hall.root
    rw [State.root_bindFile_items] at hall
    exact .of_root hroot ((State.inBlock_congr (State.targets_addItems u ps)).trans hbu) hall
  | @atRoot r files s t hblock run ih =>
    have h := ih hs.suspend (Or.inl rfl) ((Later.resume t _ _).trans hl)
    refine ⟨⟨[], by rw [run.scope_items_resume hblock, List.append_nil], .nil⟩, ?_, .nil, by simp⟩
    rw [State.root_inheritFromRoot]
    exact h.root
  | @block r files s t u v w target wanted ps exports hnew hfile hlead hw hexports imports
      prints collects aliases ih₁ ih₂ ih₃ ih₄ =>
    obtain ⟨named, hs₁⟩ := hs.beginBlock hnew hfile hw
    have hbegin : Later cx (s.claim (s.freshName wanted)) _ :=
      .beginBlock _ (cx.statements target) target (s.freshName wanted)
    have hblock := State.inBlock_congr (State.targets_claim s (s.freshName wanted))
    have hbv := (State.inBlock_congr (Run.closes imports prints collects).2).trans hblock
    have hclosed (hb : s.inBlock = true) : v.closeBlock.2.scope.items = s.scope.items :=
      (Run.scope_items_closeBlock (hblock.trans hb) imports prints collects).trans
        (State.items_claim s _)
    have honce := Run.madeOnce imports prints collects
    have hempty := State.scope_items_begunBlock (s.claim (s.freshName wanted)) target target
      (s.freshName wanted) (cx.statements target)
    have hroot := State.root_items_begunBlock (s.claim (s.freshName wanted)) target target
      (s.freshName wanted) (cx.statements target)
    generalize ((s.claim (s.freshName wanted)).openBlock target (s.freshName wanted)).bindFile
      (cx.statements target) target = s₁ at *
    have hs₂ := hs₁.run hd imports
    have hs₃ := (hs₂.run hd prints).addItems (prints.formed hs₂.grounded.formed).2
    have hs₄ := hs₃.run hd collects
    have hlw : Later cx w fin := (Later.addItems w _).trans hl
    have hlv : Later cx v fin :=
      (Later.closeBlock v).trans ((Later.run hd hs₄.closeBlock aliases).trans hlw)
    have hlc : Later cx (s.claim (s.freshName wanted)) fin :=
      hbegin.trans ((Later.run hd hs₁ imports).trans ((Later.run hd hs₂ prints).trans
        ((Later.addItems u ps).trans ((Later.run hd hs₃ collects).trans hlv))))
    have hbody {fin : State} (hl : Later cx v fin) :=
      Puts.body hd hs₁ imports prints collects (ih₁ hs₁ (Or.inl rfl))
        (ih₂ hs₂ (Or.inr (.of_run hs₁ imports rfl))) (ih₃ hs₃ (Or.inl rfl)) hl
    have hps : ps ⊆ v.scope.items := fun p hp => collects.onward.items.subset (by simp [hp])
    have haliases := ih₄ hs₄.closeBlock (Or.inl rfl) hlw
    obtain ⟨qs, hqs, hplaced⟩ := haliases.scope
    obtain ⟨hparts, hspace⟩ := spaceOf_closed (!w.inBlock) hd hbody hempty hps rfl honce hs₃
      hs₄ hlead hfile hexports hqs hlv hlw
    obtain ⟨rs, hrs, hplaced'⟩ := (hbody hlv).root
    refine .close hs ⟨rs, hrs.trans (by rw [hroot]; rfl), hplaced'⟩ hclosed hbv
      (aliases.inBlock_eq.trans hbv) haliases hqs (fun p hp => ?_)
    rcases List.mem_append.1 hp with hp | hp
    · exact ⟨(hplaced p hp).1, (hplaced p hp).2.beside (fun i hi => List.mem_append_left _ hi)⟩
    · obtain rfl := List.mem_singleton.1 hp
      refine ⟨hs.pieceIn_made hlc.widens (binds_spaceOf _ _ _), ?_⟩
      exact .space _ (hspace.beside (fun i hi => List.mem_append_left _ hi))
        (fun p hp => (hparts p hp).2)
  | @exportAgain s t file c k hroot _ _ _ _ run ih =>
    obtain ⟨rfl, _⟩ := hs.blocks.nil_of_root hroot
    exact (ih hs (Or.inl rfl) ((Later.addItems t _).trans hl)).trans
      (.addItems (fun _ => rfl) (.ofFile_root file _))

section Chunk

variable {included included' : SeenSet Url} {m : Merged} {warnings : List Warning}

/-- A statement that a chunk makes up is in the chunk in the end. -/
theorem made_mem_finalPieces {i : Item} (h : .made i ∈ s.root.items)
    (hi : isExportStatement i = false) : .made i ∈ finalPieces s := by
  have hkept : ∀ (ps : List Piece) (seen : Exported), .made i ∈ ps →
      .made i ∈ keepNewAll seen ps := by
    intro ps
    induction ps with
    | nil => exact fun _ h => h
    | cons p ps ih =>
      intro seen h
      rw [keepNewAll]
      rcases List.mem_cons.1 h with rfl | h
      · refine List.mem_append_left _ (List.mem_map.2 ⟨i, ?_, rfl⟩)
        simp [Piece.made, keepNew_of_not_isExportStatement hi]
      · exact List.mem_append_right _ (ih _ h)
  exact List.mem_append_right _ (hkept _ _ h)

/-- The statements of a chunk are placed as they have to be, in all its blocks. -/
theorem parts_of_mergeChunk? (hd : cx.ImportsApart)
    (h : mergeChunk? cx included = some (m, included', warnings)) :
    ∃ s, includeEntries cx (State.start included) = some ((), s) ∧ m = finish cx.chunk s ∧
      warnings = s.warnings ∧ NamesOwned cx s.root.env ∧
      ∀ p ∈ m.pieces, Part (SpaceOf cx s) [] m.pieces p := by
  obtain ⟨s, run, hm, rfl, hentries⟩ := mergeChunk_run h
  have hwarnings : warnings = s.warnings := by
    rw [mergeChunk?, StateT.run, hentries] at h
    cases h
    rfl
  have hs : Standing cx included [] [] [] (State.start included) := .start included
  obtain ⟨ps, hps, hplaced⟩ := (run.puts hd hs (Or.inl rfl) (.refl cx s)).root
  obtain rfl : s.root.items = ps := hps
  refine ⟨s, hentries, hm, hwarnings, (hs.run hd run).blocks.names, fun p hp => ?_⟩
  subst hm
  rcases List.mem_append.1 hp with hp | hp
  · obtain ⟨i, hi, rfl⟩ := List.mem_map.1 hp
    obtain ⟨d, rfl⟩ := importDecl_of_mem_hoistedImports hi
    exact .imported d
  · obtain ⟨o, i⟩ := p
    obtain ⟨⟨o', j⟩, hq, howner, hitem⟩ := mem_keepNewAll hp
    obtain rfl : o = o' := howner.symm
    have hstay : ∀ i, .made i ∈ s.root.items → .made i ∈ finalPieces s := fun i hi =>
      made_mem_finalPieces hi ((hplaced _ hi).2.not_isExportStatement rfl)
    rcases hitem with hitem | ⟨hexport, _⟩
    · obtain rfl : i = j := hitem
      exact (hplaced _ hq).2.beside hstay
    · cases o with
      | file f => exact .statement f i
      | chunk => simp [(hplaced _ hq).2.not_isExportStatement rfl] at hexport

end Chunk

end AmbientBundle.Merge
