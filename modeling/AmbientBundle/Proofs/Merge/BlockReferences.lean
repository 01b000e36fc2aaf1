import AmbientBundle.Proofs.Merge.ImportLinks
import AmbientBundle.Proofs.Merge.Puts
/-!
References out of namespace blocks. The names for the declarations of a block's file are chosen when
the block is opened, and those of other files that are merged then later. So a name that leads out
of the block may be bound inside of it only if the root gave it away after that, or if the block has
an alias for an export of that name.
-/
namespace AmbientBundle.Merge

open Names Syntax

/-- The root gave the name away after a block was opened for a file with a declaration that got the
name there. -/
def GivenLater (root : Environment) (os : List Opening) (v : String) : Prop :=
  (root.owner? v).isSome ∧ ∃ o ∈ os, o.Has v ∧ root.TakenBefore o.name v

theorem binds_exportMember (i : Item) : (exportMember i).binds = i.binds := by
  cases i <;> rfl

namespace Space

variable {b : Space} {x : String}

/-- A statement in the body of the block binds the name. -/
def Binds (b : Space) (x : String) : Prop := x ∈ b.body.flatMap Item.binds

/-- The block has an alias for an export under the name. -/
def Aliases (b : Space) (x : String) : Prop := ∃ f, (x, f) ∈ b.exports ∧ x ≠ f

theorem binds_iff : b.Binds x ↔ (∃ p ∈ b.pieces, x ∈ p.item.binds) ∨ b.Aliases x := by
  unfold Binds Aliases body exportMembers
  rw [List.flatMap_append, List.mem_append]
  refine or_congr ?_ ?_
  · simp only [List.mem_flatMap, List.mem_map, exists_exists_and_eq_and]
    refine exists_congr (fun p => and_congr_right (fun _ => ?_))
    split
    · rw [binds_exportMember]
    · rfl
  · simp [List.mem_flatMap, binds_aliasOf]

end Space

variable {cx : Context} {fin : State} {root : Environment} {o : Opening} {os : List Opening}
  {ps : List Piece} {b : Space} {g : Url} {k v x : String}

theorem Nested.late (h : Nested root os) (ho : o ∈ os) (hx : o.Has x) {a : Owner}
    (ha : root.owner? x = some a) : a = .file o.target ∨ root.TakenBefore o.name x := by
  induction os with
  | nil => cases ho
  | cons p os ih =>
    rcases List.mem_cons.1 ho with rfl | ho
    · exact h.1.late x hx a ha
    · exact ih h.2 ho

/-- What a statement of a block's file binds is the name of a declaration in the statement of the
file for which it stands. -/
theorem PieceIn.declares {p : Piece} {f : Url} (h : PieceIn cx fin (o :: os) p)
    (hf : p.owner = .file f) (hx : x ∈ p.item.binds) :
    ∃ j ∈ cx.statements o.target, ∃ id ∈ j.declared,
      KnownAs fin.root.env (o :: os) o.target id.name x ∧
        ∃ is, StandsFor cx fin (o :: os) o.target j is ∧ p.item ∈ is := by
  obtain ⟨rfl, i, hi, is, hstands, hp⟩ := h.ofFile o rfl f hf
  obtain ⟨env, env', τ, hn, htried, rfl⟩ := hstands
  obtain ⟨id, hid, rfl⟩ := mem_binds_printed hi hp hx
  obtain ⟨y, hl, hy⟩ := hn.declared id.name (List.mem_map_of_mem (List.mem_flatMap_of_mem hi hid))
  refine ⟨i, hi, id, hid, ?_, _, ⟨env, env', τ, hn, htried, rfl⟩, hp⟩
  rwa [Rename.ofEnvironment, hl, Option.getD_some]

theorem PieceIn.named {p : Piece} {f : Url} (h : PieceIn cx fin (o :: os) p)
    (hf : p.owner = .file f) (hx : x ∈ p.item.binds) :
    ∃ k, cx.Declares o.target k ∧ KnownAs fin.root.env (o :: os) o.target k x := by
  obtain ⟨j, hj, id, hid, hk, -⟩ := h.declares hf hx
  exact ⟨id.name, List.mem_map_of_mem (List.mem_flatMap_of_mem hj hid), hk⟩

/-- Two files have declarations under one name inside of the blocks only if the root gave that name
away later. -/
theorem KnownAs.givenLater (hn : NamesOwned cx root) (hnested : Nested root (o :: os))
    (hd : cx.Declares g k) (hv : KnownAs root (o :: os) g k v) (hg : g ≠ o.target)
    (hd' : cx.Declares o.target x) (hx : KnownAs root (o :: os) o.target x v) :
    GivenLater root (o :: os) v := by
  have hlater {p : Opening} {f : Url} (hp : p ∈ o :: os) (hhas : p.Has v) (hf : f ≠ p.target)
      (ho : root.owner? v = some (.file f)) : GivenLater root (o :: os) v := by
    refine ⟨by simp [ho], p, hp, hhas, (hnested.late hp hhas ho).resolve_left (fun he => ?_)⟩
    exact hf (Owner.file.inj he)
  rcases hx with ⟨q, hq, ht, hx⟩ | hx
  · obtain rfl : q = o := by
      rcases List.mem_cons.1 hq with hq | hq
      · exact hq
      · exact absurd ht (hnested.1.new q hq)
    rcases hv with ⟨p, hp, rfl, hv⟩ | hv
    · rcases List.mem_cons.1 hp with rfl | hp
      · exact absurd rfl hg
      · exact absurd ⟨k, hv⟩ (hnested.1.apart v ⟨x, hx⟩ p hp)
    · exact hlater hq ⟨x, hx⟩ hg (hn.owned g k v hd hv)
  · have hown := hn.owned o.target x v hd' hx
    rcases hv with ⟨p, hp, rfl, hv⟩ | hv
    · exact hlater hp ⟨k, hv⟩ hg.symm hown
    · exact absurd (Owner.file.inj (Option.some.inj ((hn.owned g k v hd hv).symm.trans hown))) hg

/-- What the chunk makes up is not named like a declaration. -/
theorem KnownAs.not_made (hn : NamesOwned cx root) (hd : cx.Declares g k)
    (hv : KnownAs root os g k v) (hc : root.owner? v = some .chunk) (hos : ∀ o ∈ os, ¬o.Has v) :
    False := by
  rcases hv with ⟨p, hp, -, hv⟩ | hv
  · exact hos p hp ⟨k, hv⟩
  · cases (hn.owned g k v hd hv).symm.trans hc

/-- The name stands for a declaration outside of the block, so the body of the block binds it only
by an alias for an export, or if the root gave it away later. -/
structure ReachesOut (root : Environment) (os : List Opening) (b : Space) (g : Url) (k v : String) :
    Prop where
  known : KnownAs root (b.opening :: os) g k v
  bound : b.Binds v → b.Aliases v ∨ GivenLater root (b.opening :: os) v

theorem SpaceOf.reachesOut (h : SpaceOf cx fin os ps b) (hn : NamesOwned cx fin.root.env)
    (hd : cx.Declares g k) (hg : g ≠ b.file) (hv : KnownAs fin.root.env (b.opening :: os) g k v) :
    ReachesOut fin.root.env os b g k v := by
  refine ⟨hv, fun hb => ?_⟩
  rcases Space.binds_iff.1 hb with ⟨p, hp, hx⟩ | hb
  · have hin := h.pieces p hp
    cases ho : p.owner with
    | file f =>
      obtain ⟨k', hd', hk'⟩ := hin.named ho hx
      exact Or.inr (hv.givenLater hn h.nested hd hg hd' hk')
    | chunk =>
      obtain ⟨hc, hos⟩ := hin.made ho v hx
      exact (hv.not_made hn hd hc hos).elim
  · exact Or.inl hb

/-- What the final names in the block make of what leads to declarations of other files: they reach
those declarations, or it was warned that nothing is found for an import. -/
structure RefersOut (cx : Context) (root : Environment) (warnings : List Warning)
    (os : List Opening) (b : Space) (env : Environment) (τ : ImportTypes.Targets) : Prop where
  locals : ∀ e ∈ cx.specifiers b.file, ∀ g k, g ≠ b.file → cx.Means (.own b.file e.2.loc) g k →
    (∃ v, env.lookup b.file e.2.loc = some v ∧ ReachesOut root os b g k v) ∨
      ∃ f, .unknownImport f b.file e.2.loc ∈ warnings
  types : ∀ key head v f g k, τ key = some (.binding v) → key.head = some head →
    cx.inChunk? key.specifier b.file = some f → g ≠ b.file → cx.Means (.exported f head) g k →
    ReachesOut root os b g k v

/-- In the block the statements are those for one of the block's file, under final names and with
its import types replaced. -/
def RefersFrom (cx : Context) (root : Environment) (warnings : List Warning) (os : List Opening)
    (b : Space) (i : Item) (is : List Item) : Prop :=
  ∃ env env' τ, RefersOut cx root warnings os b env τ ∧
    is = linkItems τ (renameItems (Rename.ofEnvironment env b.file)
      (shown cx b.file true false env' i))

theorem SpaceOf.refersFrom (h : SpaceOf cx fin os ps b) (hn : NamesOwned cx fin.root.env)
    {i : Item} {is : List Item} (hi : StandsFor cx fin (b.opening :: os) b.file i is) :
    RefersFrom cx fin.root.env fin.warnings os b i is := by
  obtain ⟨env, env', τ, hnames, htried, rfl⟩ := hi
  refine ⟨env, env', τ, ⟨fun e he g k hg hm => ?_, fun key head v f g k hτ hhead hin hg hm => ?_⟩,
    rfl⟩
  · refine (htried e he).imp_left (fun hl => ?_)
    obtain ⟨v, hv⟩ := Option.isSome_iff_exists.1 hl
    exact ⟨v, hv, h.reachesOut hn hm.declares hg ((hnames.named _ v hv).fits g k hm)⟩
  · exact h.reachesOut hn hm.declares hg ((hnames.typed key head v f hτ hhead hin).fits g k hm)

/-- The statements of a block's file in the block, and where their names lead. -/
structure References (cx : Context) (root : Environment) (warnings : List Warning)
    (os : List Opening) (b : Space) : Prop where
  shown : ∀ i ∈ cx.statements b.file, ∃ is, RefersFrom cx root warnings os b i is ∧
    ∀ j ∈ is, .ofFile b.file j ∈ b.pieces
  pieces : ∀ p ∈ b.pieces, ∀ f, p.owner = .file f → f = b.file ∧
    ∃ i ∈ cx.statements b.file, ∃ is, RefersFrom cx root warnings os b i is ∧ p.item ∈ is

/-- `/i.d.ts`, the entry, exports all of `/a.d.ts` as a namespace, and that file imports the class
of `/b.d.ts` as `X`. -/
def lookingOut (statements : List Item) : Context := .ofFiles
  [("/b.d.ts", [.exportDecl (emptyClass "B")]),
    ("/a.d.ts", .importDecl (oneImport "B" "X" "/b.d.ts").1 :: statements),
    ("/i.d.ts", [.exportList ⟨[.all (.word "NS")], some (StrLit.made "/a.d.ts"), false, none⟩])]

/-- The statements of a namespace. -/
def spaceBody? : Item → Option (List Item)
  | .decl (.space _ _ _ body) => body
  | _ => none

/-- What the chunk makes up and what has statements in it is a block. -/
theorem Part.space_of_body {P : List Opening → List Piece → Space → Prop} {os : List Opening}
    {ps : List Piece} {p : Piece} {body : List Item} (h : Part P os ps p)
    (howner : p.owner = .chunk) (hbody : spaceBody? p.item = some body) :
    ∃ b, p = .made b.item ∧ b.body = body ∧ P os ps b := by
  cases h with
  | statement file i => cases howner
  | imported d => cases hbody
  | named x f => cases hbody
  | space b holds parts => exact ⟨b, rfl, Option.some.inj hbody, holds⟩

/-- What an exported type alias stands for. -/
def aliased? : Item → Option String
  | .exportDecl (.typeAlias _ _ _ (.ref name _)) => some name.head
  | _ => none

end AmbientBundle.Merge
