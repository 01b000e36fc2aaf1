import AmbientBundle.Proofs.Merge.BlockReferences
import AmbientBundle.Proofs.Merge.Statements
/-!
What stands in namespace blocks. A statement of a block is a declaration, exported or not, an alias,
a block in turn, or it is no declaration in its file either. Declarations have no `declare` modifier
there, with two exceptions that a block takes over as its file writes them: kinds of declarations
whose modifier merging does not know keep theirs, and an `import x = require` from outside of the
chunk stays where it is.
-/
namespace AmbientBundle

open Syntax

namespace Syntax

/-- Whether the declaration is written with `declare`. -/
def Decl.hasDeclare : Decl → Bool
  | .cls _ declare _ => declare
  | .func _ declare _ => declare
  | .var _ declare _ => declare
  | .resource _ _ => false
  | .interface body => body.declare
  | .typeAlias _ declare _ _ => declare
  | .enum _ declare _ _ => declare
  | .space declare _ _ _ => declare

/-- The declaration of a statement, for the kinds that are the same wherever they stand. -/
def Item.declaration? : Item → Option Decl
  | .decl d => some d
  | .exportDecl d => some d
  | .exportDefaultDecl (.interface body) => some (.interface body)
  | _ => none

theorem Decl.hasDeclare_rename (ρ : Rename.Renaming) (d : Decl) :
    (d.rename ρ).hasDeclare = d.hasDeclare := by
  cases d <;> rfl

theorem Decl.hasDeclare_link (τ : ImportTypes.Targets) (d : Decl) :
    (d.link τ).hasDeclare = d.hasDeclare := by
  cases d <;> rfl

end Syntax

namespace Declare

theorem modifier?_rename (ρ : Rename.Renaming) (d : Decl) : modifier? (d.rename ρ) = modifier? d := by
  cases d with
  | space declare name inner body => cases name <;> rfl
  | _ => rfl

theorem modifier?_link (τ : ImportTypes.Targets) (d : Decl) : modifier? (d.link τ) = modifier? d := by
  cases d with
  | space declare name inner body => cases name <;> rfl
  | _ => rfl

/-- The modifier of a declaration of a known kind is the one that it is written with. -/
theorem hasDeclare_of_modifier? {d : Decl} {declare : Bool} (h : modifier? d = some declare) :
    d.hasDeclare = declare := by
  cases d with
  | space declare' name inner body =>
    cases name with
    | ident id => exact Option.some.inj h
    | str lit => cases h
    | global => cases h
  | resource isAwait decls => cases h
  | interface body => cases h
  | typeAlias id declare' tparams ty => cases h
  | _ => exact Option.some.inj h

end Declare

namespace Merge

variable {cx : Context} {included : SeenSet Url} {T : Url} {i j : Item}

/-- The declaration has no `declare` modifier, or it is of a kind whose modifier is not known, and
the file writes it so. -/
def StaysDeclared (cx : Context) (T : Url) (d : Decl) : Prop :=
  d.hasDeclare = true → Declare.modifier? d = none ∧ ∃ i ∈ cx.statements T, ∃ d' ρ τ,
    i.declaration? = some d' ∧ d = (d'.rename ρ).link τ

/-- `BlockStatement cx T i`: in a namespace block for the file `T`, or for a file within, the
statement `i` may stand. -/
inductive BlockStatement (cx : Context) : Url → Item → Prop where
  | declaration {T : Url} {d : Decl} (isExport : Bool) (hd : StaysDeclared cx T d) :
      BlockStatement cx T (.ofDecl isExport d)
  | aliased {T : Url} {d : ImportEquals} {name : EntityName} (hd : d.target = .entity name) :
      BlockStatement cx T (.importEquals d)
  | block {T T' : Url} {name : String} {body : List Item} (isExport : Bool) (hT : cx.HasFile T')
      (hbody : ∀ i ∈ body, BlockStatement cx T' i) :
      BlockStatement cx T (.ofDecl isExport (.space false (.ident (.made name)) [] (some body)))
  /-- The file's own, which is no declaration there either. -/
  | other {T : Url} {i : Item} {ρ : Rename.Renaming} {τ : ImportTypes.Targets}
      (hi : i ∈ cx.statements T) (h : i = .empty ∨ ∃ e, i = .expr e) :
      BlockStatement cx T ((i.rename ρ).link τ)
  /-- The file's own `import x = require`, which leads out of the chunk. -/
  | required {T : Url} {d e : ImportEquals} {src : StrLit}
      (hi : .importEquals d ∈ cx.statements T) (hd : d.target = .require src)
      (hout : cx.inChunk? src.value T = none)
      (he : e.target = .require (.made (cx.placeSpecifier src.value T))) :
      BlockStatement cx T (.importEquals e)

theorem exportMember_ofDecl (isExport : Bool) (d : Decl) :
    exportMember (.ofDecl isExport d) = .ofDecl true d := by
  cases isExport <;> rfl

/-- A member may stand in a block with `export` too. -/
theorem BlockStatement.exportMember (h : BlockStatement cx T i) :
    BlockStatement cx T (exportMember i) := by
  cases h with
  | declaration isExport hd => exact exportMember_ofDecl isExport _ ▸ .declaration true hd
  | aliased hd => exact .aliased hd
  | block isExport hT hbody => exact exportMember_ofDecl isExport _ ▸ .block true hT hbody
  | other hi hother =>
    rcases hother with rfl | ⟨e, rfl⟩
    · exact .other hi (Or.inl rfl)
    · exact .other hi (Or.inr ⟨e, rfl⟩)
  | required hi hd hout he => exact .required hi hd hout he

/-- What holds of the members, exported or not, and of the aliases holds of the whole body. -/
theorem forall_mem_exportMembers {P : Item → Prop} {body : List Piece}
    {exports : List (String × String)} (hbody : ∀ p ∈ body, P p.item)
    (hexport : ∀ i, P i → P (exportMember i)) (halias : ∀ e ∈ exports, P (aliasOf e.1 e.2 true)) :
    ∀ i ∈ exportMembers (body.map Piece.item) exports, P i := by
  intro i hi
  rcases List.mem_append.1 hi with hi | hi
  · obtain ⟨k, hk, rfl⟩ := List.mem_map.1 hi
    obtain ⟨p, hp, rfl⟩ := List.mem_map.1 hk
    split
    · exact hexport _ (hbody p hp)
    · exact hbody p hp
  · obtain ⟨e, he, rfl⟩ := List.mem_map.1 hi
    exact halias e (List.mem_filter.1 he).1

section Shown

variable {d : Decl} {ρ : Rename.Renaming} {τ : ImportTypes.Targets}

@[simp] theorem ofDecl_rename (isExport : Bool) :
    (Item.ofDecl isExport d).rename ρ = .ofDecl isExport (d.rename ρ) := by
  cases isExport <;> rfl

@[simp] theorem ofDecl_link (isExport : Bool) :
    (Item.ofDecl isExport d).link τ = .ofDecl isExport (d.link τ) := by
  cases isExport <;> rfl

/-- Without its modifier a declaration may stand in a block. It is the file's own if the modifier is
not known. -/
theorem blockStatement_ofDecl (isExport : Bool) (hd : Declare.modifier? d = none →
    ∃ i ∈ cx.statements T, i.declaration? = some d) :
    BlockStatement cx T (((Item.ofDecl isExport (Declare.ensure false d)).rename ρ).link τ) := by
  rw [ofDecl_rename, ofDecl_link]
  refine .declaration isExport (fun hdeclare => ?_)
  rw [Decl.hasDeclare_link, Decl.hasDeclare_rename] at hdeclare
  rw [Declare.modifier?_link, Declare.modifier?_rename]
  rcases Declare.ensure_cases false d with ⟨hnone, hsame⟩ | hfalse
  · obtain ⟨i, hi, hdecl⟩ := hd hnone
    rw [hsame]
    exact ⟨hnone, i, hi, d, ρ, τ, hdecl, rfl⟩
  · rw [Declare.hasDeclare_of_modifier? hfalse] at hdeclare
    cases hdeclare

/-- An `import x = require` that is left as a statement leads out of the chunk. -/
theorem outer_of_required {d : ImportEquals} {src : StrLit}
    (h : .importEquals d ∈ cx.statements T) (hd : d.target = .require src) :
    cx.inChunk? src.value T = none := by
  obtain ⟨j, -, hj⟩ := List.mem_flatMap.1 h
  cases j with
  | importEquals e =>
    cases ht : e.target with
    | entity name =>
      obtain rfl : d = e := by simpa [splitImport, ht] using hj
      cases ht.symm.trans hd
    | require src' =>
      cases hin : cx.inChunk? src'.value T with
      | none =>
        obtain rfl : d = e := by simpa [splitImport, Context.required?, ht, hin] using hj
        cases ht.symm.trans hd
        exact hin
      | some file =>
        cases hexport : e.isExport <;>
          simp [splitImport, Context.required?, ht, hin, hexport, Exports.list] at hj
  | importDecl e => simp [splitImport] at hj
  | _ => simp [splitImport] at hj

/-- What is shown of a statement in a block may stand there. -/
theorem ShownAs.blockStatement (h : ShownAs cx T true false i j) (hi : i ∈ cx.statements T) :
    BlockStatement cx T ((j.rename ρ).link τ) := by
  cases h with
  | same hsrc h => exact .other hi (h rfl rfl)
  | @declared d isExport isExport' declare h =>
    obtain rfl := h rfl
    refine blockStatement_ofDecl isExport' (fun _ => ⟨_, hi, ?_⟩)
    cases isExport <;> rfl
  | @byDefault d declare h =>
    obtain rfl := h rfl
    refine blockStatement_ofDecl false (fun hnone => ⟨_, hi, ?_⟩)
    cases d with
    | cls name body => cases hnone
    | func name body => cases hnone
    | interface body => rfl
  | @equals d e hid ht =>
    have hplaced : (e.target.rename ρ) = (placeTarget cx T d.target).rename ρ := congrArg _ ht
    cases hd : d.target with
    | entity name =>
      rw [hd] at hplaced
      exact .aliased hplaced
    | require src =>
      rw [hd] at hplaced
      exact .required hi hd (outer_of_required hi hd) hplaced
  | listed hno => cases hno
  | listedDefault hno => cases hno

end Shown

theorem blockStatement_exportMembers {body : List Piece} {exports : List (String × String)}
    (hbody : ∀ p ∈ body, BlockStatement cx T p.item) :
    ∀ i ∈ exportMembers (body.map Piece.item) exports, BlockStatement cx T i :=
  forall_mem_exportMembers hbody (fun _ h => h.exportMember) (fun _ _ => .aliased rfl)

/-- A statement that merging puts into a block for a file may stand there. -/
theorem Derived.blockStatement {scope : Option Url} {p : Piece} (h : Derived cx included scope p)
    (hT : scope = some T) : BlockStatement cx T p.item := by
  induction h generalizing T with
  | shown hg hi hscope hj =>
    subst hT
    obtain ⟨rfl, rfl⟩ := hscope T rfl
    exact (shownAs_of_mem hj).blockStatement hi
  | aliased hname ht => exact .aliased rfl
  | block hT' hname hbody hexports ih =>
    subst hT
    exact .block false hT' (blockStatement_exportMembers (fun p hp => ih p hp rfl))
  | handed => cases hT
  | listed => cases hT
  | star => cases hT
  | narrowed => cases hT
  | imported => cases hT

/-- What merging makes up at the root of a chunk's file. -/
inductive RootStatement (cx : Context) : Item → Prop where
  | imports (d : ImportDecl) : RootStatement cx (.importDecl d)
  | aliased (name target : String) : RootStatement cx (aliasOf name target false)
  | block {T : Url} {name : String} {body : List Item} (hT : cx.HasFile T)
      (hbody : ∀ i ∈ body, BlockStatement cx T i) : RootStatement cx (spaceOf true name body)

theorem Derived.rootStatement {scope : Option Url} {p : Piece} (h : Derived cx included scope p)
    (hroot : scope = none) (ho : p.owner = .chunk) : RootStatement cx p.item := by
  cases h with
  | imported => exact .imports _
  | aliased => exact .aliased _ _
  | block hT hname hbody hexports =>
    subst hroot
    exact .block hT (blockStatement_exportMembers (fun p hp => (hbody p hp).blockStatement rfl))
  | _ => cases ho

/-- `declare interface I {}` and `export { I }` in `/a.d.ts`, which `/i.d.ts` exports as a
namespace. -/
def declaredInterface : Context := .ofFiles
  [("/a.d.ts", [.decl (.interface ⟨.made "I", true, [], [], []⟩),
      .exportList ⟨[.named (.word "I") none false], none, false, none⟩]),
    ("/i.d.ts", [.exportList ⟨[.all (.word "NS")], some (StrLit.made "/a.d.ts"), false, none⟩])]

end Merge

end AmbientBundle
