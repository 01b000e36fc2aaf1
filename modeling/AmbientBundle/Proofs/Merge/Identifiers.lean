import AmbientBundle.Proofs.Merge.BlockBodies
import AmbientBundle.Proofs.Merge.WrittenNames
/-!
The identifiers of a chunk. If those of its files are legal then so are its own, apart from names that
a file imports or exports as strings: merging makes identifiers of these, but for lists that lead
out of the chunk. What merging makes up binds no reserved word.
-/
namespace AmbientBundle.Merge

open Syntax ImportTypes Names

variable {cx : Context} {included : SeenSet Url} {x : String}

namespace Context

/-- A form of a name that comes from somewhere. -/
def Named (cx : Context) (x : String) : Prop := ∃ n, cx.Source n ∧ Form n x

theorem Formed.named (h : cx.Formed x) : cx.Named x := by
  obtain ⟨n, hn, hform⟩ := h
  exact ⟨n, hn.source, hform⟩

theorem Source.named (h : cx.Source x) : cx.Named x := ⟨x, h, .same⟩

/-- Of legal identifiers only legal ones are made, but not of strings. -/
theorem Named.legal (h : cx.Named x)
    (hlegal : ∀ g, cx.HasFile g → ∀ y ∈ cx.identifiers g, Legal y) :
    Legal x ∨ ∃ g, cx.HasFile g ∧ ∃ n ∈ cx.quoted g, Form n x := by
  obtain ⟨n, hn, hform⟩ := h
  cases hn with
  | own hg hown =>
    refine Or.inl (hform.legal ?_)
    rcases hown with hown | ⟨kind, rfl⟩
    · exact hlegal _ hg n hown
    · exact legal_defaultName _ kind
  | quoted hg hquoted => exact Or.inr ⟨_, hg, n, hquoted, hform⟩
  | default => exact Or.inl (hform.legal (by decide))
  | space g => exact Or.inl (hform.legal (legal_spaceName g))

/-- What is taken from outside by name has a name from somewhere. -/
theorem TakesOut.source {module name : String} {imported : ImportedName} {isType : Bool}
    (h : cx.TakesOut (module, imported) isType) (hname : imported = .named name) :
    cx.Source name := by
  generalize hk : (module, imported) = k at h
  cases h with
  | imported hg hd hsp =>
    obtain ⟨-, rfl⟩ := Prod.mk.inj hk
    exact (Writes.imported hg hd hsp hname).source
  | @named g n property src id hg hs =>
    obtain ⟨-, rfl⟩ := Prod.mk.inj hk
    unfold ImportedName.ofText at hname
    split at hname
    · cases hname
    · obtain rfl := ImportedName.named.inj hname
      exact (Writes.property hg hs).source
  | space =>
    obtain ⟨-, rfl⟩ := Prod.mk.inj hk
    cases hname
  | star hg hs hout hn =>
    obtain ⟨-, rfl⟩ := Prod.mk.inj hk
    obtain rfl := ImportedName.named.inj hname
    exact hn.source

end Context

section Identifiers

theorem identifiers_exportMember (i : Item) : (exportMember i).identifiers = i.identifiers := by
  cases i <;> simp [exportMember, Item.identifiers, Item.occurrences, Item.collect]

theorem mem_identifiers_aliasOf {name target : String} {isExport : Bool}
    (hx : x ∈ (aliasOf name target isExport).identifiers) : x = name ∨ x = target := by
  simpa [aliasOf, Item.identifiers, Item.occurrences, ImportTarget.occurrences,
    EntityName.occurrences, Ident.made, Item.collect] using hx

/-- A namespace block holds its name and what its statements hold. -/
theorem mem_identifiers_spaceOf {declare : Bool} {name : String} {body : List Item}
    (hx : x ∈ (spaceOf declare name body).identifiers) :
    x = name ∨ ∃ i ∈ body, x ∈ i.identifiers := by
  rcases Item.mem_identifiers.1 hx with ⟨o, ho, rfl⟩ | ⟨key, hkey, hhead⟩
  · simp only [spaceOf, Item.occurrences, Decl.occurrences, ModuleName.occurrences, List.map_nil,
      List.append_nil, bodyOccurrences] at ho
    rcases List.mem_cons.1 ho with rfl | ho
    · exact Or.inl rfl
    · obtain ⟨i, hi, hoi⟩ := exists_of_mem_itemsOccurrences ho
      obtain ⟨o', ho', hname⟩ := Item.exists_name_place .top _ hoi
      exact Or.inr ⟨i, hi, Item.mem_identifiers.2 (Or.inl ⟨o', ho', hname⟩)⟩
  · have hbody : key ∈ collectItems pickKey body := hkey
    obtain ⟨i, hi, hki⟩ := mem_collectItems.1 hbody
    exact Or.inr ⟨i, hi, Item.mem_identifiers.2 (Or.inr ⟨key, hki, hhead⟩)⟩

/-- The identifiers of a specifier that imports a symbol: the local, and the name of the symbol. -/
theorem SpecifierOf.name {imported : ImportedName} {sp : ImportSpecifier}
    (h : SpecifierOf imported sp) {o : Rename.Occurrence} (ho : o ∈ sp.occurrences .top) :
    o.name = sp.loc ∨ o.name = "default" ∨ imported = .named o.name := by
  have hnamed {name loc : String} (ho : o ∈ (namedSpecifier name loc).occurrences .top) :
      o.name = loc ∨ o.name = name := by
    unfold namedSpecifier at ho
    split at ho
    · exact Or.inl (congrArg Rename.Occurrence.name (List.mem_singleton.1 ho))
    · rcases List.mem_append.1 ho with ho | ho
      · exact Or.inr (congrArg Rename.Occurrence.name (List.mem_singleton.1 ho))
      · exact Or.inl (congrArg Rename.Occurrence.name (List.mem_singleton.1 ho))
  cases h with
  | named name loc =>
    rcases hnamed ho with h | h
    · exact Or.inl h
    · exact Or.inr (Or.inr (h ▸ rfl))
  | default loc => exact Or.inl (congrArg Rename.Occurrence.name (List.mem_singleton.1 ho))
  | secondDefault loc => exact (hnamed ho).imp_right Or.inl
  | all loc => exact Or.inl (congrArg Rename.Occurrence.name (List.mem_singleton.1 ho))

/-- Every identifier that merging puts into a chunk has a name from somewhere. -/
theorem Derived.named {scope : Option Url} {p : Piece} (h : Derived cx included scope p) :
    ∀ x ∈ p.item.identifiers, cx.Named x := by
  induction h with
  | @shown scope g i j keep env ρ τ hg hi hscope hj hρ hτ hbind =>
    intro x hx
    have hspelled := (Spelled.statements hi).shownAs (shownAs_of_mem hj)
    rcases Item.identifiers_link τ hx with hx | ⟨key, hkey⟩
    · rcases Item.identifiers_rename ρ hx with hx | ⟨y, hy, rfl⟩
      · exact (hspelled.source hg (Or.inl hx)).named
      · rcases hρ y with hsame | hfinal
        · exact hsame.symm ▸ (hspelled.source hg (Or.inl hy)).named
        · exact hfinal.formed.named
    · exact (hbind key x hkey).named
  | handed hg hd hsrc hout =>
    intro x hx
    obtain ⟨sp, hsp, hname⟩ := mem_identifiers_exportList.1 hx
    exact ((Spelled.statements hd).source_exportList hg hsp (Or.inl hname)).named
  | listed h =>
    intro x hx
    obtain ⟨sp, hsp, o, ho, rfl⟩ := mem_identifiers_exportList.1 hx
    obtain ⟨f, name, hf, hname, rfl⟩ := h sp hsp
    rcases occurrences_specifier ho with hx | hx
    · exact hx ▸ hf.named
    · exact hx ▸ hname.source.named
  | star => exact fun x hx => (by cases hx)
  | narrowed h hsub ih =>
    intro x hx
    obtain ⟨sp, hsp, hname⟩ := mem_identifiers_exportList.1 hx
    exact ih x (mem_identifiers_exportList.2 ⟨sp, hsub hsp, hname⟩)
  | @imported specifiers module typeOnly h =>
    intro x hx
    obtain ⟨o, ho, rfl⟩ := (Item.mem_identifiers.1 hx).resolve_right
      (fun ⟨_, hkey, _⟩ => (by cases hkey))
    obtain ⟨sp, hsp, ho⟩ := List.mem_flatMap.1 ho
    obtain ⟨hcoined, imported, isType, htakes, hof⟩ := h sp hsp
    rcases hof.name ho with hx | hx | hx
    · exact hx ▸ hcoined.formed.named
    · exact hx ▸ Context.Source.default.named
    · exact (htakes.source hx).named
  | aliased hname ht =>
    intro x hx
    rcases mem_identifiers_aliasOf hx with rfl | rfl
    · exact hname.formed.named
    · exact ht.named
  | block hT hname hbody hexports ih =>
    intro x hx
    rcases mem_identifiers_spaceOf hx with rfl | ⟨i, hi, hx⟩
    · exact hname.formed.named
    · refine forall_mem_exportMembers (P := fun i => ∀ x ∈ i.identifiers, cx.Named x)
        ih (fun i h x hx => h x (identifiers_exportMember i ▸ hx)) (fun e he x hx => ?_) i hi x hx
      rcases mem_identifiers_aliasOf hx with rfl | rfl
      · exact (hexports e he).1.source.named
      · exact (hexports e he).2.named

end Identifiers

section Words

/-- A statement of a chunk that binds no reserved word. A file's own may bind one that is an identifier
of the file, or one that something has which the file imports under a name that it declares. Only the
exports of a namespace block have names that need not be free. -/
inductive Unreserved (cx : Context) : Item → Prop where
  | own {g : Url} {i j : Item} {inBlock keep : Bool} {ρ : Rename.Renaming} {τ : Targets}
      (hi : i ∈ cx.statements g) (hj : ShownAs cx g inBlock keep i j)
      (h : ∀ x ∈ ((j.rename ρ).link τ).binds, isReserved x = true → x ∈ cx.identifiers g ∨
        ∃ id ∈ i.declared, ∃ e ∈ cx.specifiers g, e.2.loc = id.name) :
      Unreserved cx ((j.rename ρ).link τ)
  | exports {i : Item} (h : isExportStatement i = true) : Unreserved cx i
  | imports {d : ImportDecl} (h : ∀ sp ∈ d.specifiers, isReserved sp.loc = false) :
      Unreserved cx (.importDecl d)
  | aliased {name target : String} (h : isReserved name = false) :
      Unreserved cx (aliasOf name target false)
  | block {declare : Bool} {name : String} {body : List Piece} {exports : List (String × String)}
      (hname : isReserved name = false) (hbody : ∀ p ∈ body, Unreserved cx p.item) :
      Unreserved cx (spaceOf declare name (exportMembers (body.map Piece.item) exports))

/-- What is shown of a statement binds what the statement declares, under final names. -/
theorem binds_shown {g : Url} {i j : Item} {inBlock keep : Bool} {env : Environment}
    {ρ : Rename.Renaming} {τ : Targets} (hi : i ∈ cx.statements g)
    (hj : j ∈ shown cx g inBlock keep env i) (hx : x ∈ ((j.rename ρ).link τ).binds) :
    ∃ id ∈ i.declared, ρ id.name = x := by
  have hmem : (j.rename ρ).link τ ∈ linkItems τ (renameItems ρ (shown cx g inBlock keep env i)) := by
    rw [linkItems_eq_map, renameItems_eq_map]
    exact List.mem_map_of_mem (List.mem_map_of_mem hj)
  exact mem_binds_printed hi hmem hx

theorem Derived.unreserved {scope : Option Url} {p : Piece} (h : Derived cx included scope p) :
    Unreserved cx p.item := by
  induction h with
  | @shown scope g i j keep env ρ τ hg hi hscope hj hρ hτ hbind =>
    refine .own hi (shownAs_of_mem hj) (fun x hx hreserved => ?_)
    obtain ⟨id, hid, rfl⟩ := binds_shown hi hj hx
    have hown (hsame : ρ id.name = id.name) : ρ id.name ∈ cx.identifiers g := by
      rcases (Spelled.statements hi).declared id hid with hown | ⟨kind, hkind⟩
      · rwa [hsame]
      · rw [hsame, hkind, isReserved_defaultName] at hreserved
        cases hreserved
    rcases hρ id.name with hsame | hfinal
    · exact Or.inl (hown hsame)
    · exact (hfinal.reserved hreserved).imp hown (fun himport => ⟨id, hid, himport⟩)
  | handed => exact .exports rfl
  | listed => exact .exports rfl
  | star => exact .exports rfl
  | narrowed => exact .exports rfl
  | imported h => exact .imports (fun sp hsp => (h sp hsp).1.unreserved)
  | aliased hname => exact .aliased hname.unreserved
  | block hT hname hbody hexports ih => exact .block hname.unreserved ih

end Words

section Strings

/-- What a file exports from other files is not shown with its statements. -/
theorem src_of_shownAs {g : Url} {i j : Item} {inBlock keep : Bool} {ρ : Rename.Renaming}
    {τ : Targets} {d : ExportList} (hj : ShownAs cx g inBlock keep i j)
    (hd : (j.rename ρ).link τ = .exportList d) : d.src = none := by
  obtain ⟨e, rfl, rfl⟩ : ∃ e, j = .exportList e ∧ e.rename ρ = d := by
    cases j with
    | exportList e => exact ⟨e, rfl, Item.exportList.inj hd⟩
    | _ => simp [Item.rename, Item.link] at hd
  rw [ExportList.src_rename]
  generalize hk : Item.exportList e = k at hj
  cases hj with
  | same hnone =>
    subst hk
    exact hnone
  | @declared d isExport isExport' declare => cases isExport' <;> cases hk
  | byDefault => cases hk
  | equals => cases hk
  | listed => exact Item.exportList.inj hk ▸ rfl
  | listedDefault => exact Item.exportList.inj hk ▸ rfl

/-- A list that leads out of the chunk has the specifiers of one of a file. -/
theorem Derived.handsOn {p : Piece} {d : ExportList} (h : Derived cx included none p)
    (hp : p.item = .exportList d) (hsrc : d.src.isSome = true) : ∃ g, cx.HasFile g ∧
      ∃ d', .exportList d' ∈ cx.statements g ∧ d.specifiers ⊆ d'.specifiers := by
  generalize hscope : (none : Option Url) = scope at h
  induction h generalizing d with
  | @shown scope g i j keep env ρ τ hg hi _ hj =>
    rw [src_of_shownAs (shownAs_of_mem hj) hp] at hsrc
    cases hsrc
  | @handed g e src hg hd hsrc' hout =>
    obtain rfl := Item.exportList.inj hp
    exact ⟨g, hg, e, hd, List.Subset.refl _⟩
  | listed =>
    obtain rfl := Item.exportList.inj hp
    cases hsrc
  | star => cases hp
  | narrowed h hsub ih =>
    obtain rfl := Item.exportList.inj hp
    obtain ⟨g, hg, e, he, hspecifiers⟩ := ih rfl hsrc hscope
    exact ⟨g, hg, e, he, List.Subset.trans hsub hspecifiers⟩
  | imported => cases hp
  | aliased => cases hp
  | block => cases hp

end Strings

/-- Every chunk can be merged. If the identifiers of its files are legal, then so are those of its
statements, apart from forms of names that a file imports or exports as strings; no statement binds
a reserved word that merging made up; and a list that leads out of the chunk keeps the names of the
file's list, its strings as well. -/
theorem identifiers_legal (cx : Context) (included : SeenSet Url)
    (hlegal : ∀ g, cx.HasFile g → ∀ x ∈ cx.identifiers g, Legal x) : ∃ s,
    mergeChunk? cx included = some (finish cx.chunk s, s.included, s.warnings) ∧
      ∀ p ∈ (finish cx.chunk s).pieces,
        (∀ x ∈ p.item.identifiers,
          Legal x ∨ ∃ g, cx.HasFile g ∧ ∃ n ∈ cx.quoted g, Form n x) ∧
        Unreserved cx p.item ∧
        ∀ d, p.item = .exportList d → d.src.isSome = true → ∃ g, cx.HasFile g ∧
          ∃ d', .exportList d' ∈ cx.statements g ∧ d.specifiers ⊆ d'.specifiers := by
  obtain ⟨s, hmerge, hderived⟩ := mergeChunk_derived cx included
  refine ⟨s, hmerge, fun p hp => ?_⟩
  exact ⟨fun x hx => ((hderived p hp).named x hx).legal hlegal, (hderived p hp).unreserved,
    fun d hd hsrc => (hderived p hp).handsOn hd hsrc⟩

/-- `declare class X {}` and `export { X as 'a-b' }` in `/a.d.ts`, which `/i.d.ts` exports again under
that name. -/
def stringExport : Context := .ofFiles
  [("/a.d.ts", [.decl (emptyClass "X"),
      .exportList ⟨[.named (.word "X") (some (.str (.made "a-b"))) false], none, false, none⟩]),
    ("/i.d.ts", [.exportList
      ⟨[.named (.str (.made "a-b")) none false], some (.made "/a.d.ts"), false, none⟩])]

/-- The string is no identifier of the files. -/
theorem legal_stringExport (g : Url) : ∀ x ∈ stringExport.identifiers g, Legal x := by
  have hall : ∀ e ∈ stringExport.files.modules.entries,
      ∀ x ∈ e.2.body.flatMap Item.identifiers, Legal x := by decide +kernel
  unfold Context.identifiers
  cases hm : stringExport.files.get? g with
  | none => simp
  | some m => exact hall (g, m) (OrderedMap.mem_entries_of_get? hm)

theorem identifiers_legal_strings : ∃ s,
    mergeChunk? stringExport ∅ = some (finish stringExport.chunk s, s.included, s.warnings) ∧
      ∀ p ∈ (finish stringExport.chunk s).pieces,
        (∀ x ∈ p.item.identifiers,
          Legal x ∨ ∃ g, stringExport.HasFile g ∧ ∃ n ∈ stringExport.quoted g, Form n x) ∧
        Unreserved stringExport p.item ∧
        ∀ d, p.item = .exportList d → d.src.isSome = true → ∃ g, stringExport.HasFile g ∧
          ∃ d', .exportList d' ∈ stringExport.statements g ∧ d.specifiers ⊆ d'.specifiers :=
  identifiers_legal stringExport ∅ (fun g _ => legal_stringExport g)

set_option maxRecDepth 100000 in
/-- The chunk exports the class under an identifier that is none. -/
theorem string_becomes_identifier :
    ¬((∀ g, stringExport.HasFile g → ∀ x ∈ stringExport.identifiers g, Legal x) →
      ∀ m included' warnings, mergeChunk? stringExport ∅ = some (m, included', warnings) →
        ∀ p ∈ m.pieces, ∀ x ∈ p.item.identifiers, Legal x) := by
  intro hall
  have hcheck : (mergeChunk? stringExport ∅).any (fun r => r.1.pieces.any (fun p =>
      p.item.identifiers.any (fun x => !decide (Legal x)))) := by decide +kernel
  obtain ⟨⟨m, included', warnings⟩, hm, hr⟩ := (Option.any_eq_true _ _).1 hcheck
  simp only [List.any_eq_true, Bool.not_eq_true', decide_eq_false_iff_not] at hr
  obtain ⟨p, hp, x, hx, hillegal⟩ := hr
  exact hillegal (hall (fun g _ => legal_stringExport g) m included' warnings hm p hp x hx)

end AmbientBundle.Merge
