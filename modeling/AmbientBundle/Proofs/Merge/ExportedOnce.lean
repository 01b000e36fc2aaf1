import AmbientBundle.Proofs.Merge.DirectExports
/-!
No two files export one name from a merged chunk. An export list stays only for names that no
statement before it and no declaration exports; two declarations with one final name are those of
one file, since a final name has one owner. Default exports are not looked at: where two entry files
have one each, both stay.
-/
namespace AmbientBundle.Merge

open Names Syntax

section Lists

/-- The names that are exported by lists. -/
def listedNames (ps : List Piece) : List String :=
  (ps.flatMap (fun p => p.item.listExports)).map Prod.fst

theorem nodup_newSpecifiers {src : Option String} (names : List String)
    (ss : List ExportSpecifier) :
    (((newSpecifiers names ss).1.map (listExport src)).map Prod.fst).Nodup := by
  induction ss generalizing names with
  | nil => exact List.nodup_nil
  | cons sp ss ih =>
    rw [newSpecifiers]
    split
    · exact ih names
    · rw [List.map_cons, List.map_cons, List.nodup_cons]
      refine ⟨fun hmem => ?_, ih _⟩
      obtain ⟨e, he, hname⟩ := List.mem_map.1 hmem
      exact ((mem_newSpecifiers ss).1 he).1 (by rw [hname]; exact List.mem_cons_self)

/-- The lists that stay export no name twice. -/
theorem nodup_listedNames (seen : Exported) (ps : List Piece) :
    (listedNames (keepNewAll seen ps)).Nodup := by
  induction ps generalizing seen with
  | nil => exact List.nodup_nil
  | cons p ps ih =>
    obtain ⟨src, ss, -, hkept, hnames⟩ := listExports_keepNew seen p.item
    have hhead : ((keepNew seen p.item).1.toList.map (Piece.mk p.owner)).flatMap
        (fun p => p.item.listExports) = (newSpecifiers seen.names ss).1.map (listExport src) := by
      rw [List.flatMap_map, hkept]
    rw [keepNewAll, listedNames, List.flatMap_append, hhead, List.map_append, List.nodup_append]
    refine ⟨nodup_newSpecifiers _ ss, ih _, ?_⟩
    rintro x hx _ hy rfl
    obtain ⟨e, he, rfl⟩ := List.mem_map.1 hx
    obtain ⟨e', he', hname⟩ := List.mem_map.1 hy
    refine ((mem_listExports_keepNewAll _ ps).1 he').1 ?_
    rw [hname, hnames, @mem_newSpecifiers_names _ src]
    obtain ⟨sp, hsp, rfl⟩ := List.mem_map.1 he
    have hfirst := ((mem_newSpecifiers ss).1 he).2
    exact Or.inr (List.mem_map.2 ⟨_, (mem_of_firstExport? hfirst).1, rfl⟩)

/-- What a name is not exported by a list for: a declaration exports it. -/
theorem not_listed_of_direct {ps : List Piece} {name : String} {p q : Piece}
    (hp : p ∈ dropRepeatedExports ps) (hdirect : name ∈ p.item.directExports.map Prod.fst)
    (hq : q ∈ dropRepeatedExports ps) : name ∉ q.item.listExports.map Prod.fst := by
  intro hlisted
  obtain ⟨e, he, rfl⟩ := List.mem_map.1 hlisted
  have hmem : e ∈ (dropRepeatedExports ps).flatMap (fun p => p.item.listExports) :=
    List.mem_flatMap.2 ⟨q, hq, he⟩
  have hnew := ((mem_listExports_keepNewAll _ ps).1 hmem).1
  refine hnew ?_
  obtain ⟨e', he', hname⟩ := List.mem_map.1 hdirect
  have hmem' : e' ∈ ps.flatMap (fun p => p.item.directExports) := by
    rw [← directExports_keepNewAll ⟨ps.flatMap (fun p => directNames p.item), [], false⟩]
    exact List.mem_flatMap.2 ⟨p, hp, he'⟩
  obtain ⟨p', hp', he'⟩ := List.mem_flatMap.1 hmem'
  refine List.mem_flatMap.2 ⟨p', hp', ?_⟩
  rw [directNames_eq]
  exact List.mem_map.2 ⟨e', he', hname⟩

/-- A statement that exports with a declaration stays as it is. -/
theorem mem_of_directExports {seen : Exported} {ps : List Piece} {p : Piece} {e : String × Bound}
    (hp : p ∈ keepNewAll seen ps) (he : e ∈ p.item.directExports) : p ∈ ps := by
  obtain ⟨q, hq, howner, hitem | ⟨_, hexport⟩⟩ := mem_keepNewAll hp
  · obtain rfl : q = p := by
      cases p
      cases q
      exact congrArg₂ Piece.mk howner hitem.symm
    exact hq
  · rw [directExports_of_isExportStatement hexport] at he
    cases he

end Lists

section Once

variable {cx : Context} {included included' : SeenSet Url} {m : Merged} {warnings : List Warning}
  {env : Environment} {f g : Url} {e e' : String × Bound}

/-- No entry file imports a name that it declares where it exports it. -/
def Context.ExportsApart (cx : Context) : Prop :=
  ∀ f ∈ cx.entryFiles, ∀ i ∈ cx.statements f, ∀ id ∈ i.declared,
    (id.name, id.bound) ∈ i.directExports → ∀ sp ∈ cx.specifiers f, sp.2.loc ≠ id.name

/-- The default declarations and expressions of all entry files are those of one file, and of one
binding. -/
def Context.OneDefault (cx : Context) : Prop :=
  ∀ f ∈ cx.entryFiles, ∀ g ∈ cx.entryFiles, ∀ i ∈ cx.statements f, ∀ j ∈ cx.statements g,
    ∀ e ∈ i.directExports, ∀ e' ∈ j.directExports, e.1 = "default" → e'.1 = "default" →
      f = g ∧ e.2 = e'.2

instance (cx : Context) : Decidable cx.ExportsApart :=
  inferInstanceAs (Decidable (∀ f ∈ cx.entryFiles, ∀ i ∈ cx.statements f, ∀ id ∈ i.declared,
    (id.name, id.bound) ∈ i.directExports → ∀ sp ∈ cx.specifiers f, sp.2.loc ≠ id.name))

instance (cx : Context) : Decidable cx.OneDefault :=
  inferInstanceAs (Decidable (∀ f ∈ cx.entryFiles, ∀ g ∈ cx.entryFiles, ∀ i ∈ cx.statements f,
    ∀ j ∈ cx.statements g, ∀ e ∈ i.directExports, ∀ e' ∈ j.directExports, e.1 = "default" →
      e'.1 = "default" → f = g ∧ e.2 = e'.2))

/-- If two statements export one name, they are of one file, and both declare what they export, the
same binding. -/
def ExportsAgree (p q : Piece) : Prop :=
  ∀ e ∈ p.item.exports, ∀ e' ∈ q.item.exports, e.1 = e'.1 →
    p.owner = q.owner ∧ p.owner ≠ .chunk ∧ e ∈ p.item.directExports ∧ e' ∈ q.item.directExports ∧
      e.2 = e'.2

namespace DirectExport

/-- What is exported as `default` is an export of that name in the file. -/
theorem of_default (hapart : cx.ExportsApart) (hf : f ∈ cx.entryFiles)
    (h : DirectExport cx env f e) (hname : e.1 = "default") : ∃ i ∈ cx.statements f, ∃ b,
      ("default", b) ∈ i.directExports ∧ e.2 = b.rename (Rename.ofEnvironment env f) := by
  cases h with
  | @declared i id hi hid hexport own he =>
    obtain ⟨x, hx, -, hreserved⟩ := own (hapart f hf i hi id hid hexport)
    have hρ : Rename.ofEnvironment env f id.name = x := by simp [Rename.ofEnvironment, hx]
    rw [he, hρ] at hname
    obtain rfl : id.name = x := hreserved (by rw [show x = "default" from hname]; decide)
    refine ⟨i, hi, id.bound, hname ▸ hexport, ?_⟩
    rw [he, Ident.bound, Bound.rename_here]
  | @default i b hi hexport he => exact ⟨i, hi, b, hexport, by rw [he]⟩

theorem agree (hapart : cx.ExportsApart) (hdefault : cx.OneDefault) (hf : f ∈ cx.entryFiles)
    (hg : g ∈ cx.entryFiles) (h : DirectExport cx env f e) (h' : DirectExport cx env g e')
    (hname : e.1 = e'.1) : f = g ∧ e.2 = e'.2 := by
  by_cases hd : e.1 = "default"
  · obtain ⟨i, hi, b, hb, hbound⟩ := h.of_default hapart hf hd
    obtain ⟨j, hj, b', hb', hbound'⟩ := h'.of_default hapart hg (hname ▸ hd)
    obtain ⟨rfl, hsame⟩ := hdefault f hf g hg i hi j hj _ hb _ hb' rfl rfl
    obtain rfl : b = b' := hsame
    exact ⟨rfl, hbound.trans hbound'.symm⟩
  · -- a final name has one owner
    have howner : ∀ {f : Url} {e : String × Bound}, f ∈ cx.entryFiles → e.1 ≠ "default" →
        DirectExport cx env f e → env.owner? e.1 = some (.file f) ∧ e.2 = .here e.1 := by
      intro f e hf hne h
      cases h with
      | @declared i id hi hid hexport own he =>
        obtain ⟨x, hx, ho, -⟩ := own (hapart f hf i hi id hid hexport)
        have hρ : Rename.ofEnvironment env f id.name = x := by simp [Rename.ofEnvironment, hx]
        rw [he, hρ]
        exact ⟨ho, rfl⟩
      | default hi hexport he => exact absurd (by rw [he]) hne
    obtain ⟨ho, hb⟩ := howner hf hd h
    obtain ⟨ho', hb'⟩ := howner hg (hname ▸ hd) h'
    rw [hname, ho'] at ho
    cases ho
    exact ⟨rfl, by rw [hb, hb', hname]⟩

end DirectExport

/-- A merged chunk exports no name from two files, and where two statements export one name they
declare the same binding; no list exports a name twice. For that no entry file may import a name
that it declares where it exports it, and only one may have default declarations or expressions. -/
theorem exports_once (hapart : cx.ExportsApart) (hdefault : cx.OneDefault)
    (h : mergeChunk? cx included = some (m, included', warnings)) :
    m.pieces.Pairwise ExportsAgree ∧ ∀ p ∈ m.pieces, (p.item.listExports.map Prod.fst).Nodup := by
  obtain ⟨s, hs, rfl, -⟩ := reached_of_mergeChunk? h
  have howned := hs.exportsOwned
  have hhoisted : ∀ p ∈ (hoistedImports s.preserved s.sideEffects).map Piece.made,
      p.item.exports = [] := by
    intro p hp
    obtain ⟨i, hi, rfl⟩ := List.mem_map.1 hp
    obtain ⟨d, rfl⟩ := importDecl_of_mem_hoistedImports hi
    rfl
  have hlisted := nodup_listedNames ⟨s.root.items.flatMap (fun p => directNames p.item), [], false⟩
    s.root.items
  rw [listedNames, List.map_flatMap, List.nodup_flatMap] at hlisted
  obtain ⟨hnodup, hdisjoint⟩ := hlisted
  have hroot : (dropRepeatedExports s.root.items).Pairwise ExportsAgree := by
    refine hdisjoint.imp_of_mem (fun {p q} hp hq hpq => ?_)
    intro e he e' he' hname
    rcases List.mem_append.1 he with he | he <;> rcases List.mem_append.1 he' with he' | he'
    · obtain ⟨f, hf, hfp, -, hexport⟩ := howned p (mem_of_directExports hp he) e he
      obtain ⟨g, hg, hgq, -, hexport'⟩ := howned q (mem_of_directExports hq he') e' he'
      obtain ⟨rfl, hbound⟩ := hexport.agree hapart hdefault hf hg hexport' hname
      exact ⟨hfp.trans hgq.symm, by simp [hfp], he, he', hbound⟩
    · exact absurd (hname ▸ List.mem_map_of_mem he')
        (not_listed_of_direct hp (List.mem_map_of_mem he) hq)
    · exact absurd (hname ▸ List.mem_map_of_mem he)
        (not_listed_of_direct hq (List.mem_map_of_mem he') hp)
    · exact absurd (List.mem_map_of_mem (f := Prod.fst) he') (hname ▸ hpq (List.mem_map_of_mem he))
  refine ⟨List.pairwise_append.2 ⟨?_, hroot, ?_⟩, fun p hp => ?_⟩
  · refine List.pairwise_of_forall_mem_list (fun p hp q _ e he => ?_)
    rw [hhoisted p hp] at he
    cases he
  · intro p hp q _ e he
    rw [hhoisted p hp] at he
    cases he
  · rcases List.mem_append.1 hp with hp | hp
    · rw [(List.append_eq_nil_iff.1 (hhoisted p hp)).2]
      exact List.nodup_nil
    · exact hnodup p hp

/-- Files that make up a chunk without an entry module: each of them is an entry file, the last one
first. -/
def sharedFiles (files : List (String × List Item)) : Context :=
  let cx := Context.ofFiles files
  { cx with chunk := { cx.chunk with isEntry := false } }

def emptyInterface (name : String) : Decl := .interface ⟨.made name, false, [], [], []⟩

def defaultClass (name : String) : Item :=
  .exportDefaultDecl (.cls (.named (.made name)) ⟨false, [], none, [], []⟩)

/-- Two files that export `N`, one of them by two declarations; the other has a default class. -/
def mergedInterfaces : Context := sharedFiles
  [("/a.d.ts", [.exportDecl (emptyClass "N"), defaultClass "D"]),
    ("/b.d.ts", [.exportDecl (emptyInterface "N"), .exportDecl (emptyInterface "N")])]

set_option maxRecDepth 100000 in
/-- Both declarations of `N` in `/b.d.ts` are exported; the one in `/a.d.ts` is not. -/
theorem exports_once_interfaces :
    mergedInterfaces.ExportsApart ∧ mergedInterfaces.OneDefault ∧ ∃ m included' warnings,
      mergeChunk? mergedInterfaces ∅ = some (m, included', warnings) ∧
      m.pieces.map (fun p => p.item.exports) =
        [[("N", .here "N")], [("N", .here "N")], [], [("default", .here "D")]] ∧
      m.pieces.Pairwise ExportsAgree ∧
      ∀ p ∈ m.pieces, (p.item.listExports.map Prod.fst).Nodup := by
  have hapart : mergedInterfaces.ExportsApart := by decide +kernel
  have hdefault : mergedInterfaces.OneDefault := by decide +kernel
  have hcheck : (mergeChunk? mergedInterfaces ∅).any (fun r => r.1.pieces.map
      (fun p => p.item.exports) ==
        [[("N", .here "N")], [("N", .here "N")], [], [("default", .here "D")]]) := by
    decide +kernel
  obtain ⟨⟨m, included', warnings⟩, hm, hr⟩ := (Option.any_eq_true _ _).1 hcheck
  exact ⟨hapart, hdefault, m, included', warnings, hm, by simpa using hr,
    exports_once hapart hdefault hm⟩

/-- Two files with a default class each. -/
def twoDefaults : Context := sharedFiles
  [("/a.d.ts", [defaultClass "A"]), ("/b.d.ts", [defaultClass "B"])]

set_option maxRecDepth 100000 in
/-- Both default classes stay, though no file imports anything. -/
theorem default_exported_twice : twoDefaults.ExportsApart ∧
    ¬∀ m included' warnings, mergeChunk? twoDefaults ∅ = some (m, included', warnings) →
      m.pieces.Pairwise ExportsAgree := by
  refine ⟨by decide +kernel, fun honce => ?_⟩
  have hcheck : (mergeChunk? twoDefaults ∅).any (fun r => r.1.pieces.map
      (fun p => (p.owner, p.item.exports)) ==
        [(.file (.ofPath "/b.d.ts"), [("default", .here "B")]),
          (.file (.ofPath "/a.d.ts"), [("default", .here "A")])]) := by
    decide +kernel
  obtain ⟨⟨m, included', warnings⟩, hm, hr⟩ := (Option.any_eq_true _ _).1 hcheck
  have hpieces : m.pieces.map (fun p => (p.owner, p.item.exports)) =
      [(.file (.ofPath "/b.d.ts"), [("default", .here "B")]),
        (.file (.ofPath "/a.d.ts"), [("default", .here "A")])] := by simpa using hr
  have howners : (m.pieces.map (fun p => (p.owner, p.item.exports))).Pairwise
      (fun p q => ∀ e ∈ p.2, ∀ e' ∈ q.2, e.1 = e'.1 → p.1 = q.1) :=
    List.pairwise_map.2 ((honce m included' warnings hm).imp
      (fun h e he e' he' hname => (h e he e' he' hname).1))
  rw [hpieces] at howners
  exact absurd howners (by decide)

end Once

end AmbientBundle.Merge
