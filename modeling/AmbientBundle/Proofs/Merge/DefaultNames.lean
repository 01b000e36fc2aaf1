import AmbientBundle.Proofs.Merge.BlockStability
import AmbientBundle.Proofs.Merge.ExportSurface
import AmbientBundle.Proofs.Merge.RootNames
/-!
What becomes of a default export without a name. It is named after its file, and from then on it is
a declaration like any other: it gets a final name of its own unless the file declares its name, or
imports something under it, or declares the numbered form that was made up for it.
-/
namespace AmbientBundle.Exports

open Names

/-- The name that is made for a default export is no form of another name. -/
theorem eq_of_numbered_eq_defaultName {file : Url} {kind : DefaultKind} {k : String} {i : Nat}
    (h : numbered (unreserved k) i = defaultName file kind) : k = defaultName file kind := by
  have hend : kind.ending.toList <:+ (numbered (unreserved k) i).toList := by
    rw [h, defaultName, String.toList_append]
    exact List.suffix_append _ _
  cases i with
  | zero =>
    have hwords : ∀ w ∈ reservedWords, ¬kind.ending.toList <:+ ("_" ++ w).toList := by
      cases kind <;> decide
    have hk : unreserved k = numbered (unreserved k) 0 := rfl
    rw [← hk] at h hend
    unfold unreserved at h hend
    split at hend
    · rename_i hr
      exact absurd hend (hwords k (by simpa [isReserved] using hr))
    · rename_i hr
      rwa [if_neg hr] at h
  | succ i =>
    -- a numbered form ends with a digit
    have hdigits : (toString (i + 1)).toList = Nat.toDigits 10 (i + 1) := Nat.toList_repr
    obtain ⟨d, hd⟩ : ∃ d, (Nat.toDigits 10 (i + 1)).getLast? = some d :=
      Option.isSome_iff_exists.1 (by simp [Nat.toDigits_ne_nil])
    have hdigit := Nat.isDigit_of_mem_toDigits (by omega) (by omega) (List.mem_of_getLast? hd)
    obtain ⟨front, hfront⟩ := hend
    have hlast := congrArg List.getLast? hfront
    rw [numbered, String.toList_append, hdigits, List.getLast?_append, List.getLast?_append, hd]
      at hlast
    cases kind with
    | cls =>
      obtain rfl : 's' = d := by simpa [DefaultKind.ending] using hlast
      cases hdigit
    | func =>
      obtain rfl : 'n' = d := by simpa [DefaultKind.ending] using hlast
      cases hdigit

end AmbientBundle.Exports

namespace AmbientBundle.Merge

open Names Syntax

/-- The file exports one class or function without a name as its default, and knows it under the
identifier. -/
def Context.NamelessDefault (cx : Context) (f : Url) (id : Ident) : Prop :=
  ∃ d, (cx.written f).filter Exports.isAnonymousDefault = [.exportDefaultDecl d] ∧
    id = Exports.defaultIdent f d

section Nameless

variable {cx : Context} {f : Url} {id : Ident} {k : String} {named : String → Option String}

/-- The default export is one of the file's declarations. -/
theorem Context.NamelessDefault.declared (h : cx.NamelessDefault f id) :
    id ∈ (cx.statements f).flatMap Item.declared := by
  obtain ⟨d, hd, rfl⟩ := h
  obtain ⟨hmem, hnameless⟩ := List.mem_filter.1 (hd ▸ List.mem_singleton_self _)
  cases hm : cx.files.get? f with
  | none => simp [Context.written, hm] at hmem
  | some m =>
    have hprepared : .exportDefaultDecl d ∈ (cx.prepare m).body :=
      Context.mem_prepare ((Context.mem_written hm).1 hmem) (fun p => by cases p <;> rfl)
    refine List.mem_flatMap.2 ⟨.decl (Exports.plainDefault f d), ?_, ?_⟩
    · refine List.mem_flatMap.2 ⟨.decl (Exports.plainDefault f d), ?_, List.mem_singleton_self _⟩
      simp only [Context.body, hm]
      refine List.mem_flatMap.2 ⟨_, hprepared, ?_⟩
      rw [if_pos hnameless, Exports.nodes_promote_default]
      exact List.mem_cons_self
    · rw [Item.declared, Exports.bound_plainDefault]
      exact List.mem_singleton_self _

theorem Context.NamelessDefault.declares (h : cx.NamelessDefault f id) : cx.Declares f id.name :=
  List.mem_map_of_mem h.declared

theorem Context.NamelessDefault.exists_defaultName (h : cx.NamelessDefault f id) :
    ∃ kind, id.name = Exports.defaultName f kind := by
  obtain ⟨d, hd, rfl⟩ := h
  obtain ⟨-, hnameless⟩ := List.mem_filter.1 (hd ▸ List.mem_singleton_self _)
  cases d with
  | cls name body =>
    cases name with
    | named id => cases hnameless
    | anonymous start => exact ⟨.cls, rfl⟩
  | func name body =>
    cases name with
    | named id => cases hnameless
    | anonymous start => exact ⟨.func, rfl⟩
  | interface body => cases hnameless

/-- Where names are told apart, another declaration has the final name of the default export if and
only if that is the form that was made up for the default's name. -/
theorem Context.NamelessDefault.told (h : cx.NamelessDefault f id) (ht : ToldApart named)
    {v w : String} (hk : k ≠ id.name) (hv : named id.name = some v) (hw : named k = some w) :
    w = v ↔ Renumbered named id.name k := by
  obtain ⟨kind, hname⟩ := h.exists_defaultName
  rw [ht k id.name w v hk hw hv, or_iff_right]
  rintro ⟨-, hne, i, hi⟩
  rw [hname] at hi hne
  exact hne (Exports.eq_of_numbered_eq_defaultName hi.symm).symm

theorem Renumbered.congr {named' : String → Option String} {n : String}
    (hl : named' k = named k) : Renumbered named' k n ↔ Renumbered named k n :=
  ⟨fun h => ⟨hl ▸ h.final, h.ne, h.form⟩, fun h => ⟨hl ▸ h.final, h.ne, h.form⟩⟩

end Nameless

section Root

variable {cx : Context} {included included' : SeenSet Url} {m : Merged} {warnings : List Warning}
  {f g : Url} {id : Ident} {e : ImportDecl × ImportSpecifier}

/-- The specifier imports the default of the file directly, and nothing else has its local. -/
structure ImportsDefault (cx : Context) (g f : Url) (e : ImportDecl × ImportSpecifier) : Prop where
  mem : e ∈ cx.specifiers g
  target : cx.inChunk? e.1.src.value g = some f
  name : (ofSpecifier e.2).2.1.text? = some "default"
  sole : ∀ e' ∈ cx.specifiers g, e'.2.loc = e.2.loc → e' = e
  undeclared : ¬cx.Declares g e.2.loc

/-- A direct import of the file's default means the declaration that the file exports as its default,
and it is live. -/
theorem ImportsDefault.means (h : ImportsDefault cx g f e) (hd : cx.Declares f id.name)
    (himports : ¬cx.Imports f id.name) (hnew : included.contains f = false)
    (hx : cx.explicit? f "default" = some (Exports.ofIdent f "default" id)) :
    LiveSpecifier cx included g e ∧ cx.Means (.own g e.2.loc) f id.name := by
  have himported := Context.imported_of_inChunk? h.target h.name
  have hexported : cx.follow (.exported f "default") = [.go (.own f id.name)] := by
    simp [Context.follow, hx, Exports.ofIdent]
  have hclosed : cx.ClosedFor [.own g e.2.loc, .exported f "default", .own f id.name] f id.name := by
    intro a ha b hb
    simp only [List.mem_cons, List.not_mem_nil, or_false] at ha
    rcases ha with rfl | rfl | rfl
    · rw [Context.follow, if_neg h.undeclared, List.nil_append] at hb
      obtain ⟨e', he', rfl⟩ := List.mem_map.1 hb
      obtain ⟨he', hloc⟩ := List.mem_filter.1 he'
      obtain rfl := h.sole e' he' (by simpa using hloc)
      exact Or.inr ⟨_, by simp, himported⟩
    · rw [hexported, List.mem_singleton] at hb
      exact Or.inr ⟨_, by simp, hb⟩
    · rcases List.mem_append.1 hb with hb | hb
      · rw [if_pos hd, List.mem_singleton] at hb
        exact Or.inl hb
      · obtain ⟨e', he', rfl⟩ := List.mem_map.1 hb
        obtain ⟨he', hloc⟩ := List.mem_filter.1 he'
        exact absurd ⟨e', he', by simpa using hloc⟩ himports
  have hlocal := Context.follow_imported h.mem
  rw [himported] at hlocal
  have hdecl : cx.Leads (.own f id.name) (.decl f id.name) := .here (by simp [Context.follow, hd])
  have hlisted : .go (.own f id.name) ∈ cx.follow (.exported f "default") := by simp [hexported]
  refine ⟨fun target name hin hname => ?_,
    hclosed.means (by simp) (.next hlocal (.next hlisted hdecl))⟩
  obtain rfl := Option.some.inj (h.target.symm.trans hin)
  obtain rfl := Option.some.inj (h.name.symm.trans hname)
  exact ⟨_, .declared hx hnew hd⟩

/-- What a nameless default export of a file is at the root of a merged chunk. It has the final name
`v`, which another declaration has if and only if it is the form that was made up for the default's
name; a local of the file that has it comes from a declaration of the file, or of one that imports
what it declares; and imports of the default have it. -/
structure DefaultAtRoot (cx : Context) (included included' : SeenSet Url) (m : Merged) (f : Url)
    (id : Ident) (v : String) : Prop where
  final : m.names.lookup f id.name = some v
  bound : (.file f, v) ∈ m.rootBindings
  shown : ShowsFile cx m f
  declarations : ∀ k, cx.Declares f k → k ≠ id.name → ¬cx.Imports f k →
    ∃ w, m.names.lookup f k = some w ∧ (w = v ↔ Renumbered (m.names.lookup f) id.name k)
  locals : ∀ x, cx.Imports f x → m.names.lookup f x = some v →
    ∃ g k, cx.From (.own f x) (.decl g k) ∧ (g = f ∨ cx.Imports g k)
  imports : ∀ g, included'.contains g = true → included.contains g = false →
    ∀ e ∈ cx.specifiers g, LiveSpecifier cx included g e → cx.Means (.own g e.2.loc) f id.name →
      m.names.lookup g e.2.loc = some v ∧ ShowsFile cx m g
  direct : cx.explicit? f "default" = some (Exports.ofIdent f "default" id) →
    ∀ g e, included'.contains g = true → included.contains g = false → ImportsDefault cx g f e →
      m.names.lookup g e.2.loc = some v ∧ ShowsFile cx m g

theorem defaultAtRoot_of_mergeChunk? (h : mergeChunk? cx included = some (m, included', warnings))
    (hid : cx.NamelessDefault f id) (himports : ¬cx.Imports f id.name)
    (hf : included'.contains f = true) (hnew : included.contains f = false) :
    ∃ v, DefaultAtRoot cx included included' m f id v := by
  obtain ⟨hnamed, hlocals⟩ := names_at_root h
  obtain ⟨named, hn⟩ := hnamed f hf hnew
  obtain ⟨v, hv⟩ := Option.isSome_iff_exists.1 (hn.bound _ hid.declares)
  have hfinal : m.names.lookup f id.name = some v := (hn.stays _ himports).trans hv
  have hlive : ∀ g, included'.contains g = true → included.contains g = false →
      ∀ e ∈ cx.specifiers g, LiveSpecifier cx included g e → cx.Means (.own g e.2.loc) f id.name →
        m.names.lookup g e.2.loc = some v ∧ ShowsFile cx m g := by
    intro g hg hgnew e he hlive hmeans
    obtain ⟨s, run, rfl, rfl, -⟩ := mergeChunk_run h
    have hlinked := (run.linked (fun j _ => answers cx included j) (.start included)
      (.start included) (List.Subset.refl _) (Linked.start included)).1
    obtain ⟨w, hw⟩ := Option.isSome_iff_exists.1 (hlinked.done g hg hgnew (by simp) e he hlive)
    have hfits : s.root.env.lookup f id.name = some w :=
      (hlinked.sound g e.2.loc w hw).fits f id.name hmeans
    obtain rfl : v = w := Option.some.inj (hfinal.symm.trans hfits)
    exact ⟨hw, showsFile_of_mergeChunk? h hg hgnew⟩
  have hbound : (.file f, v) ∈ m.rootBindings := by
    obtain ⟨i, hi, hdeclared⟩ := List.mem_flatMap.1 hid.declared
    have hroot := declared_mem_rootBindings h hf hnew hi hdeclared
    rwa [Rename.ofEnvironment, hfinal, Option.getD_some] at hroot
  refine ⟨v, hfinal, hbound, showsFile_of_mergeChunk? h hf hnew, fun k hk hne hfree => ?_,
    fun x _ hx => hlocals f x v hx (hn.owned _ v hv), hlive, fun hx g e hg hgnew he => ?_⟩
  · obtain ⟨w, hw⟩ := Option.isSome_iff_exists.1 (hn.bound k hk)
    refine ⟨w, (hn.stays k hfree).trans hw, ?_⟩
    rw [Renumbered.congr (hn.stays _ himports)]
    exact hid.told hn.told hne hv hw
  · obtain ⟨hl, hmeans⟩ := he.means hid.declares himports hnew hx
    exact hlive g hg hgnew e he.mem hl hmeans

end Root

section Blocks

variable {cx : Context} {included included' : SeenSet Url} {m : Merged} {warnings : List Warning}
  {fin : State} {os : List Opening} {ps : List Piece} {b : Space} {f : Url} {id : Ident}

/-- The statements of the block's file stand in the block under final names with the property. -/
structure StandsUnder (cx : Context) (b : Space) (P : Environment → Prop) : Prop where
  all : ∀ i ∈ cx.statements b.file, ∃ env env' τ, P env ∧
    ∀ j ∈ linkItems τ (renameItems (Rename.ofEnvironment env b.file)
      (shown cx b.file true false env' i)), .ofFile b.file j ∈ b.pieces
  only : ∀ p ∈ b.pieces, ∀ g, p.owner = .file g → g = b.file ∧
    ∃ i ∈ cx.statements b.file, ∃ env env' τ, P env ∧
      p.item ∈ linkItems τ (renameItems (Rename.ofEnvironment env b.file)
        (shown cx b.file true false env' i))

theorem SpaceOf.standsUnder (h : SpaceOf cx fin os ps b) {P : Environment → Prop}
    (hP : ∀ env τ, FitNames cx fin.root.env (b.opening :: os) b.file env τ →
      (∀ e ∈ cx.specifiers b.file, Tried fin.warnings env b.file e.2.loc) → P env) :
    StandsUnder cx b P := by
  refine ⟨fun i hi => ?_, fun p hp g hg => ?_⟩
  · obtain ⟨is, ⟨env, env', τ, hfit, htried, rfl⟩, hmem⟩ := h.shown i hi
    exact ⟨env, env', τ, hP env τ hfit htried, hmem⟩
  · obtain ⟨rfl, i, hi, is, ⟨env, env', τ, hfit, htried, rfl⟩, hmem⟩ :=
      (h.pieces p hp).ofFile b.opening rfl g hg
    exact ⟨rfl, i, hi, env, env', τ, hP env τ hfit htried, hmem⟩

theorem StandsUnder.imp {P Q : Environment → Prop} (h : StandsUnder cx b P)
    (hPQ : ∀ env, P env → Q env) : StandsUnder cx b Q := by
  refine ⟨fun i hi => ?_, fun p hp g hg => ?_⟩
  · obtain ⟨env, env', τ, henv, hmem⟩ := h.all i hi
    exact ⟨env, env', τ, hPQ env henv, hmem⟩
  · obtain ⟨rfl, i, hi, env, env', τ, henv, hmem⟩ := h.only p hp g hg
    exact ⟨rfl, i, hi, env, env', τ, hPQ env henv, hmem⟩

/-- What a nameless default export of the block's file is in the block, where `env` has the final
names. A local that means a declaration of another file has its name only if the root gave that away
later. If the file is not at the root, too, then another declaration has its name if and only if that
is the form that was made up for the default's name. -/
structure DefaultInBlock (cx : Context) (included included' : SeenSet Url) (root : Environment)
    (os : List Opening) (b : Space) (id : Ident) (env : Environment) (v : String) : Prop where
  final : env.lookup b.file id.name = some v
  locals : ∀ x g k, cx.Imports b.file x → cx.Means (.own b.file x) g k → g ≠ b.file →
    env.lookup b.file x = some v → GivenLater root (b.opening :: os) v
  declarations : included.contains b.file = true ∨ included'.contains b.file = false →
    v ∈ b.members ∧ ∀ k, cx.Declares b.file k → k ≠ id.name →
      ∃ w, env.lookup b.file k = some w ∧ (w = v ↔ Renumbered b.opening.named id.name k)

theorem SpaceOf.defaultInBlock (h : SpaceOf cx fin os ps b) (hn : NamesOwned cx fin.root.env)
    (hid : cx.NamelessDefault b.file id) {env : Environment} {τ : ImportTypes.Targets}
    (hfit : FitNames cx fin.root.env (b.opening :: os) b.file env τ)
    (hout : included.contains b.file = true ∨ included'.contains b.file = false →
      ∀ k, cx.Declares b.file k → fin.root.env.lookup b.file k = none) :
    ∃ v, DefaultInBlock cx included included' fin.root.env os b id env v := by
  obtain ⟨v, hv, hknown⟩ := hfit.declared id.name hid.declares
  refine ⟨v, hv, fun x g k _ hmeans hg hx => ?_, fun hroot => ⟨?_, fun k hk hne => ?_⟩⟩
  · exact ((hfit.named x v hx).fits g k hmeans).givenLater hn h.nested hmeans.declares hg
      hid.declares hknown
  · obtain ⟨p, hp, -, -, hmember⟩ := h.member_of_knownAs hid.declares hknown
      (hout hroot _ hid.declares)
    exact List.mem_flatMap.2 ⟨p.item, List.mem_map_of_mem hp, hmember⟩
  · obtain ⟨w, hw, hknown'⟩ := hfit.declared k hk
    exact ⟨w, hw, hid.told h.nested.1.told hne
      (h.named_of_knownAs hknown (hout hroot _ hid.declares))
      (h.named_of_knownAs hknown' (hout hroot k hk))⟩

/-- In the block, where `env` has the final names, imports of the declaration of `k` in `f` are linked
to a name that it has around the block, which the block itself binds only by an alias for an export
or if the root gave it away later; or it was warned that nothing is found for them. -/
def ImportsReach (cx : Context) (root : Environment) (warnings : List Warning) (os : List Opening)
    (b : Space) (f : Url) (k : String) (env : Environment) : Prop :=
  ∀ e ∈ cx.specifiers b.file, cx.Means (.own b.file e.2.loc) f k →
    (∃ v, env.lookup b.file e.2.loc = some v ∧ KnownAs root (b.opening :: os) f k v ∧
      (f ≠ b.file → b.Binds v → b.Aliases v ∨ GivenLater root (b.opening :: os) v)) ∨
    ∃ g, .unknownImport g b.file e.2.loc ∈ warnings

theorem SpaceOf.importsReach (h : SpaceOf cx fin os ps b) (hn : NamesOwned cx fin.root.env)
    {k : String} {env : Environment} {τ : ImportTypes.Targets}
    (hfit : FitNames cx fin.root.env (b.opening :: os) b.file env τ)
    (htried : ∀ e ∈ cx.specifiers b.file, Tried fin.warnings env b.file e.2.loc) :
    ImportsReach cx fin.root.env fin.warnings os b f k env := by
  intro e he hmeans
  refine (htried e he).imp_left (fun hl => ?_)
  obtain ⟨v, hv⟩ := Option.isSome_iff_exists.1 hl
  have hknown := (hfit.named _ v hv).fits f k hmeans
  exact ⟨v, hv, hknown, fun hf => (h.reachesOut hn hmeans.declares hf hknown).bound⟩

/-- A nameless default export keeps a name of its own in a merged chunk, at the root and in blocks,
unless its file imports something under the name that is made for it, declares that name once more,
or declares the numbered form of it that it gets. Imports of it refer to it. -/
theorem nameless_default_apart (h : mergeChunk? cx included = some (m, included', warnings))
    (hid : cx.NamelessDefault f id) (himports : ¬cx.Imports f id.name) :
    (included'.contains f = true → included.contains f = false →
      ∃ v, DefaultAtRoot cx included included' m f id v) ∧
    (cx.ImportsApart → ∀ p ∈ m.pieces, Part (fun os _ b => StandsUnder cx b (fun env =>
      (b.file = f → ∃ v, DefaultInBlock cx included included' m.names os b id env v) ∧
        ImportsReach cx m.names warnings os b f id.name env)) [] m.pieces p) := by
  refine ⟨fun hf hnew => defaultAtRoot_of_mergeChunk? h hid himports hf hnew, fun hd => ?_⟩
  obtain ⟨s, hentries, rfl, rfl, hn, hparts⟩ := parts_of_mergeChunk? hd h
  obtain ⟨u, hu, hentries', hrooted, hmoves⟩ := mergeChunk_moves cx included
  obtain rfl : u = s := congrArg Prod.snd (Option.some.inj (hentries'.symm.trans hentries))
  obtain rfl : included' = u.included :=
    congrArg (fun r => r.2.1) (Option.some.inj (h.symm.trans hu))
  refine fun p hp => (hparts p hp).imp (fun os ps b hb _ => ?_)
  refine hb.standsUnder (fun env τ hfit htried => ⟨?_, hb.importsReach hn hfit htried⟩)
  rintro rfl
  exact hb.defaultInBlock hn hid hfit
    (fun hout k hk => hmoves.lookup_declared hd hrooted hout hk)

/-- `export default class {}`, where the place of the class is known. -/
def namelessClass (start : Nat) : Item :=
  .exportDefaultDecl (.cls (.anonymous start) ⟨false, [], none, [], []⟩)

/-- `import loc from path`, with its specifier. -/
def importDefault (loc path : String) : ImportDecl × ImportSpecifier :=
  (⟨[.default loc], StrLit.made path, false, none⟩, .default loc)

/-- `/c.d.ts`, the entry, imports a class of `/b.d.ts` that has the name which is made for the default
of `/a.d.ts`, then that default, and exports all of `/d.d.ts`, which imports it, too. -/
def handedDefault : Context := .ofFiles
  [("/b.d.ts", [.exportDecl (emptyClass "aClass")]),
    ("/a.d.ts", [.decl (emptyClass "A"), namelessClass 36]),
    ("/d.d.ts", [.importDecl (importDefault "X" "/a.d.ts").1, aliasOfX]),
    ("/c.d.ts", [.importDecl (oneImport "aClass" "B" "/b.d.ts").1,
      .importDecl (importDefault "X" "/a.d.ts").1, aliasOfX,
      .exportList ⟨[.all (.word "NS")], some (StrLit.made "/d.d.ts"), false, none⟩])]

set_option maxRecDepth 100000 in
/-- The default gets a new name, to which the entry refers. -/
theorem nameless_default_apart_handed :
    handedDefault.NamelessDefault (.ofPath "/a.d.ts") ⟨"aClass", 36⟩ ∧
      ¬handedDefault.Imports (.ofPath "/a.d.ts") "aClass" ∧ handedDefault.ImportsApart ∧
      ∃ m included' warnings, mergeChunk? handedDefault ∅ = some (m, included', warnings) ∧
        included'.contains (.ofPath "/a.d.ts") = true ∧
        DefaultAtRoot handedDefault ∅ included' m (.ofPath "/a.d.ts") ⟨"aClass", 36⟩ "aClass_1" ∧
        m.names.lookup (.ofPath "/c.d.ts") "X" = some "aClass_1" ∧
        ∃ b, .made b.item ∈ m.pieces ∧ StandsUnder handedDefault b
          (ImportsReach handedDefault m.names warnings [] b (.ofPath "/a.d.ts") "aClass") := by
  have hid : handedDefault.NamelessDefault (.ofPath "/a.d.ts") ⟨"aClass", 36⟩ :=
    ⟨_, rfl, by decide +kernel⟩
  have himports : ¬handedDefault.Imports (.ofPath "/a.d.ts") "aClass" := by decide +kernel
  have hapart : handedDefault.ImportsApart := Context.importsApart_of_files (by decide +kernel)
  have hcheck : (mergeChunk? handedDefault ∅).any (fun r => r.2.1.contains (.ofPath "/a.d.ts") &&
      r.2.1.contains (.ofPath "/c.d.ts") &&
      r.1.names.lookup (.ofPath "/a.d.ts") "aClass" == some "aClass_1" &&
      r.1.pieces.any (fun p => p.owner == .chunk && (spaceBody? p.item).isSome)) := by
    decide +kernel
  obtain ⟨⟨m, included', warnings⟩, hm, hr⟩ := (Option.any_eq_true _ _).1 hcheck
  simp only [Bool.and_eq_true, List.any_eq_true, beq_iff_eq, Option.isSome_iff_exists] at hr
  obtain ⟨⟨⟨ha, hc⟩, hlookup⟩, p, hp, howner, body, hbody⟩ := hr
  obtain ⟨hroot, hblocks⟩ := nameless_default_apart hm hid himports
  obtain ⟨v, hv⟩ := hroot ha rfl
  obtain rfl : v = "aClass_1" := Option.some.inj (hv.final.symm.trans hlookup)
  have hdirect : ImportsDefault handedDefault (.ofPath "/c.d.ts") (.ofPath "/a.d.ts")
      (importDefault "X" "/a.d.ts") :=
    ⟨by decide +kernel, by decide +kernel, rfl, by decide +kernel, by decide +kernel⟩
  obtain ⟨b, rfl, -, holds⟩ := (hblocks hapart p hp).space_of_body howner hbody
  exact ⟨hid, himports, hapart, m, included', warnings, hm, ha, hv,
    (hv.direct (by decide +kernel) _ _ hc rfl hdirect).1, b, hp, holds.imp (fun _ h => h.2)⟩

/-- A file that declares the name which is made for its default export. -/
def sharedDefault : Context :=
  .ofFiles [("/a.d.ts", [.decl (emptyClass "aClass"), namelessClass 41])]

set_option maxRecDepth 100000 in
/-- For the default export of a file and another of its declarations one final name is recorded. -/
theorem nameless_default_merged : ¬∀ m included' warnings,
    mergeChunk? sharedDefault ∅ = some (m, included', warnings) →
      ∀ id, sharedDefault.NamelessDefault (.ofPath "/a.d.ts") id →
        included'.contains (.ofPath "/a.d.ts") = true →
        ∀ a ∈ (sharedDefault.statements (.ofPath "/a.d.ts")).flatMap Item.declared, a ≠ id →
          ∀ v, m.bindings.get? ⟨.ofPath "/a.d.ts", a.start⟩ = some v →
            m.bindings.get? ⟨.ofPath "/a.d.ts", id.start⟩ ≠ some v := by
  intro happart
  have hcheck : (mergeChunk? sharedDefault ∅).any (fun r => r.2.1.contains (.ofPath "/a.d.ts") &&
      r.1.bindings.get? ⟨.ofPath "/a.d.ts", 0⟩ == some "aClass" &&
      r.1.bindings.get? ⟨.ofPath "/a.d.ts", 41⟩ == some "aClass") := by decide +kernel
  obtain ⟨⟨m, included', warnings⟩, hm, hr⟩ := (Option.any_eq_true _ _).1 hcheck
  simp only [Bool.and_eq_true, beq_iff_eq] at hr
  obtain ⟨⟨hf, hclass⟩, hdefault⟩ := hr
  exact happart m included' warnings hm ⟨"aClass", 41⟩ ⟨_, rfl, by decide +kernel⟩ hf
    (.made "aClass") (by decide +kernel) (by decide) "aClass" hclass hdefault

end Blocks

end AmbientBundle.Merge
