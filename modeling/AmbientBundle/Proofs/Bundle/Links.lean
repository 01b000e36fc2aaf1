import AmbientBundle.Proofs.Bundle.Placing
import AmbientBundle.Proofs.Merge.ExportBinding
import AmbientBundle.Proofs.Merge.ImportLinks
import AmbientBundle.Proofs.Merge.OuterImports
/-!
Imports between the chunks of a bundle. What a file imports from a file of another chunk its chunk
imports from the other chunk's file, under the same name. The other chunk exports what its entry
files do: so the import leads to what the file denotes if the imported file is an entry, and the
entries of its chunk do not export different things under the name.
-/
namespace AmbientBundle.Bundle

open Merge Syntax

section Places

variable {o : Options} {outDir : Url} {chunks : List Chunk} {placed cs : List PlacedChunk}
  {included included' : SeenSet Url} {ms : List Merged}

/-- The chunks are merged in turn: `before i` are the files of the chunks before the `i`-th. -/
def InTurn (o : Options) (placed cs : List PlacedChunk) (ms : List Merged)
    (before : Nat → SeenSet Url) : Prop :=
  ∀ i c m, cs[i]? = some c → ms[i]? = some m → ∃ warnings,
    mergeChunk? (o.context placed c) (before i) = some (m, before (i + 1), warnings)

theorem Merges.inTurn (h : Merges o placed included cs ms included') :
    ∃ before, before 0 = included ∧ InTurn o placed cs ms before := by
  induction h with
  | @nil included => exact ⟨fun _ => included, rfl, by simp [InTurn]⟩
  | @cons included included' included'' c m warnings cs ms hmerge _ ih =>
    obtain ⟨before, rfl, hbefore⟩ := ih
    refine ⟨fun i => if i = 0 then included else before (i - 1), rfl, fun i c' m' hc hm => ?_⟩
    cases i with
    | zero =>
      obtain rfl := Option.some.inj hc
      obtain rfl := Option.some.inj hm
      exact ⟨warnings, hmerge⟩
    | succ i => exact hbefore i c' m' hc hm

end Places

section Links

variable {o : Options} {outDir : Url} {chunks : List Chunk} {placed : List PlacedChunk}
  {ci cj : PlacedChunk} {mi mj : Merged} {i j : Nat} {f g d : Url} {name k : String}
  {e : ImportDecl × ImportSpecifier}

/-- The specifier imports a name, or the default export, of a file that belongs to chunk `j`. -/
structure ImportsFrom (o : Options) (placed : List PlacedChunk) (ci : PlacedChunk) (j : Nat)
    (f : Url) (e : ImportDecl × ImportSpecifier) (name : String) (g : Url) : Prop where
  mem : e ∈ (o.context placed ci).specifiers f
  name : (ofSpecifier e.2).2.1 = .ofText name
  leads : ∃ u, o.resolver e.1.src.value f = some u ∧
    (Membership.mk placed o.extensions).chunkFor u = some j ∧ o.files.findForModule u = some g

/-- The file is an entry file that exports the name for sure, and whatever the entry files export
under it is the declaration of `k` in `d`. An exported `import x = …` has kept its name. -/
structure ExportsAs (cx : Context) (earlier : SeenSet Url) (m : Merged) (g : Url) (name : String)
    (d : Url) (k : String) : Prop where
  entry : g ∈ cx.entryFiles
  offers : ∃ h, cx.Offers g true h name
  live : ¬Dead cx earlier g true name
  only : ExportsOnly cx earlier name d k
  plain : ∀ f ∈ cx.entryFiles, ¬TakenAlias cx m.names f name ∧ KeepsAlias cx m.names f name

/-- How a chunk's file refers to the file of another chunk. -/
def specifierFor (ci cj : PlacedChunk) : String :=
  (Specifier.between? ci.specifier cj.specifier).getD cj.specifier.href

/-- The chunk `mi` imports the name from the file of `mj`, and the specifier's local, if no other
one has it, stands for the local of that import. Under the name the chunk `mj` exports the
declaration of `k` in `d`, and nothing else. -/
structure LinkedAcross (o : Options) (placed : List PlacedChunk) (ci cj : PlacedChunk)
    (mi mj : Merged) (f : Url) (e : ImportDecl × ImportSpecifier) (name : String) (d : Url)
    (k : String) : Prop where
  imported : ∃ v, (∃ p ∈ mi.pieces, ImportsAs (specifierFor ci cj) (.ofText name) v p.item) ∧
    ((∀ e' ∈ (o.context placed ci).specifiers f, e'.2.loc = e.2.loc → e' = e) →
      Rename.ofEnvironment mi.names f e.2.loc = v)
  exported : ∃ w, (name, .here w) ∈ mj.exports ∧ (∀ b, (name, b) ∈ mj.exports → b = .here w) ∧
    Rename.ofEnvironment mj.names d k = w ∧ (.file d, w) ∈ mj.rootBindings

/-- An import from a file of another chunk stays, with the specifier of that chunk's file. -/
theorem ImportsFrom.outer (h : ImportsFrom o placed ci j f e name g) (hj : placed[j]? = some cj)
    (hne : j ≠ ci.id) :
    (o.context placed ci).inChunk? e.1.src.value f = none ∧
      (o.context placed ci).placeSpecifier e.1.src.value f = specifierFor ci cj := by
  obtain ⟨u, hu, hchunk, _⟩ := h.leads
  have hother : (o.context placed ci).otherChunk? u = some cj := by
    simp only [Context.otherChunk?, Options.context, hchunk, Option.bind_eq_bind,
      Option.bind_some, if_neg hne, Membership.get?, hj]
  constructor
  · simp only [Context.inChunk?, Options.context, hu, hchunk, Option.bind_eq_bind,
      Option.bind_some]
    exact if_neg hne
  · rw [Context.placeSpecifier, show (o.context placed ci).resolver e.1.src.value f = some u from hu]
    simp only [hother]
    rfl

theorem imports_across_chunks {r : Result} (h : run o outDir chunks = .ok r) :
    ∃ placed before, placeChunks outDir chunks = .ok placed ∧ before 0 = ∅ ∧
      InTurn o placed placed r.chunks before ∧
      ∀ i j ci cj mi mj, placed[i]? = some ci → r.chunks[i]? = some mi → placed[j]? = some cj →
        r.chunks[j]? = some mj → i ≠ j → ∀ f e name g d k,
          (before i).contains f = false → (before (i + 1)).contains f = true →
          ImportsFrom o placed ci j f e name g →
          ExportsAs (o.context placed cj) (before j) mj g name d k →
          LinkedAcross o placed ci cj mi mj f e name d k := by
  obtain ⟨placed, hplaced, hmerges⟩ := merges_of_run h
  obtain ⟨before, hzero, hturn⟩ := hmerges.inTurn
  refine ⟨placed, before, hplaced, hzero, hturn, ?_⟩
  intro i j ci cj mi mj hci hmi hcj hmj hne f e name g d k hnew hf himport hexport
  obtain ⟨_, hmergei⟩ := hturn i ci mi hci hmi
  obtain ⟨_, hmergej⟩ := hturn j cj mj hcj hmj
  have hid : j ≠ ci.id := by
    rw [id_of_placeChunks hplaced hci]
    exact Ne.symm hne
  obtain ⟨hout, hplace⟩ := himport.outer hcj hid
  obtain ⟨v, hv, hlocal⟩ := importsAs_of_mergeChunk? hmergei hf hnew himport.mem hout
  rw [hplace, himport.name] at hv
  obtain ⟨h', hoffers⟩ := hexport.offers
  exact ⟨⟨v, hv, hlocal⟩, export_bound hmergej hexport.entry hoffers hexport.live hexport.only
    hexport.plain⟩

/-- Two chunks, with the output directory `/dist/`. -/
def placedPair (c₀ c₁ : Chunk) : List PlacedChunk :=
  (placeChunks (.ofPath "/dist/") [c₀, c₁]).toOption.getD []

/-- The context of one of two chunks. -/
def pairContext (o : Options) (c₀ c₁ : Chunk) (i : Nat) : Context :=
  o.context (placedPair c₀ c₁) ((placedPair c₀ c₁)[i]?.getD ⟨0, "", .ofPath "/", false, ∅⟩)

/-- Both chunks of two are merged, one after the other. -/
theorem run_pair {c₀ c₁ : Chunk} {r : Result} (h : run o (.ofPath "/dist/") [c₀, c₁] = .ok r) :
    ∃ p₀ p₁ m₀ m₁ mid after w₀ w₁, placeChunks (.ofPath "/dist/") [c₀, c₁] = .ok [p₀, p₁] ∧
      r.chunks = [m₀, m₁] ∧ o.context [p₀, p₁] p₀ = pairContext o c₀ c₁ 0 ∧
      o.context [p₀, p₁] p₁ = pairContext o c₀ c₁ 1 ∧
      mergeChunk? (pairContext o c₀ c₁ 0) ∅ = some (m₀, mid, w₀) ∧
      mergeChunk? (pairContext o c₀ c₁ 1) mid = some (m₁, after, w₁) := by
  obtain ⟨placed, hplaced, hmerges⟩ := merges_of_run h
  obtain ⟨p₀, p₁, rfl⟩ := List.length_eq_two.1 (length_placeChunks hplaced)
  have hpair : placedPair c₀ c₁ = [p₀, p₁] := by rw [placedPair, hplaced]; rfl
  have h₀ : o.context [p₀, p₁] p₀ = pairContext o c₀ c₁ 0 := by rw [pairContext, hpair]; rfl
  have h₁ : o.context [p₀, p₁] p₁ = pairContext o c₀ c₁ 1 := by rw [pairContext, hpair]; rfl
  generalize hms : r.chunks = ms at hmerges
  cases hmerges with
  | cons hm₀ hmerges =>
    cases hmerges with
    | cons hm₁ hmerges =>
      cases hmerges
      rw [h₀] at hm₀
      rw [h₁] at hm₁
      exact ⟨p₀, p₁, _, _, _, _, _, _, hplaced, rfl, h₀, h₁, hm₀, hm₁⟩

/-- The second of two chunks imports from the first. -/
theorem importsFrom_pair {c₀ c₁ : Chunk} {p₀ p₁ : PlacedChunk} {u : Url}
    (h : o.context [p₀, p₁] p₁ = pairContext o c₀ c₁ 1)
    (he : e ∈ (pairContext o c₀ c₁ 1).specifiers f) (hname : (ofSpecifier e.2).2.1 = .ofText name)
    (hu : o.resolver e.1.src.value f = some u)
    (hchunk : (pairContext o c₀ c₁ 1).membership.chunkFor u = some 0)
    (hg : o.files.findForModule u = some g) : ImportsFrom o [p₀, p₁] p₁ 0 f e name g := by
  have hmembership : Membership.mk [p₀, p₁] o.extensions = (pairContext o c₀ c₁ 1).membership :=
    congrArg Context.membership h
  exact ⟨h ▸ he, hname, u, hu, hmembership ▸ hchunk, hg⟩

def sharedChunk : Chunk := ⟨"shared.js", false, [.ofPath "/b.d.ts"]⟩

def indexChunk : Chunk := ⟨"index.js", true, [.ofPath "/a.d.ts"]⟩

/-- The specifier `B` of `import { B } from "/b.d.ts"`. -/
def importOfB : ImportDecl × ImportSpecifier :=
  (⟨[.named none "B" false], .made "/b.d.ts", false, none⟩, .named none "B" false)

/-- The first of the two chunks. -/
def sharedContext : Context := pairContext sharedFiles sharedChunk indexChunk 0

theorem statements_shared : sharedContext.statements (.ofPath "/b.d.ts") =
    [.exportDecl (emptyClass "A"), .decl (.cls ⟨"bClass", 0⟩ true ⟨false, [], none, [], []⟩),
      Exports.list [Exports.specifier "bClass" "default"], .exportDecl (emptyClass "B")] := rfl

theorem entryFiles_shared : sharedContext.entryFiles = [.ofPath "/b.d.ts"] := by decide +kernel

/-- `/b.d.ts` has no stars, so that it offers a name by itself. -/
theorem offers_shared {g : Url} (h : sharedContext.Offers (.ofPath "/b.d.ts") true g "B") :
    g = .ofPath "/b.d.ts" := by
  have hnamed : (sharedContext.exports (.ofPath "/b.d.ts")).all
      (fun e => e.exportedName?.isSome) := by decide +kernel
  rcases Relation.ReflTransGen.cases_head h.within with rfl | ⟨_, ⟨src, hsrc, _⟩, _⟩
  · rfl
  · exact absurd (List.all_eq_true.1 hnamed _ hsrc) (by simp [ExportedSymbol.exportedName?])

theorem means_shared :
    sharedContext.Means (.own (.ofPath "/b.d.ts") "B") (.ofPath "/b.d.ts") "B" ∧
      sharedContext.Means (.exported (.ofPath "/b.d.ts") "B") (.ofPath "/b.d.ts") "B" := by
  have hclosed : sharedContext.ClosedFor [.own (.ofPath "/b.d.ts") "B",
      .exported (.ofPath "/b.d.ts") "B"] (.ofPath "/b.d.ts") "B" := by decide +kernel
  have hown : sharedContext.Means (.own (.ofPath "/b.d.ts") "B") (.ofPath "/b.d.ts") "B" :=
    hclosed.means (by simp) (.here (by decide +kernel))
  exact ⟨hown, hclosed.means (by simp)
    (.next (b := .own (.ofPath "/b.d.ts") "B") (by decide +kernel) hown.leads)⟩

/-- What `/b.d.ts` exports as `B` is its own class. -/
theorem refers_shared {a : Option Reference}
    (ha : sharedContext.Refers (.ofPath "/b.d.ts") "B" a) :
    a = some (.own (.ofPath "/b.d.ts") "B") ∨ a = some (.exported (.ofPath "/b.d.ts") "B") := by
  have hlocal {i : Item} {b : Bound} (hi : i ∈ sharedContext.statements (.ofPath "/b.d.ts"))
      (h : ("B", b) ∈ i.ownExports) : b = .here "B" := by
    rw [statements_shared] at hi
    simp only [List.mem_cons, List.not_mem_nil, or_false] at hi
    rcases hi with rfl | rfl | rfl | rfl
    all_goals
      simp [Item.ownExports, Item.directExports, Item.listExports, Exports.list, emptyClass,
        Decl.bound, Ident.bound, Ident.made] at h
    exact h
  have hsource {d : ExportList} {src : StrLit}
      (hi : .exportList d ∈ sharedContext.statements (.ofPath "/b.d.ts"))
      (hsrc : d.src = some src) : False := by
    rw [statements_shared] at hi
    simp only [Exports.list, List.mem_cons, List.not_mem_nil, or_false, reduceCtorEq, false_or,
      Item.exportList.injEq] at hi
    simp [hi] at hsrc
  cases ha with
  | own hi h =>
    cases hlocal hi h
    exact Or.inl rfl
  | value hi h hb => exact absurd (hlocal hi h) (hb "B")
  | taken hi hsrc => exact (hsource hi hsrc).elim
  | space hi hsrc => exact (hsource hi hsrc).elim
  | outer hi hsrc => exact (hsource hi hsrc).elim
  | offered h => exact Or.inr (by rw [offers_shared h])

set_option maxRecDepth 100000 in
/-- The chunk of `/b.d.ts` exports its class `B` for sure. -/
theorem exportsAs_shared (m : Merged) :
    ExportsAs sharedContext ∅ m (.ofPath "/b.d.ts") "B" (.ofPath "/b.d.ts") "B" := by
  have hlists : (sharedContext.explicit? (.ofPath "/b.d.ts") "B").isSome := by decide +kernel
  have hentry {f : Url} (hf : f ∈ sharedContext.entryFiles) : f = .ofPath "/b.d.ts" :=
    List.mem_singleton.1 (entryFiles_shared ▸ hf)
  refine ⟨by simp [entryFiles_shared], ⟨_, .refl, hlists, by simp⟩, ?_, ⟨?_, ?_⟩, ?_⟩
  · rintro ⟨g, hg, hnone⟩
    obtain rfl := offers_shared hg
    exact hnone ⟨_, @Live.declared _ _ Idle _ "B" "B" "B" (some ⟨.ofPath "/b.d.ts", 0⟩)
      (by decide +kernel) rfl (by decide +kernel)⟩
  · intro f hf a ha
    obtain rfl := hentry hf
    rcases refers_shared ha with rfl | rfl
    · exact ⟨_, rfl, means_shared.1⟩
    · exact ⟨_, rfl, means_shared.2⟩
  · intro f hf _ x hx
    obtain rfl := hentry hf
    rcases refers_shared hx with he | he
    · cases he
      exact Or.inl (by decide +kernel)
    · cases he
  · intro f hf
    obtain rfl := hentry hf
    constructor
    · rintro ⟨d, hd, _⟩
      simp [statements_shared, Exports.list] at hd
    · intro d hd
      simp [statements_shared, Exports.list] at hd

set_option maxRecDepth 100000 in
/-- `/a.d.ts` imports the class `B` of `/b.d.ts` across the chunks. -/
theorem imports_across_chunks_shared : ∃ r placed ci cj mi mj,
    run sharedFiles (.ofPath "/dist/") [sharedChunk, indexChunk] = .ok r ∧
      placeChunks (.ofPath "/dist/") [sharedChunk, indexChunk] = .ok placed ∧
      placed = [cj, ci] ∧ r.chunks = [mj, mi] ∧
      LinkedAcross sharedFiles placed ci cj mi mj (.ofPath "/a.d.ts") importOfB "B"
        (.ofPath "/b.d.ts") "B" := by
  cases h : run sharedFiles (.ofPath "/dist/") [sharedChunk, indexChunk] with
  | error e =>
    have hok : (run sharedFiles (.ofPath "/dist/") [sharedChunk, indexChunk]).toOption.isSome := by
      decide +kernel
    rw [h] at hok
    cases hok
  | ok r =>
    obtain ⟨cj, ci, mj, mi, mid, after, _, _, hplaced, hm, hcxj, hcxi, hmergej, hmergei⟩ :=
      run_pair h
    obtain ⟨placed, before, hplaced', hzero, hturn, hlinks⟩ := imports_across_chunks h
    obtain rfl := Except.ok.inj (hplaced.symm.trans hplaced')
    have hbefore : before 1 = mid ∧ before 2 = after := by
      obtain ⟨_, hm₀⟩ := hturn 0 cj mj rfl (by rw [hm]; rfl)
      obtain ⟨_, hm₁⟩ := hturn 1 ci mi rfl (by rw [hm]; rfl)
      rw [hcxj, hzero, hmergej] at hm₀
      cases hm₀
      rw [hcxi, hmergei] at hm₁
      cases hm₁
      exact ⟨rfl, rfl⟩
    have hinlined : (mergeChunk? (pairContext sharedFiles sharedChunk indexChunk 0) ∅).all
        (fun r => !r.2.1.contains (.ofPath "/a.d.ts") &&
          (mergeChunk? (pairContext sharedFiles sharedChunk indexChunk 1) r.2.1).all
            (fun r => r.2.1.contains (.ofPath "/a.d.ts"))) := by decide +kernel
    rw [hmergej, Option.all_some, Bool.and_eq_true, Bool.not_eq_true', hmergei,
      Option.all_some] at hinlined
    have himport : ImportsFrom sharedFiles [cj, ci] ci 0 (.ofPath "/a.d.ts") importOfB "B"
        (.ofPath "/b.d.ts") :=
      importsFrom_pair hcxi (by decide +kernel) (by decide) rfl (by decide +kernel)
        (by decide +kernel)
    refine ⟨r, [cj, ci], ci, cj, mi, mj, rfl, hplaced, rfl, hm, ?_⟩
    refine hlinks 1 0 ci cj mi mj rfl (by rw [hm]; rfl) rfl (by rw [hm]; rfl) (by decide)
      _ _ _ _ _ _ (hbefore.1 ▸ hinlined.1) (hbefore.2 ▸ hinlined.2) himport ?_
    rw [hcxj, hzero]
    exact exportsAs_shared mj

/-- `/a.d.ts` is in the chunk of the entry `/b.d.ts`, and `/c.d.ts`, in the other one, imports
from it. -/
def helperFiles : Options := .ofFiles
  [("/a.d.ts", [.exportDecl (emptyClass "S")]),
    ("/b.d.ts", [.importDecl (oneImport "S" "S" "/a.d.ts").1, .exportDecl (emptyClass "I")]),
    ("/c.d.ts", [.importDecl (oneImport "S" "S" "/a.d.ts").1, .exportDecl (emptyClass "C")])]

def helperChunk : Chunk := ⟨"index.js", true, [.ofPath "/a.d.ts", .ofPath "/b.d.ts"]⟩

def otherChunk : Chunk := ⟨"other.js", true, [.ofPath "/c.d.ts"]⟩

set_option maxRecDepth 100000 in
/-- The second chunk imports `S` from the first one, which has the class, but exports what its entry
does. -/
theorem import_unexported :
    ¬∀ r, run helperFiles (.ofPath "/dist/") [helperChunk, otherChunk] = .ok r →
      ∀ ci cj mi mj, placeChunks (.ofPath "/dist/") [helperChunk, otherChunk] = .ok [cj, ci] →
        r.chunks = [mj, mi] → ∀ v, ∀ p ∈ mi.pieces,
          ImportsAs (specifierFor ci cj) (.ofText "S") v p.item → "S" ∈ namesOf mj.exports := by
  intro hlinks
  cases h : run helperFiles (.ofPath "/dist/") [helperChunk, otherChunk] with
  | error e =>
    have hok : (run helperFiles (.ofPath "/dist/") [helperChunk, otherChunk]).toOption.isSome := by
      decide +kernel
    rw [h] at hok
    cases hok
  | ok r =>
    obtain ⟨cj, ci, mj, mi, mid, after, _, _, hplaced, hm, hcxj, hcxi, hmergej, hmergei⟩ :=
      run_pair h
    have hcheck : (mergeChunk? (pairContext helperFiles helperChunk otherChunk 0) ∅).all
        (fun r => !r.2.1.contains (.ofPath "/c.d.ts") && !decide ("S" ∈ namesOf r.1.exports) &&
          (mergeChunk? (pairContext helperFiles helperChunk otherChunk 1) r.2.1).all
            (fun r => r.2.1.contains (.ofPath "/c.d.ts"))) := by decide +kernel
    rw [hmergej, Option.all_some, Bool.and_eq_true, Bool.and_eq_true, Bool.not_eq_true',
      Bool.not_eq_true', hmergei, Option.all_some, decide_eq_false_iff_not] at hcheck
    obtain ⟨⟨hnew, hunexported⟩, hinlined⟩ := hcheck
    have hmem : oneImport "S" "S" "/a.d.ts" ∈
        (pairContext helperFiles helperChunk otherChunk 1).specifiers (.ofPath "/c.d.ts") := by
      decide +kernel
    have himport : ImportsFrom helperFiles [cj, ci] ci 0 (.ofPath "/c.d.ts")
        (oneImport "S" "S" "/a.d.ts") "S" (.ofPath "/a.d.ts") :=
      importsFrom_pair hcxi hmem (by decide) rfl (by decide +kernel) (by decide +kernel)
    have hid : (0 : Nat) ≠ ci.id := by
      rw [id_of_placeChunks hplaced (show [cj, ci][1]? = some ci from rfl)]
      decide
    obtain ⟨hout, hplace⟩ := himport.outer rfl hid
    rw [hcxi] at hout hplace
    obtain ⟨v, ⟨p, hp, himports⟩, _⟩ := importsAs_of_mergeChunk? hmergei hinlined hnew hmem hout
    rw [hplace] at himports
    exact hunexported (hlinks r h ci cj mi mj hplaced hm v p hp himports)

end Links

end AmbientBundle.Bundle
