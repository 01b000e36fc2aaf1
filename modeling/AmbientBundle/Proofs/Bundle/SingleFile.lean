import AmbientBundle.Proofs.Bundle.Placing
import AmbientBundle.Proofs.Merge.SelfContained
/-!
A bundle of one file that stands by itself: it is the file again, as the passes leave it.
-/
namespace AmbientBundle.Bundle

open Merge Names Syntax

/-- Each of the file's declarations is on record, at the place where its name starts, and what is on
record is the name that a declaration has in the file. -/
structure RecordsOwn (file : Url) (ids : List Ident) (bs : Bindings) : Prop where
  present : ∀ id ∈ ids, (bs.get? ⟨file, id.start⟩).isSome
  own : ∀ d v, bs.get? d = some v → ∃ id ∈ ids, d = ⟨file, id.start⟩ ∧ v = id.name

theorem RecordsOwn.get?_eq {file : Url} {ids : List Ident} {bs : Bindings}
    (h : RecordsOwn file ids bs) (hone : StartsApart ids) {id : Ident} (hid : id ∈ ids) :
    bs.get? ⟨file, id.start⟩ = some id.name := by
  obtain ⟨v, hv⟩ := Option.isSome_iff_exists.1 (h.present id hid)
  obtain ⟨id', hid', hd, rfl⟩ := h.own _ _ hv
  rw [hv, hone id' hid' id hid (DeclId.mk.inj hd).2.symm]

theorem recordsOwn_bindFile (included : SeenSet Url) (file : Url) (body : List Item) :
    RecordsOwn file (body.flatMap Item.declared)
      (((State.start included).addFile file).bindFile body file).bindings := by
  have hget (d : DeclId) : (((State.start included).addFile file).bindFile body
      file).bindings.get? d = ((body.flatMap Item.declared).foldl (bindIdent file)
        (Environment.empty, OrderedMap.empty)).2.get? d := by
    rw [State.bindings_bindFile, OrderedMap.get?_foldl_putNew]
    rfl
  refine ⟨fun id hid => ?_, fun d v hv => ?_⟩
  · rw [hget]
    exact isSome_get?_bindIdents (Or.inr ⟨id, hid, rfl⟩)
  · rw [hget] at hv
    exact ((alone_empty file).get?_bindIdents hv).resolve_left (fun h => by cases h)

theorem declared_run (p : Declare.Pass) (m : Module) :
    (p.run m).body.flatMap Item.declared = m.body.flatMap Item.declared := by
  have hdeclared := p.apply_onItem? Item.declared Decl.bound_setModifier Decl.bound_setModifier
  simp only [p.body_run, List.flatMap_map, hdeclared]

theorem declared_prepare (cx : Context) (m : Module) :
    (cx.prepare m).body.flatMap Item.declared = m.body.flatMap Item.declared := by
  unfold Context.prepare
  induction cx.passes generalizing m with
  | nil => rfl
  | cons p ps ih => rw [List.foldl_cons, ih, declared_run]

section Run

variable {o : Options} {outDir file u : Url} {m : Module} {name : String} {isEntry : Bool}

/-- The module of a chunk is the declaration file, or the file is found for it. -/
def StandsFor (files : Files) (u file : Url) : Prop :=
  u = file ∨ isDeclarationFile u = false ∧ files.findForModule u = some file

theorem StandsFor.findForModule {files : Files} (h : StandsFor files u file)
    (hm : files.get? file = some m) : files.findForModule u = some file := by
  rcases h with rfl | ⟨-, h⟩
  · have hin : files.contains u = true := congrArg Option.isSome hm
    rw [Files.findForModule, if_pos hin]
  · exact h

/-- The only module of a chunk passes the check if a file is found for it. -/
theorem check_of_standsFor {placed : PlacedChunk} (hmodules : placed.modules.items = [u])
    (hm : o.files.get? file = some m) (hu : StandsFor o.files u file) :
    check o.files placed = .ok () := by
  have hentries : placed.entryModules = [u] := by
    simp [PlacedChunk.entryModules, hmodules]
  have hthere : (isDeclarationFile u && !o.files.contains u) = false := by
    rcases hu with rfl | ⟨hu, -⟩
    · have hin : o.files.contains u = true := congrArg Option.isSome hm
      rw [hin, Bool.not_true, Bool.and_false]
    · rw [hu, Bool.false_and]
  have hfound : (o.files.findForModule u).isNone = false := by
    rw [hu.findForModule hm]
    rfl
  simp [check, hmodules, hentries, hthere, hfound]

/-- Bundled as the only module of a chunk a file that stands by itself comes back: the module of the
chunk has the statements that the passes make of the file's, each in its place, and each
declaration stands under its own name. -/
theorem run_single_file (hm : o.files.get? file = some m) (hu : StandsFor o.files u file)
    (h : SelfContained m.body) (hname : (Chunk.place outDir ⟨name, isEntry, [u]⟩ 0).isOk = true) :
    ∃ r merged, run o outDir [⟨name, isEntry, [u]⟩] = .ok r ∧ r.chunks = [merged] ∧
      merged.module.body = (o.passes.foldl (fun m p => p.run m) m).body ∧
      RecordsOwn file (m.body.flatMap Item.declared) merged.bindings := by
  cases hplace : Chunk.place outDir ⟨name, isEntry, [u]⟩ 0 with
  | error e =>
    rw [hplace] at hname
    cases hname
  | ok placed =>
    have hplaced : placeChunks outDir [⟨name, isEntry, [u]⟩] = .ok [placed] := by
      simp [placeChunks, hplace, Except.mapError, pure, Except.pure, bind, Except.bind]
    have hmodules : placed.modules.items = [u] := by
      rw [(Chunk.place_inv hplace).2.1]
      rfl
    have hentries : (o.context [placed] placed).chunk.entryModules = [u] := by
      simp [Options.context, PlacedChunk.entryModules, hmodules]
    obtain ⟨merged, warnings, hmerge, hpieces, hbindings⟩ :=
      mergeChunk_self (o.context [placed] placed) ∅ hm h hentries (hu.findForModule hm) rfl
    have hnext : mergeNext o [placed] ⟨[], ∅, []⟩ placed =
        .ok ⟨[merged], (∅ : SeenSet Url).insert file, warnings⟩ := by
      rw [mergeNext, hmerge]
      rfl
    refine ⟨⟨[merged], (∅ : SeenSet Url).insert file, warnings⟩, merged, ?_, rfl, ?_, ?_⟩
    · have hfilled : ((∅ : SeenSet Url).insert file).isEmpty = false := rfl
      rw [run, hplaced]
      simp [bind, Except.bind, check_of_standsFor hmodules hm hu, hnext, hfilled, pure,
        Except.pure]
    · rw [Merged.module, hpieces, List.map_map]
      exact List.map_id _
    · rw [hbindings, ← declared_prepare (o.context [placed] placed) m]
      exact recordsOwn_bindFile ∅ file _

/-- A function with a type parameter that is bounded by an interface of the file, a class that is
exported under another name, and an empty export list. -/
def standaloneBody : List Item :=
  [.exportDecl (emptyInterface "Options"),
    .exportDecl (.func ⟨"create", 60⟩ false ⟨⟨false, false⟩,
      .mk [.mk [] "T" (some (.ref ⟨"Options", []⟩ [])) none]
        [.ident ⟨"options", 90⟩ false (some (.ref ⟨"T", []⟩ []))] (some (.ref ⟨"T", []⟩ []))⟩),
    .decl (.cls ⟨"Widget", 120⟩ false ⟨false, [], none, [], []⟩),
    Exports.list [Exports.specifier "Widget" "Gadget"],
    Exports.list []]

def standaloneFiles : Options := .ofFiles [("/index.d.ts", standaloneBody)]

set_option maxRecDepth 100000 in
/-- The class becomes ambient by the pass, and nothing else changes. -/
theorem run_single_file_standalone : ∃ r merged,
    run standaloneFiles (.ofPath "/dist/") [⟨"index.js", true, [.ofPath "/index.ts"]⟩] = .ok r ∧
      r.chunks = [merged] ∧
      merged.module.body = standaloneBody.set 2
        (.decl (.cls ⟨"Widget", 120⟩ true ⟨false, [], none, [], []⟩)) ∧
      merged.bindings.get? ⟨.ofPath "/index.d.ts", 60⟩ = some "create" := by
  have hm : standaloneFiles.files.get? (.ofPath "/index.d.ts") = some ⟨none, standaloneBody⟩ := rfl
  have hu : StandsFor standaloneFiles.files (.ofPath "/index.ts") (.ofPath "/index.d.ts") :=
    Or.inr ⟨by decide +kernel, by decide +kernel⟩
  have hself : SelfContained standaloneBody :=
    ⟨by decide, rfl, by decide, by decide, by decide, by decide⟩
  have hname : (Chunk.place (.ofPath "/dist/")
      ⟨"index.js", true, [.ofPath "/index.ts"]⟩ 0).isOk = true := by decide +kernel
  obtain ⟨r, merged, hrun, hchunks, hbody, hbindings⟩ := run_single_file hm hu hself hname
  have hapart : StartsApart (standaloneBody.flatMap Item.declared) := by
    unfold StartsApart
    decide
  have hid : (⟨"create", 60⟩ : Ident) ∈ standaloneBody.flatMap Item.declared := by decide
  exact ⟨r, merged, hrun, hchunks, hbody, hbindings.get?_eq hapart hid⟩

end Run

end AmbientBundle.Bundle
