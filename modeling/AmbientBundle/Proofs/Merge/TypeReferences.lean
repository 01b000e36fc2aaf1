import AmbientBundle.Proofs.Merge.TypeTargets
import AmbientBundle.Proofs.Syntax.LinkedNodes
/-!
Import types of the files that a chunk inlines. Node by node a statement stands there as it is under
its final names, and in the place of each import type for a file of the chunk stands a reference
that begins with the final name of what the export means. Linking does not look at the binders
around an import type, so a type parameter there may take the reference.
-/
namespace AmbientBundle.Merge

open Names Syntax ImportTypes

variable {cx : Context} {earlier : SeenSet Url} {s : State} {f : Url} {key : ImportTypeKey}

/-- A statement stands among the given ones with its import types linked: the targets are what
these refer to, and node by node it is the same but for them. -/
structure TypesLinked (cx : Context) (earlier : SeenSet Url) (s : State) (f : Url) (ps : List Piece)
    (τ : Targets) (i : Item) : Prop where
  shown : Piece.ofFile f (i.link τ) ∈ ps
  targets : ∀ spot ∈ i.spots [], ∀ key, spot.node.key? = some key →
    TargetOf cx earlier s f key (τ key)
  means : ∀ spot ∈ i.spots [], ∀ key file head, spot.node.key? = some key →
    cx.inChunk? key.specifier f = some file → key.head = some head → ∀ v g k,
      τ key = some (.binding v) → cx.Means (.exported file head) g k →
        s.root.env.lookup g k = some v
  nodes : List.Forall₂ (fun a b => a.node.Becomes τ b.node) (i.spots []) ((i.link τ).spots [])

theorem mem_collect_of_spot {i : Item} {spot : Spot} (hspot : spot ∈ i.spots [])
    (hkey : spot.node.key? = some key) : key ∈ i.collect pickKey :=
  i.keys_spots [] key (List.mem_filterMap.2 ⟨spot, hspot, hkey⟩)

theorem TypesLinked.of_targets {ps : List Piece} {τ : Targets} {i : Item}
    (hshown : Piece.ofFile f (i.link τ) ∈ ps)
    (h : ∀ key ∈ i.collect pickKey, TargetOf cx earlier s f key (τ key)) :
    TypesLinked cx earlier s f ps τ i where
  shown := hshown
  targets _ hspot key hkey := h key (mem_collect_of_spot hspot hkey)
  means _ hspot key _ _ hkey hin hhead _ _ _ hv :=
    (hv ▸ h key (mem_collect_of_spot hspot hkey)).lookup_of_means hin hhead
  nodes := i.becomes_link τ [] []

/-- What stands for the statements of finished files has its import types linked. -/
theorem Run.targetsShown {n : Nat} {r : Role} {files : List Url} {t : State} {y : Yield}
    {ps : List Piece} (h : Run cx n r files s y t) (hg : OnTrack cx earlier files s)
    (hs : OfFinished cx earlier (ShownWith cx (TargetOf cx earlier)) files s ps) :
    OfFinished cx earlier (ShownWith cx (TargetOf cx earlier)) files t
      (ps ++ if s.inBlock then [] else y.pieces) := by
  have hc := sustains_onTrack cx earlier
  have hlasts : TargetsLast (Lasts cx) (TargetOf cx earlier) := fun _ _ _ _ _ hl ht => ht.lasts hl
  refine h.ofFinished hc (lasting_shownWith hlasts) ?_ hg hs
  intro n q files file s t ps hg hb hin prints
  exact prints.shownWith hc hlasts (fun _ _ _ _ _ _ _ links => links.targetOf) hg hb rfl hin rfl

section Merged

variable {included included' : SeenSet Url} {m : Merged} {warnings : List Warning}

/-- In each statement of a file that a chunk inlines the import types are replaced by what they
refer to, under its final names, and all else is as it was. -/
theorem import_types_linked (h : mergeChunk? cx included = some (m, included', warnings))
    (hf : included'.contains f = true) (hnew : included.contains f = false) :
    ∃ s made ps, m = finish cx.chunk s ∧ m.pieces = made ++ dropRepeatedExports ps ∧
      (∀ p ∈ made, p.owner = .chunk) ∧
      ∀ i ∈ cx.statements f, ∃ keep env τ, ∀ node ∈ shown cx f false keep env i,
        TypesLinked cx included s f ps τ (node.rename (Rename.ofEnvironment m.names f)) := by
  obtain ⟨s, run, rfl, rfl, _⟩ := mergeChunk_run h
  have hshown := run.targetsShown (.start cx included) (.start _ included)
  refine ⟨s, _, s.root.items, rfl, rfl, fun _ => owner_of_mem_made, fun i hi => ?_⟩
  obtain ⟨keep, env, τ, hnodes⟩ := hshown f hf hnew (by simp) i hi
  refine ⟨keep, env, τ, fun node hnode => ?_⟩
  obtain ⟨hmem, htargets⟩ := hnodes node hnode
  simp only [Yield.pieces_empty, ite_self, List.append_nil] at hmem
  exact .of_targets hmem htargets

end Merged

/-- `type W = import("/a.d.ts").A;`, with type parameters and with more names behind it. -/
def aliasOfImport (tparams : List TypeParam) (tail : List String) : Item :=
  .decl (.typeAlias (.made "W") false tparams
    (.imported (StrLit.made "/a.d.ts") none (some ⟨"A", tail⟩) []))

/-- `/a.d.ts` has a class, and the entry `/i.d.ts` the given statements. -/
def besideClass (is : List Item) : Context := .ofFiles
  [("/a.d.ts", [.exportDecl (emptyClass "A")]), ("/i.d.ts", is)]

/-- `declare class A {} type W = import("/a.d.ts").A.B;` -/
def besideOther : Context := besideClass [.decl (emptyClass "A"), aliasOfImport [] ["B"]]

theorem means_besideOther :
    besideOther.Means (.exported (.ofPath "/a.d.ts") "A") (.ofPath "/a.d.ts") "A" := by
  have hclosed : besideOther.ClosedFor [.exported (.ofPath "/a.d.ts") "A",
      .own (.ofPath "/a.d.ts") "A"] (.ofPath "/a.d.ts") "A" := by decide +kernel
  exact hclosed.means (by simp) (.next (b := .own (.ofPath "/a.d.ts") "A") (by decide +kernel)
    (.here (by decide +kernel)))

theorem live_besideOther {busy : Url → Prop} :
    Live besideOther ∅ busy (.ofPath "/a.d.ts") "A" (.decl (.ofPath "/a.d.ts") "A") := by
  have hx : besideOther.explicit? (.ofPath "/a.d.ts") "A" =
      some (.named "A" "A" none (some ⟨.ofPath "/a.d.ts", 0⟩)) := by decide +kernel
  exact .declared hx (by decide) (by decide +kernel)

set_option maxRecDepth 100000 in
/-- The alias refers to the class of `/a.d.ts`, which has a new name there. -/
theorem import_types_linked_alias :
    (mergeChunk? besideOther ∅).any (fun r => r.2.1.contains (.ofPath "/i.d.ts") &&
        r.1.names.lookup (.ofPath "/a.d.ts") "A" == some "A_1") ∧
      ∃ m included' warnings, mergeChunk? besideOther ∅ = some (m, included', warnings) ∧
        ∃ made ps id, m.pieces = made ++ dropRepeatedExports ps ∧
          Piece.ofFile (.ofPath "/i.d.ts") (.decl (.typeAlias id false []
            (.ref ⟨"A_1", ["B"]⟩ []))) ∈ ps := by
  have hmerged : (mergeChunk? besideOther ∅).any (fun r => r.2.1.contains (.ofPath "/i.d.ts") &&
      r.1.names.lookup (.ofPath "/a.d.ts") "A" == some "A_1") := by decide +kernel
  obtain ⟨⟨m, included', warnings⟩, hm, hr⟩ := (Option.any_eq_true _ _).1 hmerged
  obtain ⟨hf, hname⟩ := Bool.and_eq_true_iff.1 hr
  obtain ⟨s, made, ps, rfl, hpieces, -, hall⟩ := import_types_linked hm hf rfl
  have hi : aliasOfImport [] ["B"] ∈ besideOther.statements (.ofPath "/i.d.ts") :=
    List.mem_cons_of_mem _ (List.mem_singleton_self _)
  obtain ⟨keep, env, τ, hnodes⟩ := hall _ hi
  obtain ⟨hshown, htargets, hmeans, -⟩ := hnodes _ (List.mem_singleton_self _)
  have hspot : ⟨.ty (.imported (StrLit.made "/a.d.ts") none (some ⟨"A", ["B"]⟩) []), []⟩ ∈
      ((aliasOfImport [] ["B"]).rename (Rename.ofEnvironment (finish besideOther.chunk s).names
        (.ofPath "/i.d.ts"))).spots [] := .tail _ (.tail _ (.head _))
  have hin : besideOther.inChunk? "/a.d.ts" (.ofPath "/i.d.ts") = some (.ofPath "/a.d.ts") := by
    decide +kernel
  obtain ⟨v, hv, -⟩ :=
    (htargets _ hspot ⟨"/a.d.ts", some "A"⟩ rfl).binding_of_live hin rfl live_besideOther
  have hlookup := hmeans _ hspot _ _ _ rfl hin rfl v _ _ hv means_besideOther
  obtain rfl : "A_1" = v := Option.some.inj ((beq_iff_eq.1 hname).symm.trans hlookup)
  have hlink : linkImported τ (StrLit.made "/a.d.ts") none (some ⟨"A", ["B"]⟩) [] =
      .ref ⟨"A_1", ["B"]⟩ [] := by
    rw [linkImported, show keyOf (StrLit.made "/a.d.ts") (some ⟨"A", ["B"]⟩) = ⟨"/a.d.ts", some "A"⟩
      from rfl, hv]
    rfl
  let ρ := Rename.ofEnvironment (finish besideOther.chunk s).names (.ofPath "/i.d.ts")
  have hpiece : Piece.ofFile (.ofPath "/i.d.ts") (.decl (.typeAlias (Ident.rename ρ (.made "W"))
    false [] (linkImported τ (StrLit.made "/a.d.ts") none (some ⟨"A", ["B"]⟩) []))) ∈ ps := hshown
  rw [hlink] at hpiece
  exact ⟨hmerged, _, included', warnings, hm, made, ps, _, hpieces, hpiece⟩

/-- `type W<A> = import("/a.d.ts").A; export { W };` -/
def shadowing : Context := besideClass
  [aliasOfImport [.mk [] "A" none none] [], Exports.list [Exports.specifier "W" "W"]]

/-- Whether the statement is, if a type alias, one for `A`. -/
def isAliasOfA : Item → Bool
  | .decl (.typeAlias _ _ _ (.ref name _)) => name == ⟨"A", []⟩
  | .decl (.typeAlias ..) => false
  | _ => true

set_option maxRecDepth 100000 in
/-- The type parameter of the alias takes the reference to the class. -/
theorem import_type_captured :
    ¬∀ m included' warnings, mergeChunk? shadowing ∅ = some (m, included', warnings) →
      ∀ f, included'.contains f = true → ∀ i ∈ shadowing.statements f, ∃ keep env τ,
        ∀ node ∈ shown shadowing f false keep env i,
          let j := node.rename (Rename.ofEnvironment m.names f)
          Piece.ofFile f (j.link τ) ∈ m.pieces ∧ ∀ spot ∈ j.spots [], ∀ key v,
            spot.node.key? = some key → τ key = some (.binding v) → v ∉ spot.bound := by
  intro hfree
  have hmerged : (mergeChunk? shadowing ∅).any (fun r => r.2.1.contains (.ofPath "/i.d.ts") &&
      r.1.pieces.all (fun p => isAliasOfA p.item)) := by decide +kernel
  obtain ⟨⟨m, included', warnings⟩, hm, hr⟩ := (Option.any_eq_true _ _).1 hmerged
  obtain ⟨hf, haliases⟩ := Bool.and_eq_true_iff.1 hr
  have hi : aliasOfImport [.mk [] "A" none none] [] ∈ shadowing.statements (.ofPath "/i.d.ts") :=
    List.mem_cons_self
  obtain ⟨keep, env, τ, hnodes⟩ := hfree m included' warnings hm _ hf _ hi
  obtain ⟨hmem, hnone⟩ := hnodes _ (List.mem_singleton_self _)
  let ρ := Rename.ofEnvironment m.names (.ofPath "/i.d.ts")
  have halias : isAliasOfA (.decl (.typeAlias (Ident.rename ρ (.made "W")) false
      [.mk [] "A" none none] (linkImported τ (StrLit.made "/a.d.ts") none (some ⟨"A", []⟩) []))) =
        true := List.all_eq_true.1 haliases _ hmem
  unfold linkImported at halias
  have hkey : keyOf (StrLit.made "/a.d.ts") (some ⟨"A", []⟩) = ⟨"/a.d.ts", some "A"⟩ := rfl
  rw [hkey] at halias
  cases hτ : τ ⟨"/a.d.ts", some "A"⟩ with
  | none => simp [hτ, isAliasOfA] at halias
  | some target =>
    cases target with
    | specifier text => simp [hτ, isAliasOfA] at halias
    | binding v =>
      obtain rfl : v = "A" := by simpa [hτ, isAliasOfA, entity] using halias
      have hspot : ⟨.ty (.imported (StrLit.made "/a.d.ts") none (some ⟨"A", []⟩) []), ["A"]⟩ ∈
          ((aliasOfImport [.mk [] "A" none none] []).rename ρ).spots [] :=
        .tail _ (.tail _ (.tail _ (.head _)))
      exact hnone _ hspot _ _ rfl hτ (List.mem_singleton_self _)

end AmbientBundle.Merge
