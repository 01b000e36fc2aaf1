import AmbientBundle.Proofs.Merge.BlockNames
/-!
Collecting the exports of a file inside of blocks: the final names fit what the file exports, and a
name for which nothing is found is warned about.
-/
namespace AmbientBundle.Merge

open Names Step Syntax

variable {cx : Context} {earlier : SeenSet Url} {n : Nat} {files : List Url} {s t : State}
  {os : List Opening} {ws : List (SeenSet Url × List Opening)} {target : Url} {root : Environment}
  {c : Collected} {name f : String}

/-- What fits an export fits it where a file has it from its stars. -/
theorem FitsIn.inherit {g : Url} (h : FitsIn cx root os (.exported g name) f)
    (hpath : cx.Inherits name target g) (hd : name ≠ "default") :
    FitsIn cx root os (.exported target name) f := by
  induction hpath using Relation.ReflTransGen.head_induction_on with
  | refl => exact h
  | @head g₁ g₂ hstep _ ih =>
    obtain ⟨⟨src, hsrc, hin⟩, hlists⟩ := hstep
    have hx : cx.explicit? g₁ name = none := by simpa [Context.Lists] using hlists
    exact ih.next (Context.takeFrom_of_inChunk? hin ▸ Context.follow_star hx hd hsrc)

/-- The final name fits the export inside of the blocks. -/
def FitsExport (cx : Context) (os : List Opening) (t : State) (g : Url) (name final : String) :
    Prop :=
  FitsIn cx t.root.env os (.exported g name) final

/-- It was warned that nothing is found for the export. -/
def Unknown (t : State) (g : Url) (name : String) : Prop := .unknownExport g name ∈ t.warnings

/-- Inside of blocks final names fit, and where nothing is found it is warned about. -/
theorem collecting_inBlocks (hd : cx.ImportsApart) (earlier : SeenSet Url) (files : List Url)
    (os : List Opening) (ws : List (SeenSet Url × List Opening)) :
    Collecting cx files (Standing cx earlier files os ws) (FitsExport cx os) Unknown where
  formed hs := hs.grounded.formed
  carries hs run :=
    ⟨hs.run hd run, fun _ _ _ hf => hf.widen (run.widens hd hs.grounded.rooted),
      fun _ _ hw => run.onward.warnings.subset hw⟩
  finds hs hlead hhas hasked _ h :=
    findsIn hd earlier _ hs.grounded hs.blocks hlead hhas hasked h
  misses _ _ _ _ _ _ := List.mem_append_right _ (List.mem_singleton_self _)

/-- Collecting from nothing inside of blocks: what is collected fits what the file exports, and
everything is collected that the file and its stars export, or it is warned about. -/
theorem collect_fitsIn (hd : cx.ImportsApart) (hs : Standing cx earlier files os ws s)
    (hlead : cx.LeadTo files target) (hhas : cx.HasFile target) (hopen : AtHand s target)
    (h : collect cx n target false Collected.empty s = some (c, t)) :
    (∀ name f, (name, f) ∈ c.names → (∃ g, cx.Offers target false g name) ∧
        FitsIn cx t.root.env os (.exported target name) f) ∧
      ∀ g name, cx.Offers target false g name →
        name ∈ c.names.map Prod.fst ∨ ∃ g, .unknownExport g name ∈ t.warnings := by
  obtain ⟨-, hc⟩ :=
    (collecting_inBlocks hd earlier files os ws).collects hs hlead hhas hopen h
  refine ⟨fun name f he => ?_, fun g name ho => ?_⟩
  · rcases hc.gathers.sound name f he with he | ⟨_, g, ho, hpath, hf⟩
    · cases he
    · exact ⟨⟨g, ho⟩, FitsIn.inherit hf hpath (fun hdef => by cases (ho.default hdef).2)⟩
  · exact (hc.all ho).imp_right (fun ⟨g, _, hw⟩ => ⟨g, hw⟩)

end AmbientBundle.Merge
