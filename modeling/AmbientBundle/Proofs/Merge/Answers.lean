import AmbientBundle.Proofs.Merge.Inversion
import AmbientBundle.Proofs.Merge.Linking
/-!
Resolving an export at the root: what is found is what the name means, and nothing is found only
where every way to a declaration leads to an import that is not linked yet.
-/
namespace AmbientBundle.Merge

open Syntax

variable {cx : Context} {earlier : SeenSet Url} {n : Nat} {r : Role} {files pending : List Url}
  {s t : State} {y : Yield}

variable {busy : Url → Prop} {target file : Url} {name : String} {v v' : Visited}
  {found : Option String}

theorem AtRoot.run (hs : AtRoot cx earlier files pending s) (hans : ∀ k < n, Answers cx earlier k)
    (run : Run cx n r files s y t) : AtRoot cx earlier files pending t :=
  ⟨run.inBlock_eq.trans hs.root, (run.formed hs.formed).1, run.rooted hs.rooted,
    hs.subset, (run.linked hans hs.formed hs.rooted hs.subset hs.linked).1⟩

theorem AtRoot.include (hs : AtRoot cx earlier files pending s) (hans : ∀ k < n, Answers cx earlier k)
    (hlead : cx.LeadTo files file) (hhas : cx.HasFile file) {u : Unit}
    (h : includeFile cx n file .dependency s = some (u, t)) :
    AtRoot cx earlier files pending t ∧ Grows s t ∧ t.included.contains file = true := by
  obtain ⟨run, hincluded⟩ := (calls cx n).includeFile (r := .dependency)
    ⟨hs.formed, hlead, hhas⟩ (by simp) h
  exact ⟨hs.run hans run, run.grows, hincluded hs.root⟩

/-- A name that is stuck by itself, behind the names that were visited before. -/
theorem Answer.of_stuck (h : Stuck cx earlier busy ((target, name) :: v) (target, name)) :
    Answer cx earlier busy v t target name none ((target, name) :: v) := by
  refine .stuck (List.subset_cons_self _ _) (by simp) (fun a ha => ?_)
  rcases List.mem_cons.1 ha with rfl | ha
  · exact Or.inr h
  · exact Or.inl ha

/-- An export of a name that the file declares or imports. -/
theorem answer_listed {k property : String} {id : Option DeclId} (hs : AtRoot cx earlier files pending s)
    (hinc : s.included.contains target = true) (hbusy : ∀ g ∈ pending, busy g)
    (hx : cx.explicit? target name = some (.named k property none id)) :
    Answer cx earlier busy v s target name (s.lookup target property) ((target, name) :: v) := by
  rw [State.lookup, State.scope_of_root hs.root]
  cases hl : s.root.env.lookup target property with
  | some f =>
    exact .found ((hs.linked.sound target property f hl).next (Context.follow_listed hx))
  | none =>
    have hnone : ¬(s.root.env.lookup target property).isSome := by simp [hl]
    refine .of_stuck ⟨fun hx' hnew => ?_, by simp [hx], by simp [hx], by simp [hx]⟩
    rw [hx] at hx'
    cases hx'
    refine ⟨fun hd => hnone (hs.linked.bound target property hinc hnew hd), ?_⟩
    rintro hidle e he rfl hl
    exact hnone (hs.linked.done target hinc hnew (fun hf => hidle (hbusy target hf)) e he hl)

/-- An export of a name that the file takes from another one of the chunk. -/
theorem Answer.of_source {k property src : String} {id : Option DeclId}
    (hx : cx.explicit? target name = some (.named k property (some src) id))
    (hin : cx.inChunk? src target = some file)
    (h : Answer cx earlier busy ((target, name) :: v) t file property found v') :
    Answer cx earlier busy v t target name found v' := by
  cases h with
  | found h =>
    exact .found (h.next (Context.takeFrom_of_inChunk? hin ▸ Context.follow_source hx))
  | stuck hsub hmem hstuck =>
    refine .stuck (fun a ha => hsub (by simp [ha])) (hsub (by simp)) (fun a ha => ?_)
    rcases hstuck a ha with ha | ha
    · rcases List.mem_cons.1 ha with rfl | ha
      · refine Or.inr ⟨by simp [hx], fun hx' => ?_, by simp [hx], by simp [hx]⟩
        rw [hx] at hx'
        cases hx'
        exact ⟨file, hin, hmem⟩
      · exact Or.inl ha
    · exact Or.inr ha

/-- The outcome of looking for a name in some stars of a file. If nothing is found the name may
still come from a star that leads out of the chunk. -/
inductive StarAnswer (cx : Context) (earlier : SeenSet Url) (busy : Url → Prop) (v : Visited)
    (t : State) (target : Url) (name : String) (stars : List ExportedSymbol) :
    Option String → Option String → Visited → Prop where
  | found {f : String} {outer : Option String} {v' : Visited}
      (h : Denotes cx t (.exported target name) f) :
      StarAnswer cx earlier busy v t target name stars (some f) outer v'
  | stuck {outer : Option String} {v' : Visited} (hsub : v ⊆ v')
      (hstuck : ∀ a ∈ v', a ∈ v ∨ Stuck cx earlier busy v' a)
      (hstars : ∀ src, .all src ∈ stars → outer = none →
        ∃ file, cx.inChunk? src target = some file ∧ (file, name) ∈ v') :
      StarAnswer cx earlier busy v t target name stars none outer v'

namespace StarAnswer

variable {stars : List ExportedSymbol} {e : ExportedSymbol} {src : String} {outer : Option String}

/-- An export that is no star is not asked, and nothing is when the name is found. -/
theorem skip (h : StarAnswer cx earlier busy v t target name stars found outer v')
    (hskip : found = none → ∀ src, e ≠ .all src) :
    StarAnswer cx earlier busy v t target name (stars ++ [e]) found outer v' := by
  cases h with
  | found hf => exact .found hf
  | stuck hsub hstuck hstars =>
    refine .stuck hsub hstuck (fun src hmem hout => ?_)
    rcases List.mem_append.1 hmem with hmem | hmem
    · exact hstars src hmem hout
    · exact absurd (List.mem_singleton.1 hmem).symm (hskip rfl src)

/-- A star that leads out of the chunk may give the name. -/
theorem leave (h : StarAnswer cx earlier busy v t target name stars none outer v') (first : String) :
    StarAnswer cx earlier busy v t target name (stars ++ [e]) none (some first) v' := by
  cases h with
  | stuck hsub hstuck _ => exact .stuck hsub hstuck (by simp)

/-- A star that leads to a file of the chunk gives what the file answers. -/
theorem follow {v₁ : Visited} (h : StarAnswer cx earlier busy v s target name stars none outer v₁)
    (hin : cx.inChunk? src target = some file)
    (hstar : .go (.exported file name) ∈ cx.follow (.exported target name))
    (hanswer : Answer cx earlier busy v₁ t file name found v') :
    StarAnswer cx earlier busy v t target name (stars ++ [.all src]) found outer v' := by
  cases hanswer with
  | found hf => exact .found (hf.next hstar)
  | stuck hsub' hmem' hstuck' =>
    cases h with
    | stuck hsub hstuck hstars =>
      refine .stuck (List.Subset.trans hsub hsub') (fun a ha => ?_) (fun src' hmem hout => ?_)
      · rcases hstuck' a ha with ha | ha
        · exact (hstuck a ha).imp_right (fun ha => ha.mono hsub')
        · exact Or.inr ha
      · rcases List.mem_append.1 hmem with hmem | hmem
        · obtain ⟨file', hin', hfile⟩ := hstars src' hmem hout
          exact ⟨file', hin', hsub' hfile⟩
        · obtain rfl : src' = src := by simpa using hmem
          exact ⟨file, hin, hmem'⟩

end StarAnswer

/-- Looking for a name in the stars of a file with depth `k` at the root gives an answer. -/
def StarAnswers (cx : Context) (earlier : SeenSet Url) (k : Nat) : Prop :=
  ∀ ⦃files pending : List Url⦄ ⦃busy : Url → Prop⦄ ⦃target : Url⦄ ⦃name : String⦄ ⦃v v' : Visited⦄
    ⦃s t : State⦄ ⦃found : Option String⦄, AtRoot cx earlier files pending s → cx.LeadTo files target →
    cx.HasFile target → cx.Writes name → name ≠ "default" → cx.explicit? target name = none →
    (∀ g ∈ pending, busy g) → resolveInStars cx k target name v s = some ((found, v'), t) →
    StarAnswer cx earlier busy v t target name (cx.exports target) found none v'

/-- The part of the stars that was asked. A star that leads out of the chunk may give the name. -/
theorem stars_answer (hans : ∀ k < n, Answers cx earlier k) (hn : Answers cx earlier n)
    (hs : AtRoot cx earlier files pending s) (hlead : cx.LeadTo files target) (hhas : cx.HasFile target)
    (hname : cx.Writes name) (hd : name ≠ "default") (hx : cx.explicit? target name = none)
    (hbusy : ∀ g ∈ pending, busy g) {b : Option String × Option String × Visited}
    (h : Step.Folds (StarStep cx n target name) (cx.exports target) (none, none, v) s b t) :
    StarAnswer cx earlier busy v t target name (cx.exports target) b.1 b.2.1 b.2.2 ∧
      (b.2.1.isSome → cx.Leads (.exported target name) .other) := by
  have H : AtRoot cx earlier files pending t ∧
      StarAnswer cx earlier busy v t target name (cx.exports target) b.1 b.2.1 b.2.2 ∧
        (b.2.1.isSome → cx.Leads (.exported target name) .other) := by
    refine h.inv (fun done b s' => AtRoot cx earlier files pending s' ∧
      StarAnswer cx earlier busy v s' target name done b.1 b.2.1 b.2.2 ∧
        (b.2.1.isSome → cx.Leads (.exported target name) .other))
      ⟨hs, .stuck (List.Subset.refl _) (fun a ha => Or.inl ha) (by simp), by simp⟩ ?_
    rintro done e ⟨f₁, outer₁, v₁⟩ b₂ s₁ s₂ he ⟨hs₁, hb₁, hother⟩ hstep
    have hstar (src : String) (hsrc : e = .all src) :=
      Context.follow_star hx hd (hsrc ▸ he)
    cases hstep with
    | skip hskip => exact ⟨hs₁, hb₁.skip hskip, hother⟩
    | @outer src _ _ _ hsrc hin =>
      exact ⟨hs₁, hb₁.leave _, fun _ => .here (Context.takeFrom_of_none hin ▸ hstar src hsrc)⟩
    | @inner src _ found₂ _ v₂ file _ s₃ _ hsrc hin hinc h =>
      have hlinks : cx.Links target file := .exported he (hsrc ▸ rfl) hin
      obtain ⟨hs₃, hg, hfile⟩ := hs₁.include hans (hlead.tail hlinks) (.linked hhas hlinks) hinc
      have run := ((calls cx n).resolveExport (r := .dependency)
        ⟨hs₃.formed, hlead.tail hlinks, .linked hhas hlinks⟩ (Or.inr hname) h).1
      have hanswer := hn hs₃ (hlead.tail hlinks) (.linked hhas hlinks) (Or.inr hname) hfile
        hbusy h
      refine ⟨hs₃.run hans run, ?_, hother⟩
      rw [hsrc]
      exact hb₁.follow hin (Context.takeFrom_of_inChunk? hin ▸ hstar src hsrc) hanswer
  exact H.2

theorem starAnswers_succ (hans : ∀ k < n, Answers cx earlier k) (hn : Answers cx earlier n) :
    StarAnswers cx earlier (n + 1) := by
  intro files pending busy target name v v' s t found hs hlead hhas hname hd hx hbusy h
  obtain ⟨b, s₁, hfold, hend⟩ := resolveInStars_inv h
  obtain ⟨hanswer, hother⟩ := stars_answer hans hn hs hlead hhas hname hd hx hbusy hfold
  cases hend with
  | found =>
    cases hanswer with
    | found h => exact .found h
  | outer => exact .found (.of_other (hother rfl))
  | none => exact hanswer

/-- An export of a name that only the stars of the file may have. -/
theorem Answer.of_stars (hx : cx.explicit? target name = none)
    (h : StarAnswer cx earlier busy ((target, name) :: v) t target name (cx.exports target)
      found none v') : Answer cx earlier busy v t target name found v' := by
  cases h with
  | found h => exact .found h
  | stuck hsub hstuck hstars =>
    refine .stuck (fun a ha => hsub (by simp [ha])) (hsub (by simp)) (fun a ha => ?_)
    rcases hstuck a ha with ha | ha
    · rcases List.mem_cons.1 ha with rfl | ha
      · exact Or.inr ⟨by simp [hx], by simp [hx], by simp [hx], fun _ _ hs => hstars _ hs rfl⟩
      · exact Or.inl ha
    · exact Or.inr ha

theorem answers_succ (hans : ∀ k < n, Answers cx earlier k) (hn : Answers cx earlier n)
    (hstars : StarAnswers cx earlier n) : Answers cx earlier (n + 1) := by
  intro files pending busy target name v v' s t found hs hlead hhas hname hinc hbusy h
  cases resolveExport_inv h with
  | again hv => exact .stuck (List.Subset.refl _) hv (fun a ha => Or.inl ha)
  | listed hx => exact answer_listed hs hinc hbusy hx
  | source hx hin hinc' h =>
    obtain ⟨hlinks, hasked⟩ := Calls.explicit_asks hhas hx hin
    obtain ⟨hs₁, _, hfile⟩ := hs.include hans (hlead.tail hlinks) (.linked hhas hlinks) hinc'
    exact .of_source hx hin
      (hn hs₁ (hlead.tail hlinks) (.linked hhas hlinks) hasked hfile hbusy h)
  | outer hx hin =>
    exact .found (.of_other (.here (Context.takeFrom_of_none hin ▸ Context.follow_source hx)))
  | space hx => exact .found (.of_other (.here (Context.follow_space hx)))
  | outerSpace hx => exact .found (.of_other (.here (Context.follow_space hx)))
  | noDefault hx hd =>
    exact .of_stuck ⟨by simp [hx], by simp [hx], by simp [hx], fun _ hd' => absurd hd hd'⟩
  | stars hx hd h =>
    exact .of_stars hx (hstars hs hlead hhas (hname.resolve_left hd) hd hx hbusy h)

/-- Resolving an export at the root gives an answer, at any depth. -/
theorem answers (cx : Context) (earlier : SeenSet Url) (k : Nat) : Answers cx earlier k := by
  refine resolve_induction (P := Answers cx earlier) (Q := StarAnswers cx earlier) ?_ ?_
    (fun n hans hn hstars => answers_succ hans hn hstars)
    (fun n hans hn => starAnswers_succ hans hn) k
  · intro files pending busy target name v v' s t found _ _ _ _ _ _ h
    exact (Step.failure_inv h).elim
  · intro files pending busy target name v v' s t found _ _ _ _ _ _ _ h
    exact (Step.failure_inv h).elim

end AmbientBundle.Merge
