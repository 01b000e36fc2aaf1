import AmbientBundle.Proofs.Merge.Presence
import AmbientBundle.Proofs.Merge.Tracing
/-!
What takes the place of import types at the root: another specifier for a module outside of the
chunk, the name of a namespace block for a whole file, and for an export of a file the final name of
what the export comes from. An export for which nothing is found is not live.
-/
namespace AmbientBundle.Merge

open Names Syntax ImportTypes

variable {cx : Context} {earlier : SeenSet Url} {n : Nat} {files : List Url} {s t : State} {g : Url}
  {key : ImportTypeKey}

/-- As far as following names goes, what comes from outside of the chunk is something else. -/
def Origin.denoted : Origin → Denoted
  | .decl file name => .decl file name
  | _ => .other

namespace Context

variable {a : Reference} {o : Origin} {f : Url} {src : String} {imported : ImportedName}

theorem outerOrigin?_inv (h : cx.outerOrigin? src f imported = some o) :
    cx.inChunk? src f = none ∧ o.denoted = .other := by
  unfold outerOrigin? at h
  split at h
  · rename_i hin
    cases h
    exact ⟨hin, rfl⟩
  · cases h

theorem denoted_spaceOrigin (src : String) (f : Url) : (cx.spaceOrigin src f).denoted = .other := by
  unfold spaceOrigin
  split <;> rfl

theorem imported_of_importOrigin? {e : ImportDecl × ImportSpecifier}
    (h : cx.importOrigin? f e = some o) : cx.imported f e = .arrive o.denoted := by
  unfold importOrigin? at h
  split at h
  · rename_i hall
    cases h
    rw [imported, hall, denoted_spaceOrigin]
    rfl
  · obtain ⟨hout, hdenoted⟩ := outerOrigin?_inv h
    rw [imported_of_none (Or.inl hout), hdenoted]

/-- Following a name leads to what is an origin of it. -/
theorem arrive_of_mem_origins (h : o ∈ cx.origins a) : .arrive o.denoted ∈ cx.follow a := by
  cases a with
  | own file x =>
    rcases List.mem_append.1 h with h | h
    · split at h
      · rename_i hd
        cases List.mem_singleton.1 h
        simp [follow, hd, Origin.denoted]
      · cases h
    · obtain ⟨e, he, ho⟩ := List.mem_filterMap.1 h
      exact List.mem_append_right _ (List.mem_map.2 ⟨e, he, imported_of_importOrigin? ho⟩)
  | exported file name =>
    simp only [origins] at h
    split at h
    · rename_i hx
      obtain ⟨hout, hdenoted⟩ := outerOrigin?_inv (Option.mem_toList.1 h)
      rw [hdenoted, ← takeFrom_of_none hout]
      exact follow_source hx
    · rename_i hx
      cases List.mem_singleton.1 h
      simp [follow, hx, denoted_spaceOrigin]
    · cases h
    · rename_i hx
      split at h
      · cases h
      · rename_i hd
        obtain ⟨e, he, ho⟩ := List.mem_filterMap.1 h
        cases e with
        | all src =>
          obtain ⟨hout, hdenoted⟩ := outerOrigin?_inv ho
          rw [hdenoted, ← takeFrom_of_none hout]
          exact follow_star hx hd he
        | named => cases ho
        | allAs => cases ho

theorem From.leads (h : cx.From a o) : cx.Leads a o.denoted := by
  induction h with
  | here ho => exact .here (arrive_of_mem_origins ho)
  | next hb _ ih => exact .next hb ih

end Context

/-- What comes from a name that means a declaration is the declaration's final name. -/
theorem Came.lookup_of_means {a : Reference} {v : String} (h : Came cx s a v) {g : Url} {k : String}
    (hm : cx.Means a g k) : s.root.env.lookup g k = some v := by
  obtain ⟨o, hfrom, hstands⟩ := h
  have honly {o' : Origin} (hfrom' : cx.From a o') : o' = .decl g k := by
    have hdenoted := hm.only _ hfrom'.leads
    cases o' with
    | decl file name =>
      cases hdenoted
      rfl
    | outer => cases hdenoted
    | space => cases hdenoted
  obtain rfl := honly hfrom
  rcases hstands with hnamed | ⟨file, name, o', ho, hfrom', hne⟩
  · exact hnamed
  · cases ho
    exact absurd (honly (hfrom.through hfrom')) hne

/-- What takes the place of the import types of a file that have the given key. -/
inductive TargetOf (cx : Context) (earlier : SeenSet Url) (s : State) (g : Url)
    (key : ImportTypeKey) : Option Target → Prop where
  | outside (hout : cx.inChunk? key.specifier g = none) :
      TargetOf cx earlier s g key (some (.specifier (cx.placeSpecifier key.specifier g)))
  | exported {file : Url} {head v : String} (hin : cx.inChunk? key.specifier g = some file)
      (hhead : key.head = some head) (hcame : Came cx s (.exported file head) v) :
      TargetOf cx earlier s g key (some (.binding v))
  | space {file : Url} {v : String} (hin : cx.inChunk? key.specifier g = some file)
      (hhead : key.head = none) (hnamed : (Origin.space file).Named s v) :
      TargetOf cx earlier s g key (some (.binding v))
  | dead {file : Url} {head : String} (hin : cx.inChunk? key.specifier g = some file)
      (hhead : key.head = some head)
      (hdead : ∀ τ, ¬Live cx earlier (Relation.ReflTransGen cx.Links · g) file head τ) :
      TargetOf cx earlier s g key none

theorem Lasts.space (h : Lasts cx s t) {file : Url} {v : String}
    (hv : (Origin.space file).Named s v) : (Origin.space file).Named t v := by
  rcases h v (.space file) (Or.inl hv) with hv | ⟨f, x, o, ho, -⟩
  · exact hv
  · cases ho

theorem TargetOf.lasts {target : Option Target} (h : TargetOf cx earlier s g key target)
    (hl : Lasts cx s t) : TargetOf cx earlier t g key target := by
  cases h with
  | outside hout => exact .outside hout
  | exported hin hhead hcame => exact .exported hin hhead (hcame.lasts hl)
  | space hin hhead hnamed => exact .space hin hhead (hl.space hnamed)
  | dead hin hhead hdead => exact .dead hin hhead hdead

theorem TargetOf.lookup_of_means {v : String}
    (htarget : TargetOf cx earlier s g key (some (.binding v)))
    {file h : Url} {head k : String} (hin : cx.inChunk? key.specifier g = some file)
    (hhead : key.head = some head) (hm : cx.Means (.exported file head) h k) :
    s.root.env.lookup h k = some v := by
  cases htarget with
  | exported hin' hhead' hcame =>
    obtain rfl := Option.some.inj (hin.symm.trans hin')
    obtain rfl := Option.some.inj (hhead.symm.trans hhead')
    exact hcame.lookup_of_means hm
  | space _ hhead' => cases hhead.symm.trans hhead'

/-- An export that is live is found. -/
theorem TargetOf.binding_of_live {target : Option Target}
    (htarget : TargetOf cx earlier s g key target) {file : Url} {head : String} {τ : Denoted}
    (hin : cx.inChunk? key.specifier g = some file) (hhead : key.head = some head)
    (hlive : Live cx earlier (Relation.ReflTransGen cx.Links · g) file head τ) :
    ∃ v, target = some (.binding v) ∧ Came cx s (.exported file head) v := by
  cases htarget with
  | outside hout => cases hin.symm.trans hout
  | exported hin' hhead' hcame =>
    obtain rfl := Option.some.inj (hin.symm.trans hin')
    obtain rfl := Option.some.inj (hhead.symm.trans hhead')
    exact ⟨_, rfl, hcame⟩
  | space _ hhead' => cases hhead.symm.trans hhead'
  | dead hin' hhead' hdead =>
    obtain rfl := Option.some.inj (hin.symm.trans hin')
    obtain rfl := Option.some.inj (hhead.symm.trans hhead')
    exact absurd hlive (hdead τ)

/-- What holds all the time while a chunk is merged. -/
structure OnTrack (cx : Context) (earlier : SeenSet Url) (files : List Url) (s : State) : Prop where
  formed : FormedState cx s
  rooted : Rooted files s
  linked : Linked cx earlier files s
  traced : Traced cx s

namespace OnTrack

theorem start (cx : Context) (earlier : SeenSet Url) : OnTrack cx earlier [] (.start earlier) :=
  ⟨.start earlier, .start earlier, .start earlier, .start cx earlier⟩

theorem run {r : Role} {y : Yield} (h : OnTrack cx earlier files s) (run : Run cx n r files s y t) :
    OnTrack cx earlier files t ∧ Lasts cx s t := by
  obtain ⟨htraced, hlasts⟩ := run.traced (fun k _ => findsOrigin cx k) h.formed h.rooted h.traced
  have hlinked := (run.linked (fun k _ => answers cx earlier k) h.formed h.rooted
    (List.Subset.refl _) h.linked).1
  exact ⟨⟨(run.formed h.formed).1, run.rooted h.rooted, hlinked, htraced⟩, hlasts⟩

theorem tracing (h : OnTrack cx earlier files s) (hroot : s.inBlock = false) :
    Tracing cx files s :=
  ⟨hroot, h.formed, h.rooted, h.traced⟩

theorem atRoot (h : OnTrack cx earlier files s) (hroot : s.inBlock = false) :
    AtRoot cx earlier files files s :=
  ⟨hroot, h.formed, h.rooted, List.Subset.refl _, h.linked⟩

end OnTrack

/-- Final names that stand for an origin stand for it until the end. -/
theorem sustains_onTrack (cx : Context) (earlier : SeenSet Url) :
    Sustains cx (OnTrack cx earlier) (Lasts cx) where
  run hg h := hg.run h
  still he hp hs := .of_eq (fun _ _ => by rw [he]) hp hs
  link hg hcur hsp run hres := .link (fun hb =>
    hres.came (fun k _ => findsOrigin cx k) hcur hsp (hg.tracing (run.inBlock_eq ▸ hb)))
  takeItems hg k := ⟨hg.formed.takeItems k, hg.rooted.takeItems k,
    hg.linked.congr (by simp) (by simp), (hg.traced.takeItems k).1⟩
  addItems {n r files s t y} hg h := by
    have ht := (hg.run h).1
    exact ⟨ht.formed.addItems (h.formed hg.formed).2, ht.rooted.addItems _, ht.linked.addItems _,
      (ht.traced.addItems _).1⟩
  beginFile {files s file} hg hroot hnew hfile := by
    obtain ⟨htraced, hlasts⟩ := hg.traced.beginFile hg.rooted hnew
    have hadded : FormedState cx (s.addFile file) :=
      hg.formed.congr (List.Subset.refl _) rfl
    exact ⟨⟨hadded.bindFile hfile, hg.rooted.beginFile _ _,
      hg.linked.beginFile hg.rooted hroot hnew, htraced⟩, hlasts⟩
  beginBlock {files s target wanted} hg hnew hfile hw := by
    have hlookup (f : Url) (x : String) :=
      State.lookup_root_begunBlock s (cx.statements target) target f (s.freshName wanted) x
    obtain ⟨htraced, hlasts⟩ := hg.traced.step hlookup (.same (by simp; rfl))
      (.beginBlock hnew _ _)
    exact ⟨⟨hg.formed.beginBlock hfile hw, hg.rooted.beginBlock _ _ _, hg.linked.beginBlock _ _ _,
      htraced⟩, hlasts⟩
  suspend hg := ⟨hg.formed.suspend, hg.rooted.suspend, hg.linked.congr rfl (fun _ _ => rfl),
    (hg.traced.step (fun _ _ => rfl) (.same rfl) (.of_eq rfl)).1⟩
  closeBlock hg := ⟨hg.formed.closeBlock, hg.rooted.closeBlock,
    hg.linked.congr (by simp) (by simp),
    (hg.traced.step (by simp) (.same (by simp)) (.of_eq (by simp))).1⟩

section Links

variable {items : List Item} {τ : Targets}

/-- One key of an import type at the root. -/
theorem TypeStep.answered {done : List ImportTypeKey}
    {ts ts' : OrderedMap ImportTypeKey Target} (h : TypeStep cx n g key ts s ts' t)
    (hs : OnTrack cx earlier files s) (hroot : s.inBlock = false) (hlead : cx.LeadTo files g)
    (hhas : cx.HasFile g) (hk : key ∈ collectItems pickKey (cx.statements g))
    (hdone : ts.Answered (TargetOf cx earlier s g) done) :
    ts'.Answered (TargetOf cx earlier t g) (done ++ [key]) := by
  have hready : Ready cx files g s := ⟨hs.formed, hlead, hhas⟩
  have hdone : ts.Answered (TargetOf cx earlier t g) done := hdone.imp (fun _ _ htarget =>
    htarget.lasts (hs.run ((calls cx n).typeStep_run (r := .dependency) hready hk h)).2)
  cases h with
  | outer hin => exact hdone.put (.outside hin)
  | found hin hinc hhead hres =>
    obtain ⟨run, hready₁⟩ := (calls cx n).include_typed (r := .dependency) hready hk hin hinc
    have hs₁ := (hs.run run).1.tracing (run.inBlock_eq.trans hroot)
    exact hdone.put (.exported hin hhead (findsOrigin cx n hs₁ hready₁.lead
      hready₁.has (Or.inr (.head hhas hk hhead)) hres))
  | @missing file head v s₁ t hin hinc hhead hres =>
    have hlinks : cx.Links g file := .typed hk hin
    obtain ⟨hs₁, -, hincluded⟩ := (hs.atRoot hroot).include (fun k _ => answers cx earlier k)
      (hlead.tail hlinks) (.linked hhas hlinks) hinc
    have hanswer : Answer cx earlier (Relation.ReflTransGen cx.Links · g) [] t file head none v :=
      answers cx earlier n hs₁ (hlead.tail hlinks) (.linked hhas hlinks)
        (Or.inr (.head hhas hk hhead)) hincluded (fun f hf => hlead f hf) hres
    cases hanswer with
    | stuck _ hmem hstuck =>
      refine hdone.miss (.dead hin hhead (fun τ hlive => ?_))
      exact hlive.not_mem (fun a ha => (hstuck a ha).resolve_left (by simp)) hmem
  | space hin hinc hhead hspace =>
    obtain ⟨run, hready₁⟩ := (calls cx n).include_typed (r := .dependency) hready hk hin hinc
    have hnamed := ((calls cx n).ensureSpace (r := .dependency) hready₁
      (Context.Writes.space hhas hk hin).formed hspace).2.2.2 (run.inBlock_eq.trans hroot)
    exact hdone.put (.space hin hhead hnamed)

/-- The targets that are found for the import types of some statements at the root. -/
theorem TypeLinks.targetOf (h : TypeLinks cx n g items s τ t) (hs : OnTrack cx earlier files s)
    (hroot : s.inBlock = false) (hlead : cx.LeadTo files g) (hhas : cx.HasFile g)
    (hkeys : ∀ key ∈ collectItems pickKey items, key ∈ collectItems pickKey (cx.statements g)) :
    ∀ key ∈ collectItems pickKey items, TargetOf cx earlier t g key (τ key) := by
  obtain ⟨-, ts, rfl, hall⟩ := h.answered (P := fun s' => TargetOf cx earlier s' g)
    ⟨hs.formed, hlead, hhas⟩ hkeys (fun run hk hstep hdone =>
      hstep.answered (hs.run run).1 (run.inBlock_eq.trans hroot) hlead hhas hk hdone)
  exact fun key hkey => hall.get ((SeenSet.mem_ofList _ _).2 hkey)

end Links

end AmbientBundle.Merge
