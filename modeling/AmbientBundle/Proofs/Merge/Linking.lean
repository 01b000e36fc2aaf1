import AmbientBundle.Proofs.Merge.Resolution
import AmbientBundle.Proofs.Merge.Sound
/-!
Every local of an import gets the root name of the declaration that it means. What the root binds
a name to is what the name means, as far as it means a declaration; and a file that is finished has
a name there for everything that it declares and for every live specifier of its imports.
-/
namespace AmbientBundle.Merge

open Names Syntax

variable {cx : Context} {earlier : SeenSet Url} {n : Nat} {r : Role}
  {files pending : List Url} {s t : State} {y : Yield}

/-- The final name fits what the name leads to: it is the root name of the declaration that the
name means, if it means one. -/
structure Fits (cx : Context) (env : Environment) (a : Reference) (final : String) : Prop where
  leads : ∃ τ, cx.Leads a τ
  fits : ∀ g k, cx.Means a g k → env.lookup g k = some final

abbrev Denotes (cx : Context) (s : State) (a : Reference) (final : String) : Prop :=
  Fits cx s.root.env a final

namespace Denotes

variable {a b : Reference} {f v w : String} {origin : Url}

/-- A name that may be something else than a declaration may have any final name. -/
theorem of_other (h : cx.Leads a .other) : Denotes cx s a f :=
  ⟨⟨_, h⟩, fun _ _ hm => (by cases hm.only _ h)⟩

theorem next (h : Denotes cx s b f) (hb : .go b ∈ cx.follow a) : Denotes cx s a f := by
  obtain ⟨τ, hτ⟩ := h.leads
  refine ⟨⟨τ, .next hb hτ⟩, fun g k hm => h.fits g k ⟨?_, fun σ hσ => hm.only σ (.next hb hσ)⟩⟩
  exact hm.only τ (.next hb hτ) ▸ hτ

theorem congr (h : Denotes cx s a f)
    (hl : ∀ g k v, s.root.env.lookup g k = some v → t.root.env.lookup g k = some v) :
    Denotes cx t a f :=
  ⟨h.leads, fun g k hm => hl g k f (h.fits g k hm)⟩

/-- Linking a local to what it means changes no other name that means something. -/
theorem link (h : Denotes cx s a f) (ho : Denotes cx s (.own origin w) v) :
    Denotes cx (s.link origin w v) a f := by
  refine ⟨h.leads, fun g k hm => ?_⟩
  have hf := h.fits g k hm
  rw [State.root_link_env]
  split
  · exact hf
  · rw [Environment.lookup_link]
    split
    · rename_i he
      obtain ⟨rfl, rfl⟩ := Prod.mk.inj he
      obtain ⟨τ, hτ⟩ := ho.leads
      have honly : ∀ σ, cx.Leads (.own origin w) σ → σ = .decl origin w := fun σ hσ =>
        hm.only σ (hm.leads.through hσ)
      have hv := ho.fits origin w ⟨honly τ hτ ▸ hτ, honly⟩
      rw [← hv, hf]
    · exact hf

end Denotes

/-- What holds of the root's names while the imports of the given files may be unlinked. -/
structure Linked (cx : Context) (earlier : SeenSet Url) (pending : List Url)
    (s : State) : Prop where
  sound : ∀ f x v, s.root.env.lookup f x = some v → Denotes cx s (.own f x) v
  bound : ∀ f x, s.included.contains f = true → earlier.contains f = false → cx.Declares f x →
    (s.root.env.lookup f x).isSome
  done : ∀ f, s.included.contains f = true → earlier.contains f = false → f ∉ pending →
    ∀ e ∈ cx.specifiers f, LiveSpecifier cx earlier f e → (s.root.env.lookup f e.2.loc).isSome

namespace Linked

theorem start (earlier : SeenSet Url) : Linked cx earlier [] (State.start earlier) :=
  ⟨fun f x v h => (by cases h), fun f x hf hn => (by simp [State.start, hn] at hf),
    fun f hf hn => (by simp [State.start, hn] at hf)⟩

theorem congr (h : Linked cx earlier pending s) (hi : t.included = s.included)
    (hl : ∀ f x, t.root.env.lookup f x = s.root.env.lookup f x) : Linked cx earlier pending t := by
  refine ⟨fun f x v hv => ?_, fun f x hf => ?_, fun f hf => ?_⟩
  · exact (h.sound f x v (hl f x ▸ hv)).congr (fun g k w hw => (hl g k).trans hw)
  · rw [hl]
    exact h.bound f x (hi ▸ hf)
  · simp only [hl]
    exact h.done f (hi ▸ hf)

theorem addItems (h : Linked cx earlier pending s) (ps : List Piece) :
    Linked cx earlier pending (s.addItems ps) :=
  h.congr (by simp) (by simp)

theorem link (h : Linked cx earlier pending s) {origin : Url} {x v : String}
    (hv : s.inBlock = false → Denotes cx s (.own origin x) v) :
    Linked cx earlier pending (s.link origin x v) := by
  cases hb : s.inBlock with
  | true => exact h.congr (by simp) (fun f w => by rw [State.root_link_env, if_pos hb])
  | false =>
    have hkeeps := (Grows.link s origin x v).named
    refine ⟨fun f w u hu => ?_, fun f w hf hn hd => ?_, fun f hf hn hpending e he hl => ?_⟩
    · rcases State.lookup_root_link_cases hu with ⟨_, rfl, rfl, rfl⟩ | hu
      · exact (hv hb).link (hv hb)
      · exact (h.sound f w u hu).link (hv hb)
    · exact hkeeps f w (h.bound f w (by simpa using hf) hn hd)
    · exact hkeeps f e.2.loc (h.done f (by simpa using hf) hn hpending e he hl)

/-- A file that begins at the root has names for its declarations there. -/
theorem beginFile (h : Linked cx earlier pending s) (hr : Rooted files s) (hroot : s.inBlock = false)
    {file : Url} (hnew : s.included.contains file = false) :
    Linked cx earlier (file :: pending) ((s.addFile file).bindFile (cx.statements file) file) := by
  have hown := hr.ownNames hnew
  have henv := State.root_beginFile_env hroot (cx.statements file) file
  have hother (f : Url) (x : String) (hf : file ≠ f) :
      ((s.addFile file).bindFile (cx.statements file) file).root.env.lookup f x =
        s.root.env.lookup f x := State.lookup_root_bindFile_of_ne hf x
  have hincluded (f : Url) (hf : file ≠ f) : ((s.addFile file).bindFile (cx.statements file)
      file).included.contains f = s.included.contains f := by
    simp [State.addFile, SeenSet.contains_insert, Ne.symm hf]
  refine ⟨fun f x v hv => ?_, fun f x hf hn hd => ?_, fun f hf hn hpending e he hl => ?_⟩
  · rcases State.lookup_root_bindFile_cases hv with ⟨rfl, hd⟩ | hold
    · have hleads : cx.Leads (.own file x) (.decl file x) :=
        .here (by simp [Context.follow, show cx.Declares file x from hd])
      refine ⟨⟨_, hleads⟩, fun g k hm => ?_⟩
      cases hm.only _ hleads
      exact hv
    · exact (h.sound f x v hold).congr (fun _ _ _ => hr.lookup_beginFile hnew _)
  · by_cases hf' : file = f
    · subst hf'
      obtain ⟨id, hid, rfl⟩ := List.mem_map.1 hd
      rw [henv]
      obtain ⟨v, hv⟩ := exists_lookup_bindIdents (p := (s.root.env, OrderedMap.empty)) hown hid
      simp [hv]
    · rw [hother f x hf']
      exact h.bound f x (by rwa [hincluded f hf'] at hf) hn hd
  · rw [List.mem_cons, not_or] at hpending
    rw [hother f _ (Ne.symm hpending.1)]
    exact h.done f (by rwa [hincluded f (Ne.symm hpending.1)] at hf) hn hpending.2 e he hl

theorem beginBlock (h : Linked cx earlier pending s) (is : List Item) (file : Url) (name : String) :
    Linked cx earlier pending (((s.claim name).openBlock file name).bindFile is file) := by
  exact h.congr (by simp) (fun f x => State.lookup_root_begunBlock _ _ _ _ _ _)

/-- A file whose live specifiers all have names is finished. -/
theorem finish {file : Url} (h : Linked cx earlier (file :: pending) s)
    (hdone : ∀ e ∈ cx.specifiers file, LiveSpecifier cx earlier file e →
      (s.root.env.lookup file e.2.loc).isSome) : Linked cx earlier pending s := by
  refine ⟨h.sound, h.bound, fun f hf hn hpending e he hl => ?_⟩
  by_cases hfile : f = file
  · subst hfile
    exact hdone e he hl
  · exact h.done f hf hn (by simp [hfile, hpending]) e he hl

end Linked

/-- What is known where an export is resolved at the root. -/
structure AtRoot (cx : Context) (earlier : SeenSet Url) (files pending : List Url) (s : State) :
    Prop where
  root : s.inBlock = false
  formed : FormedState cx s
  rooted : Rooted files s
  subset : pending ⊆ files
  linked : Linked cx earlier pending s

/-- The outcome of resolving an export: a final name that fits, or nothing, where all names that
were visited on the way are stuck. -/
inductive Answer (cx : Context) (earlier : SeenSet Url) (busy : Url → Prop) (v : Visited)
    (t : State) (target : Url) (name : String) : Option String → Visited → Prop where
  | found {f : String} {v' : Visited} (h : Denotes cx t (.exported target name) f) :
      Answer cx earlier busy v t target name (some f) v'
  | stuck {v' : Visited} (hsub : v ⊆ v') (hmem : (target, name) ∈ v')
      (hstuck : ∀ a ∈ v', a ∈ v ∨ Stuck cx earlier busy v' a) :
      Answer cx earlier busy v t target name none v'

/-- Resolving an export with depth `k` at the root gives an answer. -/
def Answers (cx : Context) (earlier : SeenSet Url) (k : Nat) : Prop :=
  ∀ ⦃files pending : List Url⦄ ⦃busy : Url → Prop⦄ ⦃target : Url⦄ ⦃name : String⦄ ⦃v v' : Visited⦄
    ⦃s t : State⦄ ⦃found : Option String⦄, AtRoot cx earlier files pending s → cx.LeadTo files target →
    cx.HasFile target → Asked cx name → s.included.contains target = true →
    (∀ g ∈ pending, busy g) → resolveExport cx k target name v s = some ((found, v'), t) →
    Answer cx earlier busy v t target name found v'

/-- At the root, the final name that is found for a specifier fits its local, and where none is
found the specifier is not live. -/
theorem Resolved.answer (hans : ∀ k < n, Answers cx earlier k) {origin : Url} {d : ImportDecl}
    {sp : ImportSpecifier} {found : Option String} (hcur : Current cx files origin s)
    (hsp : (d, sp) ∈ cx.specifiers origin) (hs : AtRoot cx earlier files pending s)
    (h : Resolved cx n origin d sp s found t) :
    (∀ f, found = some f → Denotes cx t (.own origin sp.loc) f) ∧
      (found = none → ¬LiveSpecifier cx earlier origin (d, sp)) := by
  have hfollow := Context.follow_imported hsp
  cases h with
  | outer hin _ =>
    rw [Context.imported_of_none (Or.inl hin)] at hfollow
    exact ⟨fun _ _ => .of_other (.here hfollow), by simp⟩
  | space hin hall _ _ =>
    rw [Context.imported_of_none (Or.inr (by simp [hall, ImportedName.text?]))] at hfollow
    exact ⟨fun _ _ => .of_other (.here hfollow), by simp⟩
  | @named target name found v t k hin hinc hname hk h =>
    obtain ⟨hd, _⟩ := Context.mem_specifiers.1 hsp
    have hlinks : cx.Links origin target := .imported hd hin
    have hasked : Asked cx name := .of_specifier hcur.file hsp hname
    have hanswer : Answer cx earlier (Relation.ReflTransGen cx.Links · origin) [] t target name
        found v := hans k hk hs (hcur.lead.tail hlinks) (.linked hcur.file hlinks) hasked
      (hinc hs.root) (fun g hg => hcur.lead g (hs.subset hg)) h
    rw [Context.imported_of_inChunk? hin hname] at hfollow
    cases hanswer with
    | found hf => exact ⟨fun f he => Option.some.inj he ▸ hf.next hfollow, by simp⟩
    | stuck _ hmem hstuck =>
      refine ⟨by simp, fun _ hlive => ?_⟩
      obtain ⟨τ, hl⟩ := hlive target name hin hname
      exact hl.not_mem (fun a ha => (hstuck a ha).resolve_left (by simp)) hmem

/-- A run keeps the root's names fitting, and the live specifiers with which it dealt for the
current file have names then. -/
theorem Run.linked (hans : ∀ k < n, Answers cx earlier k) (h : Run cx n r files s y t)
    (hf : FormedState cx s) (hr : Rooted files s) (hp : pending ⊆ files)
    (hs : Linked cx earlier pending s) :
    Linked cx earlier pending t ∧ (s.inBlock = false → ∀ f, files.head? = some f →
      ∀ e ∈ y.tried, LiveSpecifier cx earlier f e → (t.root.env.lookup f e.2.loc).isSome) := by
  induction h generalizing pending with
  | nothing => exact ⟨hs, by simp⟩
  | andThen first second ih₁ ih₂ =>
    obtain ⟨h₁, hn₁⟩ := ih₁ hf hr hp hs
    obtain ⟨h₂, hn₂⟩ := ih₂ (first.formed hf).1 (first.rooted hr) hp h₁
    refine ⟨h₂, fun hb f hhead e he hl => ?_⟩
    rcases List.mem_append.1 he with he | he
    · exact second.grows.named f _ (hn₁ hb f hhead e he hl)
    · exact hn₂ (first.inBlock_eq.trans hb) f hhead e he hl
  | warn w => exact ⟨hs.congr rfl (fun _ _ => rfl), by simp⟩
  | keepRun module => exact ⟨hs.congr rfl (fun _ _ => rfl), by simp⟩
  | preserve typeOnly hkey hw => exact ⟨hs.congr rfl (fun _ _ => rfl), by simp⟩
  | preserveAgain typeOnly hkey => exact ⟨hs.congr rfl (fun _ _ => rfl), by simp⟩
  | aliasImport hf' hkey => exact ⟨hs.congr rfl (fun _ _ => rfl), by simp⟩
  | @aliasBinding r files s f hf' =>
    have hclaim : Linked cx earlier pending (s.claim (s.freshName f)) :=
      hs.congr rfl (fun _ _ => rfl)
    exact ⟨hclaim.addItems _, by simp⟩
  | @link r files s t origin d sp f hcur hsp _ run hres ih =>
    have ht := (ih hf hr hp hs).1
    have hfits (hb : s.inBlock = false) : Denotes cx t (.own origin sp.loc) f :=
      (hres.answer hans hcur hsp ⟨hb, hf, hr, hp, hs⟩).1 f rfl
    refine ⟨ht.link (fun hb => hfits (run.inBlock_eq ▸ hb)), fun hb g hhead e he _ => ?_⟩
    obtain rfl := Option.some.inj ((hcur.head hb).symm.trans hhead)
    rw [List.mem_singleton.1 he, State.lookup_root_link_self (run.inBlock_eq.trans hb)]
    rfl
  | @unlinked r files s t origin d sp w hcur hsp run hres ih =>
    refine ⟨(ih hf hr hp hs).1.congr rfl (fun _ _ => rfl), fun hb g hhead e he hl => ?_⟩
    obtain rfl := Option.some.inj ((hcur.head hb).symm.trans hhead)
    rw [List.mem_singleton.1 he] at hl
    exact absurd hl ((hres.answer hans hcur hsp ⟨hb, hf, hr, hp, hs⟩).2 rfl)
  | print _ _ _ _ _ _ run links ih₁ ih₂ =>
    have ht := (ih₁ hf hr hp hs).1
    refine ⟨(ih₂ ((run.formed hf).1.takeItems _) ((run.rooted hr).takeItems _) hp ?_).1, by simp⟩
    exact ht.congr (by simp) (by simp)
  | @inlined r q files s t u file ps hroot hnew hfile _ _ imports prints ih₁ ih₂ =>
    have hf' := hf.beginFile hfile
    have hr' := hr.beginFile (cx.statements file) file
    have hroot' : ((s.addFile file).bindFile (cx.statements file) file).inBlock = false :=
      (State.inBlock_begunFile _ _ _).trans hroot
    obtain ⟨ht, hnamed⟩ := ih₁ hf' hr' (List.cons_subset_cons file hp)
      (hs.beginFile hr hroot hnew)
    have hu := (ih₂ (imports.formed hf').1 (imports.rooted hr') (List.Subset.trans hp (by simp))
      (ht.finish (hnamed hroot' file rfl))).1
    exact ⟨hu.addItems _, by simp⟩
  | atRoot _ _ ih =>
    refine ⟨(ih hf.suspend hr.suspend hp (hs.congr rfl (fun _ _ => rfl))).1.congr ?_ ?_, by simp⟩
    · rw [State.included_inheritFromRoot]
      rfl
    · intro f x
      rw [State.root_inheritFromRoot]
      rfl
  | @block r files s t u v w target wanted ps exports _ hfile _ hw _ imports prints
      collects aliases ih₁ ih₂ ih₃ ih₄ =>
    have hf₁ := hf.beginBlock hfile hw
    have hr₁ := hr.beginBlock (cx.statements target) target (s.freshName wanted)
    obtain ⟨hf₂, hf₃, hf₄⟩ := hf.throughBlock hfile hw imports prints collects
    obtain ⟨hr₂, hr₃, hr₄⟩ := hr.throughBlock imports prints collects
    have ht := (ih₁ hf₁ hr₁ hp (hs.beginBlock _ _ _)).1
    have hu := (ih₂ hf₂ hr₂ hp ht).1
    have hv := (ih₃ hf₃ hr₃ hp (hu.addItems ps)).1
    have hw := (ih₄ hf₄ hr₄ hp (hv.congr (by simp) (by simp))).1
    exact ⟨hw.addItems _, by simp⟩
  | exportAgain _ _ _ _ _ _ ih => exact ⟨(ih hf hr hp hs).1.addItems _, by simp⟩

end AmbientBundle.Merge
