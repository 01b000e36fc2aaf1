import AmbientBundle.Proofs.Merge.Answers
import AmbientBundle.Proofs.Merge.Presence
/-!
What a file and its stars export, as merging collects it: every name of the file or of a file that
its stars lead to, but for names for which nothing is found. A name that the file exports by itself
is taken from there. At the root the final names fit, and nothing is found only for names that are
not live.
-/
namespace AmbientBundle.Merge

open Step Syntax

namespace Context

/-- A star of `g` leads to `h`. -/
def Stars (cx : Context) (g h : Url) : Prop :=
  ∃ src, .all src ∈ cx.exports g ∧ cx.inChunk? src g = some h

/-- The file itself and the files of the chunk to which its stars lead. -/
abbrev Within (cx : Context) : Url → Url → Prop := Relation.ReflTransGen cx.Stars

/-- The file exports the name, and not by a star. -/
def Lists (cx : Context) (g : Url) (name : String) : Prop := (cx.explicit? g name).isSome

/-- Stars lead from the first file to the second through files that do not export the name by
themselves. -/
abbrev Inherits (cx : Context) (name : String) : Url → Url → Prop :=
  Relation.ReflTransGen (fun g h => cx.Stars g h ∧ ¬cx.Lists g name)

/-- Among the exports of `target` is the name, as `g` exports it. A default export is the file's own
only. -/
structure Offers (cx : Context) (target : Url) (withDefault : Bool) (g : Url) (name : String) :
    Prop where
  within : cx.Within target g
  lists : cx.Lists g name
  default : name = "default" → g = target ∧ withDefault = true

variable {cx : Context} {g h h' : Url} {name : String}

theorem Inherits.eq_of_lists (h : cx.Inherits name g h') (hl : cx.Lists g name) : h' = g := by
  rcases h.cases_head with rfl | ⟨_, hstep, _⟩
  · rfl
  · exact absurd hl hstep.2

theorem lists_iff :
    cx.Lists g name ↔ name ∈ (cx.exports g).filterMap ExportedSymbol.exportedName? := by
  simp [Lists, explicit?, List.find?_isSome]

theorem writes_of_lists (hg : cx.HasFile g) (hl : cx.Lists g name) : cx.Writes name := by
  obtain ⟨e, he, hexp⟩ := List.mem_filterMap.1 (lists_iff.1 hl)
  exact .exported hg he hexp

end Context

/-- No name that the root has gets another final name. -/
structure Keeps (s t : State) : Prop where
  included : ∀ f, s.included.contains f = true → t.included.contains f = true
  named : ∀ f x v, s.root.env.lookup f x = some v → t.root.env.lookup f x = some v
  same : ∀ f, s.included.contains f = true →
    Rename.ofEnvironment t.root.env f = Rename.ofEnvironment s.root.env f

section Keeps

variable {cx : Context} {n : Nat} {r : Role} {files : List Url} {s t u : State} {y : Yield}

theorem Keeps.refl (s : State) : Keeps s s := ⟨fun _ h => h, fun _ _ _ h => h, fun _ _ => rfl⟩

theorem Keeps.trans (h : Keeps s t) (h' : Keeps t u) : Keeps s u where
  included f hf := h'.included f (h.included f hf)
  named f x v hv := h'.named f x v (h.named f x v hv)
  same f hf := (h'.same f (h.included f hf)).trans (h.same f hf)

theorem Keeps.fits {a : Reference} {f : String} (h : Keeps s t) (hf : Denotes cx s a f) :
    Denotes cx t a f :=
  hf.congr h.named

theorem Run.keeps (run : Run cx n r files s y t) (hr : Rooted files s) (hy : y.tried = []) :
    Keeps s t := by
  refine ⟨fun f hf => run.grows.contains hf, fun f x v hv => ?_,
    fun f hf => run.ofEnvironment_eq hf hy⟩
  have hincluded := hr.included f x v hv
  rw [run.lookup_root hincluded (fun _ _ e he => by simp [hy] at he), hv]

end Keeps

/-- Nothing is in progress. -/
def Idle (_ : Url) : Prop := False

/-- A name among the exports of `target`, as `g` exports it, with a final name. The file's own
export of a name comes before those of its stars. -/
structure Gathered (cx : Context) (env : Environment) (target : Url) (withDefault : Bool) (g : Url)
    (name final : String) : Prop extends cx.Offers target withDefault g name where
  first : cx.Lists target name → g = target
  fits : Fits cx env (.exported g name) final

/-- A name among the exports of `target` for which nothing may be found. -/
def Dead (cx : Context) (earlier : SeenSet Url) (target : Url) (withDefault : Bool)
    (name : String) : Prop :=
  ∃ g, cx.Offers target withDefault g name ∧ ¬∃ τ, Live cx earlier Idle g name τ

/-- A file all of whose names and stars are dealt with. -/
structure Closed (cx : Context) (c : Collected) (g : Url) : Prop where
  names : ∀ name, cx.Lists g name → name ≠ "default" → name ∈ c.seen
  stars : ∀ h, cx.Stars g h → h ∈ c.visited

/-- From `c` to `c'` the given names and stars of the target are dealt with. What is found has
`found`, and the names for which nothing is have `missing`. -/
structure Gathers (cx : Context) (found : Url → String → String → Prop)
    (missing : Url → String → Prop) (target : Url) (withDefault : Bool) (names : List String)
    (stars : List ExportedSymbol) (c c' : Collected) : Prop where
  visited : c.visited ⊆ c'.visited
  seen : c.seen ⊆ c'.seen
  kept : c.names ⊆ c'.names
  sound : ∀ name final, (name, final) ∈ c'.names → (name, final) ∈ c.names ∨
    (name ∉ c.seen ∧ ∃ g, cx.Offers target withDefault g name ∧ cx.Inherits name target g ∧
      found g name final)
  settled : ∀ name ∈ c'.seen, name ∈ c.seen ∨ name ∈ c'.names.map Prod.fst ∨
    ∃ g, cx.Offers target withDefault g name ∧ missing g name
  own : ∀ name ∈ names, (name = "default" → withDefault = true) → name ∈ c'.seen
  opened : ∀ src h, .all src ∈ stars → cx.inChunk? src target = some h → h ∈ c'.visited
  closed : ∀ g ∈ c'.visited, g ∈ c.visited ∨ g = target ∨ Closed cx c' g

/-- From `c` to `c'` everything is dealt with that the target and its stars export. -/
structure Collects (cx : Context) (found : Url → String → String → Prop)
    (missing : Url → String → Prop) (target : Url) (withDefault : Bool) (c c' : Collected) :
    Prop where
  gathers : Gathers cx found missing target withDefault [] [] c c'
  visited : target ∈ c'.visited
  closed : ∀ g ∈ c'.visited, g ∈ c.visited ∨ Closed cx c' g
  own : target ∉ c.visited → ∀ name, cx.Lists target name →
    (name = "default" → withDefault = true) → name ∈ c'.seen

theorem Closed.mono {cx : Context} {c c' : Collected} {g : Url} (h : Closed cx c g)
    (hv : c.visited ⊆ c'.visited) (hs : c.seen ⊆ c'.seen) : Closed cx c' g :=
  ⟨fun name hl hd => hs (h.names name hl hd), fun f hf => hv (h.stars f hf)⟩

namespace Gathers

variable {cx : Context} {found found' : Url → String → String → Prop}
  {missing missing' : Url → String → Prop} {target file : Url} {withDefault : Bool}
  {names : List String} {stars : List ExportedSymbol} {c c' c₁ c₂ : Collected} {name : String}

theorem refl (h : c'.visited ⊆ target :: c.visited) (hv : c.visited ⊆ c'.visited)
    (hs : c'.seen = c.seen) (hn : c'.names = c.names) :
    Gathers cx found missing target withDefault [] [] c c' where
  visited := hv
  seen := fun x hx => hs ▸ hx
  kept := fun e he => hn ▸ he
  sound name final he := Or.inl (hn ▸ he)
  settled name hname := Or.inl (hs ▸ hname)
  own := by simp
  opened := by simp
  closed g hg := (List.mem_cons.1 (h hg)).elim (fun h => Or.inr (Or.inl h)) Or.inl

theorem imp (h : Gathers cx found missing target withDefault names stars c c')
    (hf : ∀ g x f, found g x f → found' g x f) (hm : ∀ g x, missing g x → missing' g x) :
    Gathers cx found' missing' target withDefault names stars c c' :=
  { h with
    sound := fun name final he => (h.sound name final he).imp_right
      (fun ⟨hnew, g, ho, hpath, hg⟩ => ⟨hnew, g, ho, hpath, hf g name final hg⟩)
    settled := fun name hname => (h.settled name hname).imp_right
      (Or.imp_right (fun ⟨g, ho, hg⟩ => ⟨g, ho, hm g name hg⟩)) }

/-- A further name of the target that is skipped, or has been seen. -/
theorem skip (h : Gathers cx found missing target withDefault names stars c c')
    (hs : name = "default" ∧ withDefault = false ∨ name ∈ c'.seen) :
    Gathers cx found missing target withDefault (names ++ [name]) stars c c' := by
  refine { h with own := fun x hx hd => ?_ }
  rcases List.mem_append.1 hx with hx | hx
  · exact h.own x hx hd
  · obtain rfl := List.mem_singleton.1 hx
    rcases hs with ⟨hdefault, hfalse⟩ | hseen
    · rw [hd hdefault] at hfalse
      cases hfalse
    · exact hseen

/-- A further name of the target, for which a final name is found or nothing. -/
theorem add (h : Gathers cx found missing target withDefault names stars c c₁)
    (hd : name = "default" → withDefault = true) (hnew : name ∉ c₁.seen)
    (hl : cx.Lists target name) (hv : c₂.visited = c₁.visited) (hs : c₂.seen = name :: c₁.seen)
    (hn : (∃ f, c₂.names = c₁.names ++ [(name, f)] ∧ found target name f) ∨
      c₂.names = c₁.names ∧ missing target name) :
    Gathers cx found missing target withDefault (names ++ [name]) stars c c₂ := by
  have hseen : c₁.seen ⊆ c₂.seen := by
    rw [hs]
    exact List.subset_cons_self _ _
  have hnames : c₁.names ⊆ c₂.names := by
    rcases hn with ⟨f, hn, _⟩ | ⟨hn, _⟩ <;> rw [hn] <;> simp
  have hoffers : cx.Offers target withDefault target name := ⟨.refl, hl, fun he => ⟨rfl, hd he⟩⟩
  have hmono : Closed cx c₁ ≤ Closed cx c₂ := fun g hg => hg.mono (by rw [hv]; simp) hseen
  refine ⟨fun g hg => hv ▸ h.visited hg, List.Subset.trans h.seen hseen,
    List.Subset.trans h.kept hnames, fun x f hx => ?_, fun x hx => ?_, fun x hx hdx => ?_,
    fun src g hsrc hin => ?_, fun g hg => ?_⟩
  · have hx' : (x, f) ∈ c₁.names ∨ (x = name ∧ found target name f) := by
      rcases hn with ⟨f', hn, hf⟩ | ⟨hn, _⟩
      · rw [hn] at hx
        rcases List.mem_append.1 hx with hx | hx
        · exact Or.inl hx
        · obtain ⟨rfl, rfl⟩ := Prod.mk.inj (List.mem_singleton.1 hx)
          exact Or.inr ⟨rfl, hf⟩
      · exact Or.inl (hn ▸ hx)
    rcases hx' with hx' | ⟨rfl, hf⟩
    · exact h.sound x f hx'
    · exact Or.inr ⟨fun hold => hnew (h.seen hold), target, hoffers, .refl, hf⟩
  · rw [hs] at hx
    rcases List.mem_cons.1 hx with rfl | hx
    · rcases hn with ⟨f, hn, _⟩ | ⟨_, hdead⟩
      · exact Or.inr (Or.inl (by simp [hn]))
      · exact Or.inr (Or.inr ⟨target, hoffers, hdead⟩)
    · exact (h.settled x hx).imp_right (Or.imp_left (fun hmem => List.map_subset _ hnames hmem))
  · rcases List.mem_append.1 hx with hx | hx
    · exact hseen (h.own x hx hdx)
    · rw [List.mem_singleton.1 hx, hs]
      exact List.mem_cons_self
  · rw [hv]
    exact h.opened src g hsrc hin
  · rw [hv] at hg
    exact (h.closed g hg).imp_right (Or.imp_right (hmono g))

/-- A further star of the target that leads to no file of the chunk. -/
theorem pass {e : ExportedSymbol} (h : Gathers cx found missing target withDefault names stars c c₁)
    (he : ∀ src, e = .all src → cx.inChunk? src target = none) (hv : c₂.visited = c₁.visited)
    (hs : c₂.seen = c₁.seen) (hn : c₂.names = c₁.names) :
    Gathers cx found missing target withDefault names (stars ++ [e]) c c₂ := by
  refine ⟨hv ▸ h.visited, hs ▸ h.seen, hn ▸ h.kept, fun x f hx => h.sound x f (hn ▸ hx),
    fun x hx => by rw [hn]; exact h.settled x (hs ▸ hx), fun x hx hd => hs ▸ h.own x hx hd,
    fun src g hsrc hin => ?_, fun g hg => ?_⟩
  · rcases List.mem_append.1 hsrc with hsrc | hsrc
    · rw [hv]
      exact h.opened src g hsrc hin
    · rw [he src (List.mem_singleton.1 hsrc).symm] at hin
      cases hin
  · exact (h.closed g (hv ▸ hg)).imp_right
      (Or.imp_right (fun hc => hc.mono (by rw [hv]; simp) (by rw [hs]; simp)))

/-- A further star of the target, whose file is gathered in turn. -/
theorem star {src : String} (h : Gathers cx found missing target withDefault names stars c c₁)
    (hown : ∀ x, cx.Lists target x → x ∈ names) (hsrc : .all src ∈ cx.exports target)
    (hin : cx.inChunk? src target = some file) (h' : Collects cx found missing file false c₁ c₂) :
    Gathers cx found missing target withDefault names (stars ++ [.all src]) c c₂ := by
  have hstar : cx.Stars target file := ⟨src, hsrc, hin⟩
  have hfile := h'.gathers
  have hoffers {g : Url} {x : String} (hg : cx.Offers file false g x) :
      cx.Offers target withDefault g x :=
    ⟨.head hstar hg.within, hg.lists, fun he => by cases (hg.default he).2⟩
  refine ⟨List.Subset.trans h.visited hfile.visited, List.Subset.trans h.seen hfile.seen,
    List.Subset.trans h.kept hfile.kept, fun x f hx => ?_, fun x hx => ?_,
    fun x hx hd => hfile.seen (h.own x hx hd),
    fun src' g hsrc' hin' => ?_, fun g hg => ?_⟩
  · rcases hfile.sound x f hx with hx | ⟨hnew, g, hg, hpath, hf⟩
    · exact h.sound x f hx
    · refine Or.inr ⟨fun hold => hnew (h.seen hold), g, hoffers hg,
        .head ⟨hstar, fun hl => ?_⟩ hpath, hf⟩
      have hdefault : x ≠ "default" := fun he => by cases (hg.default he).2
      exact absurd (h.own x (hown x hl) (fun he => absurd he hdefault)) hnew
  · rcases hfile.settled x hx with hx | hx | ⟨g, hg, hdead⟩
    · exact (h.settled x hx).imp_right (Or.imp_left (fun hm => List.map_subset _ hfile.kept hm))
    · exact Or.inr (Or.inl hx)
    · exact Or.inr (Or.inr ⟨g, hoffers hg, hdead⟩)
  · rcases List.mem_append.1 hsrc' with hsrc' | hsrc'
    · exact hfile.visited (h.opened src' g hsrc' hin')
    · obtain rfl : src' = src := by simpa using hsrc'
      rw [hin] at hin'
      obtain rfl := Option.some.inj hin'
      exact h'.visited
  · rcases h'.closed g hg with hg | hg
    · exact (h.closed g hg).imp_right
        (Or.imp_right (fun hc => hc.mono hfile.visited hfile.seen))
    · exact Or.inr (Or.inr hg)

end Gathers

namespace Collects

variable {cx : Context} {found : Url → String → String → Prop} {missing : Url → String → Prop}
  {target : Url} {withDefault : Bool} {c c' : Collected}

/-- Nothing is done for a file that was visited before. -/
theorem again (hv : target ∈ c.visited) : Collects cx found missing target withDefault c c :=
  ⟨.refl (List.subset_cons_self _ _) (List.Subset.refl _) rfl rfl, hv, fun _ hg => Or.inl hg,
    fun hn => absurd hv hn⟩

/-- All names and all stars of the target are dealt with. -/
theorem of_gathers (hv : target ∈ c'.visited) (h : Gathers cx found missing target withDefault
    ((cx.exports target).filterMap ExportedSymbol.exportedName?) (cx.exports target) c c') :
    Collects cx found missing target withDefault c c' := by
  have hown : ∀ name, cx.Lists target name → (name = "default" → withDefault = true) →
      name ∈ c'.seen := fun name hl hd => h.own name (Context.lists_iff.1 hl) hd
  refine ⟨{ h with own := by simp, opened := by simp }, hv, fun g hg => ?_, fun _ => hown⟩
  rcases h.closed g hg with hg | rfl | hg
  · exact Or.inl hg
  · exact Or.inr ⟨fun name hl hd => hown name hl (fun he => absurd he hd),
      fun f ⟨src, hsrc, hin⟩ => h.opened src f hsrc hin⟩
  · exact Or.inr hg

/-- Collecting from nothing deals with all that the target and its stars export. -/
theorem all (h : Collects cx found missing target withDefault Collected.empty c) {g : Url}
    {name : String} (ho : cx.Offers target withDefault g name) : name ∈ c.names.map Prod.fst ∨
      ∃ g, cx.Offers target withDefault g name ∧ missing g name := by
  have hvisited : ∀ g, cx.Within target g → Closed cx c g ∧ g ∈ c.visited := by
    intro g hw
    induction hw with
    | refl =>
      exact ⟨(h.closed target h.visited).resolve_left (by simp [Collected.empty]), h.visited⟩
    | tail _ hstar ih =>
      have hmem := ih.1.stars _ hstar
      exact ⟨(h.closed _ hmem).resolve_left (by simp [Collected.empty]), hmem⟩
  have hseen : name ∈ c.seen := by
    by_cases hd : name = "default"
    · obtain ⟨rfl, hwith⟩ := ho.default hd
      exact h.own (by simp [Collected.empty]) name ho.lists (fun _ => hwith)
    · exact (hvisited g ho.within).1.names name ho.lists hd
  exact (h.gathers.settled name hseen).resolve_left (by simp [Collected.empty])

end Collects

section Collecting

variable {cx : Context} {n : Nat} {files : List Url} {holds : State → Prop}
  {found : State → Url → String → String → Prop} {missing : State → Url → String → Prop}
  {target : Url} {withDefault : Bool} {c c' : Collected} {s t : State}

/-- Outside of blocks the file is inlined. -/
def AtHand (s : State) (file : Url) : Prop :=
  s.inBlock = false → s.included.contains file = true

theorem AtHand.run {r : Role} {y : Yield} (h : AtHand s target) (run : Run cx n r files s y t) :
    AtHand t target :=
  fun hb => run.grows.contains (h (run.inBlock_eq ▸ hb))

/-- From `s` to `t` what is kept is kept, and what is said of names and exports stays so. -/
structure Carries (holds : State → Prop) (found : State → Url → String → String → Prop)
    (missing : State → Url → String → Prop) (s t : State) : Prop where
  holds : holds t
  found : ∀ g name f, found s g name f → found t g name f
  missing : ∀ g name, missing s g name → missing t g name

namespace Carries

variable {u : State}

theorem refl (hs : holds s) : Carries holds found missing s s := ⟨hs, fun _ _ _ h => h, fun _ _ h => h⟩

theorem trans (h : Carries holds found missing s t) (h' : Carries holds found missing t u) :
    Carries holds found missing s u :=
  ⟨h'.holds, fun g name f hf => h'.found g name f (h.found g name f hf),
    fun g name hm => h'.missing g name (h.missing g name hm)⟩

end Carries

/-- What is kept while exports are collected, and what is said then of a final name that is found
and of an export for which nothing is. -/
structure Collecting (cx : Context) (files : List Url) (holds : State → Prop)
    (found : State → Url → String → String → Prop) (missing : State → Url → String → Prop) :
    Prop where
  formed : ∀ {s}, holds s → FormedState cx s
  carries : ∀ {n s t}, holds s → Run cx n .dependency files s ∅ t →
    Carries holds found missing s t
  finds : ∀ {n s t target name f v}, holds s → cx.LeadTo files target → cx.HasFile target →
    Asked cx name → AtHand s target →
    resolveExport cx n target name [] s = some ((some f, v), t) → found t target name f
  misses : ∀ {n s t target name v}, holds s → cx.LeadTo files target → cx.HasFile target →
    Asked cx name → AtHand s target →
    resolveExport cx n target name [] s = some ((none, v), t) →
      missing (t.warn (.unknownExport target name)) target name

namespace Collecting

/-- The names of the target itself. -/
theorem names (K : Collecting cx files holds found missing) {names : List String} (hs : holds s)
    (hlead : cx.LeadTo files target) (hhas : cx.HasFile target) (hopen : AtHand s target)
    (hl : ∀ name ∈ names, cx.Lists target name)
    (h : Folds (NameStep cx n target withDefault) names
      { c with visited := target :: c.visited } s c' t) :
    Carries holds found missing s t ∧ target ∈ c'.visited ∧
      Gathers cx (found t) (missing t) target withDefault names [] c c' := by
  suffices H : (Carries holds found missing s t ∧ AtHand t target) ∧ target ∈ c'.visited ∧
      Gathers cx (found t) (missing t) target withDefault names [] c c' from ⟨H.1.1, H.2⟩
  refine h.inv (fun done b s' => (Carries holds found missing s s' ∧ AtHand s' target) ∧
      target ∈ b.visited ∧ Gathers cx (found s') (missing s') target withDefault done [] c b)
    ⟨⟨.refl hs, hopen⟩, List.mem_cons_self, .refl (List.Subset.refl _) (List.subset_cons_self _ _)
      rfl rfl⟩ ?_
  rintro done name b₁ b₂ s₁ s₂ hname ⟨⟨hs₁, hopen₁⟩, hv₁, hb₁⟩ hstep
  have hlists := hl name hname
  have hasked : Asked cx name := Or.inr (Context.writes_of_lists hhas hlists)
  have hready : Ready cx files target s₁ := ⟨K.formed hs₁.holds, hlead, hhas⟩
  cases hstep with
  | skip hskip => exact ⟨⟨hs₁, hopen₁⟩, hv₁, hb₁.skip hskip⟩
  | @found f v _ hd hnew h =>
    have run := ((calls cx n).resolveExport (r := .dependency) hready hasked h).1
    have hs₂ := K.carries hs₁.holds run
    exact ⟨⟨hs₁.trans hs₂, hopen₁.run run⟩, hv₁,
      (hb₁.imp hs₂.found hs₂.missing).add hd hnew hlists rfl rfl
        (Or.inl ⟨f, rfl, K.finds hs₁.holds hlead hhas hasked hopen₁ h⟩)⟩
  | @missing v t' hd hnew h =>
    have run := ((calls cx n).resolveExport (r := .dependency) hready hasked h).1.after
      (.warn (.unknownExport target name))
    have hs₂ := K.carries hs₁.holds run
    exact ⟨⟨hs₁.trans hs₂, hopen₁.run run⟩, hv₁,
      (hb₁.imp hs₂.found hs₂.missing).add hd hnew hlists rfl rfl
        (Or.inr ⟨rfl, K.misses hs₁.holds hlead hhas hasked hopen₁ h⟩)⟩

/-- Collecting deals with everything that a file and its stars export. -/
theorem collects (K : Collecting cx files holds found missing) (hs : holds s)
    (hlead : cx.LeadTo files target) (hhas : cx.HasFile target) (hopen : AtHand s target)
    (h : collect cx n target withDefault c s = some (c', t)) :
    Carries holds found missing s t ∧
      Collects cx (found t) (missing t) target withDefault c c' := by
  induction n generalizing target withDefault c c' s t with
  | zero => exact (failure_inv h).elim
  | succ n ih =>
    cases collect_inv h with
    | again hv => exact ⟨.refl hs, .again hv⟩
    | @all c₁ _ s₁ _ hnew names stars =>
      obtain ⟨hs₁, hv₁, hb₁⟩ := K.names hs hlead hhas hopen (fun name => Context.lists_iff.2) names
      have hall : Carries holds found missing s t ∧ target ∈ c'.visited ∧
          Gathers cx (found t) (missing t) target withDefault
            ((cx.exports target).filterMap ExportedSymbol.exportedName?) (cx.exports target)
            c c' := by
        refine stars.inv (fun done b s' => Carries holds found missing s s' ∧
          target ∈ b.visited ∧ Gathers cx (found s') (missing s') target withDefault
            ((cx.exports target).filterMap ExportedSymbol.exportedName?) done c b)
          ⟨hs₁, hv₁, hb₁⟩ ?_
        rintro done e b₁ b₂ s₂ s₃ he ⟨hs₂, hv₂, hb₂⟩ hstep
        cases hstep with
        | skip hskip =>
          exact ⟨hs₂, hv₂, hb₂.pass (fun src hsrc => absurd hsrc (hskip src)) rfl rfl rfl⟩
        | @outer src hsrc hin =>
          have hstar : ∀ src', e = .all src' → cx.inChunk? src' target = none := by
            rintro src' rfl
            cases hsrc
            exact hin
          refine ⟨hs₂, ?_, hb₂.pass hstar ?_ ?_ ?_⟩ <;> unfold Collected.addStar <;> split <;>
            first | rfl | exact hv₂
        | @inner src file _ s₄ _ hsrc hin hinc hcollect =>
          subst hsrc
          have hlinks : cx.Links target file := .exported he rfl hin
          have hready : Ready cx files file s₂ :=
            ⟨K.formed hs₂.holds, hlead.tail hlinks, .linked hhas hlinks⟩
          obtain ⟨run, hincluded⟩ :=
            (calls cx n).includeFile (r := .dependency) hready (by simp) hinc
          have hs₄ := K.carries hs₂.holds run
          obtain ⟨hs₅, hfile⟩ := ih hs₄.holds hready.lead hready.has
            (fun hb => hincluded (run.inBlock_eq ▸ hb)) hcollect
          have hs₆ := hs₄.trans hs₅
          exact ⟨hs₂.trans hs₆, hfile.gathers.visited hv₂,
            (hb₂.imp hs₆.found hs₆.missing).star (fun x => Context.lists_iff.1) he hin hfile⟩
      exact ⟨hall.1, .of_gathers hall.2.1 hall.2.2⟩

end Collecting

end Collecting

section Collect

variable {cx : Context} {earlier : SeenSet Url} {n : Nat} {files : List Url} {target : Url}
  {withDefault : Bool} {c c' : Collected} {s t : State}

/-- From `s` to `t` merging goes on at the root. -/
structure GoesOn (cx : Context) (earlier : SeenSet Url) (files : List Url) (s t : State) :
    Prop where
  atRoot : AtRoot cx earlier files [] t
  keeps : Keeps s t

theorem GoesOn.refl (hs : AtRoot cx earlier files [] s) : GoesOn cx earlier files s s :=
  ⟨hs, .refl s⟩

theorem GoesOn.trans {u : State} (h : GoesOn cx earlier files s t)
    (h' : GoesOn cx earlier files t u) : GoesOn cx earlier files s u :=
  ⟨h'.atRoot, h.keeps.trans h'.keeps⟩

theorem GoesOn.run {r : Role} (hs : AtRoot cx earlier files [] s) (run : Run cx n r files s ∅ t) :
    GoesOn cx earlier files s t :=
  ⟨hs.run (fun k _ => answers cx earlier k) run, run.keeps hs.rooted rfl⟩

theorem GoesOn.warn (hs : AtRoot cx earlier files [] s) (w : Warning) :
    GoesOn cx earlier files s (s.warn w) :=
  .run hs (.warn (n := 0) (r := .dependency) w)

/-- Resolving an export when nothing is in progress. -/
theorem resolveExport_atRoot {name : String} {found : Option String} {v : Visited}
    (hs : AtRoot cx earlier files [] s) (hlead : cx.LeadTo files target) (hhas : cx.HasFile target)
    (hasked : Asked cx name) (hinc : s.included.contains target = true)
    (h : resolveExport cx n target name [] s = some ((found, v), t)) :
    GoesOn cx earlier files s t ∧
      (∀ f, found = some f → Denotes cx t (.exported target name) f) ∧
        (found = none → ¬∃ τ, Live cx earlier Idle target name τ) := by
  have hready : Ready cx files target s := ⟨hs.formed, hlead, hhas⟩
  have run := ((calls cx n).resolveExport (r := .dependency) hready hasked h).1
  have hanswer : Answer cx earlier Idle [] t target name found v :=
    answers cx earlier n hs hlead hhas hasked hinc (by simp) h
  refine ⟨.run hs run, ?_⟩
  cases hanswer with
  | found hf => exact ⟨fun f he => Option.some.inj he ▸ hf, by simp⟩
  | stuck _ hmem hstuck =>
    refine ⟨by simp, fun _ ⟨τ, hl⟩ => ?_⟩
    exact hl.not_mem (fun a ha => (hstuck a ha).resolve_left (by simp)) hmem

/-- The final name fits the export at the root. -/
def FitsRoot (cx : Context) (t : State) (g : Url) (name final : String) : Prop :=
  Denotes cx t (.exported g name) final

/-- Nothing may be found for the export. -/
def NotLive (cx : Context) (earlier : SeenSet Url) (g : Url) (name : String) : Prop :=
  ¬∃ τ, Live cx earlier Idle g name τ

/-- At the root final names fit, and nothing is found only for what is not live. -/
theorem collecting_atRoot (cx : Context) (earlier : SeenSet Url) (files : List Url) :
    Collecting cx files (AtRoot cx earlier files []) (FitsRoot cx)
      (fun _ => NotLive cx earlier) where
  formed hs := hs.formed
  carries hs run := by
    have ht := GoesOn.run hs run
    exact ⟨ht.atRoot, fun _ _ _ => ht.keeps.fits, fun _ _ h => h⟩
  finds hs hlead hhas hasked hopen h :=
    (resolveExport_atRoot hs hlead hhas hasked (hopen hs.root) h).2.1 _ rfl
  misses hs hlead hhas hasked hopen h :=
    (resolveExport_atRoot hs hlead hhas hasked (hopen hs.root) h).2.2 rfl

/-- Collecting from nothing: what is collected is gathered, and all is but what may be dead. -/
theorem collect_gathered (hs : AtRoot cx earlier files [] s) (hlead : cx.LeadTo files target)
    (hhas : cx.HasFile target) (hinc : s.included.contains target = true)
    (h : collect cx n target withDefault Collected.empty s = some (c, t)) :
    GoesOn cx earlier files s t ∧
      (∀ name final, (name, final) ∈ c.names →
        ∃ g, Gathered cx t.root.env target withDefault g name final) ∧
      ∀ g name, cx.Offers target withDefault g name → ¬Dead cx earlier target withDefault name →
        name ∈ c.names.map Prod.fst := by
  have run := ((calls cx n).collect (r := .dependency) ⟨hs.formed, hlead, hhas⟩
    (by simp [Collected.empty]) h).1
  obtain ⟨-, hc⟩ := (collecting_atRoot cx earlier files).collects hs hlead hhas (fun _ => hinc) h
  refine ⟨.run hs run, fun name final he => ?_,
    fun g name hg hdead => (hc.all hg).resolve_right hdead⟩
  rcases hc.gathers.sound name final he with he | ⟨_, g, ho, hpath, hf⟩
  · cases he
  · exact ⟨g, { ho with first := fun hl => hpath.eq_of_lists hl, fits := hf }⟩

end Collect

end AmbientBundle.Merge
