import AmbientBundle.Proofs.Merge.Answers
import AmbientBundle.Proofs.Merge.OuterImports
/-!
Where names come from, be it inside of the chunk or not: a name is followed as far as files of the
chunk are asked for it, to declarations, to symbols of other modules and to namespaces of files. At
the root each final name is that of such an origin.
-/
namespace AmbientBundle.Merge

open Names Syntax

/-- What a name comes from: a declaration of a file, what a module outside of the chunk exports, or
the namespace of a file. -/
inductive Origin where
  | decl (file : Url) (name : String)
  | outer (module : String) (imported : ImportedName)
  | space (file : Url)
deriving DecidableEq

/-- What a step from a name leads on to. -/
def Hop.next? : Hop → Option Reference
  | .go a => some a
  | .arrive _ => none

namespace Context

/-- What is taken from where a specifier leads, if it leads out of the chunk. -/
def outerOrigin? (cx : Context) (src : String) (file : Url) (imported : ImportedName) :
    Option Origin :=
  match cx.inChunk? src file with
  | none => some (.outer (cx.placeSpecifier src file) imported)
  | some _ => none

/-- All that is where a specifier leads. -/
def spaceOrigin (cx : Context) (src : String) (file : Url) : Origin :=
  match cx.inChunk? src file with
  | none => .outer (cx.placeSpecifier src file) .all
  | some target => .space target

/-- The origin of an import that no file of the chunk is asked for. -/
def importOrigin? (cx : Context) (file : Url) (e : ImportDecl × ImportSpecifier) : Option Origin :=
  if (ofSpecifier e.2).2.1 = .all then some (cx.spaceOrigin e.1.src.value file)
  else cx.outerOrigin? e.1.src.value file (ofSpecifier e.2).2.1

/-- The origin of a name in a star that leads out of the chunk. -/
def starOrigin? (cx : Context) (file : Url) (name : String) : ExportedSymbol → Option Origin
  | .all src => cx.outerOrigin? src file (.named name)
  | _ => none

/-- The origins of a name for which no further file is asked. -/
def origins (cx : Context) : Reference → List Origin
  | .own file x =>
    (if cx.Declares file x then [.decl file x] else []) ++
      ((cx.specifiers file).filter (fun e => e.2.loc == x)).filterMap (cx.importOrigin? file)
  | .exported file name =>
    match cx.explicit? file name with
    | some (.named _ property (some src) _) => (cx.outerOrigin? src file (.ofText property)).toList
    | some (.allAs _ src) => [cx.spaceOrigin src file]
    | some _ => []
    | none => if name = "default" then [] else (cx.exports file).filterMap (cx.starOrigin? file name)

/-- A name may come from the origin. -/
inductive From (cx : Context) : Reference → Origin → Prop where
  | here {a : Reference} {o : Origin} (h : o ∈ cx.origins a) : From cx a o
  | next {a b : Reference} {o : Origin} (h : .go b ∈ cx.follow a) (hb : From cx b o) : From cx a o

/-- The names lead on to each other only, and come from no other origin. -/
def OneOrigin (cx : Context) (refs : List Reference) (o : Origin) : Prop :=
  ∀ a ∈ refs, (cx.follow a).filterMap Hop.next? ⊆ refs ∧ ∀ o' ∈ cx.origins a, o' = o

instance (cx : Context) (refs : List Reference) (o : Origin) : Decidable (cx.OneOrigin refs o) :=
  inferInstanceAs (Decidable (∀ _ ∈ _, _ ∧ _))

section Origins

variable {cx : Context} {file target : Url} {name property src k x : String} {id : Option DeclId}
  {e : ImportDecl × ImportSpecifier} {a : Reference} {o : Origin}

theorem outerOrigin?_of_none (hout : cx.inChunk? src file = none) (imported : ImportedName) :
    cx.outerOrigin? src file imported = some (.outer (cx.placeSpecifier src file) imported) := by
  simp [outerOrigin?, hout]

theorem spaceOrigin_of_none (hout : cx.inChunk? src file = none) :
    cx.spaceOrigin src file = .outer (cx.placeSpecifier src file) .all := by
  simp [spaceOrigin, hout]

theorem spaceOrigin_of_inChunk? (hin : cx.inChunk? src file = some target) :
    cx.spaceOrigin src file = .space target := by
  simp [spaceOrigin, hin]

theorem from_declared (hd : cx.Declares file x) : cx.From (.own file x) (.decl file x) :=
  .here (by simp [origins, hd])

theorem from_imported (he : e ∈ cx.specifiers file) (ho : cx.importOrigin? file e = some o) :
    cx.From (.own file e.2.loc) o :=
  .here (List.mem_append_right _ (List.mem_filterMap.2 ⟨e, List.mem_filter.2 ⟨he, by simp⟩, ho⟩))

theorem importOrigin?_of_none (hout : cx.inChunk? e.1.src.value file = none) :
    cx.importOrigin? file e =
      some (.outer (cx.placeSpecifier e.1.src.value file) (ofSpecifier e.2).2.1) := by
  unfold importOrigin?
  split
  · rename_i hall
    rw [hall, spaceOrigin_of_none hout]
  · exact outerOrigin?_of_none hout _

theorem importOrigin?_of_all (hin : cx.inChunk? e.1.src.value file = some target)
    (hall : (ofSpecifier e.2).2.1 = .all) : cx.importOrigin? file e = some (.space target) := by
  rw [importOrigin?, if_pos hall, spaceOrigin_of_inChunk? hin]

theorem from_source (hx : cx.explicit? file name = some (.named k property (some src) id))
    (hout : cx.inChunk? src file = none) :
    cx.From (.exported file name) (.outer (cx.placeSpecifier src file) (.ofText property)) :=
  .here (by simp [origins, hx, outerOrigin?_of_none hout])

theorem from_space (hx : cx.explicit? file name = some (.allAs k src)) :
    cx.From (.exported file name) (cx.spaceOrigin src file) :=
  .here (by simp [origins, hx])

theorem from_star (hx : cx.explicit? file name = none) (hn : name ≠ "default")
    (hs : .all src ∈ cx.exports file) (hout : cx.inChunk? src file = none) :
    cx.From (.exported file name) (.outer (cx.placeSpecifier src file) (.named name)) := by
  refine .here ?_
  simp only [origins, hx, hn, if_false]
  exact List.mem_filterMap.2 ⟨_, hs, outerOrigin?_of_none hout _⟩

/-- A declaration among the origins is that of the name itself. -/
theorem eq_own_of_mem_origins (h : .decl file x ∈ cx.origins a) : a = .own file x := by
  have houter {src : String} {g : Url} {imported : ImportedName} :
      cx.outerOrigin? src g imported ≠ some (.decl file x) := by
    unfold outerOrigin?
    split <;> simp
  have hspace {src : String} {g : Url} : cx.spaceOrigin src g ≠ .decl file x := by
    unfold spaceOrigin
    split <;> simp
  cases a with
  | own g y =>
    rcases List.mem_append.1 h with h | h
    · split at h
      · cases List.mem_singleton.1 h
        rfl
      · cases h
    · obtain ⟨e, -, he⟩ := List.mem_filterMap.1 h
      unfold importOrigin? at he
      split at he
      · exact absurd (Option.some.inj he) hspace
      · exact absurd he houter
  | exported g name =>
    simp only [origins] at h
    split at h
    · exact absurd (Option.mem_toList.1 h) houter
    · exact absurd (List.mem_singleton.1 h).symm hspace
    · cases h
    · split at h
      · cases h
      · obtain ⟨s, -, hs⟩ := List.mem_filterMap.1 h
        cases s with
        | all src => exact absurd hs houter
        | named => cases hs
        | allAs => cases hs

theorem OneOrigin.only {refs : List Reference} {o' : Origin} (h : cx.OneOrigin refs o) (ha : a ∈ refs)
    (hfrom : cx.From a o') : o' = o := by
  induction hfrom with
  | here ho => exact (h _ ha).2 _ ho
  | next hb _ ih => exact ih ((h _ ha).1 (List.mem_filterMap.2 ⟨_, hb, rfl⟩))

/-- What a declaration's name comes from, a name comes from, too, that comes from the
declaration. -/
theorem From.through (h : cx.From a (.decl file x)) (ho : cx.From (.own file x) o) :
    cx.From a o := by
  generalize hd : Origin.decl file x = o' at h
  induction h with
  | here h =>
    subst hd
    exact eq_own_of_mem_origins h ▸ ho
  | next hb _ ih => exact .next hb (ih hd)

end Origins

end Context

/-- The root's final name for the origin. -/
def Origin.Named (s : State) (final : String) : Origin → Prop
  | .decl file name => s.root.env.lookup file name = some final
  | .outer module imported =>
    ∃ p, s.preserved.get? (module, imported) = some p ∧ p.first = final
  | .space file => s.root.spaces.get? file = some final

/-- The final name stands for the origin. The name of a declaration that comes from something else
as well may have been linked to that. -/
def Stands (cx : Context) (s : State) (final : String) (o : Origin) : Prop :=
  o.Named s final ∨ ∃ file name o', o = .decl file name ∧ cx.From (.own file name) o' ∧ o' ≠ o

/-- The final name stands for an origin of the name. -/
def Came (cx : Context) (s : State) (a : Reference) (final : String) : Prop :=
  ∃ o, cx.From a o ∧ Stands cx s final o

/-- From `s` to `t` final names stand for what they stood for. -/
def Lasts (cx : Context) (s t : State) : Prop :=
  ∀ final o, Stands cx s final o → Stands cx t final o

/-- Each of the root's final names stands for an origin. -/
def Traced (cx : Context) (s : State) : Prop :=
  ∀ file x v, s.root.env.lookup file x = some v → Came cx s (.own file x) v

section Stands

variable {cx : Context} {s t u : State} {a b : Reference} {v : String} {o : Origin}

theorem Came.next (h : Came cx s b v) (hb : .go b ∈ cx.follow a) : Came cx s a v := by
  obtain ⟨o, hfrom, hstands⟩ := h
  exact ⟨o, .next hb hfrom, hstands⟩

theorem Came.lasts (h : Came cx s a v) (hl : Lasts cx s t) : Came cx t a v := by
  obtain ⟨o, hfrom, hstands⟩ := h
  exact ⟨o, hfrom, hl v o hstands⟩

namespace Lasts

theorem refl (cx : Context) (s : State) : Lasts cx s s := fun _ _ h => h

theorem trans (h : Lasts cx s t) (h' : Lasts cx t u) : Lasts cx s u :=
  fun v o hv => h' v o (h v o hv)

theorem of_kept (hl : ∀ file x v, s.root.env.lookup file x = some v →
      t.root.env.lookup file x = some v)
    (hp : KeepsFirst s t) (hs : SpacesKept s t) : Lasts cx s t := by
  rintro v o (hnamed | ⟨file, name, o', rfl, hfrom, hne⟩)
  · refine Or.inl ?_
    cases o with
    | decl file name => exact hl file name v hnamed
    | outer module imported =>
      obtain ⟨p, hkey, rfl⟩ := hnamed
      exact hp _ p hkey
    | space file => exact hs file v hnamed
  · exact Or.inr ⟨file, name, o', rfl, hfrom, hne⟩

theorem of_eq (hl : ∀ file x, t.root.env.lookup file x = s.root.env.lookup file x)
    (hp : t.preserved = s.preserved) (hs : t.root.spaces = s.root.spaces) : Lasts cx s t :=
  of_kept (fun file x _ hv => (hl file x).trans hv) (.same hp) (.of_eq hs)

/-- Linking a local to something it comes from. -/
theorem link {origin : Url} {x : String}
    (h : s.inBlock = false → Came cx s (.own origin x) v) :
    Lasts cx s (s.link origin x v) := by
  cases hb : s.inBlock with
  | true => exact of_eq (fun f y => by rw [State.root_link_env, if_pos hb]) (by simp) (by simp)
  | false =>
    rintro w o (hnamed | ⟨file, name, o', rfl, hfrom, hne⟩)
    · cases o with
      | outer module imported => exact Or.inl (by simpa [Origin.Named] using hnamed)
      | space file => exact Or.inl (by simpa [Origin.Named] using hnamed)
      | decl file name =>
        by_cases he : (origin, x) = (file, name)
        · obtain ⟨rfl, rfl⟩ := Prod.mk.inj he
          obtain ⟨o', hfrom, hstands⟩ := h hb
          by_cases hsame : o' = .decl origin x
          · subst hsame
            rcases hstands with hv | halso
            · obtain rfl : v = w := Option.some.inj (hv.symm.trans hnamed)
              refine Or.inl ?_
              exact State.lookup_root_link_self hb
            · exact Or.inr halso
          · exact Or.inr ⟨origin, x, o', rfl, hfrom, hsame⟩
        · refine Or.inl ?_
          rw [Origin.Named, State.lookup_root_link_of_ne (fun _ => he)]
          exact hnamed
    · exact Or.inr ⟨file, name, o', rfl, hfrom, hne⟩

end Lasts

namespace Traced

theorem start (cx : Context) (earlier : SeenSet Url) : Traced cx (State.start earlier) :=
  fun _ _ _ h => (by cases h)

theorem lasts (h : Traced cx s) (hl : Lasts cx s t)
    (ht : ∀ file x v, t.root.env.lookup file x = some v → s.root.env.lookup file x = some v) :
    Traced cx t :=
  fun file x v hv => (h file x v (ht file x v hv)).lasts hl

theorem link {origin : Url} {x : String} (hs : Traced cx s)
    (h : s.inBlock = false → Came cx s (.own origin x) v) : Traced cx (s.link origin x v) := by
  have hlast : Lasts cx s (s.link origin x v) := .link h
  intro file y w hw
  rcases State.lookup_root_link_cases hw with ⟨hb, rfl, rfl, rfl⟩ | hw
  · exact (h hb).lasts hlast
  · exact (hs file y w hw).lasts hlast

/-- A file that begins at the root has the names of its declarations there. -/
theorem beginFile {files : List Url} {file : Url} (h : Traced cx s) (hr : Rooted files s)
    (hnew : s.included.contains file = false) :
    Traced cx ((s.addFile file).bindFile (cx.statements file) file) ∧
      Lasts cx s ((s.addFile file).bindFile (cx.statements file) file) := by
  have hlast : Lasts cx s ((s.addFile file).bindFile (cx.statements file) file) :=
    .of_kept (fun _ _ _ => hr.lookup_beginFile hnew _) (.same (by simp; rfl)) (.of_eq (by simp; rfl))
  refine ⟨fun f x v hv => ?_, hlast⟩
  rcases State.lookup_root_bindFile_cases hv with ⟨rfl, hd⟩ | hold
  · exact ⟨.decl file x, Context.from_declared hd, Or.inl hv⟩
  · exact (h f x v hold).lasts hlast

end Traced

end Stands

end AmbientBundle.Merge
