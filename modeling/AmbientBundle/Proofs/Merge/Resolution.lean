import AmbientBundle.Proofs.Merge.Context
/-!
What the names of a chunk's files stand for, read off the files alone: a name is followed through
imports, export lists and stars to the declarations that it may lead to. Merging finds such a
declaration unless it would have to look an import up that is not linked yet.
-/
namespace AmbientBundle.Merge

open Syntax

/-- A name that a file declares or imports, or one that it exports. -/
inductive Reference where
  | own (file : Url) (name : String)
  | exported (file : Url) (name : String)
deriving DecidableEq

/-- A declaration, or anything else: a namespace, or what comes from outside of the chunk. -/
inductive Denoted where
  | decl (file : Url) (name : String)
  | other
deriving DecidableEq

/-- A step on the way from a name to what it stands for. -/
inductive Hop where
  | arrive (τ : Denoted)
  | go (a : Reference)
deriving DecidableEq

namespace Context

/-- The file declares the name itself. -/
def Declares (cx : Context) (file : Url) (x : String) : Prop :=
  x ∈ ((cx.statements file).flatMap Item.declared).map Ident.name

instance (cx : Context) (file : Url) (x : String) : Decidable (cx.Declares file x) :=
  inferInstanceAs (Decidable (_ ∈ _))

/-- The export of a name that is not a star's. The first one counts. -/
def explicit? (cx : Context) (file : Url) (name : String) : Option ExportedSymbol :=
  (cx.exports file).find? (fun s => s.exportedName? == some name)

/-- A name that is taken from where a specifier leads. -/
def takeFrom (cx : Context) (src : String) (file : Url) (name : String) : Hop :=
  match cx.inChunk? src file with
  | some target => .go (.exported target name)
  | none => .arrive .other

/-- What an import specifier takes. -/
def imported (cx : Context) (file : Url) (e : ImportDecl × ImportSpecifier) : Hop :=
  match (ofSpecifier e.2).2.1.text? with
  | some name => cx.takeFrom e.1.src.value file name
  | none => .arrive .other

/-- What a star stands for when a name is asked for. -/
def throughStar? (cx : Context) (file : Url) (name : String) :
    ExportedSymbol → Option Hop
  | .all src => some (cx.takeFrom src file name)
  | _ => none

/-- Where a name leads in one step. Explicit exports come before stars, of which all count. -/
def follow (cx : Context) : Reference → List Hop
  | .own file x =>
    (if cx.Declares file x then [.arrive (.decl file x)] else []) ++
      ((cx.specifiers file).filter (fun e => e.2.loc == x)).map (cx.imported file)
  | .exported file name =>
    match cx.explicit? file name with
    | some (.named _ property none _) => [.go (.own file property)]
    | some (.named _ property (some src) _) => [cx.takeFrom src file property]
    | some _ => [.arrive .other]
    | none =>
      if name = "default" then [] else (cx.exports file).filterMap (cx.throughStar? file name)

/-- A name may lead to a declaration or to something else. -/
inductive Leads (cx : Context) : Reference → Denoted → Prop where
  | here {a : Reference} {τ : Denoted} (h : .arrive τ ∈ cx.follow a) : Leads cx a τ
  | next {a b : Reference} {τ : Denoted} (h : .go b ∈ cx.follow a) (hb : Leads cx b τ) :
      Leads cx a τ

/-- The name leads to the declaration of `k` in `g` and to nothing else. -/
structure Means (cx : Context) (a : Reference) (g : Url) (k : String) : Prop where
  leads : cx.Leads a (.decl g k)
  only : ∀ τ, cx.Leads a τ → τ = .decl g k

/-- From the given names no step leads on but to others of them or to one declaration. -/
def ClosedFor (cx : Context) (refs : List Reference) (g : Url) (k : String) : Prop :=
  ∀ a ∈ refs, ∀ b ∈ cx.follow a, b = .arrive (.decl g k) ∨ ∃ c ∈ refs, b = .go c

instance (cx : Context) (refs : List Reference) (g : Url) (k : String) :
    Decidable (cx.ClosedFor refs g k) :=
  inferInstanceAs (Decidable (∀ _ ∈ _, ∀ _ ∈ _, _ ∨ _))

/-- The files of the chunk to which a file refers. -/
def linked (cx : Context) (file : Url) : List Url :=
  (cx.imports file).filterMap (fun d => cx.inChunk? d.src.value file) ++
    ((cx.exports file).filterMap ExportedSymbol.source?).filterMap (cx.inChunk? · file) ++
    (collectItems ImportTypes.pickKey (cx.statements file)).filterMap
      (fun key => cx.inChunk? key.specifier file)

variable {cx : Context} {a b : Reference} {τ : Denoted} {file g : Url} {name k : String}

theorem Links.mem_linked {f : Url} (h : cx.Links f g) : g ∈ cx.linked f := by
  simp only [linked, List.mem_append, List.mem_filterMap]
  cases h with
  | imported hd hin => exact Or.inl (Or.inl ⟨_, hd, hin⟩)
  | exported hs hsrc hin => exact Or.inl (Or.inr ⟨_, ⟨_, hs, hsrc⟩, hin⟩)
  | typed hk hin => exact Or.inr ⟨_, hk, hin⟩

/-- Files that refer to each other only lead to each other only. -/
theorem mem_of_leadsTo {f : Url} {fs : List Url} (h : ∀ f ∈ fs, ∀ g ∈ cx.linked f, g ∈ fs)
    (hf : f ∈ fs) (hl : Relation.ReflTransGen cx.Links f g) : g ∈ fs := by
  induction hl with
  | refl => exact hf
  | tail _ hlink ih => exact h _ ih _ hlink.mem_linked

theorem ClosedFor.only {refs : List Reference} (h : cx.ClosedFor refs g k) (ha : a ∈ refs)
    (hl : cx.Leads a τ) : τ = .decl g k := by
  induction hl with
  | here hτ =>
    rcases h _ ha _ hτ with he | ⟨c, _, he⟩
    · exact Hop.arrive.inj he
    · cases he
  | next hb _ ih =>
    rcases h _ ha _ hb with he | ⟨c, hc, he⟩
    · cases he
    · exact ih (Hop.go.inj he ▸ hc)

theorem ClosedFor.means {refs : List Reference} (h : cx.ClosedFor refs g k) (ha : a ∈ refs)
    (hl : cx.Leads a (.decl g k)) : cx.Means a g k :=
  ⟨hl, fun _ => h.only ha⟩

theorem takeFrom_ne_decl (src : String) (file : Url) (name : String) :
    cx.takeFrom src file name ≠ .arrive (.decl g k) := by
  unfold takeFrom
  split <;> simp

theorem imported_ne_decl (file : Url) (e : ImportDecl × ImportSpecifier) :
    cx.imported file e ≠ .arrive (.decl g k) := by
  unfold imported
  split
  · exact takeFrom_ne_decl _ _ _
  · simp

/-- One step to a declaration starts at its name in its own file. -/
theorem eq_own_of_mem_follow (h : .arrive (.decl g k) ∈ cx.follow a) : a = .own g k := by
  cases a with
  | own file x =>
    rcases List.mem_append.1 h with h | h
    · split at h
      · cases List.mem_singleton.1 h
        rfl
      · cases h
    · obtain ⟨e, _, he⟩ := List.mem_map.1 h
      exact absurd he (imported_ne_decl _ _)
  | exported file name =>
    simp only [follow] at h
    split at h
    · cases List.mem_singleton.1 h
    · exact absurd (List.mem_singleton.1 h).symm (takeFrom_ne_decl _ _ _)
    · cases List.mem_singleton.1 h
    · split at h
      · cases h
      · obtain ⟨s, _, hs⟩ := List.mem_filterMap.1 h
        cases s with
        | all src => exact absurd (Option.some.inj hs) (takeFrom_ne_decl _ _ _)
        | named => cases hs
        | allAs => cases hs

/-- What a name leads to includes all that a declaration it leads to stands for. -/
theorem Leads.through (h : cx.Leads a (.decl g k)) (hk : cx.Leads (.own g k) τ) :
    cx.Leads a τ := by
  generalize hd : Denoted.decl g k = σ at h
  induction h with
  | here h =>
    subst hd
    exact eq_own_of_mem_follow h ▸ hk
  | next hb _ ih => exact .next hb (ih hd)

section Follow

variable {property src : String} {id : Option DeclId} {target : Url}

theorem follow_listed (hx : cx.explicit? file name = some (.named k property none id)) :
    .go (.own file property) ∈ cx.follow (.exported file name) := by
  simp [follow, hx]

theorem follow_source (hx : cx.explicit? file name = some (.named k property (some src) id)) :
    cx.takeFrom src file property ∈ cx.follow (.exported file name) := by
  simp [follow, hx]

theorem follow_space (hx : cx.explicit? file name = some (.allAs k src)) :
    .arrive .other ∈ cx.follow (.exported file name) := by
  simp [follow, hx]

theorem follow_star (hx : cx.explicit? file name = none) (hn : name ≠ "default")
    (hs : .all src ∈ cx.exports file) :
    cx.takeFrom src file name ∈ cx.follow (.exported file name) := by
  simp only [follow, hx, hn, if_false]
  exact List.mem_filterMap.2 ⟨_, hs, rfl⟩

theorem follow_imported {e : ImportDecl × ImportSpecifier} (he : e ∈ cx.specifiers file) :
    cx.imported file e ∈ cx.follow (.own file e.2.loc) :=
  List.mem_append_right _ (List.mem_map.2 ⟨e, List.mem_filter.2 ⟨he, by simp⟩, rfl⟩)

theorem takeFrom_of_inChunk? (hin : cx.inChunk? src file = some target) :
    cx.takeFrom src file name = .go (.exported target name) := by
  simp [takeFrom, hin]

theorem takeFrom_of_none (hin : cx.inChunk? src file = none) :
    cx.takeFrom src file name = .arrive .other := by
  simp [takeFrom, hin]

theorem imported_of_inChunk? {e : ImportDecl × ImportSpecifier}
    (hin : cx.inChunk? e.1.src.value file = some target)
    (hname : (ofSpecifier e.2).2.1.text? = some name) :
    cx.imported file e = .go (.exported target name) := by
  simp [imported, hname, takeFrom_of_inChunk? hin]

theorem imported_of_none {e : ImportDecl × ImportSpecifier}
    (h : cx.inChunk? e.1.src.value file = none ∨ (ofSpecifier e.2).2.1.text? = none) :
    cx.imported file e = .arrive .other := by
  unfold imported
  split
  · rename_i hname
    exact takeFrom_of_none (h.resolve_right (by simp [hname]))
  · rfl

end Follow

end Context

variable {cx : Context} {earlier : SeenSet Url}

/-- A way from an exported name to what it stands for, on which no import is looked up that may not
be linked yet. The busy files are those whose imports may be unlinked; every import on the way has
to be linked before that in turn, while the files that lead to its own file are busy. Files of
earlier chunks have no names here. -/
inductive Live (cx : Context) (earlier : SeenSet Url) :
    (Url → Prop) → Url → String → Denoted → Prop where
  | declared {busy : Url → Prop} {file : Url} {name k property : String} {id : Option DeclId}
      (hx : cx.explicit? file name = some (.named k property none id))
      (hnew : earlier.contains file = false) (hd : cx.Declares file property) :
      Live cx earlier busy file name (.decl file property)
  | linked {busy : Url → Prop} {file target : Url} {name k property imported : String}
      {id : Option DeclId} {e : ImportDecl × ImportSpecifier} {τ : Denoted}
      (hx : cx.explicit? file name = some (.named k property none id))
      (hnew : earlier.contains file = false) (hdone : ¬busy file) (he : e ∈ cx.specifiers file)
      (hloc : e.2.loc = property) (hin : cx.inChunk? e.1.src.value file = some target)
      (hname : (ofSpecifier e.2).2.1.text? = some imported)
      (hl : Live cx earlier (Relation.ReflTransGen cx.Links · file) target imported τ) :
      Live cx earlier busy file name τ
  | kept {busy : Url → Prop} {file : Url} {name k property : String} {id : Option DeclId}
      {e : ImportDecl × ImportSpecifier}
      (hx : cx.explicit? file name = some (.named k property none id))
      (hnew : earlier.contains file = false) (hdone : ¬busy file) (he : e ∈ cx.specifiers file)
      (hloc : e.2.loc = property)
      (hout : cx.inChunk? e.1.src.value file = none ∨ (ofSpecifier e.2).2.1.text? = none) :
      Live cx earlier busy file name .other
  | source {busy : Url → Prop} {file target : Url} {name k property src : String}
      {id : Option DeclId} {τ : Denoted}
      (hx : cx.explicit? file name = some (.named k property (some src) id))
      (hin : cx.inChunk? src file = some target) (hl : Live cx earlier busy target property τ) :
      Live cx earlier busy file name τ
  | outer {busy : Url → Prop} {file : Url} {name k property src : String} {id : Option DeclId}
      (hx : cx.explicit? file name = some (.named k property (some src) id))
      (hin : cx.inChunk? src file = none) : Live cx earlier busy file name .other
  | space {busy : Url → Prop} {file : Url} {name k src : String}
      (hx : cx.explicit? file name = some (.allAs k src)) : Live cx earlier busy file name .other
  | star {busy : Url → Prop} {file target : Url} {name src : String} {τ : Denoted}
      (hx : cx.explicit? file name = none) (hn : name ≠ "default")
      (hs : .all src ∈ cx.exports file) (hin : cx.inChunk? src file = some target)
      (hl : Live cx earlier busy target name τ) : Live cx earlier busy file name τ
  | outerStar {busy : Url → Prop} {file : Url} {name src : String}
      (hx : cx.explicit? file name = none) (hn : name ≠ "default")
      (hs : .all src ∈ cx.exports file) (hin : cx.inChunk? src file = none) :
      Live cx earlier busy file name .other

theorem Live.leads {busy : Url → Prop} {file : Url} {name : String} {τ : Denoted}
    (h : Live cx earlier busy file name τ) : cx.Leads (.exported file name) τ := by
  induction h with
  | @declared _ file _ _ property _ hx _ hd =>
    have hown : cx.Leads (.own file property) (.decl file property) :=
      .here (by simp [Context.follow, hd])
    exact .next (Context.follow_listed hx) hown
  | linked hx _ _ he hloc hin hname _ ih =>
    have hfollow := Context.follow_imported he
    rw [Context.imported_of_inChunk? hin hname, hloc] at hfollow
    exact .next (Context.follow_listed hx) (.next hfollow ih)
  | kept hx _ _ he hloc hout =>
    have hfollow := Context.follow_imported he
    rw [Context.imported_of_none hout, hloc] at hfollow
    exact .next (Context.follow_listed hx) (.here hfollow)
  | source hx hin _ ih =>
    exact .next (Context.takeFrom_of_inChunk? hin ▸ Context.follow_source hx) ih
  | outer hx hin => exact .here (Context.takeFrom_of_none hin ▸ Context.follow_source hx)
  | space hx => exact .here (Context.follow_space hx)
  | star hx hn hs hin _ ih =>
    exact .next (Context.takeFrom_of_inChunk? hin ▸ Context.follow_star hx hn hs) ih
  | outerStar hx hn hs hin =>
    exact .here (Context.takeFrom_of_none hin ▸ Context.follow_star hx hn hs)

/-- The declaration to which a live name leads is one of a file that no earlier chunk holds. -/
theorem Live.declares {busy : Url → Prop} {file g : Url} {name x : String} {τ : Denoted}
    (h : Live cx earlier busy file name τ) (hτ : τ = .decl g x) :
    earlier.contains g = false ∧ cx.Declares g x := by
  induction h with
  | declared _ hnew hd =>
    cases hτ
    exact ⟨hnew, hd⟩
  | linked _ _ _ _ _ _ _ _ ih => exact ih hτ
  | source _ _ _ ih => exact ih hτ
  | star _ _ _ _ _ ih => exact ih hτ
  | _ => cases hτ

/-- A specifier for which a final name is found whenever its file is inlined. -/
def LiveSpecifier (cx : Context) (earlier : SeenSet Url) (file : Url)
    (e : ImportDecl × ImportSpecifier) : Prop :=
  ∀ target name, cx.inChunk? e.1.src.value file = some target →
    (ofSpecifier e.2).2.1.text? = some name →
    ∃ τ, Live cx earlier (Relation.ReflTransGen cx.Links · file) target name τ

/-- A name for which resolving finds nothing but what the visited names may give. -/
structure Stuck (cx : Context) (earlier : SeenSet Url) (busy : Url → Prop)
    (visited : List (Url × String)) (a : Url × String) : Prop where
  listed : ∀ {k property : String} {id : Option DeclId},
    cx.explicit? a.1 a.2 = some (.named k property none id) → earlier.contains a.1 = false →
      ¬cx.Declares a.1 property ∧ (¬busy a.1 → ∀ e ∈ cx.specifiers a.1, e.2.loc = property →
        ¬LiveSpecifier cx earlier a.1 e)
  source : ∀ {k property src : String} {id : Option DeclId},
    cx.explicit? a.1 a.2 = some (.named k property (some src) id) →
      ∃ target, cx.inChunk? src a.1 = some target ∧ (target, property) ∈ visited
  space : ∀ {k src : String}, cx.explicit? a.1 a.2 ≠ some (.allAs k src)
  star : ∀ {src : String}, cx.explicit? a.1 a.2 = none → a.2 ≠ "default" →
    .all src ∈ cx.exports a.1 → ∃ target, cx.inChunk? src a.1 = some target ∧
      (target, a.2) ∈ visited

theorem Stuck.mono {busy : Url → Prop} {v v' : List (Url × String)} {a : Url × String}
    (h : Stuck cx earlier busy v a) (hv : v ⊆ v') : Stuck cx earlier busy v' a := by
  refine ⟨h.listed, fun hx => ?_, h.space, fun hx hn hs => ?_⟩
  · obtain ⟨target, hin, hmem⟩ := h.source hx
    exact ⟨target, hin, hv hmem⟩
  · obtain ⟨target, hin, hmem⟩ := h.star hx hn hs
    exact ⟨target, hin, hv hmem⟩

/-- Where all visited names are stuck there is no live one among them. -/
theorem Live.not_mem {busy : Url → Prop} {v : List (Url × String)} {file : Url} {name : String}
    {τ : Denoted} (h : Live cx earlier busy file name τ)
    (hv : ∀ a ∈ v, Stuck cx earlier busy v a) : (file, name) ∉ v := by
  intro hmem
  induction h with
  | declared hx hnew hd => exact ((hv _ hmem).listed hx hnew).1 hd
  | linked hx hnew hdone he hloc hin hname hl =>
    refine ((hv _ hmem).listed hx hnew).2 hdone _ he hloc (fun target name hin' hname' => ?_)
    obtain rfl := Option.some.inj (hin.symm.trans hin')
    obtain rfl := Option.some.inj (hname.symm.trans hname')
    exact ⟨_, hl⟩
  | kept hx hnew hdone he hloc hout =>
    refine ((hv _ hmem).listed hx hnew).2 hdone _ he hloc (fun target name hin hname => ?_)
    simp [hin, hname] at hout
  | source hx hin _ ih =>
    obtain ⟨target, hin', hmem'⟩ := (hv _ hmem).source hx
    obtain rfl := Option.some.inj (hin.symm.trans hin')
    exact ih hv hmem'
  | outer hx hin =>
    obtain ⟨target, hin', _⟩ := (hv _ hmem).source hx
    simp [hin] at hin'
  | space hx => exact (hv _ hmem).space hx
  | star hx hn hs hin _ ih =>
    obtain ⟨target, hin', hmem'⟩ := (hv _ hmem).star hx hn hs
    obtain rfl := Option.some.inj (hin.symm.trans hin')
    exact ih hv hmem'
  | outerStar hx hn hs hin =>
    obtain ⟨target, hin', _⟩ := (hv _ hmem).star hx hn hs
    simp [hin] at hin'

end AmbientBundle.Merge
