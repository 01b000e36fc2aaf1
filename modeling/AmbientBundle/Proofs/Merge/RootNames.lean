import AmbientBundle.Proofs.Merge.Moves
import AmbientBundle.Proofs.Merge.SpaceNames
import AmbientBundle.Proofs.Merge.Tracing
import AmbientBundle.Proofs.Names.Chosen
/-!
The names that a file's declarations have at the root. Each included file began there at one moment,
at which the names of its declarations were chosen; afterwards only locals of imports get other
names. So the declarations are told apart as they were then, and a local that has the name of one of
them comes from a declaration of the file or of one that imports what it declares.
-/
namespace AmbientBundle.Merge

open Names Syntax

section Begun

variable {cx : Context} {n : Nat} {r : Role} {files : List Url} {s t : State} {y : Yield}
  {f : Url} {c c' : Moment}

/-- The file began at the root at some moment before. -/
def Begun (cx : Context) (f : Url) (c : Moment) : Prop :=
  ∃ files u ps, Rooted files u ∧ u.inBlock = false ∧ u.included.contains f = false ∧
    Moves cx ⟨u.beginFile cx f, ps⟩ c

theorem Begun.moves (h : Begun cx f c) (hm : Moves cx c c') : Begun cx f c' := by
  obtain ⟨files, u, ps, hr, hroot, hnew, hu⟩ := h
  exact ⟨files, u, ps, hr, hroot, hnew, hu.trans hm⟩

theorem Begun.move (h : Begun cx f c) (hm : Move cx c c') : Begun cx f c' := h.moves (.single hm)

/-- A file that a run includes began during the run. -/
theorem Run.begun (h : Run cx n r files s y t) (hr : Rooted files s)
    (hnew : s.included.contains f = false) (hf : t.included.contains f = true) (ps : List Pause) :
    Begun cx f ⟨t, ps⟩ := by
  induction h generalizing ps with
  | nothing => simp [hnew] at hf
  | @andThen r files s t u y z first second ih₁ ih₂ =>
    cases hmid : t.included.contains f with
    | false => exact ih₂ (first.rooted hr) hmid hf ps
    | true => exact (ih₁ hr hnew hmid ps).moves (second.moves ps)
  | warn w => exact absurd hf (by simp [State.warn, hnew])
  | keepRun module => exact absurd hf (by simp [State.keepRun, hnew])
  | preserve typeOnly hkey hw => exact absurd hf (by simp [State.keep, State.claim, hnew])
  | preserveAgain typeOnly hkey => exact absurd hf (by simp [State.keep, hnew])
  | aliasImport hf' hkey => exact absurd hf (by simp [State.keep, State.claim, hnew])
  | aliasBinding hf' => exact absurd hf (by simp [State.claim, hnew])
  | link hcur hsp _ run _ ih =>
    rw [State.included_link] at hf
    refine (ih hr hnew hf ps).move (.link _ (fun hb => ?_) hsp)
    rw [run.stacks.1]
    exact hcur.block (run.inBlock_eq ▸ hb)
  | unlinked target _ _ _ _ ih => exact (ih hr hnew hf ps).move (.warn _)
  | @print r files s t u origin i exports τ _ _ _ _ _ _ run links ih₁ ih₂ =>
    cases hmid : t.included.contains f with
    | false => exact ih₂ ((run.rooted hr).takeItems _) (by simpa using hmid) hf ps
    | true => exact ((ih₁ hr hnew hmid ps).move (.takeItems _)).moves (links.moves ps)
  | @inlined r q files s t u file qs hroot hnew' _ _ _ imports prints ih₁ ih₂ =>
    have hr₁ := hr.beginFile (cx.statements file) file
    rw [State.included_addItems] at hf
    by_cases hfile : f = file
    · subst hfile
      have hrest := ((imports.moves ps).trans (prints.moves ps)).tail (.addItems qs)
      exact ⟨files, s, ps, hr, hroot, hnew, hrest⟩
    · refine Begun.move ?_ (.addItems qs)
      cases hmid : t.included.contains f with
      | false => exact ih₂ (imports.rooted hr₁) hmid hf ps
      | true =>
        refine (ih₁ hr₁ ?_ hmid ps).moves (prints.moves ps)
        simp [State.addFile, SeenSet.contains_insert, hfile, hnew]
  | @atRoot r files s t hblock run ih =>
    rw [State.included_inheritFromRoot] at hf
    have hroot : t.inBlock = false := run.inBlock_eq.trans rfl
    exact (ih hr.suspend hnew hf (s.pause :: ps)).move (.proceed hroot)
  | @block r files s t u v w target wanted qs exports _ _ _ _ _ imports prints collects
      aliases ih₁ ih₂ ih₃ ih₄ =>
    have hr₁ := hr.beginBlock (cx.statements target) target (s.freshName wanted)
    obtain ⟨hr₂, hr₃, hr₄⟩ := hr.throughBlock imports prints collects
    have hbody : (u.addItems qs).inBlock = true :=
      (State.inBlock_congr (State.targets_addItems u qs)).trans
        (prints.inBlock_eq.trans imports.inBlock_begunBlock)
    rw [State.included_addItems] at hf
    refine Begun.move ?_ (.addItems _)
    cases hv : v.included.contains f with
    | false => exact ih₄ hr₄ (by simpa using hv) hf ps
    | true =>
      refine Begun.moves (Begun.move ?_ (.closeBlock (collects.inBlock_eq.trans hbody)))
        (aliases.moves ps)
      cases hu : u.included.contains f with
      | false => exact ih₃ hr₃ (by simpa using hu) hv ps
      | true =>
        refine Begun.moves (Begun.move ?_ (.addItems qs)) (collects.moves ps)
        cases ht : t.included.contains f with
        | false => exact ih₂ hr₂ ht hu ps
        | true => exact (ih₁ hr₁ (by simpa [State.claim] using hnew) ht ps).moves (prints.moves ps)
  | exportAgain _ _ _ _ _ _ ih =>
    rw [State.included_addItems] at hf
    exact (ih hr hnew hf ps).move (.addItems _)

end Begun

section Named

variable {cx : Context} {files : List Url} {s : State} {f : Url} {k : String} {c : Moment}

/-- The file's declarations have names at the root that the file owns and that are told apart. The
names stand there unless the file imports something under the same name. -/
structure NamesAtRoot (cx : Context) (root : Environment) (f : Url) (named : String → Option String) :
    Prop where
  told : ToldApart named
  bound : ∀ k, cx.Declares f k → (named k).isSome
  owned : ∀ k v, named k = some v → root.owner? v = some (.file f)
  stays : ∀ k, ¬cx.Imports f k → root.lookup f k = named k

/-- The names are chosen when the file begins. -/
theorem Rooted.namesAtRoot (h : Rooted files s) (hroot : s.inBlock = false)
    (hnew : s.included.contains f = false) :
    NamesAtRoot cx (s.beginFile cx f).root.env f ((s.beginFile cx f).root.env.lookup f) := by
  have hown := h.ownNames hnew
  have hbegun : OwnNames f (((cx.statements f).flatMap Item.declared).foldl (bindIdent f)
      (s.root.env, OrderedMap.empty)).1 := ownNames_bindIdents hown
  rw [State.beginFile, State.root_beginFile_env hroot]
  refine ⟨?_, fun k hk => ?_, hbegun.own, fun _ _ => rfl⟩
  · have hchosen : Chosen f s.root.env := .of_none (fun n => by
      rw [← lookup_eq_lookupInner h.flat, h.lookup_of_new hnew])
    have htold := (Chosen.bindIdents (p := (s.root.env, OrderedMap.empty)) hchosen
      ((cx.statements f).flatMap Item.declared)).toldApart
    rwa [← funext (lookup_eq_lookupInner hbegun.flat f)] at htold
  · obtain ⟨id, hid, rfl⟩ := List.mem_map.1 hk
    exact Option.isSome_iff_exists.2
      (exists_lookup_bindIdents (p := (s.root.env, OrderedMap.empty)) hown hid)

theorem Begun.namesAtRoot (h : Begun cx f c) : ∃ named, NamesAtRoot cx c.state.root.env f named := by
  obtain ⟨files, u, ps, hr, hroot, hnew, hmoves⟩ := h
  have hbegun : NamesAtRoot cx (u.beginFile cx f).root.env f _ := hr.namesAtRoot hroot hnew
  have hf : (u.beginFile cx f).included.contains f = true := by
    rw [State.beginFile, State.included_bindFile]
    simp [State.addFile, SeenSet.contains_insert]
  exact ⟨_, hbegun.told, hbegun.bound, fun k v hv => hmoves.grows.owner v _ (hbegun.owned k v hv),
    fun k hk => hmoves.lookup_root hf hk⟩

end Named

section Locals

variable {cx : Context} {n : Nat} {r : Role} {files : List Url} {s t : State} {y : Yield}

/-- The locals of the imports that stay are the chunk's. -/
def LocalsOwned (s : State) : Prop :=
  ∀ e ∈ s.preserved.entries, ∀ x ∈ e.2.locals, s.root.env.owner? x = some .chunk

namespace LocalsOwned

theorem grow (h : LocalsOwned s) (hg : Grows s t) (hp : t.preserved = s.preserved) :
    LocalsOwned t := by
  intro e he x hx
  rw [hp] at he
  exact hg.owner x _ (h e he x hx)

theorem claim (h : LocalsOwned s) (name : String) : LocalsOwned (s.claim name) :=
  h.grow (.claim s name) rfl

theorem keep (h : LocalsOwned s) {key : String × ImportedName} {p : Preserved}
    (hp : ∀ x ∈ p.locals, s.root.env.owner? x = some .chunk) : LocalsOwned (s.keep key p) := by
  intro e he
  rcases OrderedMap.mem_entries_put he with rfl | he
  · exact hp
  · exact h e he

end LocalsOwned

theorem Run.localsOwned (h : Run cx n r files s y t) (hs : LocalsOwned s) : LocalsOwned t := by
  induction h with
  | nothing => exact hs
  | andThen _ _ ih₁ ih₂ => exact ih₂ (ih₁ hs)
  | warn w => exact hs
  | keepRun module => exact hs
  | preserve typeOnly hkey hw =>
    exact (hs.claim _).keep (Preserved.forall_locals_new (State.owner?_claim_freshName _ _) _)
  | preserveAgain typeOnly hkey => exact hs.keep (hs _ (OrderedMap.mem_entries_of_get? hkey))
  | @aliasImport r files s f key p hf hkey =>
    have hlocals := hs.claim (s.freshName f) _ (List.mem_of_find?_eq_some hkey)
    exact (hs.claim _).keep
      (Preserved.forall_locals_alias hlocals (State.owner?_claim_freshName _ _))
  | aliasBinding hf => exact (hs.claim _).grow (.addItems _ _) (by simp)
  | link _ _ _ _ _ ih => exact (ih hs).grow (.link _ _ _ _) (by simp)
  | unlinked w _ _ _ _ ih => exact ih hs
  | print _ _ _ _ _ _ _ _ ih₁ ih₂ => exact ih₂ ((ih₁ hs).grow (.takeItems _ _) (by simp))
  | inlined _ _ _ _ _ _ _ ih₁ ih₂ =>
    exact (ih₂ (ih₁ (hs.grow (.beginFile _ _ _) (by simp [State.addFile])))).grow (.addItems _ _)
      (by simp)
  | @atRoot r files s t _ run ih =>
    have hresume : LocalsOwned (t.resume s.suspended.length) := ih hs
    exact hresume.grow (.inheritFromRoot _ _) (by simp)
  | block _ _ _ _ _ _ _ _ _ ih₁ ih₂ ih₃ ih₄ =>
    have hbody := ih₂ (ih₁ (hs.grow (.beginBlock _ _ _ _) (by simp [State.claim])))
    have hcollected := ih₃ (hbody.grow (.addItems _ _) (by simp))
    exact (ih₄ (hcollected.grow (.closeBlock _) (by simp))).grow (.addItems _ _) (by simp)
  | exportAgain _ _ _ _ _ _ ih => exact (ih hs).grow (.addItems _ _) (by simp)

end Locals

section Owner

variable {cx : Context} {s : State} {f g : Url} {x k v : String} {o : Origin}

/-- A name of a file comes from its declaration in the file or from something that is imported under
the name. -/
theorem Context.From.own_cases (h : cx.From (.own g k) o) : o = .decl g k ∨ cx.Imports g k := by
  have himports {e : ImportDecl × ImportSpecifier}
      (he : e ∈ (cx.specifiers g).filter (fun e => e.2.loc == k)) : cx.Imports g k := by
    obtain ⟨he, hloc⟩ := List.mem_filter.1 he
    exact ⟨e, he, by simpa using hloc⟩
  cases h with
  | here h =>
    rcases List.mem_append.1 h with h | h
    · split at h
      · exact Or.inl (List.mem_singleton.1 h)
      · cases h
    · obtain ⟨e, he, -⟩ := List.mem_filterMap.1 h
      exact Or.inr (himports he)
  | next h _ =>
    rcases List.mem_append.1 h with h | h
    · split at h
      · cases List.mem_singleton.1 h
      · cases h
    · obtain ⟨e, he, -⟩ := List.mem_map.1 h
      exact Or.inr (himports he)

/-- What stands for an origin under a name of a file stands for a declaration, of that file or of one
that imports what it declares. -/
theorem Stands.decl_of_owner (h : Stands cx s v o) (hlocals : LocalsOwned s) (hspaces : SpacesOwned s)
    (howned : ∀ g k v, s.root.env.lookup g k = some v → ¬cx.Imports g k →
      s.root.env.owner? v = some (.file g))
    (ho : s.root.env.owner? v = some (.file f)) :
    ∃ g k, o = .decl g k ∧ (g = f ∨ cx.Imports g k) := by
  rcases h with hnamed | ⟨g, k, o', rfl, hfrom, hne⟩
  · cases o with
    | decl g k =>
      refine ⟨g, k, rfl, ?_⟩
      by_cases himports : cx.Imports g k
      · exact Or.inr himports
      · exact Or.inl (Owner.file.inj (Option.some.inj ((howned g k v hnamed himports).symm.trans ho)))
    | outer module imported =>
      obtain ⟨p, hkey, rfl⟩ := hnamed
      have hchunk := hlocals _ (OrderedMap.mem_entries_of_get? hkey) p.first
        (by simp [Preserved.locals])
      cases hchunk.symm.trans ho
    | space file =>
      have hchunk := hspaces s.root.spaces (by simp [State.spaces]) _
        (OrderedMap.mem_entries_of_get? hnamed)
      cases hchunk.symm.trans ho
  · exact ⟨g, k, rfl, Or.inr (hfrom.own_cases.resolve_left hne)⟩

end Owner

section Merged

variable {cx : Context} {included included' : SeenSet Url} {m : Merged} {warnings : List Warning}

/-- At the root of a merged chunk the declarations of each inlined file have their names, and a local
with a name of its own file comes from a declaration: of the file, or of one that imports what it
declares. -/
theorem names_at_root (h : mergeChunk? cx included = some (m, included', warnings)) :
    (∀ f, included'.contains f = true → included.contains f = false →
      ∃ named, NamesAtRoot cx m.names f named) ∧
    ∀ f x v, m.names.lookup f x = some v → m.names.owner? v = some (.file f) →
      ∃ g k, cx.From (.own f x) (.decl g k) ∧ (g = f ∨ cx.Imports g k) := by
  obtain ⟨s, run, rfl, rfl, -⟩ := mergeChunk_run h
  have hnames (f : Url) (hf : s.included.contains f = true) (hnew : included.contains f = false) :
      ∃ named, NamesAtRoot cx s.root.env f named :=
    (run.begun (.start included) hnew hf []).namesAtRoot
  have howned (g : Url) (k v : String) (hl : s.root.env.lookup g k = some v)
      (hk : ¬cx.Imports g k) : s.root.env.owner? v = some (.file g) := by
    cases hnew : included.contains g with
    | true =>
      have hnone : s.root.env.lookup g k = none := (run.moves []).lookup_root hnew hk
      cases hnone.symm.trans hl
    | false =>
      obtain ⟨named, hn⟩ := hnames g ((run.rooted (.start included)).included g k v hl) hnew
      exact hn.owned k v ((hn.stays k hk).symm.trans hl)
  refine ⟨hnames, fun f x v hl ho => ?_⟩
  have htraced := (run.traced (fun k _ => findsOrigin cx k) (.start included) (.start included)
    (.start cx included)).1
  obtain ⟨o, hfrom, hstands⟩ := htraced f x v hl
  obtain ⟨g, k, rfl, hg⟩ := hstands.decl_of_owner
    (run.localsOwned (fun e he => (by cases he))) (run.spacesOwned (.start included)) howned ho
  exact ⟨g, k, hfrom, hg⟩

end Merged

end AmbientBundle.Merge
