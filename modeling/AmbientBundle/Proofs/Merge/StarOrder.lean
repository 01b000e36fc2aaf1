import AmbientBundle.Proofs.Merge.Gathering
/-!
In which order the stars of a file are followed: depth first, every file once. What is collected
passes the files in this order, and notes each star that leads out of the chunk once.
-/
namespace AmbientBundle.Merge

open Step Syntax

/-- `DepthFirst next seen work order`: what waits in `work`, each followed by all that `next` leads
to from there, is met in the given order, when nothing is met that was seen before. -/
inductive DepthFirst {α : Type} (next : α → List α) : List α → List α → List α → Prop where
  | nil {seen : List α} : DepthFirst next seen [] []
  | again {seen work order : List α} {a : α} (h : a ∈ seen) (rest : DepthFirst next seen work order) :
      DepthFirst next seen (a :: work) order
  | visit {seen work order : List α} {a : α} (h : a ∉ seen)
      (rest : DepthFirst next (a :: seen) (next a ++ work) order) :
      DepthFirst next seen (a :: work) (a :: order)

namespace DepthFirst

variable {α : Type} {next : α → List α} {seen work work' order order' : List α} {a b : α}

theorem append (h : DepthFirst next seen work order)
    (h' : DepthFirst next (order.reverse ++ seen) work' order') :
    DepthFirst next seen (work ++ work') (order ++ order') := by
  induction h with
  | nil => exact h'
  | again ha _ ih => exact .again ha (ih h')
  | visit ha _ ih =>
    have hrest := ih (by simpa using h')
    rw [List.append_assoc] at hrest
    exact .visit ha hrest

theorem unique (h : DepthFirst next seen work order) (h' : DepthFirst next seen work order') :
    order = order' := by
  induction h generalizing order' with
  | nil =>
    cases h'
    rfl
  | again ha _ ih =>
    cases h' with
    | again _ rest => exact ih rest
    | visit hn _ => exact absurd ha hn
  | visit hn _ ih =>
    cases h' with
    | again ha _ => exact absurd ha hn
    | visit _ rest => rw [ih rest]

/-- Only what follows is met. -/
theorem follows (h : DepthFirst next seen work order) (hb : b ∈ order) :
    ∃ a ∈ work, Relation.ReflTransGen (fun x y => y ∈ next x) a b := by
  induction h with
  | nil => cases hb
  | again _ _ ih => exact (ih hb).imp (fun _ ha => ⟨List.mem_cons_of_mem _ ha.1, ha.2⟩)
  | @visit _ _ _ a _ _ ih =>
    rcases List.mem_cons.1 hb with rfl | hb
    · exact ⟨b, List.mem_cons_self, .refl⟩
    · obtain ⟨x, hx, hpath⟩ := ih hb
      rcases List.mem_append.1 hx with hx | hx
      · exact ⟨a, List.mem_cons_self, .head hx hpath⟩
      · exact ⟨x, List.mem_cons_of_mem _ hx, hpath⟩

/-- All that waits is met, with what it leads to. -/
theorem closed (h : DepthFirst next seen work order) :
    (∀ a ∈ work, a ∈ seen ∨ a ∈ order) ∧ ∀ a ∈ order, ∀ b ∈ next a, b ∈ seen ∨ b ∈ order := by
  induction h with
  | nil => simp
  | again ha _ ih =>
    refine ⟨fun b hb => ?_, ih.2⟩
    rcases List.mem_cons.1 hb with rfl | hb
    · exact Or.inl ha
    · exact ih.1 b hb
  | @visit seen work order a _ _ ih =>
    have hmem (b : α) (hb : b ∈ a :: seen ∨ b ∈ order) : b ∈ seen ∨ b ∈ a :: order := by
      simp only [List.mem_cons] at hb ⊢
      tauto
    refine ⟨fun b hb => ?_, fun x hx b hb => ?_⟩
    · rcases List.mem_cons.1 hb with rfl | hb
      · exact Or.inr List.mem_cons_self
      · exact hmem b (ih.1 b (List.mem_append_right _ hb))
    · rcases List.mem_cons.1 hx with rfl | hx
      · exact hmem b (ih.1 b (List.mem_append_left _ hb))
      · exact hmem b (ih.2 x hx b hb)

/-- From one start exactly that is met to which it leads. -/
theorem mem_iff (h : DepthFirst next [] [a] order) :
    b ∈ order ↔ Relation.ReflTransGen (fun x y => y ∈ next x) a b := by
  constructor
  · intro hb
    obtain ⟨x, hx, hpath⟩ := h.follows hb
    exact List.mem_singleton.1 hx ▸ hpath
  · intro hpath
    induction hpath with
    | refl => exact (h.closed.1 a (List.mem_singleton_self a)).resolve_left (by simp)
    | tail _ hb ih => exact (h.closed.2 _ ih _ hb).resolve_left (by simp)

end DepthFirst

namespace Context

/-- The file of the chunk to which an export of `g` leads, if that is a star. -/
def starFile? (cx : Context) (g : Url) : ExportedSymbol → Option Url
  | .all src => cx.inChunk? src g
  | _ => none

/-- The specifier in the chunk for an export of `g`, if that is a star that leads out of it. -/
def outerStar? (cx : Context) (g : Url) : ExportedSymbol → Option String
  | .all src => if (cx.inChunk? src g).isNone then some (cx.placeSpecifier src g) else none
  | _ => none

/-- The files of the chunk to which the stars of a file lead, in order. -/
def starFiles (cx : Context) (g : Url) : List Url := (cx.exports g).filterMap (cx.starFile? g)

/-- The specifiers in the chunk for the stars of a file that lead out of it. -/
def outerStars (cx : Context) (g : Url) : List String := (cx.exports g).filterMap (cx.outerStar? g)

variable {cx : Context} {g h : Url} {src : String}

theorem starFile?_eq_none {e : ExportedSymbol} (he : ∀ src, e ≠ .all src) :
    cx.starFile? g e = none ∧ cx.outerStar? g e = none := by
  cases e with
  | all src => exact absurd rfl (he src)
  | named => exact ⟨rfl, rfl⟩
  | allAs => exact ⟨rfl, rfl⟩

theorem mem_starFiles : h ∈ cx.starFiles g ↔ cx.Stars g h := by
  constructor
  · intro hmem
    obtain ⟨e, he, hfile⟩ := List.mem_filterMap.1 hmem
    cases e with
    | all src => exact ⟨src, he, hfile⟩
    | named => cases hfile
    | allAs => cases hfile
  · rintro ⟨src, he, hfile⟩
    exact List.mem_filterMap.2 ⟨_, he, hfile⟩

theorem mem_outerStars {x : String} : x ∈ cx.outerStars g ↔
    ∃ src, .all src ∈ cx.exports g ∧ cx.inChunk? src g = none ∧ x = cx.placeSpecifier src g := by
  constructor
  · intro hmem
    obtain ⟨e, he, hx⟩ := List.mem_filterMap.1 hmem
    cases e with
    | all src =>
      cases hin : cx.inChunk? src g with
      | none => exact ⟨src, he, hin, by simpa [outerStar?, hin] using hx.symm⟩
      | some file => simp [outerStar?, hin] at hx
    | named => cases hx
    | allAs => cases hx
  · rintro ⟨src, he, hin, rfl⟩
    exact List.mem_filterMap.2 ⟨_, he, by simp [outerStar?, hin]⟩

end Context

theorem within_iff_mem {cx : Context} {target g : Url} {order : List Url}
    (h : DepthFirst cx.starFiles [] [target] order) : g ∈ order ↔ cx.Within target g := by
  rw [h.mem_iff]
  simp only [Context.mem_starFiles]

/-- From `c` to `c'` the files in `order` are passed, and the given specifiers are noted. -/
structure Passed (c c' : Collected) (order : List Url) (outer : List String) : Prop where
  visited : c'.visited = order.reverse ++ c.visited
  stars : ∀ x, x ∈ c'.stars ↔ x ∈ c.stars ∨ x ∈ outer
  nodup : c.stars.Nodup → c'.stars.Nodup

namespace Passed

variable {c c' c'' : Collected} {order order' : List Url} {outer outer' : List String}

theorem of_eq (hv : c'.visited = order.reverse ++ c.visited) (hs : c'.stars = c.stars) :
    Passed c c' order [] :=
  ⟨hv, by simp [hs], fun h => hs ▸ h⟩

theorem trans (h : Passed c c' order outer) (h' : Passed c' c'' order' outer') :
    Passed c c'' (order ++ order') (outer ++ outer') := by
  refine ⟨by simp [h'.visited, h.visited], fun x => ?_, fun hn => h'.nodup (h.nodup hn)⟩
  rw [h'.stars, h.stars, List.mem_append, or_assoc]

theorem addStar (c : Collected) (star : String) : Passed c (c.addStar star) [] [star] := by
  unfold Collected.addStar
  split
  · rename_i hmem
    rw [List.contains_eq_mem, decide_eq_true_iff] at hmem
    exact ⟨rfl, fun x => by simpa using fun hx => hx ▸ hmem, fun hn => hn⟩
  · rename_i hmem
    rw [List.contains_eq_mem, decide_eq_true_iff] at hmem
    refine ⟨rfl, fun x => by simp, fun hn => ?_⟩
    exact List.nodup_append.2 ⟨hn, List.nodup_singleton star, fun a ha b hb =>
      List.mem_singleton.1 hb ▸ fun he => hmem (he ▸ ha)⟩

end Passed

variable {cx : Context} {n : Nat} {target : Url} {withDefault : Bool} {c c' : Collected}
  {s t : State}

/-- The names of a file do not lead to further files. -/
theorem passed_of_names {names : List String}
    (h : Folds (NameStep cx n target withDefault) names
      { c with visited := target :: c.visited } s c' t) : Passed c c' [target] [] := by
  have hsame : c'.visited = target :: c.visited ∧ c'.stars = c.stars := by
    refine h.inv (fun _ b _ => b.visited = target :: c.visited ∧ b.stars = c.stars)
      ⟨rfl, rfl⟩ ?_
    rintro _ _ b₁ b₂ _ _ _ hb hstep
    cases hstep with
    | skip => exact hb
    | found => exact hb
    | missing => exact hb
  exact .of_eq hsame.1 hsame.2

/-- What some stars of a file lead to: the files that are passed, the file itself first, and the
stars that lead out of the chunk. -/
structure StarsPassed (cx : Context) (target : Url) (c c' : Collected) (stars : List ExportedSymbol)
    (order : List Url) (outer : List String) : Prop where
  files : DepthFirst cx.starFiles (target :: c.visited) (stars.filterMap (cx.starFile? target)) order
  passed : Passed c c' (target :: order) outer
  outer : ∀ x, x ∈ outer ↔ x ∈ stars.filterMap (cx.outerStar? target) ∨
    ∃ g ∈ order, x ∈ cx.outerStars g

namespace StarsPassed

variable {c₁ c₂ : Collected} {done : List ExportedSymbol} {e : ExportedSymbol} {order : List Url}
  {outer : List String} {src : String}

/-- An export that is no star leads nowhere. -/
theorem skip (h : StarsPassed cx target c c₁ done order outer) (hskip : ∀ src, e ≠ .all src) :
    StarsPassed cx target c c₁ (done ++ [e]) order outer := by
  obtain ⟨hfile, houter⟩ := @Context.starFile?_eq_none cx target _ hskip
  refine ⟨?_, h.passed, fun x => ?_⟩
  · rw [List.filterMap_append, List.filterMap_cons_none hfile, List.filterMap_nil, List.append_nil]
    exact h.files
  · rw [List.filterMap_append, List.filterMap_cons_none houter, List.filterMap_nil,
      List.append_nil]
    exact h.outer x

/-- A star that leads out of the chunk is noted. -/
theorem leave (h : StarsPassed cx target c c₁ done order outer)
    (hin : cx.inChunk? src target = none) :
    StarsPassed cx target c (c₁.addStar (cx.placeSpecifier src target)) (done ++ [.all src]) order
      (outer ++ [cx.placeSpecifier src target]) := by
  have hfile : cx.starFile? target (.all src) = none := hin
  refine ⟨?_, ?_, fun x => ?_⟩
  · rw [List.filterMap_append, List.filterMap_cons_none hfile, List.filterMap_nil, List.append_nil]
    exact h.files
  · simpa using h.passed.trans (.addStar c₁ (cx.placeSpecifier src target))
  · rw [List.mem_append, h.outer, List.filterMap_append, List.mem_append]
    simp only [Context.outerStar?, hin, List.filterMap_cons, List.filterMap_nil,
      Option.isNone_none, if_true]
    exact or_right_comm

/-- A star that leads to a file of the chunk passes what that file does. -/
theorem follow {file : Url} {order' : List Url} {outer' : List String}
    (h : StarsPassed cx target c c₁ done order outer) (hin : cx.inChunk? src target = some file)
    (hfiles : DepthFirst cx.starFiles c₁.visited [file] order') (hpassed : Passed c₁ c₂ order' outer')
    (houter : ∀ x, x ∈ outer' ↔ ∃ g ∈ order', x ∈ cx.outerStars g) :
    StarsPassed cx target c c₂ (done ++ [.all src]) (order ++ order') (outer ++ outer') := by
  have hfile : cx.starFile? target (.all src) = some file := hin
  have hnone : cx.outerStar? target (.all src) = none := by simp [Context.outerStar?, hin]
  refine ⟨?_, by simpa using h.passed.trans hpassed, fun x => ?_⟩
  · rw [List.filterMap_append]
    refine h.files.append ?_
    rw [List.filterMap_cons_some hfile, List.filterMap_nil]
    simpa [h.passed.visited] using hfiles
  · rw [List.mem_append, h.outer, houter, List.filterMap_append, List.filterMap_cons_none hnone,
      List.filterMap_nil, List.append_nil, or_assoc]
    simp only [List.mem_append, or_and_right, exists_or]

end StarsPassed

/-- Collecting passes the files to which stars lead in depth-first order, and notes the stars that
lead out of the chunk, each specifier once. -/
theorem passed_of_collect (h : collect cx n target withDefault c s = some (c', t)) :
    ∃ order outer, DepthFirst cx.starFiles c.visited [target] order ∧ Passed c c' order outer ∧
      ∀ x, x ∈ outer ↔ ∃ g ∈ order, x ∈ cx.outerStars g := by
  induction n generalizing target withDefault c c' s t with
  | zero => exact (failure_inv h).elim
  | succ n ih =>
    cases collect_inv h with
    | again hv => exact ⟨[], [], .again hv .nil, .of_eq rfl rfl, by simp⟩
    | all hnew names stars =>
      have hbegun : StarsPassed cx target c _ [] [] [] := ⟨.nil, passed_of_names names, by simp⟩
      obtain ⟨order, outer, hstars⟩ : ∃ order outer,
          StarsPassed cx target c c' (cx.exports target) order outer := by
        refine stars.inv (fun done b _ => ∃ order outer,
          StarsPassed cx target c b done order outer) ⟨[], [], hbegun⟩ ?_
        rintro done e b₁ b₂ s₁ s₂ - ⟨order, outer, hdone⟩ hstep
        cases hstep with
        | skip hskip => exact ⟨_, _, hdone.skip hskip⟩
        | outer he hin =>
          subst he
          exact ⟨_, _, hdone.leave hin⟩
        | inner he hin _ hc =>
          subst he
          obtain ⟨order', outer', hfiles, hpassed, houter⟩ := ih hc
          exact ⟨_, _, hdone.follow hin hfiles hpassed houter⟩
      refine ⟨target :: order, outer, .visit hnew (by rw [List.append_nil]; exact hstars.files),
        hstars.passed, fun x => ?_⟩
      rw [hstars.outer, List.exists_mem_cons_iff]
      rfl

/-- The stars of what is collected are those of the closure that lead out of the chunk. -/
theorem stars_of_collect
    (h : collect cx n target withDefault Collected.empty s = some (c, t)) :
    c.stars.Nodup ∧ ∀ x, x ∈ c.stars ↔ ∃ g, cx.Within target g ∧ x ∈ cx.outerStars g := by
  obtain ⟨order, outer, hd, hp, ho⟩ := passed_of_collect h
  refine ⟨hp.nodup List.nodup_nil, fun x => ?_⟩
  rw [hp.stars, ho]
  simp [Collected.empty, within_iff_mem hd]

end AmbientBundle.Merge
