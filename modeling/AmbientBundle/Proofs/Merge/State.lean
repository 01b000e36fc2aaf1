import AmbientBundle.Merge.Inline
import AmbientBundle.Proofs.Names.Environment
/-!
What the steps of merging do to the parts of its state. While blocks are open only they change,
apart from names that the chunk claims; without open blocks the root changes.
-/
namespace AmbientBundle.Merge.State

open Syntax

variable (s : State) (f : Scope → Scope) (origin file : Url) (name final wanted module : String)
  (items : List Piece) (n : Nat)

/-- The files whose blocks are open, the innermost first. -/
def targets : List Url := s.nested.map Block.target

/-- The files whose blocks wait. -/
def waiting : List Url := s.suspended.map Block.target

theorem inBlock_eq : s.inBlock = !s.targets.isEmpty := by
  simp [inBlock, targets]

theorem inBlock_congr {s t : State} (h : t.targets = s.targets) : t.inBlock = s.inBlock := by
  rw [inBlock_eq, inBlock_eq, h]

section Scope

theorem onScope_of_root {s : State} (h : s.inBlock = false) (f : Scope → Scope) :
    s.onScope f = { s with root := f s.root } := by
  unfold onScope
  cases hn : s.nested with
  | nil => rfl
  | cons b bs => simp [inBlock, hn] at h

theorem scope_of_root {s : State} (h : s.inBlock = false) : s.scope = s.root := by
  unfold scope
  cases hn : s.nested with
  | nil => rfl
  | cons b bs => simp [inBlock, hn] at h

@[simp] theorem scope_onScope : (s.onScope f).scope = f s.scope := by
  unfold onScope scope
  cases hn : s.nested <;> simp

@[simp] theorem items_addItems : (s.addItems items).scope.items = s.scope.items ++ items := by
  simp [addItems]

@[simp] theorem items_claim : (s.claim name).scope.items = s.scope.items := by
  unfold claim scope
  cases hn : s.nested <;> simp [claimInBlock]

@[simp] theorem targets_onScope : (s.onScope f).targets = s.targets := by
  unfold onScope targets
  cases s.nested <;> simp

@[simp] theorem suspended_onScope : (s.onScope f).suspended = s.suspended := by
  unfold onScope
  cases hn : s.nested <;> rfl

@[simp] theorem included_onScope : (s.onScope f).included = s.included := by
  unfold onScope
  cases hn : s.nested <;> rfl

@[simp] theorem preserved_onScope : (s.onScope f).preserved = s.preserved := by
  unfold onScope
  cases hn : s.nested <;> rfl

@[simp] theorem warnings_onScope : (s.onScope f).warnings = s.warnings := by
  unfold onScope
  cases hn : s.nested <;> rfl

end Scope

section Targets

@[simp] theorem targets_claim : (s.claim name).targets = s.targets := by
  simp [claim, targets, claimInBlock, Function.comp_def]

@[simp] theorem targets_link : (s.link origin name final).targets = s.targets :=
  targets_onScope s _

@[simp] theorem targets_addItems : (s.addItems items).targets = s.targets := targets_onScope s _

@[simp] theorem targets_bindFile (is : List Item) : (s.bindFile is origin).targets = s.targets :=
  targets_onScope s _

@[simp] theorem targets_takeItems : (s.takeItems n).2.targets = s.targets := targets_onScope s _

@[simp] theorem targets_openBlock : (s.openBlock file name).targets = file :: s.targets := by
  have h := targets_onScope s (fun c => { c with spaces := c.spaces.put file name })
  simp only [targets] at h ⊢
  simp [openBlock, h]

@[simp] theorem targets_closeBlock : s.closeBlock.2.targets = s.targets.tail := by
  unfold closeBlock targets
  cases hn : s.nested <;> simp [hn]

@[simp] theorem targets_addFile : (s.addFile file).targets = s.targets := rfl

@[simp] theorem targets_suspend : s.suspend.targets = [] := rfl

@[simp] theorem targets_inheritFromRoot (files : List Url) :
    (s.inheritFromRoot files).targets = s.targets := by
  unfold inheritFromRoot targets
  split <;> simp [inheritInBlock, Function.comp_def]

@[simp] theorem waiting_claim : (s.claim name).waiting = s.waiting := by
  simp [claim, waiting, claimInBlock, Function.comp_def]

@[simp] theorem waiting_link : (s.link origin name final).waiting = s.waiting :=
  congrArg (List.map Block.target) (suspended_onScope s _)

@[simp] theorem waiting_addItems : (s.addItems items).waiting = s.waiting :=
  congrArg (List.map Block.target) (suspended_onScope s _)

@[simp] theorem waiting_bindFile (is : List Item) : (s.bindFile is origin).waiting = s.waiting :=
  congrArg (List.map Block.target) (suspended_onScope s _)

@[simp] theorem waiting_takeItems : (s.takeItems n).2.waiting = s.waiting :=
  congrArg (List.map Block.target) (suspended_onScope s _)

@[simp] theorem waiting_openBlock : (s.openBlock file name).waiting = s.waiting :=
  congrArg (List.map Block.target) (suspended_onScope s _)

@[simp] theorem waiting_closeBlock : s.closeBlock.2.waiting = s.waiting := by
  unfold closeBlock waiting
  cases s.nested <;> rfl

@[simp] theorem waiting_addFile : (s.addFile file).waiting = s.waiting := rfl

@[simp] theorem waiting_suspend : s.suspend.waiting = s.targets ++ s.waiting := by
  simp [suspend, waiting, targets]

@[simp] theorem waiting_inheritFromRoot (files : List Url) :
    (s.inheritFromRoot files).waiting = s.waiting := by
  unfold inheritFromRoot waiting
  split <;> rfl

theorem targets_resume : (s.resume n).targets = s.waiting.take (s.waiting.length - n) := by
  simp [resume, targets, waiting]

theorem waiting_resume : (s.resume n).waiting = s.waiting.drop (s.waiting.length - n) := by
  simp [resume, waiting]

end Targets

section Included

@[simp] theorem included_claim : (s.claim name).included = s.included := rfl

@[simp] theorem included_link : (s.link origin name final).included = s.included :=
  included_onScope s _

@[simp] theorem included_addItems : (s.addItems items).included = s.included :=
  included_onScope s _

@[simp] theorem included_bindFile (is : List Item) :
    (s.bindFile is origin).included = s.included := included_onScope s _

@[simp] theorem included_takeItems : (s.takeItems n).2.included = s.included :=
  included_onScope s _

@[simp] theorem included_openBlock : (s.openBlock file name).included = s.included :=
  included_onScope s _

@[simp] theorem included_closeBlock : s.closeBlock.2.included = s.included := by
  unfold closeBlock
  cases s.nested <;> rfl

@[simp] theorem included_inheritFromRoot (files : List Url) :
    (s.inheritFromRoot files).included = s.included := by
  unfold inheritFromRoot
  split <;> rfl

end Included

section Root

@[simp] theorem root_openBlock_env : (s.openBlock file name).root.env = s.root.env := by
  unfold openBlock onScope
  cases s.nested <;> rfl

@[simp] theorem root_openBlock_items : (s.openBlock file name).root.items = s.root.items := by
  unfold openBlock onScope
  cases s.nested <;> rfl

@[simp] theorem root_closeBlock : s.closeBlock.2.root = s.root := by
  unfold closeBlock
  cases s.nested <;> rfl

@[simp] theorem root_inheritFromRoot (files : List Url) :
    (s.inheritFromRoot files).root = s.root := by
  unfold inheritFromRoot
  split <;> rfl

@[simp] theorem root_addItems_env : (s.addItems items).root.env = s.root.env := by
  unfold addItems onScope
  cases s.nested <;> rfl

@[simp] theorem root_takeItems_env : (s.takeItems n).2.root.env = s.root.env := by
  unfold takeItems onScope
  cases s.nested <;> rfl

@[simp] theorem root_link_items : (s.link origin name final).root.items = s.root.items := by
  unfold link onEnv onScope
  cases s.nested <;> rfl

@[simp] theorem root_bindFile_items (is : List Item) :
    (s.bindFile is origin).root.items = s.root.items := by
  unfold bindFile onEnv onScope
  cases s.nested <;> rfl

@[simp] theorem root_link_spaces : (s.link origin name final).root.spaces = s.root.spaces := by
  unfold link onEnv onScope
  cases s.nested <;> rfl

@[simp] theorem root_addItems_spaces : (s.addItems items).root.spaces = s.root.spaces := by
  unfold addItems onScope
  cases s.nested <;> rfl

@[simp] theorem root_takeItems_spaces : (s.takeItems n).2.root.spaces = s.root.spaces := by
  unfold takeItems onScope
  cases s.nested <;> rfl

@[simp] theorem root_bindFile_spaces (is : List Item) :
    (s.bindFile is origin).root.spaces = s.root.spaces := by
  unfold bindFile onEnv onScope
  cases s.nested <;> rfl

theorem space?_of_root {s : State} (h : s.inBlock = false) (file : Url) :
    s.space? file = s.root.spaces.get? file := by
  have hn : s.nested = [] := by simpa [inBlock] using h
  simp [space?, hn]

theorem root_openBlock_spaces : (s.openBlock file name).root.spaces =
    if s.inBlock then s.root.spaces else s.root.spaces.put file name := by
  unfold openBlock onScope inBlock
  cases s.nested <;> rfl

theorem root_link_env : (s.link origin name final).root.env =
    if s.inBlock then s.root.env else s.root.env.link origin name final := by
  unfold link onEnv onScope inBlock
  cases s.nested <;> rfl

theorem lookup_root_link_self {s : State} {origin : Url} {name final : String}
    (h : s.inBlock = false) :
    (s.link origin name final).root.env.lookup origin name = some final := by
  rw [root_link_env, h, if_neg Bool.false_ne_true, Environment.lookup_link, if_pos rfl]

/-- In a block a link changes nothing at the root, and there it changes the linked name only. -/
theorem lookup_root_link_of_ne {s : State} {origin file : Url} {name final x : String}
    (h : s.inBlock = false → (origin, name) ≠ (file, x)) :
    (s.link origin name final).root.env.lookup file x = s.root.env.lookup file x := by
  rw [root_link_env]
  split
  · rfl
  · rename_i hb
    exact Environment.lookup_link_of_ne (h (Bool.eq_false_iff.2 hb))

theorem lookup_root_link_cases {s : State} {origin file : Url} {name final x v : String}
    (h : (s.link origin name final).root.env.lookup file x = some v) :
    (s.inBlock = false ∧ origin = file ∧ name = x ∧ final = v) ∨
      s.root.env.lookup file x = some v := by
  rw [root_link_env] at h
  split at h
  · exact Or.inr h
  · rename_i hb
    exact (Environment.lookup_link_cases h).imp_left (fun he => ⟨Bool.eq_false_iff.2 hb, he⟩)

theorem root_bindFile_env (is : List Item) : (s.bindFile is origin).root.env =
    if s.inBlock then s.root.env
    else (Names.bindDeclarations is origin s.root.env OrderedMap.empty).1 := by
  unfold bindFile onEnv onScope inBlock scope
  cases s.nested <;> rfl

section BindFile

variable {s : State} {is : List Item} {origin f : Url} {x v : String}

/-- Binding the declarations of a file changes the names of that file only. -/
theorem lookup_root_bindFile_of_ne (h : origin ≠ f) (x : String) :
    (s.bindFile is origin).root.env.lookup f x = s.root.env.lookup f x := by
  rw [root_bindFile_env]
  split
  · rfl
  · exact Names.lookup_bindIdents_of_ne h x

/-- A name at the root is one that the file declares, or was there before. -/
theorem lookup_root_bindFile_cases (h : (s.bindFile is origin).root.env.lookup f x = some v) :
    (origin = f ∧ x ∈ (is.flatMap Item.declared).map Ident.name) ∨
      s.root.env.lookup f x = some v := by
  by_cases hf : origin = f
  · by_cases hx : x ∈ (is.flatMap Item.declared).map Ident.name
    · exact Or.inl ⟨hf, hx⟩
    · subst hf
      rw [root_bindFile_env] at h
      split at h
      · exact Or.inr h
      · exact Or.inr ((Names.lookup_bindIdents_of_not_mem hx).symm.trans h)
  · exact Or.inr ((lookup_root_bindFile_of_ne hf x).symm.trans h)

end BindFile

/-- The root's names behind the beginning of a file there. -/
theorem root_beginFile_env {s : State} (h : s.inBlock = false) (is : List Item) (file : Url) :
    ((s.addFile file).bindFile is file).root.env =
      ((is.flatMap Item.declared).foldl (Names.bindIdent file)
        (s.root.env, OrderedMap.empty)).1 := by
  have hb : (s.addFile file).inBlock = false := h
  rw [root_bindFile_env, hb, if_neg Bool.false_ne_true]
  rfl

theorem root_addItems_items : (s.addItems items).root.items =
    if s.inBlock then s.root.items else s.root.items ++ items := by
  unfold addItems onScope inBlock
  cases s.nested <;> rfl

theorem root_takeItems_items : (s.takeItems n).2.root.items =
    if s.inBlock then s.root.items else s.root.items.take n := by
  unfold takeItems onScope inBlock
  cases s.nested <;> rfl

theorem onScope_id {s : State} {f : Scope → Scope} (h : f s.scope = s.scope) : s.onScope f = s := by
  obtain ⟨included, root, nested, suspended, bindings, preserved, sideEffects, warnings⟩ := s
  cases nested with
  | nil =>
    simp only [scope] at h
    simp [onScope, h]
  | cons b bs =>
    simp only [scope] at h
    simp [onScope, h]

theorem addItems_nil : s.addItems [] = s := onScope_id (by simp)

/-- A file without declarations binds nothing. -/
theorem bindFile_nil : s.bindFile [] origin = s := by
  have h : s.onEnv (fun _ => s.scope.env) = s := onScope_id rfl
  simp [bindFile, Names.bindDeclarations, h, OrderedMap.empty]

end Root

section Preserved

@[simp] theorem preserved_link : (s.link origin name final).preserved = s.preserved :=
  preserved_onScope s _

@[simp] theorem preserved_addItems : (s.addItems items).preserved = s.preserved :=
  preserved_onScope s _

@[simp] theorem preserved_bindFile (is : List Item) :
    (s.bindFile is origin).preserved = s.preserved := preserved_onScope s _

@[simp] theorem preserved_takeItems : (s.takeItems n).2.preserved = s.preserved :=
  preserved_onScope s _

@[simp] theorem preserved_openBlock : (s.openBlock file name).preserved = s.preserved :=
  preserved_onScope s _

@[simp] theorem preserved_closeBlock : s.closeBlock.2.preserved = s.preserved := by
  unfold closeBlock
  cases s.nested <;> rfl

@[simp] theorem preserved_inheritFromRoot (files : List Url) :
    (s.inheritFromRoot files).preserved = s.preserved := by
  unfold inheritFromRoot
  split <;> rfl

end Preserved

section Warnings

@[simp] theorem warnings_link : (s.link origin name final).warnings = s.warnings :=
  warnings_onScope s _

@[simp] theorem warnings_addItems : (s.addItems items).warnings = s.warnings :=
  warnings_onScope s _

@[simp] theorem warnings_bindFile (is : List Item) :
    (s.bindFile is origin).warnings = s.warnings := warnings_onScope s _

@[simp] theorem warnings_takeItems : (s.takeItems n).2.warnings = s.warnings :=
  warnings_onScope s _

@[simp] theorem warnings_openBlock : (s.openBlock file name).warnings = s.warnings :=
  warnings_onScope s _

@[simp] theorem warnings_closeBlock : s.closeBlock.2.warnings = s.warnings := by
  unfold closeBlock
  cases s.nested <;> rfl

@[simp] theorem warnings_inheritFromRoot (files : List Url) :
    (s.inheritFromRoot files).warnings = s.warnings := by
  unfold inheritFromRoot
  split <;> rfl

end Warnings

section Bindings

@[simp] theorem bindings_onScope : (s.onScope f).bindings = s.bindings := by
  unfold onScope
  cases s.nested <;> rfl

@[simp] theorem bindings_claim : (s.claim name).bindings = s.bindings := rfl

@[simp] theorem bindings_link : (s.link origin name final).bindings = s.bindings :=
  bindings_onScope s _

@[simp] theorem bindings_addItems : (s.addItems items).bindings = s.bindings :=
  bindings_onScope s _

@[simp] theorem bindings_takeItems : (s.takeItems n).2.bindings = s.bindings :=
  bindings_onScope s _

@[simp] theorem bindings_openBlock : (s.openBlock file name).bindings = s.bindings :=
  bindings_onScope s _

@[simp] theorem bindings_closeBlock : s.closeBlock.2.bindings = s.bindings := by
  unfold closeBlock
  cases s.nested <;> rfl

@[simp] theorem bindings_inheritFromRoot (files : List Url) :
    (s.inheritFromRoot files).bindings = s.bindings := by
  unfold inheritFromRoot
  split <;> rfl

end Bindings

section BindFile

variable (is : List Item)

@[simp] theorem scope_bindFile_env : (s.bindFile is origin).scope.env =
    (Names.bindDeclarations is origin s.scope.env OrderedMap.empty).1 :=
  congrArg Scope.env (scope_onScope s _)

theorem bindings_bindFile : (s.bindFile is origin).bindings =
    (Names.bindDeclarations is origin s.scope.env OrderedMap.empty).2.entries.foldl
      (fun bs b => bs.putNew b.1 b.2) s.bindings := by
  have hkept := bindings_onScope s (fun c =>
    { c with env := (Names.bindDeclarations is origin s.scope.env OrderedMap.empty).1 })
  rw [← hkept]
  rfl

end BindFile

end AmbientBundle.Merge.State
