/-!
What a pass over a list makes of one of its nodes, and what it places in front of and behind it.
-/
namespace AmbientBundle

inductive Outcome (α : Type) where
  | unchanged
  | replaced (node : α)
  | multiple (nodes : List α)
  | removed
deriving DecidableEq, Repr

namespace Outcome

variable {α : Type}

/-- The nodes that take the place of the one that was visited. -/
def nodes (node : α) : Outcome α → List α
  | unchanged => [node]
  | replaced n => [n]
  | multiple ns => ns
  | removed => []

/-- Applies `f` to every node; an unchanged one that `f` changes becomes a replacement. -/
def mapNodes [DecidableEq α] (node : α) (f : α → α) : Outcome α → Outcome α
  | unchanged => if f node = node then unchanged else replaced (f node)
  | replaced n => replaced (f n)
  | multiple ns => multiple (ns.map f)
  | removed => removed

theorem nodes_mapNodes [DecidableEq α] (node : α) (f : α → α) (o : Outcome α) :
    (o.mapNodes node f).nodes node = (o.nodes node).map f := by
  cases o with
  | unchanged =>
    by_cases h : f node = node <;> simp [mapNodes, nodes, h]
  | replaced n => rfl
  | multiple ns => rfl
  | removed => rfl

end Outcome

structure Placement (α : Type) where
  before : List α
  outcome : Outcome α
  after : List α
deriving DecidableEq, Repr

namespace Placement

variable {α : Type}

def ofOutcome (o : Outcome α) : Placement α := ⟨[], o, []⟩

def unchanged : Placement α := ofOutcome .unchanged

def addBefore (p : Placement α) (ns : List α) : Placement α := { p with before := p.before ++ ns }

def addAfter (p : Placement α) (ns : List α) : Placement α := { p with after := p.after ++ ns }

/-- All nodes that stand where the visited one stood. -/
def nodes (p : Placement α) (node : α) : List α :=
  p.before ++ p.outcome.nodes node ++ p.after

end Placement

end AmbientBundle
