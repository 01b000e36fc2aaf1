import AmbientBundle.Syntax.Tree
/-!
The `declare` modifier of top level declarations. A pass answers `none` where nothing changes.
-/
namespace AmbientBundle.Declare

open Syntax

/-- The modifier of a declaration that may have one or not. -/
def modifier? : Decl → Option Bool
  | .cls _ declare _ => some declare
  | .func _ declare _ => some declare
  | .var _ declare _ => some declare
  | .enum _ declare _ _ => some declare
  | .space declare (.ident _) _ _ => some declare
  | _ => none

def setModifier (declare : Bool) : Decl → Decl
  | .cls id _ body => .cls id declare body
  | .func id _ body => .func id declare body
  | .var kind _ decls => .var kind declare decls
  | .enum id _ isConst members => .enum id declare isConst members
  | .space _ (.ident id) inner body => .space declare (.ident id) inner body
  | d => d

/-- The declaration with another modifier, if it has to change for that. -/
def change? (declare : Bool) (d : Decl) : Option Decl :=
  if modifier? d = some (!declare) then some (setModifier declare d) else none

def ensure (declare : Bool) (d : Decl) : Decl := (change? declare d).getD d

/-- Declaration statements get the modifier; exported ones are ambient without it. -/
def addToItem? : Item → Option Item
  | .decl d => (change? true d).map .decl
  | _ => none

/-- All declarations lose the modifier, exported ones too. -/
def dropFromItem? : Item → Option Item
  | .decl d => (change? false d).map .decl
  | .exportDecl d => (change? false d).map .exportDecl
  | _ => none

/-- What a pass has of the items so far: nothing of its own until the first one changes, and from
there on a copy of them. -/
def advance (f : Item → Option Item) (items : List Item) (copy : Option (Array Item))
    (e : Item × Nat) : Option (Array Item) :=
  match f e.1 with
  | none => copy.map (·.push e.1)
  | some j => some ((copy.getD (items.take e.2).toArray).push j)

/-- The items with the changed ones in place, if any changes. -/
def mapItems? (f : Item → Option Item) (items : List Item) : Option (List Item) :=
  (items.zipIdx.foldl (advance f items) none).map Array.toList

/-- A pass that every file goes through before it is merged. -/
inductive Pass where
  | add
  | drop
deriving DecidableEq, Repr

def Pass.onItem? : Pass → Item → Option Item
  | .add => addToItem?
  | .drop => dropFromItem?

def Pass.onBody (p : Pass) (items : List Item) : List Item := (mapItems? p.onItem? items).getD items

def Pass.run (p : Pass) (m : Module) : Module := { m with body := p.onBody m.body }

end AmbientBundle.Declare
