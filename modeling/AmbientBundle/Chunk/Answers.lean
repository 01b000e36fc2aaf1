import AmbientBundle.Chunk.Membership
import AmbientBundle.OrderedMap
/-!
A membership that is asked for one file after another and keeps its answers: what was asked before
is not looked for again.
-/
namespace AmbientBundle.Membership

structure Answers where
  membership : Membership
  given : OrderedMap Url (Option Nat)

namespace Answers

def start (m : Membership) : Answers := ⟨m, OrderedMap.empty⟩

/-- The chunk of a file, and what is known afterwards. -/
def ask (a : Answers) (u : Url) : Option Nat × Answers :=
  match a.given.get? u with
  | some answer => (answer, a)
  | none =>
    let answer := a.membership.chunkFor u
    (answer, { a with given := a.given.put u answer })

/-- The chunks of the files, asked for in their order. -/
def askAll (a : Answers) : List Url → List (Option Nat) × Answers
  | [] => ([], a)
  | u :: us =>
    let (answer, a) := a.ask u
    let (answers, a) := a.askAll us
    (answer :: answers, a)

end Answers

end AmbientBundle.Membership
