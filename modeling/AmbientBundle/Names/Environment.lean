import AmbientBundle.Names.Fresh
import AmbientBundle.OrderedMap
import AmbientBundle.Url.Basic
/-!
The names of a chunk by scope. A frame tells under which final name a file's name stands, and who
owns a final name: a file that declares it, or the chunk itself. Only the innermost frame changes.
-/
namespace AmbientBundle

namespace Names

inductive Owner where
  | file (origin : Url)
  | chunk
deriving DecidableEq, Repr

structure Frame where
  bindings : OrderedMap (Url × String) String
  owners : OrderedMap String Owner

def Frame.empty : Frame := ⟨∅, ∅⟩

instance : Inhabited Frame := ⟨Frame.empty⟩

/-- Whether a declaration of `origin` may stand under the name as far as the frame goes. -/
def Frame.isFree (f : Frame) (name : String) (origin : Url) : Bool :=
  match f.owners.get? name with
  | some o => decide (o = .file origin)
  | none => true

end Names

/-- The frames from the innermost to the outermost. -/
structure Environment where
  inner : Names.Frame
  outer : List Names.Frame

namespace Environment

open Names

def empty : Environment := ⟨Frame.empty, []⟩

instance : Inhabited Environment := ⟨empty⟩

def frames (env : Environment) : List Frame := env.inner :: env.outer

/-- The environment with a new innermost frame. -/
def child (env : Environment) : Environment := ⟨Frame.empty, env.frames⟩

/-- Whether a declaration of `origin` may stand under the name. -/
def isFree (env : Environment) (name : String) (origin : Url) : Bool :=
  env.frames.all (fun f => f.isFree name origin)

def isTaken (env : Environment) (name : String) : Bool :=
  env.frames.any (fun f => f.owners.contains name)

def takenNames (env : Environment) : List String := env.frames.flatMap (fun f => f.owners.keys)

/-- Binds a name of `origin` to a final name, which the file owns unless it has an owner. -/
def bind (env : Environment) (origin : Url) (name final : String) : Environment :=
  { env with inner :=
    { bindings := env.inner.bindings.put (origin, name) final
      owners := env.inner.owners.putNew final (.file origin) } }

/-- Gives a name to the chunk unless it has an owner. -/
def claim (env : Environment) (name : String) : Environment :=
  { env with inner := { env.inner with owners := env.inner.owners.putNew name .chunk } }

/-- Binds a name of `origin` to a final name that something else owns. -/
def link (env : Environment) (origin : Url) (name final : String) : Environment :=
  { env with inner := { env.inner with bindings := env.inner.bindings.put (origin, name) final } }

/-- The final name of a file's name, from the innermost frame that has one. -/
def lookup (env : Environment) (origin : Url) (name : String) : Option String :=
  env.frames.findSome? (fun f => f.bindings.get? (origin, name))

def lookupInner (env : Environment) (origin : Url) (name : String) : Option String :=
  env.inner.bindings.get? (origin, name)

/-- Takes over a binding; the final name is owned again where its file owned it and may. -/
def inheritBinding (owners : OrderedMap String Owner) (origins : List Url) (env : Environment)
    (b : (Url × String) × String) : Environment :=
  let origin := b.1.1
  let name := b.1.2
  if !origins.contains origin || env.lookup origin name == some b.2 then env
  else if owners.get? b.2 == some (.file origin) && env.isFree b.2 origin then
    env.bind origin name b.2
  else env.link origin name b.2

def inheritClaim (env : Environment) (o : String × Owner) : Environment :=
  if o.2 == .chunk && !env.isTaken o.1 then env.claim o.1 else env

def inheritFrame (origins : List Url) (env : Environment) (f : Frame) : Environment :=
  f.owners.entries.foldl inheritClaim
    (f.bindings.entries.foldl (inheritBinding f.owners origins) env)

/-- Makes what another environment binds for the given files visible, and what it claims. -/
def inherit (env other : Environment) (origins : List Url) : Environment :=
  other.frames.reverse.foldl (inheritFrame origins) env

def freshName (env : Environment) (wanted : String) : String := fresh env.takenNames wanted

/-- The name under which a declaration of `origin` is placed. -/
def placeName (env : Environment) (name : String) (origin : Url) : String :=
  if env.isFree name origin then name else env.freshName name

end Environment

end AmbientBundle
