import AmbientBundle.Merge.Context
import AmbientBundle.Merge.Imports
import AmbientBundle.Merge.Namespace
import AmbientBundle.Merge.Piece
import AmbientBundle.Merge.Warning
/-!
The state of merging a chunk: the scopes that are being filled, the files that are inlined, and
the imports that stay.
-/
namespace AmbientBundle.Merge

open Syntax

/-- A list of statements being built: the chunk itself or a namespace block in it. -/
structure Scope where
  env : Environment
  items : List Piece
  spaces : OrderedMap Url String

def Scope.empty : Scope := ⟨Environment.empty, [], ∅⟩

instance : Inhabited Scope := ⟨Scope.empty⟩

/-- A namespace block with the file that it holds. -/
structure Block where
  target : Url
  scope : Scope

/-- `nested` holds the open blocks, the innermost first. While a file is inlined at the root the
blocks wait in `suspended`. -/
structure State where
  included : SeenSet Url
  root : Scope
  nested : List Block
  suspended : List Block
  bindings : Names.Bindings
  preserved : PreservedImports
  sideEffects : SeenSet String
  warnings : List Warning

/-- Before anything of a chunk is merged; `included` are the files of the chunks before it. -/
def State.start (included : SeenSet Url) : State :=
  ⟨included, Scope.empty, [], [], ∅, ∅, ∅, []⟩

namespace State

def inBlock (s : State) : Bool := !s.nested.isEmpty

/-- The scope that statements go to. -/
def scope (s : State) : Scope :=
  match s.nested with
  | b :: _ => b.scope
  | [] => s.root

def onScope (f : Scope → Scope) (s : State) : State :=
  match s.nested with
  | b :: bs => { s with nested := { b with scope := f b.scope } :: bs }
  | [] => { s with root := f s.root }

def addItems (items : List Piece) (s : State) : State :=
  s.onScope (fun c => { c with items := c.items ++ items })

def onEnv (f : Environment → Environment) (s : State) : State :=
  s.onScope (fun c => { c with env := f c.env })

/-- Binds a file's name to a final name that something else owns. -/
def link (origin : Url) (name final : String) (s : State) : State :=
  s.onEnv (fun e => e.link origin name final)

def lookup (s : State) (origin : Url) (name : String) : Option String :=
  s.scope.env.lookup origin name

def addFile (file : Url) (s : State) : State := { s with included := s.included.insert file }

/-- Keeps an import in the chunk's file. -/
def keep (key : String × ImportedName) (p : Preserved) (s : State) : State :=
  { s with preserved := s.preserved.put key p }

/-- Keeps a module that is only run. -/
def keepRun (module : String) (s : State) : State :=
  { s with sideEffects := s.sideEffects.insert module }

def warn (w : Warning) (s : State) : State := { s with warnings := s.warnings ++ [w] }

def blocks (s : State) : List Block := s.nested ++ s.suspended

def takenNames (s : State) : List String :=
  s.root.env.takenNames ++ s.blocks.flatMap (fun b => b.scope.env.takenNames)

/-- The wanted name, or a numbered form that no scope uses. -/
def freshName (s : State) (wanted : String) : String := Names.fresh s.takenNames wanted

def claimInBlock (name : String) (b : Block) : Block :=
  { b with scope := { b.scope with env := b.scope.env.claim name } }

/-- Gives a name to the chunk in every scope. -/
def claim (name : String) (s : State) : State :=
  { s with
    root := { s.root with env := s.root.env.claim name }
    nested := s.nested.map (claimInBlock name)
    suspended := s.suspended.map (claimInBlock name) }

/-- Sets the open blocks aside. -/
def suspend (s : State) : State :=
  { s with nested := [], suspended := s.nested ++ s.suspended }

/-- Opens the blocks again that were set aside last, so that `depth` of them stay. -/
def resume (depth : Nat) (s : State) : State :=
  let n := s.suspended.length - depth
  { s with nested := s.suspended.take n, suspended := s.suspended.drop n }

def inheritInBlock (root : Environment) (files : List Url) (b : Block) : Block :=
  { b with scope := { b.scope with env := b.scope.env.inherit root files } }

/-- Shows the open blocks what was inlined at the root. -/
def inheritFromRoot (files : List Url) (s : State) : State :=
  if files.isEmpty then s
  else { s with nested := s.nested.map (inheritInBlock s.root.env files) }

/-- The namespace of a file in the open scopes, from the innermost out. -/
def space? (s : State) (target : Url) : Option String :=
  (s.nested.findSome? (fun b => b.scope.spaces.get? target)).or (s.root.spaces.get? target)

/-- Names the namespace of a file and opens a block for it. -/
def openBlock (target : Url) (name : String) (s : State) : State :=
  let s := s.onScope (fun c => { c with spaces := c.spaces.put target name })
  { s with nested := ⟨target, ⟨s.scope.env.child, [], ∅⟩⟩ :: s.nested }

/-- Closes the innermost block. -/
def closeBlock (s : State) : List Piece × State :=
  match s.nested with
  | b :: bs => (b.scope.items, { s with nested := bs })
  | [] => ([], s)

/-- The statements that came into the current scope after it held `n`, taken out of it. -/
def takeItems (n : Nat) (s : State) : List Piece × State :=
  (s.scope.items.drop n, s.onScope (fun c => { c with items := c.items.take n }))

/-- Binds a file's declarations in the current scope. A declaration keeps its first final name. -/
def bindFile (items : List Item) (origin : Url) (s : State) : State :=
  let r := Names.bindDeclarations items origin s.scope.env OrderedMap.empty
  let s := s.onEnv (fun _ => r.1)
  { s with bindings := r.2.entries.foldl (fun bs b => bs.putNew b.1 b.2) s.bindings }

end State

/-- A step of merging; `none` means that the depth bound was too small. -/
abbrev Step := StateT State Option

/-- Claims the wanted name, or a numbered form that no scope uses. -/
def claimFresh (wanted : String) : Step String := do
  let name := (← get).freshName wanted
  modify (State.claim name)
  return name

/-- The local of an import that stays. All imports of a symbol share the first local. -/
def preserve (module : String) (imported : ImportedName) (wanted : String) (typeOnly : Bool) :
    Step String := do
  match (← get).preserved.get? (module, imported) with
  | some p =>
    modify (State.keep (module, imported) { p with typeOnly := p.typeOnly && typeOnly })
    return p.first
  | none =>
    let loc ← claimFresh wanted
    modify (State.keep (module, imported) ⟨loc, [], typeOnly⟩)
    return loc

/-- Gives a binding of the current scope another name: a preserved import gets another local, all
else an alias. -/
def aliasOuter (final : String) : Step String := do
  let name ← claimFresh final
  match (← get).preserved.entries.find? (fun e => e.2.locals.contains final) with
  | some (key, p) => modify (State.keep key { p with others := p.others ++ [name] })
  | none => modify (State.addItems [.made (aliasOf name final false)])
  return name

end AmbientBundle.Merge
