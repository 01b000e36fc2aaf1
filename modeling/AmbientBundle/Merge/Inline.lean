import AmbientBundle.ImportTypes.Link
import AmbientBundle.Merge.Exports
import AmbientBundle.Merge.State
import AmbientBundle.Rename.Module
/-!
Inlining files into a chunk. A file is inlined once at the root, and in namespace blocks as often
as its namespace is needed. What it imports is inlined first; its own declarations are bound
before that, so that cyclic imports see them. The number that each step takes bounds the depth of
the recursion.
-/
namespace AmbientBundle.Merge

open Syntax

/-- Whether a file's exports are the chunk's, or are only resolved on demand. -/
inductive Role where
  | entry | dependency
deriving DecidableEq, Repr

/-- Whether a file's exports stay while its statements are merged. -/
def keepsExports (role : Role) (s : State) : Bool := role = .entry && !s.inBlock

/-- What is asked for while an export is resolved: files and names. -/
abbrev Visited := List (Url × String)

/-- The exports of a file and of its stars, as far as they are collected. -/
structure Collected where
  visited : List Url
  seen : List String
  names : List (String × String)
  stars : List String

def Collected.empty : Collected := ⟨[], [], [], []⟩

def Collected.surface (c : Collected) : Surface := ⟨c.names, c.stars⟩

def Collected.addStar (star : String) (c : Collected) : Collected :=
  if c.stars.contains star then c else { c with stars := c.stars ++ [star] }

/-- Nameless default exports become declarations before anything else. -/
def nameDefaults (origin : Url) (items : List Item) : List Item :=
  items.flatMap (fun i =>
    if Exports.isAnonymousDefault i then (Exports.promote origin i).nodes i else [i])

def requireAsImport (d : ImportEquals) (src : StrLit) : ImportDecl :=
  ⟨[.all d.id.name], src, d.typeOnly, none⟩

/-- The imports of a statement, and the statement unless it is an import. An `import x = require`
of a file of the chunk is an import of its namespace. -/
def splitImport (cx : Context) (origin : Url) : Item → List ImportDecl × List Item
  | .importDecl d => ([d], [])
  | .importEquals d =>
    match d.target, (cx.required? origin d).isSome with
    | .require src, true =>
      ([requireAsImport d src],
        if d.isExport then [Exports.list [Exports.specifier d.id.name d.id.name]] else [])
    | _, _ => ([], [.importEquals d])
  | i => ([], [i])

def isSpaceSpecifier : ExportSpecifier → Bool
  | .all _ => true
  | .named _ _ _ => false

/-- The specifier from which a statement exports names. A namespace is inlined on demand only. -/
def reexportSource? : Item → Option String
  | .exportList d =>
    if d.specifiers.all isSpaceSpecifier then none else d.src.map StrLit.value
  | .exportAll d => some d.src.value
  | _ => none

def isExportList : Item → Bool
  | .exportList _ => true
  | _ => false

def dropDeclare (i : Item) : Item := (Declare.dropFromItem? i).getD i

/-- In a block no declaration has a `declare` modifier. -/
def plain (inBlock : Bool) (items : List Item) : List Item :=
  if inBlock then items.map dropDeclare else items

/-- The plain declaration of an exported one, with an export list where exports are kept. -/
def promoted (origin : Url) (keep : Bool) (i : Item) : List Item :=
  let nodes := (Exports.promote origin i).nodes i
  if keep then nodes else nodes.filter (fun n => !isExportList n)

def isRenamed (env : Environment) (origin : Url) (ids : List Ident) : Bool :=
  ids.any (fun id => Rename.ofEnvironment env origin id.name != id.name)

/-- The target with the specifier that stands for it in the chunk. -/
def placeTarget (cx : Context) (origin : Url) : ImportTarget → ImportTarget
  | .require src => .require (StrLit.made (cx.placeSpecifier src.value origin))
  | .entity name => .entity name

/-- The statements that stand for one of a file, still under the file's own names. What a file
exports from other files is not among them. -/
def shown (cx : Context) (origin : Url) (inBlock keep : Bool) (env : Environment) (i : Item) :
    List Item :=
  let exported (ids : List Ident) : List Item :=
    if keep && !isRenamed env origin ids then [i] else plain inBlock (promoted origin keep i)
  match i with
  | .empty => plain inBlock [i]
  | .expr _ => plain inBlock [i]
  | .decl _ => plain inBlock [i]
  | .importDecl _ => []
  | .importEquals d =>
    let d' := Item.importEquals { d with target := placeTarget cx origin d.target }
    if keep then [d'] else plain inBlock (promoted origin false d')
  | .exportDecl d => exported d.bound
  | .exportDefaultDecl d => exported d.ident?.toList
  | .exportDefaultExpr _ => if keep then [i] else []
  | .exportList d => if keep && d.src.isNone then [i] else []
  | .exportAll _ => []
  | .exportAssign _ => if keep then [i] else []
  | .exportAsNamespace _ => if keep then [i] else []

namespace Context

/-- The statements of a file after all passes, with its nameless default exports named. -/
def body (cx : Context) (file : Url) : List Item :=
  match cx.files.get? file with
  | some m => nameDefaults file (cx.prepare m).body
  | none => []

def imports (cx : Context) (file : Url) : List ImportDecl :=
  (cx.body file).flatMap (fun i => (splitImport cx file i).1)

def statements (cx : Context) (file : Url) : List Item :=
  (cx.body file).flatMap (fun i => (splitImport cx file i).2)

end Context

/-- An import from outside the chunk. -/
def mergeOuterImport (cx : Context) (origin : Url) (d : ImportDecl) : Step Unit := do
  let module := cx.placeSpecifier d.src.value origin
  if d.specifiers.isEmpty then
    modify (State.keepRun module)
  d.specifiers.forM (fun sp => do
    let (loc, imported, typeOnly) := ofSpecifier sp
    let final ← preserve module imported loc (d.typeOnly || typeOnly)
    modify (State.link origin loc final))

mutual

/-- Makes a file part of the chunk unless it is. -/
def includeFile (cx : Context) : Nat → Url → Role → Step Unit
  | 0, _, _ => failure
  | n + 1, file, role => do
    let s ← get
    if s.inBlock then
      if !s.nested.any (fun b => b.target == file) then includeAtRoot cx n file role
    else if s.included.contains file then
      if role = .entry then exportAgain cx n file
    else
      set (s.addFile file)
      inlineFile cx n file role

/-- Inlines a file at the root while blocks are open, and shows it to them. -/
def includeAtRoot (cx : Context) : Nat → Url → Role → Step Unit
  | 0, _, _ => failure
  | n + 1, file, role => do
    let s ← get
    set s.suspend
    includeFile cx n file role
    modify (State.resume s.suspended.length)
    modify (fun t => t.inheritFromRoot (t.included.addedSince s.included.size))

/-- Puts a file's statements into the current scope. -/
def inlineFile (cx : Context) : Nat → Url → Role → Step Unit
  | 0, _, _ => failure
  | n + 1, file, role => do
    match cx.files.get? file with
    | none => modify (State.warn (.missingFile file))
    | some _ =>
      let pieces ← mergeFile cx n file role
      modify (State.addItems pieces)

/-- The statements that a file adds to the chunk, under final names. -/
def mergeFile (cx : Context) : Nat → Url → Role → Step (List Piece)
  | 0, _, _ => failure
  | n + 1, origin, role => do
    modify (State.bindFile (cx.statements origin) origin)
    (cx.imports origin).forM (mergeImport cx n origin)
    ((cx.statements origin).filterMap reexportSource?).forM (fun src =>
      match cx.inChunk? src origin with
      | some target => includeFile cx n target .dependency
      | none => pure ())
    let merged ← (cx.statements origin).mapM (fun i => mergeItem cx n origin role i)
    return merged.flatten

/-- One statement under final names, behind what its merging placed in the scope. -/
def mergeItem (cx : Context) : Nat → Url → Role → Item → Step (List Piece)
  | 0, _, _, _ => failure
  | n + 1, origin, role, i => do
    let s ← get
    let keep := keepsExports role s
    let exports ← if keep then reexport cx n origin i else pure []
    let synthesized ← modifyGet (State.takeItems s.scope.items.length)
    let ρ := Rename.ofEnvironment (← get).scope.env origin
    let nodes ← linkTypes cx n origin
      (renameItems ρ (shown cx origin s.inBlock keep s.scope.env i))
    return synthesized ++ (nodes ++ exports).map (Piece.ofFile origin)

/-- The export statements for one that exports names of another file. -/
def reexport (cx : Context) : Nat → Url → Item → Step (List Item)
  | 0, _, _ => failure
  | n + 1, origin, i =>
    match i with
    | .exportList d =>
      match d.src with
      | some src => mergeReexport cx n origin d src.value
      | none => pure []
    | .exportAll d => mergeStar cx n origin d.src.value
    | _ => pure []

/-- Links the locals of an import to what they import. -/
def mergeImport (cx : Context) : Nat → Url → ImportDecl → Step Unit
  | 0, _, _ => failure
  | n + 1, origin, d => do
    match cx.inChunk? d.src.value origin with
    | none => mergeOuterImport cx origin d
    | some target =>
      includeFile cx n target .dependency
      d.specifiers.forM (fun sp => do
        let (loc, imported, _) := ofSpecifier sp
        let final ← match imported with
          | .named name => Prod.fst <$> resolveExport cx n target name []
          | .default => Prod.fst <$> resolveExport cx n target "default" []
          | .all => some <$> ensureSpace cx n target loc
        match final with
        | some f => modify (State.link origin loc f)
        | none => modify (State.warn (.unknownImport target origin loc)))

/-- The statements for `export { … } from`. -/
def mergeReexport (cx : Context) : Nat → Url → ExportList → String → Step (List Item)
  | 0, _, _, _ => failure
  | n + 1, origin, d, src => do
    match cx.inChunk? src origin with
    | none =>
      return [.exportList { d with src := some (StrLit.made (cx.placeSpecifier src origin)) }]
    | some target =>
      let specifiers ← d.specifiers.filterMapM (fun sp => do
        let final ← match sp with
          | .named orig _ _ => Prod.fst <$> resolveExport cx n target orig.text []
          | .all name => some <$> ensureSpace cx n target name.text
        match final with
        | some f => return some (Exports.specifier f (exportedName sp))
        | none =>
          modify (State.warn (.unknownReexport target origin (exportedName sp)))
          return none)
      return if specifiers.isEmpty then [] else [Exports.list specifiers]

/-- The statements for `export * from`. -/
def mergeStar (cx : Context) : Nat → Url → String → Step (List Item)
  | 0, _, _ => failure
  | n + 1, origin, src => do
    match cx.inChunk? src origin with
    | none => return [starOf (cx.placeSpecifier src origin)]
    | some target =>
      let c ← collect cx n target false Collected.empty
      return c.surface.items

/-- Exports what a file exports that is already inlined. -/
def exportAgain (cx : Context) : Nat → Url → Step Unit
  | 0, _ => failure
  | n + 1, file => do
    let c ← collect cx n file true Collected.empty
    modify (State.addItems (c.surface.items.map (Piece.ofFile file)))

/-- The final name that an export of a file stands for. -/
def resolveExport (cx : Context) : Nat → Url → String → Visited → Step (Option String × Visited)
  | 0, _, _, _ => failure
  | n + 1, target, name, visited => do
    if visited.contains (target, name) then return (none, visited)
    let visited := (target, name) :: visited
    match (cx.exports target).find? (fun s => s.exportedName? == some name) with
    | some (.named _ property none _) => return ((← get).lookup target property, visited)
    | some (.named _ property (some src) _) =>
      match cx.inChunk? src target with
      | some file =>
        includeFile cx n file .dependency
        resolveExport cx n file property visited
      | none =>
        let f ← preserve (cx.placeSpecifier src target) (.ofText property) name false
        return (some f, visited)
    | some (.allAs _ src) =>
      match cx.inChunk? src target with
      | some file => return (some (← ensureSpace cx n file name), visited)
      | none =>
        let f ← preserve (cx.placeSpecifier src target) .all name false
        return (some f, visited)
    | _ =>
      if name = "default" then return (none, visited)
      resolveInStars cx n target name visited

/-- The final name that an export of a file's stars stands for. A star that leads out of the
chunk comes last. -/
def resolveInStars (cx : Context) : Nat → Url → String → Visited → Step (Option String × Visited)
  | 0, _, _, _ => failure
  | n + 1, target, name, visited => do
    let (found, outer, visited) ← (cx.exports target).foldlM
      (fun (r : Option String × Option String × Visited) symbol => do
        match r.1, symbol with
        | none, .all src =>
          match cx.inChunk? src target with
          | some file =>
            includeFile cx n file .dependency
            let (found, visited) ← resolveExport cx n file name r.2.2
            return (found, r.2.1, visited)
          | none => return (none, some (r.2.1.getD (cx.placeSpecifier src target)), r.2.2)
        | _, _ => return r)
      (none, none, visited)
    match found, outer with
    | some f, _ => return (some f, visited)
    | none, some module => return (some (← preserve module (.named name) name false), visited)
    | none, none => return (none, visited)

/-- Adds what a file exports to what is collected. The first export of a name counts. -/
def collect (cx : Context) : Nat → Url → Bool → Collected → Step Collected
  | 0, _, _, _ => failure
  | n + 1, target, withDefault, c => do
    if c.visited.contains target then return c
    let symbols := cx.exports target
    let c ← (symbols.filterMap ExportedSymbol.exportedName?).foldlM
      (fun (c : Collected) name => do
        if (name == "default" && !withDefault) || c.seen.contains name then return c
        let c := { c with seen := name :: c.seen }
        match (← resolveExport cx n target name []).1 with
        | some f => return { c with names := c.names ++ [(name, f)] }
        | none =>
          modify (State.warn (.unknownExport target name))
          return c)
      { c with visited := target :: c.visited }
    symbols.foldlM
      (fun (c : Collected) symbol => do
        match symbol with
        | .all src =>
          match cx.inChunk? src target with
          | some file =>
            includeFile cx n file .dependency
            collect cx n file false c
          | none => return c.addStar (cx.placeSpecifier src target)
        | _ => return c)
      c

/-- The name of a file's namespace, for which a block is built the first time. -/
def ensureSpace (cx : Context) : Nat → Url → String → Step String
  | 0, _, _ => failure
  | n + 1, target, wanted => do
    match (← get).space? target with
    | some name => return name
    | none =>
      let name ← claimFresh wanted
      modify (State.openBlock target name)
      inlineFile cx n target .dependency
      if (cx.exports target).any (fun s => s.exportedName? == some "default") then
        modify (State.warn (.hiddenDefault target name))
      let c ← collect cx n target false Collected.empty
      c.stars.forM (fun star => modify (State.warn (.hiddenStar name star)))
      let body := (← modifyGet State.closeBlock).map Piece.item
      let members := body.flatMap memberNames
      let exports ← c.names.mapM (fun e => do
        if e.1 = e.2 && !members.contains e.2 then return (e.1, ← aliasOuter e.2) else return e)
      (unboundExports body exports).forM (fun e => modify (State.warn (.selfExport e)))
      let declare := !(← get).inBlock
      modify (State.addItems [.made (spaceOf declare name (exportMembers body exports))])
      return name

/-- Puts what import types refer to in their place. -/
def linkTypes (cx : Context) : Nat → Url → List Item → Step (List Item)
  | 0, _, _ => failure
  | n + 1, origin, items => do
    let targets ← (ImportTypes.keys items).items.foldlM
      (fun (ts : OrderedMap ImportTypeKey ImportTypes.Target) key => do
        match cx.inChunk? key.specifier origin with
        | none => return ts.put key (.specifier (cx.placeSpecifier key.specifier origin))
        | some file =>
          includeFile cx n file .dependency
          let final ← match key.head with
            | some head => Prod.fst <$> resolveExport cx n file head []
            | none => some <$> ensureSpace cx n file (spaceName file)
          return match final with
            | some f => ts.put key (.binding f)
            | none => ts)
      OrderedMap.empty
    return linkItems targets.get? items

end

end AmbientBundle.Merge
