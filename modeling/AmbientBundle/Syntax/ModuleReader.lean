import AmbientBundle.Syntax.TypeReader
/-!
Reading classes, declarations, imports and exports, and whole modules. A script is read as a module
that neither imports nor exports at its top level.
-/
namespace AmbientBundle.Syntax

open Reader

def Decl.withDeclare : Decl → Decl
  | .cls id _ b => .cls id true b
  | .func id _ b => .func id true b
  | .var k _ ds => .var k true ds
  | .interface b => .interface { b with declare := true }
  | .typeAlias id _ ts ty => .typeAlias id true ts ty
  | .enum id _ c ms => .enum id true c ms
  | .space _ name inner body => .space true name inner body
  | d => d

def noMods : MemberMods := ⟨false, none, false, false, false, false⟩

/-- Whether a method's parameters or type parameters are next. -/
def seesMethod : Reader Bool := seesAny ["(", "<"]

/-- Whether a property ends its name here. -/
def seesProperty (breaks : Bool) : Reader Bool := do
  if ← seesAny ["!", ":", "=", "\x7d"] then return true
  if breaks then seesSemicolon else sees ";"

/-- A word in front of a member, unless the word is itself the member's name. -/
def eatMemberWord (w : String) : Reader Bool := do
  unless ← seesWord w do return false
  let isName ← ahead do
    let _ ← next
    if ← seesMethod then return true
    if ← sees "?" then return true
    seesProperty true
  if isName then return false
  let _ ← next
  return true

def readAccess : Reader (Option Access) := do
  match ← eatModifier ["public", "protected", "private"] with
  | some "public" => return some .pub
  | some "protected" => return some .prot
  | some _ => return some .priv
  | none => return none

def readCtorParam (n : Nat) : Reader CtorParam := do
  if ← sees "..." then return ⟨none, false, false, ← readParam n⟩
  let access ← readAccess
  let isOverride := (← eatModifier ["override"]).isSome
  let isReadonly := (← eatModifier ["readonly"]).isSome
  return ⟨access, isOverride, isReadonly, ← readParam n⟩

/-- The modifiers `abstract`, `readonly`, `override` and `static`, in any order. -/
def readMemberMods (n : Nat) (mods : MemberMods) : Reader MemberMods :=
  extend (fun mods => do
    match ← eatModifier ["abstract", "readonly", "override", "static"] with
    | some "abstract" => return some { mods with isAbstract := true }
    | some "readonly" => return some { mods with isReadonly := true }
    | some "override" => return some { mods with isOverride := true }
    | some _ => return some { mods with isStatic := true }
    | none => return none) n mods

def readInit (n : Nat) : Reader (Option Expr) := do
  if ← eat "=" then return some (← readAssign n)
  return none

/-- A method without its body. -/
def readMethod (mods : MemberMods) (fn : FnMods) (kind : MethodKind) (key : Key)
    (isOptional : Bool) (n : Nat) : Reader ClassMember := do
  let tparams ← readTypeParams n
  let params ← readParams n
  let result ← if ← eat ":" then pure (some (← readResult n)) else pure none
  semicolon
  return .method mods fn kind key isOptional (.mk tparams params result)

def readProp (mods : MemberMods) (isAccessor : Bool) (key : Key) (isOptional : Bool) (n : Nat) :
    Reader ClassMember := do
  let definite ← if isOptional then pure false else eat "!"
  let ann ← readAnnotation? n
  let value ← readInit n
  semicolon
  let mark := if isOptional then PropMark.optional else if definite then .definite else .plain
  return .property mods isAccessor key mark ann value

def Key.isCtor : Key → Bool
  | .word t => t == "constructor"
  | .str l => l.value == "constructor"
  | _ => false

def readClassMember (n : Nat) : Reader ClassMember := do
  if ← eat ";" then return .empty
  let declare ← eatMemberWord "declare"
  let access ← readAccess
  let declare ← if declare then pure true else eatMemberWord "declare"
  let isStatic ← eatMemberWord "static"
  let accessor ← eatMemberWord "accessor"
  let mods ← readMemberMods n { noMods with declare, access, isStatic }
  let accessor ← if accessor then pure true else eatMemberWord "accessor"
  if !mods.isAbstract && !mods.isOverride && mods.access.isNone && (← seesIndexSignature) then
    let (param, ann) ← readIndexSignature n
    memberEnd
    return .index mods param ann
  if ← eat "*" then
    return ← readMethod mods ⟨false, true⟩ .method (← readKey n) (← eat "?") n
  let key ← readKey n
  let isOptional ← eat "?"
  if ← seesMethod then
    if key.isCtor && !mods.isStatic then
      expect "("
      let params ← commaList ")" (readCtorParam n) n
      expect ")"
      let _ ← readAnnotation? n
      semicolon
      return .ctor mods isOptional params
    return ← readMethod mods ⟨false, false⟩ .method key isOptional n
  let kind? := match key with
    | .word "get" => some MethodKind.getter
    | .word "set" => some .setter
    | _ => none
  let star := (← broken) && (← sees "*")
  if kind?.isSome && !isOptional && !star && !(← seesProperty false) && !(← atEnd) then
    let kind := kind?.getD .method
    return ← readMethod mods ⟨false, false⟩ kind (← readKey n) false n
  if isOptional || (← seesProperty true) then return ← readProp mods accessor key isOptional n
  match key with
  | .word "async" =>
    let isGenerator ← eat "*"
    readMethod mods ⟨true, isGenerator⟩ .method (← readKey n) (← eat "?") n
  | _ => failure

/-- An expression of a heritage clause, whose type arguments are kept apart. -/
def Heritage.ofExpr : Expr → Heritage
  | .instantiate e args => ⟨e, args⟩
  | e => ⟨e, []⟩

/-- What an interface extends and what a class implements: a word with members behind it. -/
def readHeritage (n : Nat) : Reader (List Heritage) := separated "," (do
  let head ← anyWord
  return Heritage.ofExpr (← extend (readSubscript false n) n (.ident head))) n

def readClassBody (isAbstract : Bool) (n : Nat) : Reader ClassBody := do
  let tparams ← readTypeParams n
  let base ← if ← eatWord "extends" then
      pure (some (Heritage.ofExpr (← readPostfix true n)))
    else pure none
  let implements ← if ← eatWord "implements" then readHeritage n else pure []
  expect "\x7b"
  let members ← until_ "\x7d" (readClassMember n) n
  expect "\x7d"
  return ⟨isAbstract, tparams, base, implements, members⟩

/-- A function behind the word `function`, with its name if there is one. -/
def readFunc (isAsync : Bool) (n : Nat) : Reader (Option Ident × Func) := do
  let isGenerator ← eat "*"
  let id ← if (← sees "(") || (← sees "<") then pure none else pure (some (← bindingIdent))
  let tparams ← readTypeParams n
  let params ← readParams n
  let result ← if ← eat ":" then pure (some (← readResult n)) else pure none
  semicolon
  return (id, ⟨⟨isAsync, isGenerator⟩, .mk tparams params result⟩)

def readFuncDecl (isAsync : Bool) (n : Nat) : Reader Decl := do
  match ← readFunc isAsync n with
  | (some id, f) => return .func id false f
  | (none, _) => failure

def readClassDecl (isAbstract : Bool) (n : Nat) : Reader Decl := do
  let id ← bindingIdent
  return .cls id false (← readClassBody isAbstract n)

def readInterface (n : Nat) : Reader Interface := do
  let id ← anyIdent
  let tparams ← readTypeParams n
  let bases ← if ← eatWord "extends" then readHeritage n else pure []
  return ⟨id, false, tparams, bases, ← readMembers n⟩

def readTypeAlias (n : Nat) : Reader Decl := do
  let id ← anyIdent
  let tparams ← readTypeParams n
  expect "="
  let ty ← readType n
  semicolon
  return .typeAlias id false tparams ty

def readEnum (isConst : Bool) (n : Nat) : Reader Decl := do
  let id ← anyIdent
  expect "\x7b"
  let members ← commaList "\x7d" (do
    let key ← readKey n
    return (⟨key, ← readInit n⟩ : EnumMember)) n
  expect "\x7d"
  return .enum id false isConst members

def readDeclarator (n : Nat) : Reader Declarator := do
  let pat ← readPattern n
  if let .ident _ _ _ := pat then
    let _ ← eat "!"
  let ann ← readAnnotation? n
  let pat := match pat with
    | .ident id o _ => Pat.ident id o ann
    | .array es o _ => .array es o ann
    | .object fs o _ => .object fs o ann
    | p => p
  return ⟨pat, ← readInit n⟩

/-- Ends a variable statement; what follows on its line in error is dropped. -/
def endVariables (n : Nat) : Reader Unit := do
  unless ← seesSemicolon do
    let _ ← attempt (readComma n)
    let _ ← extend (fun _ => do
      if ← seesSemicolon then return none
      let _ ← next
      return some ()) n ()
  let _ ← eat ";"

def readVariables (kind : VarKind) (n : Nat) : Reader Decl := do
  let decls ← separated "," (readDeclarator n) n
  endVariables n
  return .var kind false decls

def varKind? (w : String) : Option VarKind :=
  match w with
  | "var" => some .var_
  | "let" => some .let_
  | "const" => some .const_
  | _ => none

/-- `from 'x'` with attributes, up to the end of the statement. -/
def readFrom (n : Nat) : Reader (StrLit × Option Attributes) := do
  expectWord "from"
  let src ← stringLit
  let attrs ← if !(← broken) && ((← eatWord "with") || (← eatWord "assert")) then
      pure (some (← attributes n))
    else pure none
  semicolon
  return (src, attrs)

def readImportSpecifier : Reader ImportSpecifier := do
  match ← exportName with
  | .str l =>
    expectWord "as"
    return .named (some (.str l)) (← bindingIdent).name false
  | .word orig =>
    if orig == "type" && (← seesName) then
      let second ← anyWord
      if second == "as" then
        unless ← seesName do return .named none second true
        let third := (← bindingIdent).name
        if third == "as" && (← seesName) then
          return .named (some (.word second)) (← bindingIdent).name true
        return .named (some (.word orig)) third false
      if ← eatWord "as" then return .named (some (.word second)) (← bindingIdent).name true
      if keywords.contains second then failure
      return .named none second true
    if ← eatWord "as" then return .named (some (.word orig)) (← bindingIdent).name false
    unless isReference orig do failure
    return .named none orig false

def readExportSpecifier : Reader ExportSpecifier := do
  let rename (orig : ExportName) (typeOnly : Bool) : Reader ExportSpecifier := do
    if ← eatWord "as" then return .named orig (some (← exportName)) typeOnly
    return .named orig none typeOnly
  match ← exportName with
  | .str l => rename (.str l) false
  | .word orig =>
    if orig == "type" && (← seesName) then
      let second ← anyWord
      if second == "as" then
        unless ← seesName do return .named (.word second) none true
        let third ← anyWord
        if third == "as" && (← seesName) then
          return .named (.word second) (some (.word (← anyWord))) true
        return .named (.word orig) (some (.word third)) false
      return ← rename (.word second) true
    rename (.word orig) false

/-- The right side of `import x = …`. -/
def readImportTarget (n : Nat) : Reader ImportTarget := do
  if (← seesWord "require") && (← thenSees "(") then
    let _ ← next
    let _ ← next
    let src ← stringLit
    expect ")"
    return .require src
  return .entity (← entityName n)

def readImportEquals (isExport typeOnly : Bool) (id : Ident) (n : Nat) : Reader Item := do
  expect "="
  let target ← readImportTarget n
  semicolon
  return .importEquals ⟨isExport, typeOnly, id, target⟩

/-- The bindings in braces or behind a star, then the source. -/
def readImportRest (typeOnly : Bool) (specs : List ImportSpecifier) (n : Nat) : Reader Item := do
  let more ← if ← eat "*" then
      expectWord "as"
      pure [ImportSpecifier.all (← bindingIdent).name]
    else if ← eat "\x7b" then
      let ss ← commaList "\x7d" readImportSpecifier n
      expect "\x7d"
      pure ss
    else pure []
  let (src, attrs) ← readFrom n
  return .importDecl ⟨specs ++ more, src, typeOnly, attrs⟩

/-- An import behind the word `import`. -/
def readImport (n : Nat) : Reader Item := do
  if ← seesString then
    let src ← stringLit
    let attrs ← if !(← broken) && ((← eatWord "with") || (← eatWord "assert")) then
        pure (some (← attributes n))
      else pure none
    semicolon
    return .importDecl ⟨[], src, false, attrs⟩
  unless ← seesReference do return ← readImportRest false [] n
  let first ← bindingIdent
  if first.name == "type" && ((← sees "*") || (← sees "\x7b")) then
    return ← readImportRest true [] n
  let again ← if first.name == "type" && (← seesReference) then
      pure (!(← seesWord "from") || (← thenSeesWord "from") || (← thenSees "="))
    else pure false
  let id ← if again then bindingIdent else pure first
  if ← sees "=" then return ← readImportEquals false again id n
  if ← eat "," then return ← readImportRest again [.default id.name] n
  let (src, attrs) ← readFrom n
  return .importDecl ⟨[.default id.name], src, again, attrs⟩

/-- `* from`, `* as x from` or a list of specifiers, behind `export`. -/
def readExportRest (typeOnly : Bool) (n : Nat) : Reader Item := do
  if ← eat "*" then
    if ← eatWord "as" then
      let name ← exportName
      let (src, attrs) ← readFrom n
      return .exportList ⟨[.all name], some src, typeOnly, attrs⟩
    let (src, attrs) ← readFrom n
    return .exportAll ⟨src, typeOnly, attrs⟩
  expect "\x7b"
  let specs ← commaList "\x7d" readExportSpecifier n
  expect "\x7d"
  if ← seesWord "from" then
    let (src, attrs) ← readFrom n
    return .exportList ⟨specs, some src, typeOnly, attrs⟩
  semicolon
  return .exportList ⟨specs, none, typeOnly, none⟩

/-- A default export behind the word `default`. -/
def readExportDefault (n : Nat) : Reader Item := do
  let start ← place
  let nameOr (id : Option Ident) : DefaultName := match id with
    | some id => .named id
    | none => .anonymous start
  if ← eatWord "interface" then return .exportDefaultDecl (.interface (← readInterface n))
  let isAbstract := (← seesWord "abstract") && (← thenSeesWord "class") && !(← thenBroken)
  if isAbstract || (← seesWord "class") then
    let _ ← eatWord "abstract"
    expectWord "class"
    let id ← if ← seesReference then pure (some (← bindingIdent)) else pure none
    return .exportDefaultDecl (.cls (nameOr id) (← readClassBody isAbstract n))
  let isAsync := (← seesWord "async") && (← thenSeesWord "function") && !(← thenBroken)
  if isAsync || (← seesWord "function") then
    let _ ← eatWord "async"
    expectWord "function"
    let (id, f) ← readFunc isAsync n
    return .exportDefaultDecl (.func (nameOr id) f)
  let e ← readAssign n
  semicolon
  return .exportDefaultExpr e

/-- `let` declares when a name or a pattern follows. -/
def seesLet : Reader Bool :=
  return (← seesWord "let") && ((← thenSeesName) || (← thenSees "[") || (← thenSees "\x7b"))

def readResources (isAwait : Bool) (n : Nat) : Reader Decl := do
  let decls ← separated "," (readDeclarator n) n
  semicolon
  return .resource isAwait decls

mutual

/-- Items between braces. -/
def readBlock : Nat → Reader (List Item)
  | 0 => failure
  | n + 1 => do
    expect "\x7b"
    let items ← until_ "\x7d" (readItem false n) n
    expect "\x7d"
    return items

/-- A namespace behind its keyword. -/
def readNamespace : Nat → Reader Decl
  | 0 => failure
  | n + 1 => do
    let id ← anyIdent
    let inner ← entityTail n
    return .space false (.ident id) inner (some (← readBlock n))

/-- A string named or global module. -/
def readAmbientModule : Nat → Reader Decl
  | 0 => failure
  | n + 1 => do
    let name ← if ← eatWord "global" then pure ModuleName.global else pure (.str (← stringLit))
    if ← sees "\x7b" then return .space false name [] (some (← readBlock n))
    semicolon
    return .space false name [] none

/--
A declaration that starts with a word of its own. With `forced` the word can mean nothing else;
otherwise a name has to follow.
-/
def readWordDecl (forced : Bool) : Nat → Reader (Option Decl)
  | 0 => failure
  | n + 1 => do
    let some w := (← head?).bind wordOf | return none
    match w with
    | "abstract" =>
      unless forced || ((← thenSeesWord "class") && !(← thenBroken)) do return none
      let _ ← next
      expectWord "class"
      return some (← readClassDecl true n)
    | "enum" =>
      unless forced || (← thenSeesReference) do return none
      let _ ← next
      return some (← readEnum false n)
    | "interface" =>
      unless forced || (← thenSeesReference) do return none
      let _ ← next
      return some (.interface (← readInterface n))
    | "module" =>
      if ← thenBroken then return none
      if (← rest)[1]?.any (fun t => match t.lexeme with | .str _ => true | _ => false) then
        let _ ← next
        return some (← readAmbientModule n)
      unless forced || (← thenSeesReference) do return none
      let _ ← next
      return some (← readNamespace n)
    | "namespace" =>
      unless forced || (← thenSeesReference) do return none
      let _ ← next
      return some (← readNamespace n)
    | "type" =>
      unless forced || ((← thenSeesReference) && !(← thenBroken)) do return none
      let _ ← next
      return some (← readTypeAlias n)
    | _ => return none

/-- A declaration behind the word `declare`. -/
def readDeclared : Nat → Reader (Option Decl)
  | 0 => failure
  | n + 1 => do
    let decl ← if ← eatWord "function" then pure (some (← readFuncDecl false n))
      else if ← eatWord "class" then pure (some (← readClassDecl false n))
      else if (← seesWord "const") && (← thenSeesWord "enum") then
        let _ ← next
        let _ ← next
        pure (some (← readEnum true n))
      else if ← seesWord "global" then pure (some (← readAmbientModule n))
      else match ((← head?).bind wordOf).bind varKind? with
        | some kind =>
          let _ ← next
          pure (some (← readVariables kind n))
        | none => readWordDecl true n
    return decl.map Decl.withDeclare

/-- A class, function, enum or variable that starts with a keyword. -/
def readKeywordDecl : Nat → Reader (Option Decl)
  | 0 => failure
  | n + 1 => do
    if ← eatWord "class" then return some (← readClassDecl false n)
    if ← eatWord "function" then return some (← readFuncDecl false n)
    if (← seesWord "async") && (← thenSeesWord "function") && !(← thenBroken) then
      let _ ← next
      let _ ← next
      return some (← readFuncDecl true n)
    if (← seesWord "const") && (← thenSeesWord "enum") then
      let _ ← next
      let _ ← next
      return some (← readEnum true n)
    if (← seesWord "var") || (← seesWord "const") || (← seesLet) then
      let some kind := ((← head?).bind wordOf).bind varKind? | failure
      let _ ← next
      return some (← readVariables kind n)
    return none

/-- An export behind the word `export`. -/
def readExport : Nat → Reader Item
  | 0 => failure
  | n + 1 => do
    let declared ← eatWord "declare"
    if declared then
      if let some d := ← readDeclared n then return .exportDecl d
    let byWord ← attempt do
      match ← readWordDecl true n with
      | some d => return d
      | none => failure
    if let some d := byWord then return .exportDecl d
    if ← eatWord "import" then
      let typeOnly := (← seesWord "type") && (← thenSeesReference)
      if typeOnly then
        let _ ← next
      return ← readImportEquals true typeOnly (← anyIdent) n
    if ← eat "=" then
      let e ← readComma n
      semicolon
      return .exportAssign e
    if ← eatWord "as" then
      expectWord "namespace"
      let id ← bindingIdent
      semicolon
      return .exportAsNamespace id.name
    if ← eatWord "type" then return ← readExportRest true n
    if ← eatWord "default" then return ← readExportDefault n
    match ← readKeywordDecl n with
    | some d => return .exportDecl d
    | none => readExportRest false n

/-- A statement or module item; `plain` forbids imports and exports. -/
def readItem (plain : Bool) : Nat → Reader Item
  | 0 => failure
  | n + 1 => do
    if ← eat ";" then return .empty
    if (← seesWord "import") && !(← thenSees "(") && !(← thenSees ".") then
      if plain then failure
      let _ ← next
      return ← readImport n
    if ← seesWord "export" then
      if plain then failure
      let _ ← next
      return ← readExport n
    if let some d := ← readKeywordDecl n then return .decl d
    if (← seesWord "using") && (← thenSeesReference) && !(← thenBroken) then
      let _ ← next
      return .decl (← readResources false n)
    if (← seesWord "await") && (← thenSeesWord "using") && !(← thenBroken) then
      let _ ← next
      let _ ← next
      return .decl (← readResources true n)
    if let some d := ← readWordDecl false n then return .decl d
    if (← seesWord "global") && (← thenSees "\x7b") then
      return .decl (← readAmbientModule n)
    if ← seesWord "declare" then
      let declared ← attempt do
        let _ ← next
        match ← readDeclared n with
        | some d => return d
        | none => failure
      if let some d := declared then return .decl d
    let e ← readComma n
    semicolon
    return .expr e

end

/-- Reads statements up to the end. -/
def readAll (script : Bool) (fuel : Nat) : Nat → Reader (List Item)
  | 0 => failure
  | n + 1 => do
    if ← atEnd then return []
    let item ← readItem script fuel
    return item :: (← readAll script fuel n)

/-- Reads a whole file, or refuses it. -/
def Module.read? (script : Bool) (text : String) : Option Module := do
  let (shebang, tokens) ← scan text
  let fuel := 32 * (tokens.length + 2)
  let (items, rest) ← readAll script fuel fuel false tokens
  if rest.isEmpty then some ⟨shebang, items⟩ else none

end AmbientBundle.Syntax
