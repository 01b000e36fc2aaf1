import AmbientBundle.Syntax.Reader
/-!
Reading types, patterns and expressions. The functions call each other; each call takes one from a
bound that a text cannot reach, since every few calls take a token.
-/
namespace AmbientBundle.Syntax

open Reader

/-- The types that are words of their own unless a dot follows. -/
def keywordTypes : List String :=
  ["any", "boolean", "bigint", "never", "number", "object", "string", "symbol", "unknown",
   "undefined", "null", "void", "intrinsic"]

/-- A modifier, when what follows on the same line can be modified. -/
def eatModifier (words : List String) : Reader (Option String) := do
  let some w := (← head?).bind wordOf | return none
  unless words.contains w do return none
  let follows := (← rest)[1]?.any fun t =>
    !t.newline && match t.lexeme with
      | .word _ | .str _ | .number _ | .hidden _ => true
      | .punct p => p == "[" || p == "\x7b" || p == "*" || p == "..."
      | _ => false
  if follows then
    let _ ← next
    return some w
  return none

/-- The name of a module's export: a word or a string. -/
def exportName : Reader ExportName := do
  if ← seesString then return .str (← stringLit)
  return .word (← anyWord)

def entityTail : Nat → Reader (List String)
  | 0 => failure
  | n + 1 => do
    if ← eat "." then return (← anyWord) :: (← entityTail n)
    return []

def entityName (n : Nat) : Reader EntityName := return ⟨← anyWord, ← entityTail n⟩

/-- Attributes in braces: `type: 'json'`. -/
def attributes (n : Nat) : Reader Attributes := do
  expect "\x7b"
  let attrs ← commaList "\x7d" (do
    let key ← if ← seesString then pure (AttrKey.str (← stringLit)) else pure (.word (← anyWord))
    expect ":"
    return (key, ← stringLit)) n
  expect "\x7d"
  return attrs

/-- Attributes of an import type: `, { with: { … } }`. -/
def importTypeAttributes (n : Nat) : Reader (Option Attributes) := do
  unless ← eat "," do return none
  unless ← sees "\x7b" do return none
  expect "\x7b"
  expectWord "with"
  expect ":"
  let attrs ← attributes n
  let _ ← eat ","
  expect "\x7d"
  return some attrs

/-- The argument, attributes and qualifier of an import type. -/
def importTypeHead (n : Nat) : Reader (StrLit × Option Attributes × Option EntityName) := do
  expectWord "import"
  expect "("
  let arg ← stringLit
  let attrs ← importTypeAttributes n
  expect ")"
  let qualifier ← if ← eat "." then pure (some (← entityName n)) else pure none
  return (arg, attrs, qualifier)

/-- Whether the tokens open a mapped type rather than a list of members. -/
def seesMappedType : Reader Bool := ahead do
  expect "\x7b"
  if (← eat "+") || (← eat "-") then return ← seesWord "readonly"
  let _ ← eatWord "readonly"
  expect "["
  unless ← seesReference do return false
  let _ ← next
  seesWord "in"

def seesIndexSignature : Reader Bool := ahead do
  expect "["
  unless ← seesReference do return false
  let _ ← next
  seesAny [":", ","]

/-- A sign in front of `word`, or the word alone. -/
def signed (word : Reader Bool) : Reader (Option Sign) := do
  if ← eat "+" then
    unless ← word do failure
    return some .plus
  if ← eat "-" then
    unless ← word do failure
    return some .minus
  if ← word then return some .plain
  return none

/-- How tightly a binary operator binds. -/
def binaryPrecedence : List (String × Nat) :=
  [("??", 1), ("||", 2), ("&&", 3), ("|", 4), ("^", 5), ("&", 6), ("==", 7), ("!=", 7), ("===", 7),
   ("!==", 7), ("<", 8), (">", 8), ("<=", 8), (">=", 8), ("instanceof", 8), ("in", 8), ("as", 8),
   ("satisfies", 8), ("<<", 9), (">>", 9), (">>>", 9), ("+", 10), ("-", 10), ("*", 11), ("/", 11),
   ("%", 11), ("**", 12)]

/-- The angle brackets and the `=` that stand next to each other, as one operator. -/
def joinAngles : List Token → String
  | a :: b :: ts =>
    match a.lexeme, b.lexeme with
    | .punct p, .punct q =>
      if (p == "<" || p == ">") && a.stop == b.start && (q == p || q == "=") then
        p ++ (if q == "=" then q else joinAngles (b :: ts))
      else p
    | .punct p, _ => p
    | _, _ => ""
  | [a] => match a.lexeme with
    | .punct p => p
    | _ => ""
  | [] => ""

/-- The binary operator that is next, with the number of its tokens. -/
def binaryOperator? : Reader (Option (String × Nat)) := do
  match ← head? with
  | none => return none
  | some t =>
    match t.lexeme with
    | .word w =>
      if w == "in" || w == "instanceof" then return some (w, 1)
      if (w == "as" || w == "satisfies") && !t.newline then return some (w, 1)
      return none
    | .punct p =>
      if p == "<" || p == ">" then
        let op := joinAngles (← rest)
        return some (op, op.length)
      return some (p, 1)
    | _ => return none

def assignOperators : List String :=
  ["=", "+=", "-=", "*=", "/=", "%=", "**=", "&=", "|=", "^=", "&&=", "||=", "??="]

/-- Whether an expression with type arguments may end here. -/
def endsInstantiation : Reader Bool := do
  match ← head? with
  | none => return true
  | some t =>
    if t.newline then return true
    match t.lexeme with
    | .word w => return ["as", "satisfies", "in", "instanceof", "implements", "extends"].contains w
    | .punct p => return !(["(", "[", "<", ">", "+", "-", "!", "~", "++", "--"].contains p)
    | _ => return false

mutual

def readType : Nat → Reader Ty
  | 0 => failure
  | n + 1 => do
    let ty ← readPlainType n
    if (← broken) || !(← eatWord "extends") then return ty
    let bound ← withReader (fun _ => true) (readPlainType n)
    expect "?"
    let yes ← withReader (fun _ => false) (readType n)
    expect ":"
    let no ← withReader (fun _ => false) (readType n)
    return .conditional ty bound yes no

/-- A type that is not conditional. -/
def readPlainType : Nat → Reader Ty
  | 0 => failure
  | n + 1 => do
    if ← seesFuncType n then return .func (← readSignature "=>" n)
    if (← seesWord "new") || ((← seesWord "abstract") && (← thenSeesWord "new")) then
      let isAbstract ← eatWord "abstract"
      expectWord "new"
      return .ctor isAbstract (← readSignature "=>" n)
    let _ ← eat "|"
    match ← separated "|" (readIntersection n) n with
    | [ty] => return ty
    | tys => return .union tys

def readIntersection : Nat → Reader Ty
  | 0 => failure
  | n + 1 => do
    let _ ← eat "&"
    match ← separated "&" (readOperatorType n) n with
    | [ty] => return ty
    | tys => return .inter tys

def readOperatorType : Nat → Reader Ty
  | 0 => failure
  | n + 1 => do
    if ← eatWord "keyof" then return .operator .keyof (← readOperatorType n)
    if ← eatWord "unique" then return .operator .unique (← readOperatorType n)
    if ← eatWord "readonly" then return .operator .readonly (← readOperatorType n)
    if ← eatWord "infer" then
      let name ← anyWord
      let bound ← attempt do
        expectWord "extends"
        let bound ← readPlainType n
        if (← read) || !(← sees "?") then return bound else failure
      return .infer name bound
    let ty ← readPrimaryType n
    extend (fun ty => do
      if (← broken) || !(← eat "[") then return none
      if ← eat "]" then return some (.array ty)
      let idx ← readType n
      expect "]"
      return some (.indexed ty idx)) n ty

def readPrimaryType : Nat → Reader Ty
  | 0 => failure
  | n + 1 => do
    let some t ← head? | failure
    match t.lexeme with
    | .word "this" =>
      let _ ← next
      if !(← broken) && (← eatWord "is") then
        return .predicate false "this" (some (← readType n))
      return .word "this"
    | .word "typeof" =>
      let _ ← next
      if ← seesWord "import" then
        let (arg, attrs, qualifier) ← importTypeHead n
        let args ← readTypeArgs? n
        return .importQuery arg attrs qualifier args (← readSameLineTypeArgs n)
      let name ← entityName n
      return .query name (← readSameLineTypeArgs n)
    | .word "import" =>
      let (arg, attrs, qualifier) ← importTypeHead n
      return .imported arg attrs qualifier (← readTypeArgs? n)
    | .word w =>
      if w == "true" || w == "false" then
        let _ ← next
        return .word w
      if w == "asserts" && (← thenSeesWord "this") then
        let _ ← next
        let _ ← next
        let ty ← if ← eatWord "is" then pure (some (← readType n)) else pure none
        return .predicate true "this" ty
      if keywordTypes.contains w && !(← thenSees ".") then
        let _ ← next
        return .word w
      if keywords.contains w && !(["void", "null", "break"].contains w) then failure
      let name ← entityName n
      return .ref name (← readSameLineTypeArgs n)
    | .str _ => return .str (← stringLit)
    | .number raw =>
      let _ ← next
      return .word raw
    | .piece raw true closes =>
      let _ ← next
      let (chunks, parts) ← if closes then pure ([], []) else readPieces (readType n) n
      return .template (raw :: chunks) parts
    | .punct "-" =>
      let _ ← next
      match (← next).lexeme with
      | .number raw => return .word ("-" ++ raw)
      | _ => failure
    | .punct "\x7b" =>
      if ← seesMappedType then readMappedType n
      else return .record (← readMembers n)
    | .punct "[" =>
      let _ ← next
      let elems ← commaList "]" (readTupleElem n) n
      expect "]"
      return .tuple elems
    | .punct "(" =>
      let _ ← next
      let ty ← readType n
      expect ")"
      return .paren ty
    | _ => failure

/-- The pieces of a template behind the first one, with what stands between them. -/
def readPieces (part : Reader α) : Nat → Reader (List String × List α)
  | 0 => failure
  | n + 1 => do
    let a ← part
    match (← next).lexeme with
    | .piece raw false true => return ([raw], [a])
    | .piece raw false false =>
      let (chunks, parts) ← readPieces part n
      return (raw :: chunks, a :: parts)
    | _ => failure

def readTupleElem : Nat → Reader Ty
  | 0 => failure
  | n + 1 => do
    let label ← attempt do
      let isRest ← eat "..."
      let name ← anyWord
      let isOptional ← eat "?"
      expect ":"
      return (isRest, name, isOptional)
    let ty ← if ← eat "..." then pure (Ty.rest (← readType n)) else do
      let ty ← readType n
      if ← eat "?" then pure (Ty.optional ty) else pure ty
    match label with
    | some (isRest, name, isOptional) => return .labeled isRest name isOptional ty
    | none => return ty

def readMappedType : Nat → Reader Ty
  | 0 => failure
  | n + 1 => do
    expect "\x7b"
    let mode ← signed (eatWord "readonly")
    expect "["
    let key ← anyWord
    expectWord "in"
    let domain ← readType n
    let rename ← if ← eatWord "as" then pure (some (← readType n)) else pure none
    expect "]"
    let mark ← signed (eat "?")
    let value ← readAnnotation? n
    semicolon
    expect "\x7d"
    return .mapped mode key domain rename mark value

/-- Type arguments in angle brackets. -/
def readTypeArgs : Nat → Reader (List Ty)
  | 0 => failure
  | n + 1 => do
    expect "<"
    let args ← withReader (fun _ => false) (commaList ">" (readType n) n)
    expect ">"
    return args

def readTypeArgs? : Nat → Reader (List Ty)
  | 0 => failure
  | n + 1 => do
    if ← sees "<" then readTypeArgs n else return []

def readSameLineTypeArgs : Nat → Reader (List Ty)
  | 0 => failure
  | n + 1 => do
    if !(← broken) && (← sees "<") then readTypeArgs n else return []

def readTypeParams : Nat → Reader (List TypeParam)
  | 0 => failure
  | n + 1 => do
    unless ← eat "<" do return []
    let ps ← commaList ">" (readTypeParam n) n
    expect ">"
    return ps

def readTypeParam : Nat → Reader TypeParam
  | 0 => failure
  | n + 1 => do
    let mods ← extend (fun mods => do
      match ← eatModifier ["const", "in", "out"] with
      | some w => return some (mods ++ [w])
      | none => return none) n []
    let mods := ["const", "in", "out"].filter mods.contains
    let name ← anyWord
    let bound ← if ← eatWord "extends" then pure (some (← readType n)) else pure none
    let default ← if ← eat "=" then pure (some (← readType n)) else pure none
    return .mk mods name bound default

def readAnnotation? : Nat → Reader (Option Ty)
  | 0 => failure
  | n + 1 => do
    if ← eat ":" then return some (← readType n)
    return none

/-- A result type or a type predicate. -/
def readResult : Nat → Reader Ty
  | 0 => failure
  | n + 1 => do
    let asserts := (← seesWord "asserts") && (← thenSeesReference)
    if asserts then
      let _ ← next
    let isPredicate := (← seesReference) && (← thenSeesWord "is") && !(← thenBroken)
    unless asserts || isPredicate do return ← readType n
    let subject ← anyWord
    if isPredicate then
      expectWord "is"
      return .predicate asserts subject (some (← readType n))
    return .predicate asserts subject none

/-- A signature of a type, whose result stands behind `arrow`; a colon may be missing. -/
def readSignature (arrow : String) : Nat → Reader Signature
  | 0 => failure
  | n + 1 => do
    let tparams ← readTypeParams n
    let params ← readTypeParamsList n
    if arrow == ":" then
      let result ← if ← eat ":" then pure (some (← readResult n)) else pure none
      return .mk tparams params result
    expect arrow
    return .mk tparams params (some (← readResult n))

/-- Parameters of a signature in a type: none has a default. -/
def readTypeParamsList : Nat → Reader (List Pat)
  | 0 => failure
  | n + 1 => do
    let params ← readParams n
    for p in params do
      if let .assign _ _ := p then failure
    return params

/-- Parameters in parentheses. -/
def readParams : Nat → Reader (List Pat)
  | 0 => failure
  | n + 1 => do
    expect "("
    let params ← commaList ")" (readParam n) n
    expect ")"
    return params

def readParam : Nat → Reader Pat
  | 0 => failure
  | n + 1 => do
    if ← eat "..." then
      let arg ← readPattern n
      let arg ← if ← eat "=" then pure (Pat.assign arg (← readAssign n)) else pure arg
      let ann ← readAnnotation? n
      let _ ← eat "?"
      return .rest arg ann
    let pat ← readPattern n
    let isOptional ← eat "?"
    let ann ← readAnnotation? n
    let pat := match pat with
      | .ident id _ _ => Pat.ident id isOptional ann
      | .array es _ _ => .array es isOptional ann
      | .object fs _ _ => .object fs isOptional ann
      | p => p
    if ← eat "=" then return .assign pat (← readAssign n)
    return pat

/-- A pattern without annotation. -/
def readPattern : Nat → Reader Pat
  | 0 => failure
  | n + 1 => do
    if ← eat "[" then
      let elems ← commaList "]" (do
        if ← sees "," then return .hole
        if ← eat "..." then return .rest (← readPattern n) none
        readElement n) n
      expect "]"
      return .array elems false none
    if ← eat "\x7b" then
      let fields ← commaList "\x7d" (readField n) n
      expect "\x7d"
      return .object fields false none
    return .ident (← bindingIdent) false none

/-- A pattern with its default. -/
def readElement : Nat → Reader Pat
  | 0 => failure
  | n + 1 => do
    let pat ← readPattern n
    if ← eat "=" then return .assign pat (← readAssign n)
    return pat

def readField : Nat → Reader Field
  | 0 => failure
  | n + 1 => do
    if ← eat "..." then return .rest (← readPattern n)
    if (← seesName) && !(← thenSees ":") then
      let id ← bindingIdent
      let default ← if ← eat "=" then pure (some (← readAssign n)) else pure none
      return .short id default
    let key ← readKey n
    expect ":"
    return .keyed key (← readElement n)

/-- The name of a property or member. -/
def readKey : Nat → Reader Key
  | 0 => failure
  | n + 1 => do
    match (← next).lexeme with
    | .word w => return .word w
    | .str l => return .str l
    | .number raw => return .number raw
    | .hidden w => return .hidden w
    | .punct "[" =>
      let e ← readAssign n
      expect "]"
      return .computed e
    | _ => failure

/-- Whether a function type starts here rather than a type in parentheses. -/
def seesFuncType : Nat → Reader Bool
  | 0 => failure
  | n + 1 => do
    if ← sees "<" then return true
    ahead do
      expect "("
      if ← seesAny [")", "..."] then return true
      if (← seesReference) || (← seesWord "this") then
        let _ ← next
      else if ← seesAny ["\x7b", "["] then
        let _ ← readPattern n
      else failure
      if ← seesAny [":", ",", "?", "="] then return true
      expect ")"
      sees "=>"

/-- The members between braces. -/
def readMembers : Nat → Reader (List Member)
  | 0 => failure
  | n + 1 => do
    expect "\x7b"
    let ms ← until_ "\x7d" (readMember n) n
    expect "\x7d"
    return ms

def readMember : Nat → Reader Member
  | 0 => failure
  | n + 1 => do
    if ← seesAny ["(", "<"] then
      let sig ← readSignature ":" n
      memberEnd
      return .call sig
    if (← seesWord "new") && ((← thenSees "(") || (← thenSees "<")) then
      let _ ← next
      let sig ← readSignature ":" n
      memberEnd
      return .construct sig
    let isReadonly := (← eatModifier ["readonly"]).isSome
    if ← seesIndexSignature then
      let (param, ann) ← readIndexSignature n
      memberEnd
      return .index isReadonly param ann
    let accessor ← attempt do
      if isReadonly then failure
      if ← eatWord "get" then
        let key ← readKey n
        expect "("
        expect ")"
        let ann ← readAnnotation? n
        memberEnd
        return Member.getter key ann
      expectWord "set"
      let key ← readKey n
      match ← readTypeParamsList n with
      | param :: _ =>
        memberEnd
        return .setter key param
      | [] => failure
    if let some m := accessor then return m
    let key ← readKey n
    let isOptional ← eat "?"
    if ← seesAny ["(", "<"] then
      if isReadonly then failure
      let sig ← readSignature ":" n
      memberEnd
      return .method key isOptional sig
    let ann ← readAnnotation? n
    memberEnd
    return .property isReadonly key isOptional ann

/-- `[key: T]: U` up to where the member ends. -/
def readIndexSignature : Nat → Reader (Pat × Option Ty)
  | 0 => failure
  | n + 1 => do
    expect "["
    let id ← anyIdent
    unless ← eat "," do expect ":"
    let ty ← readType n
    expect "]"
    return (.ident id false (some ty), ← readAnnotation? n)

/-- An expression without commas. -/
def readAssign : Nat → Reader Expr
  | 0 => failure
  | n + 1 => do
    let left ← readCond n
    for op in assignOperators do
      if ← eat op then return .binary op left (← readAssign n)
    return left

def readCond : Nat → Reader Expr
  | 0 => failure
  | n + 1 => do
    let test ← readBinary 0 n
    if ← eat "?" then
      let yes ← readAssign n
      expect ":"
      return .cond test yes (← readAssign n)
    return test

/-- Operators that bind tighter than `prec`. -/
def readBinary (prec : Nat) : Nat → Reader Expr
  | 0 => failure
  | n + 1 => do
    let left ← readUnary n
    extend (fun left => do
      let some (op, width) ← binaryOperator? | return none
      let some p := binaryPrecedence.lookup op | return none
      unless prec < p do return none
      for _ in List.range width do
        let _ ← next
      if op == "as" || op == "satisfies" then
        if op == "as" && (← eatWord "const") then return some (.cast op left (.word "const"))
        return some (.cast op left (← readType n))
      let right ← readBinary (if op == "**" then p - 1 else p) n
      return some (.binary op left right)) n left

def readUnary : Nat → Reader Expr
  | 0 => failure
  | n + 1 => do
    for op in ["+", "-", "~", "!", "++", "--"] do
      if ← eat op then return .unary op (← readUnary n)
    for op in ["typeof", "void", "delete"] do
      if ← eatWord op then return .unary op (← readUnary n)
    if ← eat "<" then
      if ← eatWord "const" then
        expect ">"
        return .cast "<" (← readUnary n) (.word "const")
      let ty ← readType n
      expect ">"
      return .cast "<" (← readUnary n) ty
    let e ← readPostfix true n
    if !(← broken) then
      for op in ["++", "--"] do
        if ← eat op then return .postfixed e op
    return e

/-- A primary expression with the members, calls and type arguments behind it. -/
def readPostfix (calls : Bool) : Nat → Reader Expr
  | 0 => failure
  | n + 1 => do
    extend (readSubscript calls n) n (← readPrimary n)

def readSubscript (calls : Bool) : Nat → Expr → Reader (Option Expr)
  | 0, _ => failure
  | n + 1, e => do
    if ← eat "." then
      match (← next).lexeme with
      | .word w => return some (.member e false w)
      | .hidden w => return some (.member e false ("#" ++ w))
      | _ => failure
    if calls && (← eat "?.") then
      if ← eat "[" then
        let idx ← readComma n
        expect "]"
        return some (.index e true idx)
      if ← sees "(" then return some (.call e true [] (← readArgs n))
      return some (.member e true (← anyWord))
    if ← eat "[" then
      let idx ← readComma n
      expect "]"
      return some (.index e false idx)
    if !(← broken) && (← sees "!") then
      let _ ← next
      return some (.postfixed e "!")
    if calls && (← sees "(") then return some (.call e false [] (← readArgs n))
    if ← sees "<" then
      return ← attempt do
        let targs ← readTypeArgs n
        if calls && (← sees "(") then return .call e false targs (← readArgs n)
        unless ← endsInstantiation do failure
        return .instantiate e targs
    return none

/-- Arguments in parentheses. -/
def readArgs : Nat → Reader (List Expr)
  | 0 => failure
  | n + 1 => do
    expect "("
    let args ← commaList ")" (readSpread n) n
    expect ")"
    return args

def readSpread : Nat → Reader Expr
  | 0 => failure
  | n + 1 => do
    if ← eat "..." then return .spread (← readAssign n)
    readAssign n

def readProperty : Nat → Reader Expr
  | 0 => failure
  | n + 1 => do
    if ← eat "..." then return .spread (← readAssign n)
    if (← seesReference) && ((← thenSees ",") || (← thenSees "\x7d")) then
      return .ident (← anyWord)
    let key ← readKey n
    expect ":"
    return .keyed key (← readAssign n)

def readPrimary : Nat → Reader Expr
  | 0 => failure
  | n + 1 => do
    match (← next).lexeme with
    | .word "new" =>
      let callee ← readPostfix false n
      let (callee, targs) := match callee with
        | .instantiate e ts => (e, ts)
        | e => (e, [])
      let args ← if ← sees "(" then pure (some (← readArgs n)) else pure none
      return .construct callee targs args
    | .word w =>
      if ["this", "super", "null", "true", "false"].contains w then return .word w
      if keywords.contains w then failure
      return .ident w
    | .str l => return .str l
    | .number raw => return .word raw
    | .regex raw => return .word raw
    | .piece raw true closes =>
      let (chunks, parts) ← if closes then pure ([], []) else readPieces (readComma n) n
      return .template (raw :: chunks) parts
    | .punct "(" =>
      let e ← readComma n
      expect ")"
      return .paren e
    | .punct "[" =>
      let elems ← commaList "]" (do if ← sees "," then return .hole else readSpread n) n
      expect "]"
      return .array elems
    | .punct "\x7b" =>
      let props ← commaList "\x7d" (readProperty n) n
      expect "\x7d"
      return .object props
    | _ => failure

/-- An expression, also a sequence with commas. -/
def readComma : Nat → Reader Expr
  | 0 => failure
  | n + 1 => do
    match ← separated "," (readAssign n) n with
    | [e] => return e
    | es => return .seq es

end

end AmbientBundle.Syntax
