import AmbientBundle.Syntax.Token
/-!
Readers over tokens: what is next, taking it, going back, lists. A reader also knows whether a
question mark may belong to a conditional type around it (it may not while the bound of such a type
is read).
-/
namespace AmbientBundle.Syntax

/-- Reads from the front of the tokens, or refuses. The flag says that a conditional type is open.
-/
abbrev Reader := ReaderT Bool (StateT (List Token) Option)

namespace Reader

/-- Reads what `p` reads, or nothing where it refuses. -/
def attempt (p : Reader α) : Reader (Option α) := fun b ts =>
  match p b ts with
  | some (a, rest) => some (some a, rest)
  | none => some (none, ts)

/-- Whether `p` would read on. -/
def ahead (p : Reader Bool) : Reader Bool := fun b ts =>
  match p b ts with
  | some (a, _) => some (a, ts)
  | none => some (false, ts)

def rest : Reader (List Token) := get

def head? : Reader (Option Token) := return (← rest).head?

def next : Reader Token := do
  match ← rest with
  | t :: ts => set ts; return t
  | [] => failure

/-- The start of the next token. -/
def place : Reader Nat := return ((← head?).map Token.start).getD 0

def atEnd : Reader Bool := return (← rest).isEmpty

def isPunct (p : String) (t : Token) : Bool := t.lexeme == .punct p
def isWord (w : String) (t : Token) : Bool := t.lexeme == .word w

/-- Whether the tokens start with the punctuator. -/
def sees (p : String) : Reader Bool := return (← head?).any (isPunct p)
def seesWord (w : String) : Reader Bool := return (← head?).any (isWord w)
/-- Whether the second token is the word or punctuator. -/
def thenSees (p : String) : Reader Bool := return ((← rest)[1]?).any (isPunct p)
def thenSeesWord (w : String) : Reader Bool := return ((← rest)[1]?).any (isWord w)

def seesAny (ps : List String) : Reader Bool := return (← head?).any fun t => ps.any (isPunct · t)

/-- Whether a line break stands before the next token. -/
def broken : Reader Bool := return (← head?).any Token.newline
def thenBroken : Reader Bool := return ((← rest)[1]?).any Token.newline

def eat (p : String) : Reader Bool := do
  if ← sees p then
    let _ ← next
    return true
  return false

def eatWord (w : String) : Reader Bool := do
  if ← seesWord w then
    let _ ← next
    return true
  return false

def expect (p : String) : Reader Unit := do
  unless ← eat p do failure

def expectWord (w : String) : Reader Unit := do
  unless ← eatWord w do failure

/-- The words that can never be bound. -/
def keywords : List String :=
  ["break", "case", "catch", "class", "const", "continue", "debugger", "default", "delete", "do",
   "else", "export", "extends", "finally", "for", "function", "if", "import", "in", "instanceof",
   "new", "null", "return", "super", "switch", "throw", "true", "false", "try", "typeof", "var",
   "void", "while", "with"]

/-- The words that start no reference in a module and still may stand where a name is bound. -/
def strictWords : List String :=
  ["await", "enum", "implements", "interface", "let", "package", "private", "protected", "public",
   "static", "this", "yield"]

def isReference (w : String) : Bool := !keywords.contains w && !strictWords.contains w

def wordOf (t : Token) : Option String :=
  match t.lexeme with
  | .word w => some w
  | _ => none

def seesName : Reader Bool := return (← head?).any fun t => (wordOf t).isSome
def seesReference : Reader Bool := return (← head?).any fun t => (wordOf t).any isReference
def thenSeesReference : Reader Bool :=
  return ((← rest)[1]?).any fun t => (wordOf t).any isReference
def thenSeesName : Reader Bool := return ((← rest)[1]?).any fun t => (wordOf t).isSome

/-- Any word, keywords included. -/
def anyWord : Reader String := do
  match wordOf (← next) with
  | some w => return w
  | none => failure

/-- Any word together with the place where it starts. -/
def anyIdent : Reader Ident := do
  let start ← place
  return ⟨← anyWord, start⟩

/-- A word that may be bound: no keyword. -/
def bindingIdent : Reader Ident := do
  let id ← anyIdent
  if keywords.contains id.name then failure
  return id

def seesString : Reader Bool :=
  return (← head?).any fun t => match t.lexeme with | .str _ => true | _ => false

def stringLit : Reader StrLit := do
  match (← next).lexeme with
  | .str l => return l
  | _ => failure

/-- Whether a statement may end here: at `;`, at a closing brace, at a line break, at the end. -/
def seesSemicolon : Reader Bool :=
  return (← sees ";") || (← sees "\x7d") || (← atEnd) || (← broken)

/-- Ends a statement, taking its `;` if it is there. -/
def semicolon : Reader Unit := do
  unless ← eat ";" do
    unless ← seesSemicolon do failure

/-- Ends a member of an interface, also with a comma. -/
def memberEnd : Reader Unit := do
  unless ← eat "," do semicolon

/-- A list with commas between its elements, up to the closing punctuator, which stays. -/
def commaList (close : String) (p : Reader α) : Nat → Reader (List α)
  | 0 => failure
  | n + 1 => do
    if ← sees close then return []
    let a ← p
    if ← eat "," then return a :: (← commaList close p n)
    if ← sees close then return [a]
    failure

/-- One or more elements with the punctuator between them. -/
def separated (sep : String) (p : Reader α) : Nat → Reader (List α)
  | 0 => failure
  | n + 1 => do
    let a ← p
    if ← eat sep then return a :: (← separated sep p n)
    return [a]

/-- Elements up to the closing punctuator, which stays. -/
def until_ (close : String) (p : Reader α) : Nat → Reader (List α)
  | 0 => failure
  | n + 1 => do
    if ← sees close then return []
    let a ← p
    return a :: (← until_ close p n)

/-- Goes on from `a` as long as `p` reads something. -/
def extend (p : α → Reader (Option α)) : Nat → α → Reader α
  | 0, _ => failure
  | n + 1, a => do
    match ← p a with
    | some a => extend p n a
    | none => return a

end Reader

end AmbientBundle.Syntax
