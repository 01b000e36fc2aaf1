import AmbientBundle.Syntax.Tree
import AmbientBundle.Text.Ident
/-!
Tokens of a declaration file. Blanks and comments are dropped; a token keeps where it starts and
stops (bytes of the text, counted from 1) and whether a line break stands before it. Every `<` and
every `>` is a token of its own, since type arguments may open and close next to each other.
-/
namespace AmbientBundle.Syntax

open Text

inductive Lexeme where
  | word (text : String)
  | str (lit : StrLit)
  | number (raw : String)
  | regex (raw : String)
  | hidden (text : String)
  /-- A piece of a template; `opens` and `closes` say whether a backtick stands at that end. -/
  | piece (raw : String) (opens closes : Bool)
  | punct (text : String)
deriving DecidableEq, Repr

structure Token where
  lexeme : Lexeme
  start : Nat
  stop : Nat
  newline : Bool
deriving DecidableEq, Repr

def utf8Length (cs : List Char) : Nat := cs.foldl (fun n c => n + c.utf8Size) 0

/-- What is left behind a line comment. -/
def afterLine : List Char → List Char
  | [] => []
  | c :: cs => if isLineBreak c then c :: cs else afterLine cs

/-- What is left behind a block comment, and whether it holds a line break. -/
def afterBlock (broken : Bool) : List Char → Option (List Char × Bool)
  | '*' :: '/' :: cs => some (cs, broken)
  | c :: cs => afterBlock (broken || isLineBreak c) cs
  | [] => none

/-- Drops blanks and comments; tells whether a line break was among them. -/
def skipBlanks : Nat → Bool → List Char → Option (List Char × Bool)
  | 0, _, _ => none
  | fuel + 1, nl, cs =>
    match cs with
    | '/' :: '/' :: r => skipBlanks fuel nl (afterLine r)
    | '/' :: '*' :: r => do
      let (r, nl) ← afterBlock nl r
      skipBlanks fuel nl r
    | c :: r =>
      if isLineBreak c then skipBlanks fuel true r
      else if isBlank c then skipBlanks fuel nl r
      else some (cs, nl)
    | [] => some ([], nl)

def hexValue (c : Char) : Option Nat :=
  if c.isDigit then some (c.toNat - '0'.toNat)
  else if 'a' ≤ c ∧ c ≤ 'f' then some (c.toNat - 'a'.toNat + 10)
  else if 'A' ≤ c ∧ c ≤ 'F' then some (c.toNat - 'A'.toNat + 10)
  else none

def hexNumber (cs : List Char) : Option Nat :=
  cs.foldlM (fun n c => (hexValue c).map (16 * n + ·)) 0

/-- A code unit or code point behind `\u`: four digits, or digits in braces. -/
def unicodeEscape : List Char → Option (Nat × List Char)
  | '{' :: r =>
    let (digits, rest) := r.span (· != '}')
    match digits, rest with
    | [], _ => none
    | _, [] => none
    | ds, _ :: rest => do
      let n ← hexNumber ds
      if n ≤ 0x10FFFF then some (n, rest) else none
  | a :: b :: c :: d :: r => (hexNumber [a, b, c, d]).map (·, r)
  | _ => none

/-- What an escape in a string denotes; the text starts behind the backslash. -/
def stringEscape : List Char → Option (List Char × List Char)
  | [] => none
  | '\r' :: '\n' :: r => some ([], r)
  | 'x' :: a :: b :: r => (hexNumber [a, b]).map fun n => ([Char.ofNat n], r)
  | 'x' :: _ => none
  | 'u' :: r => do
    let (n, r) ← unicodeEscape r
    if 0xD800 ≤ n ∧ n < 0xDC00 then
      match r with
      | '\\' :: 'u' :: r' =>
        match unicodeEscape r' with
        | some (m, r'') =>
          if 0xDC00 ≤ m ∧ m < 0xE000 then
            some ([Char.ofNat (0x10000 + (n - 0xD800) * 0x400 + (m - 0xDC00))], r'')
          else some (['\ufffd'], r)
        | none => some (['\ufffd'], r)
      | _ => some (['\ufffd'], r)
    else if 0xDC00 ≤ n ∧ n < 0xE000 then some (['\ufffd'], r)
    else some ([Char.ofNat n], r)
  | c :: r =>
    if isLineBreak c then some ([], r)
    else if '0' ≤ c ∧ c ≤ '7' then
      let digits := ((c :: r).take (if c ≤ '3' then 3 else 2)).takeWhile fun d => '0' ≤ d ∧ d ≤ '7'
      some ([Char.ofNat (digits.foldl (fun n d => 8 * n + (d.toNat - '0'.toNat)) 0)],
        (c :: r).drop digits.length)
    else
      some ([match c with
        | 'n' => '\n' | 't' => '\t' | 'r' => '\r' | 'b' => '\x08' | 'v' => '\x0b' | 'f' => '\x0c'
        | c => c], r)

/-- The value of a string literal and the text behind it; the text starts behind the quote. -/
def stringBody (quote : Char) : Nat → List Char → Option (List Char × List Char)
  | 0, _ => none
  | fuel + 1, cs =>
    match cs with
    | [] => none
    | '\\' :: r => do
      let (v, r) ← stringEscape r
      let (vs, r) ← stringBody quote fuel r
      some (v ++ vs, r)
    | c :: r =>
      if c == quote then some ([], r)
      else if c == '\n' || c == '\r' then none
      else do
        let (vs, r) ← stringBody quote fuel r
        some (c :: vs, r)

/-- An identifier with its escapes read, and the text behind it. -/
def wordBody : Nat → Bool → List Char → Option (List Char × List Char)
  | 0, _, _ => none
  | fuel + 1, first, cs =>
    let ok := fun c => if first then isIdentStart c else isIdentPart c
    match cs with
    | '\\' :: 'u' :: r => do
      let (n, r) ← unicodeEscape r
      let c := Char.ofNat n
      if ok c then
        let (w, r) ← wordBody fuel false r
        some (c :: w, r)
      else none
    | '\\' :: _ => none
    | c :: r =>
      if ok c then do
        let (w, r) ← wordBody fuel false r
        some (c :: w, r)
      else some ([], cs)
    | [] => some ([], [])

/-- A piece of a template up to the backtick or the `${` that ends it. -/
def templateBody : List Char → Option (List Char × Bool × List Char)
  | [] => none
  | '\x60' :: r => some ([], true, r)
  | '$' :: '\x7b' :: r => some ([], false, r)
  | '\\' :: c :: r => do
    let (raw, closes, r) ← templateBody r
    some ('\\' :: c :: raw, closes, r)
  | c :: r => do
    let (raw, closes, r) ← templateBody r
    some (c :: raw, closes, r)

/-- A regular expression literal behind its first slash: the body, the slash and the flags. -/
def regexBody (inClass : Bool) : List Char → Option (List Char × List Char)
  | [] => none
  | '\\' :: c :: r => do
    let (raw, r) ← regexBody inClass r
    some ('\\' :: c :: raw, r)
  | c :: r =>
    if isLineBreak c then none
    else if c == '/' && !inClass then
      let (flags, rest) := r.span isIdentPart
      some ('/' :: flags, rest)
    else do
      let (raw, r) ← regexBody (if c == '[' then true else if c == ']' then false else inClass) r
      some (c :: raw, r)

def isNumeral (c : Char) : Bool := c.isDigit || c == '_'

/-- The exponent of a decimal number, if there is one. -/
def exponentPart : List Char → List Char × List Char
  | c :: r =>
    if c == 'e' || c == 'E' then
      let (sign, r') := match r with
        | s :: r' => if s == '+' || s == '-' then ([s], r') else ([], r)
        | [] => ([], [])
      let (digits, rest) := r'.span isNumeral
      if digits.isEmpty then ([], c :: r) else (c :: sign ++ digits, rest)
    else ([], c :: r)
  | [] => ([], [])

/-- A number and the text behind it. -/
def numberBody (cs : List Char) : List Char × List Char :=
  let based := match cs with
    | '0' :: b :: r =>
      if b == 'x' || b == 'X' || b == 'o' || b == 'O' || b == 'b' || b == 'B' then
        let (digits, rest) := r.span fun c => (hexValue c).isSome || c == '_'
        if digits.isEmpty then none else some ('0' :: b :: digits, rest)
      else none
    | _ => none
  let (raw, rest) := based.getD <|
    let (whole, r) := cs.span isNumeral
    let (frac, r) := match r with
      | '.' :: r' => let (ds, r'') := r'.span isNumeral; ('.' :: ds, r'')
      | r => ([], r)
    let (expo, r) := exponentPart r
    (whole ++ frac ++ expo, r)
  match rest with
  | 'n' :: rest' => (raw ++ ['n'], rest')
  | rest => (raw, rest)

/-- The punctuators of more than one character; the first that fits is taken. -/
def longPunctuators : List String :=
  ["??=", "**=", "...", "===", "!==", "&&=", "||=", "=>", "==", "!=", "++", "--", "+=", "-=", "*=",
   "/=", "%=", "&=", "|=", "^=", "&&", "||", "??", "?.", "**"]

def shortPunctuators : List Char :=
  ['\x7b', '\x7d', '(', ')', '[', ']', ';', ',', '.', '?', ':', '<', '>', '=', '!', '+', '-', '*',
   '/', '%', '&', '|', '^', '~', '@']

def punctuator (cs : List Char) : Option (String × List Char) :=
  match longPunctuators.find? (fun p => p.toList.isPrefixOf cs) with
  | some p =>
    if p == "?." && ((cs.drop 2).head?.any Char.isDigit) then some ("?", cs.drop 1)
    else some (p, cs.drop p.length)
  | none =>
    match cs with
    | c :: r => if shortPunctuators.contains c then some (String.singleton c, r) else none
    | [] => none

/-- Whether a slash behind this token divides; elsewhere it starts a regular expression. -/
def Lexeme.endsOperand : Lexeme → Bool
  | .word _ | .str _ | .number _ | .regex _ | .hidden _ => true
  | .piece _ _ closes => closes
  | .punct p => p == ")" || p == "]" || p == "\x7d"

/--
One token at the start of the text. `braces` remembers of every open brace whether it belongs to a
template, so that its closing brace goes on with the template.
-/
def nextLexeme (prev : Option Lexeme) (braces : List Bool) (cs : List Char) :
    Option (Lexeme × List Bool × List Char) :=
  match cs with
  | [] => none
  | c :: r =>
    if isIdentStart c || c == '\\' then do
      let (w, rest) ← wordBody (cs.length + 1) true cs
      if w.isEmpty then none else some (.word (String.ofList w), braces, rest)
    else if c.isDigit || (c == '.' && r.head?.any Char.isDigit) then
      let (raw, rest) := numberBody cs
      if rest.head?.any isIdentStart then none
      else some (.number (String.ofList raw), braces, rest)
    else if c == '"' || c == '\'' then do
      let (v, rest) ← stringBody c (cs.length + 1) r
      let raw := cs.take (cs.length - rest.length)
      some (.str ⟨String.ofList v, some (String.ofList raw)⟩, braces, rest)
    else if c == '\x60' then do
      let (raw, closes, rest) ← templateBody r
      some (.piece (String.ofList raw) true closes, if closes then braces else true :: braces, rest)
    else if c == '\x7d' && braces.head? == some true then do
      let (raw, closes, rest) ← templateBody r
      some (.piece (String.ofList raw) false closes, if closes then braces.tail else braces, rest)
    else if c == '#' then do
      let (w, rest) ← wordBody (cs.length + 1) true r
      if w.isEmpty then none else some (.hidden (String.ofList w), braces, rest)
    else if c == '/' && !(prev.any Lexeme.endsOperand) then do
      let (raw, rest) ← regexBody false r
      some (.regex (String.ofList ('/' :: raw)), braces, rest)
    else do
      let (p, rest) ← punctuator cs
      let braces := if p == "\x7b" then false :: braces
        else if p == "\x7d" then braces.tail else braces
      some (.punct p, braces, rest)

def scanFrom : Nat → Option Lexeme → List Bool → Nat → List Char → Option (List Token)
  | 0, _, _, _, _ => none
  | fuel + 1, prev, braces, pos, cs => do
    let (cs', newline) ← skipBlanks (cs.length + 1) false cs
    let start := pos + (utf8Length cs - utf8Length cs')
    if cs'.isEmpty then some []
    else
      let (lexeme, braces, rest) ← nextLexeme prev braces cs'
      let stop := start + (utf8Length cs' - utf8Length rest)
      let tokens ← scanFrom fuel (some lexeme) braces stop rest
      some (⟨lexeme, start, stop, newline⟩ :: tokens)

/-- The first line of a text that starts with `#!`, without the `#!`. -/
def splitShebang : List Char → Option (List Char) × List Char
  | '#' :: '!' :: r => let (line, rest) := r.span (!isLineBreak ·); (some line, rest)
  | cs => (none, cs)

/-- The shebang line and the tokens of a text, unless it is no sequence of tokens. -/
def scan (text : String) : Option (Option String × List Token) :=
  let (shebang, rest) := splitShebang text.toList
  let pos := 1 + (text.utf8ByteSize - utf8Length rest)
  (scanFrom (rest.length + 1) none [] pos rest).map (shebang.map String.ofList, ·)

end AmbientBundle.Syntax
