import AmbientBundle.Url.Host
import AmbientBundle.Url.Path
/-!
Reading URLs, on their own or relative to a base, and replacing a URL's path.
-/
namespace AmbientBundle.Url

def isTabOrBreak (c : Char) : Bool := c == '\t' || c == '\n' || c == '\r'

/-- Controls and spaces around a text and tabs and line breaks inside it do not count. -/
def cleaned (text : String) : List Char :=
  let blank := fun (c : Char) => c.toNat ≤ 0x20
  let cs := text.toList.dropWhile blank
  (cs.reverse.dropWhile blank).reverse.filter (fun c => !isTabOrBreak c)

def isSchemeChar (c : Char) : Bool := c.isAlphanum || c == '+' || c == '-' || c == '.'

/-- The scheme in lower case and what follows its colon. -/
def splitScheme (cs : List Char) : Option (String × List Char) :=
  match cs.head?, cs.dropWhile isSchemeChar with
  | some c, ':' :: rest =>
    if isAsciiAlpha c then
      some (String.ofList ((cs.takeWhile isSchemeChar).map Char.toLower), rest)
    else none
  | _, _ => none

def beginsTail (c : Char) : Bool := c == '?' || c == '#'

def beforeTail (cs : List Char) : List Char := cs.takeWhile (fun c => !beginsTail c)

def tailOf (cs : List Char) : List Char := cs.dropWhile (fun c => !beginsTail c)

/-- The URL with the query and the fragment that the tail holds. -/
def withTail (u : Url) (tail : List Char) : Url :=
  let query (cs : List Char) := String.ofList (percentEncode (encodesInQuery u.isSpecial) cs)
  let fragment (cs : List Char) := String.ofList (percentEncode encodesInFragment cs)
  match tail with
  | '#' :: f => { u with query := none, fragment := some (fragment f) }
  | '?' :: r =>
    let q := some (query (r.takeWhile (· != '#')))
    match r.dropWhile (· != '#') with
    | _ :: f => { u with query := q, fragment := some (fragment f) }
    | [] => { u with query := q, fragment := none }
  | _ => { u with query := none, fragment := none }

def isSlash (c : Char) : Bool := c == '/' || c == '\\'

def isSeparator (special : Bool) (c : Char) : Bool := c == '/' || (special && c == '\\')

def endsAuthority (special : Bool) (c : Char) : Bool := isSeparator special c || beginsTail c

/-- The text in front of the last `@`, and what stands behind it. -/
def splitUserinfo (cs : List Char) : Option (List Char × List Char) :=
  if cs.contains '@' then
    some ((cs.reverse.dropWhile (· != '@')).tail.reverse, (cs.reverse.takeWhile (· != '@')).reverse)
  else none

def userinfo (cs : List Char) : String × Option String :=
  let encoded (ds : List Char) := String.ofList (percentEncode encodesInUserinfo ds)
  match cs.dropWhile (· != ':') with
  | _ :: p => (encoded (cs.takeWhile (· != ':')), if p.isEmpty then none else some (encoded p))
  | [] => (encoded cs, none)

/-- Splits an authority at the first colon outside brackets. -/
def splitPort (inBrackets : Bool) : List Char → List Char × Option (List Char)
  | [] => ([], none)
  | c :: r =>
    if c == ':' && !inBrackets then ([], some r)
    else
      let p := splitPort (c == '[' || (inBrackets && c != ']')) r
      (c :: p.1, p.2)

def readPort (scheme : String) (cs : List Char) : Except ParseError (Option Nat) :=
  if cs.isEmpty then .ok none
  else if cs.all Char.isDigit then
    let n := cs.foldl (fun n c => n * 10 + hexValue c) 0
    if 65535 < n then .error .invalidPort
    else .ok (if defaultPort scheme == some n then none else some n)
  else .error .invalidPort

/-- An authority behind `//` in a URL that is no `file` URL. -/
def readAuthority (scheme : String) (cs : List Char) : Except ParseError Authority := do
  let special := isSpecialScheme scheme
  let (user, password, rest) ← match splitUserinfo cs with
    | none => .ok ("", none, cs)
    | some (info, rest) =>
      if info.isEmpty && rest.isEmpty then .error .emptyHost
      else
        let (user, password) := userinfo info
        .ok (user, password, rest)
  let (hostText, portText) := splitPort false rest
  if special && hostText.isEmpty then throw .emptyHost
  let host ← if special then specialHost hostText else opaqueHost hostText
  if host.isEmpty && portText.isSome then throw .emptyHost
  let number ← match portText with
    | some p => readPort scheme p
    | none => .ok none
  if host.isEmpty && (!user.isEmpty || password.isSome) then throw .emptyHost
  return ⟨user, password, host, number⟩

/-- A URL from what stands behind `scheme://`. -/
def afterSlashes (scheme : String) (cs : List Char) : Except ParseError Url := do
  let special := isSpecialScheme scheme
  let ends := endsAuthority special
  let a ← readAuthority scheme (cs.takeWhile (fun c => !ends c))
  let rest := cs.dropWhile (fun c => !ends c)
  let path := startPath special false (beforeTail rest)
  return withTail ⟨scheme, some a, String.ofList path, none, none⟩ (tailOf rest)

def noHost : Authority := ⟨"", none, "", none⟩

def fileUrl (host : String) (path : List Char) : Url :=
  ⟨"file", some { noHost with host }, String.ofList path, none, none⟩

/-- The host of a `file` URL; `localhost` is no host. -/
def fileHost (cs : List Char) : Except ParseError String :=
  if cs.isEmpty then .ok ""
  else do
    let h ← specialHost cs
    return if h == "localhost" then "" else h

/-- A `file` URL from what stands behind its two slashes. A drive letter takes the host away. -/
def fileAfterSlashes (cs : List Char) : Except ParseError Url := do
  let ends := endsAuthority true
  let hostText := cs.takeWhile (fun c => !ends c)
  if isDriveLetter hostText then
    return withTail (fileUrl "" (extendPath true true ['/'] (beforeTail cs))) (tailOf cs)
  let host ← fileHost hostText
  let rest := cs.dropWhile (fun c => !ends c)
  let path := startPath true true (beforeTail rest)
  let host := if startsWithDriveLetter (path.drop 1) then "" else host
  return withTail (fileUrl host path) (tailOf rest)

def firstSegment (u : Url) : List Char := (u.path.toList.drop 1).takeWhile (· != '/')

/-- Where a path behind a single slash starts: at the base's drive letter, or at its host. -/
def fileRoot (base : Option Url) (cs : List Char) : String × List Char :=
  match base with
  | none => ("", [])
  | some b =>
    if startsWithDriveLetter cs then ("", [])
    else if isNormalDriveLetter (firstSegment b) then ("", '/' :: firstSegment b)
    else (b.host?.getD "", [])

def withFragment (u : Url) (tail : List Char) : Url :=
  { u with fragment := some (String.ofList (percentEncode encodesInFragment (tail.drop 1))) }

/-- The base with its path extended by a relative text. -/
def besideBase (base : Url) (cs : List Char) : Url :=
  let kept := popSegment base.isFile base.path.toList
  let kept := if kept.isEmpty && (base.isSpecial || !cs.isEmpty) then ['/'] else kept
  let path := extendPath base.isSpecial base.isFile kept (beforeTail cs)
  withTail { base with path := String.ofList path } (tailOf cs)

/-- A `file` URL from a text that starts with a single slash. -/
def fileFromRoot (base : Option Url) (cs : List Char) : Url :=
  let (host, root) := fileRoot base (cs.drop 1)
  withTail (fileUrl host (extendPath true true root (beforeTail cs))) (tailOf cs)

/-- A `file` URL from a text that starts with no slash. -/
def fileBeside (base : Option Url) (cs : List Char) : Url :=
  let alone := withTail (fileUrl "" (extendPath true true ['/'] (beforeTail cs))) (tailOf cs)
  match base, cs with
  | none, _ => alone
  | some b, [] => { b with fragment := none }
  | some b, '?' :: _ => withTail b cs
  | some b, '#' :: _ => withFragment b cs
  | some b, _ => if startsWithDriveLetter cs then alone else besideBase b cs

def fileRelative (base : Option Url) (cs : List Char) : Except ParseError Url :=
  match (cs.takeWhile isSlash).length with
  | 0 => .ok (fileBeside base cs)
  | 1 => .ok (fileFromRoot base cs)
  | _ => fileAfterSlashes (cs.drop 2)

/-- A text without a scheme beside a base that is no `file` URL. -/
def relativeTo (base : Url) (cs : List Char) : Except ParseError Url :=
  match cs with
  | [] => .ok { base with fragment := none }
  | '?' :: _ => .ok (withTail base cs)
  | '#' :: _ => .ok (withFragment base cs)
  | c :: r =>
    if isSlash c then
      if (r.head?.map isSlash).getD false then
        match cs with
        | '/' :: '/' :: rest => afterSlashes base.scheme rest
        | _ => afterSlashes base.scheme (cs.dropWhile isSlash)
      else
        let path := extendPath base.isSpecial false ['/'] (beforeTail r)
        .ok (withTail { base with path := String.ofList path } (tailOf r))
    else .ok (besideBase base cs)

/-- A URL with a scheme that has no rules of its own. -/
def plainUrl (scheme : String) (cs : List Char) : Except ParseError Url :=
  match cs with
  | '/' :: '/' :: r => afterSlashes scheme r
  | '/' :: r =>
    let path := extendPath false false ['/'] (beforeTail r)
    .ok (withTail ⟨scheme, none, String.ofList path, none, none⟩ (tailOf r))
  | _ =>
    let path := percentEncode encodesControl (beforeTail cs)
    .ok (withTail ⟨scheme, none, String.ofList path, none, none⟩ (tailOf cs))

def withScheme (base : Option Url) (scheme : String) (cs : List Char) : Except ParseError Url :=
  let sameBase := base.filter (fun b => b.scheme == scheme)
  if isFileScheme scheme then fileRelative sameBase cs
  else if isSpecialScheme scheme then
    match sameBase with
    | some b =>
      if (cs.takeWhile isSlash).length < 2 then relativeTo b cs
      else afterSlashes scheme (cs.dropWhile isSlash)
    | none => afterSlashes scheme (cs.dropWhile isSlash)
  else plainUrl scheme cs

/-- Reads a text as a URL, relative to the base if there is one. -/
def parseWith (base : Option Url) (text : String) : Except ParseError Url :=
  let cs := cleaned text
  match splitScheme cs with
  | some (scheme, rest) => withScheme base scheme rest
  | none => match base with
    | none => .error .relativeWithoutBase
    | some b =>
      if cs.head? == some '#' then .ok (withFragment b cs)
      else if b.isOpaque then .error .relativeToOpaque
      else if b.isFile then fileRelative (some b) cs
      else relativeTo b cs

/-- Reads an absolute URL. -/
def parse (text : String) : Except ParseError Url := parseWith none text

/-- Reads a text relative to the URL. -/
def join (base : Url) (text : String) : Except ParseError Url := parseWith (some base) text

/-- The URL with another path. In an opaque path a slash in front is encoded. -/
def setPath (u : Url) (path : String) : Url :=
  let cs := path.toList.filter (fun c => !isTabOrBreak c)
  let p := if u.isOpaque then
      match cs with
      | '/' :: r => '%' :: '2' :: 'F' :: percentEncode encodesControl r
      | _ => percentEncode encodesControl cs
    else if u.isFile && !u.host?.isSome then extendPath true true [] cs
    else if !u.isSpecial && (cs.head?.map beginsTail).getD false then []
    else startPath u.isSpecial u.isFile cs
  { u with path := String.ofList p }

end AmbientBundle.Url
