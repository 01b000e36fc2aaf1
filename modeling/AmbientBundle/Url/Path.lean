import AmbientBundle.Url.Percent
/-!
Paths of URLs, built segment by segment: dot segments go, and in a `file` URL a drive letter in
front stays. A path so far is empty or starts with a slash.
-/
namespace AmbientBundle.Url

def isDriveLetter : List Char → Bool
  | [a, b] => isAsciiAlpha a && (b == ':' || b == '|')
  | _ => false

def isNormalDriveLetter : List Char → Bool
  | [a, b] => isAsciiAlpha a && b == ':'
  | _ => false

def endsSegment (c : Char) : Bool := ['/', '\\', '?', '#'].contains c

/-- A drive letter that is the whole first segment. -/
def startsWithDriveLetter : List Char → Bool
  | [a, b] => isDriveLetter [a, b]
  | a :: b :: c :: _ => isDriveLetter [a, b] && endsSegment c
  | _ => false

def isDot (s : List Char) : Bool := [".", "%2e", "%2E"].contains (String.ofList s)

def isDoubleDot (s : List Char) : Bool :=
  ["..", "%2e%2e", "%2e%2E", "%2E%2e", "%2E%2E", "%2e.", "%2E.", ".%2e", ".%2E"].contains
    (String.ofList s)

def endsWithSlash (p : List Char) : Bool := p.getLast? == some '/'

def ensureSlash (p : List Char) : List Char := if endsWithSlash p then p else p ++ ['/']

def lastSegment (p : List Char) : List Char := (p.reverse.takeWhile (· != '/')).reverse

def uptoLastSlash (p : List Char) : List Char := (p.reverse.dropWhile (· != '/')).reverse

/-- The path up to its last slash; a drive letter in a `file` URL is not taken off. -/
def popSegment (file : Bool) (p : List Char) : List Char :=
  if file && isNormalDriveLetter (lastSegment p) then p else uptoLastSlash p

/-- The slash at the end, neither the root nor behind a drive letter, is taken off. -/
def dropLastSlash (p : List Char) : List Char :=
  let front := p.dropLast
  if endsWithSlash p && front.contains '/' &&
      !startsWithDriveLetter (lastSegment front ++ ['/']) then front
  else p

/-- The path with one more segment, which a slash closes or which ends the text. -/
def addSegment (file : Bool) (path segment : List Char) (closed : Bool) : List Char :=
  let p := if file && isNormalDriveLetter (path.drop 1) && !segment.isEmpty then path ++ ['/']
    else path
  if isDoubleDot segment then
    let q := popSegment file (dropLastSlash p)
    if closed then ensureSlash q else q
  else if isDot segment then ensureSlash p
  else
    let s := if file && p.length == 1 && isDriveLetter segment then segment.take 1 ++ [':']
      else segment
    p ++ s ++ (if closed then ['/'] else [])

/-- The segments of a text, each with whether a separator closes it. -/
def splitSegments (separates : Char → Bool) : List Char → List (List Char × Bool)
  | [] => [([], false)]
  | c :: r =>
    if separates c then ([], true) :: splitSegments separates r
    else match splitSegments separates r with
      | (s, b) :: rest => (c :: s, b) :: rest
      | [] => [([c], false)]

/-- What the text adds to a path. A `file` URL's path starts with one slash only. -/
def extendPath (special file : Bool) (path text : List Char) : List Char :=
  let separates := fun c => c == '/' || (special && c == '\\')
  let p := (splitSegments separates text).foldl
    (fun p s => addSegment file p (percentEncode encodesInPath s.1) s.2) path
  if file then '/' :: p.dropWhile (· == '/') else p

/-- A path written on its own: that of a special URL starts with a slash in any case. -/
def startPath (special file : Bool) (text : List Char) : List Char :=
  if special then
    match text with
    | '/' :: r => extendPath special file ['/'] r
    | '\\' :: r => extendPath special file ['/'] r
    | _ => extendPath special file ['/'] text
  else match text with
    | [] => []
    | '/' :: _ => extendPath special file [] text
    | _ => extendPath special file ['/'] text

end AmbientBundle.Url
