/-!
Absolute URLs in normal form. Two URLs are equal exactly when their parts are, and `href` writes
the parts down.
-/
namespace AmbientBundle

/-- The part between `//` and the path; the host may be empty. -/
structure Authority where
  username : String
  password : Option String
  host : String
  portNumber : Option Nat
deriving DecidableEq, Repr, Inhabited, Hashable

/-- A path that does not start with a slash is opaque unless it is empty behind an authority. -/
structure Url where
  scheme : String
  authority : Option Authority
  path : String
  query : Option String
  fragment : Option String
deriving DecidableEq, Repr, Inhabited, Hashable

namespace Url

/-- Why a text is no URL. -/
inductive ParseError where
  | emptyHost
  | invalidDomain
  | invalidPort
  | invalidIpv4
  | invalidIpv6
  | invalidDomainCharacter
  | relativeWithoutBase
  | relativeToOpaque
deriving DecidableEq, Repr

def ParseError.message : ParseError → String
  | .emptyHost => "empty host"
  | .invalidDomain => "invalid international domain name"
  | .invalidPort => "invalid port number"
  | .invalidIpv4 => "invalid IPv4 address"
  | .invalidIpv6 => "invalid IPv6 address"
  | .invalidDomainCharacter => "invalid domain character"
  | .relativeWithoutBase => "relative URL without a base"
  | .relativeToOpaque => "relative URL with a cannot-be-a-base base"

def isFileScheme (scheme : String) : Bool := scheme == "file"

/-- The schemes whose URLs always have an authority and a path. -/
def isSpecialScheme (scheme : String) : Bool :=
  ["file", "http", "https", "ws", "wss", "ftp"].contains scheme

def defaultPort (scheme : String) : Option Nat :=
  if scheme == "http" || scheme == "ws" then some 80
  else if scheme == "https" || scheme == "wss" then some 443
  else if scheme == "ftp" then some 21
  else none

def isFile (u : Url) : Bool := isFileScheme u.scheme

def isSpecial (u : Url) : Bool := isSpecialScheme u.scheme

/-- An opaque path is one text, not a list of segments: nothing is relative to it. -/
def isOpaque (u : Url) : Bool := u.authority.isNone && !u.path.startsWith "/"

/-- The host, if there is one that is not empty. -/
def host? (u : Url) : Option String :=
  match u.authority with
  | some a => if a.host.isEmpty then none else some a.host
  | none => none

def portNumber? (u : Url) : Option Nat := u.authority.bind Authority.portNumber

def credentials (a : Authority) : String :=
  match a.password with
  | some p => a.username ++ ":" ++ p ++ "@"
  | none => if a.username.isEmpty then "" else a.username ++ "@"

def writePort : Option Nat → String
  | some n => ":" ++ toString n
  | none => ""

/-- Without an authority a path in front of `//` gets `/.`, which is no part of it. -/
def writeAuthority (u : Url) : String :=
  match u.authority with
  | some a => "//" ++ credentials a ++ a.host ++ writePort a.portNumber
  | none => if u.path.startsWith "//" then "/." else ""

def writePart (mark : String) : Option String → String
  | some s => mark ++ s
  | none => ""

/-- The URL as text. -/
def href (u : Url) : String :=
  u.scheme ++ ":" ++ writeAuthority u ++ u.path ++ writePart "?" u.query ++ writePart "#" u.fragment

end Url

end AmbientBundle
