import AmbientBundle.Url.Basic
import AmbientBundle.Url.Percent
import AmbientBundle.Url.Punycode
/-!
Hosts: domains in lower case, IPv4 addresses in any of their number forms, IPv6 addresses in
brackets, and the opaque hosts of other schemes. Outside ASCII only the letters of Latin-1, Greek
and Cyrillic have lower cases here.
-/
namespace AmbientBundle.Url

/-- The fields of a text between separators; there is always one. -/
def fields (sep : Char) : List Char → List (List Char)
  | [] => [[]]
  | c :: r =>
    if c == sep then [] :: fields sep r
    else match fields sep r with
      | s :: rest => (c :: s) :: rest
      | [] => [[c]]

def numeral? (radix : Nat) (ds : List Char) : Option Nat :=
  if ds.all (fun c => isHexDigit c && hexValue c < radix) then
    some (ds.foldl (fun n c => n * radix + hexValue c) 0)
  else none

/-- A number of an IPv4 address: hexadecimal behind `0x`, octal behind `0`. -/
def ipv4Number? : List Char → Option Nat
  | [] => none
  | '0' :: 'x' :: r => numeral? 16 r
  | '0' :: 'X' :: r => numeral? 16 r
  | ['0'] => some 0
  | '0' :: r => numeral? 8 r
  | cs => numeral? 10 cs

def dropTrailingEmpty (parts : List (List Char)) : List (List Char) :=
  if 1 < parts.length && parts.getLast? == some [] then parts.dropLast else parts

/-- A domain whose last label is a number has to be an IPv4 address. -/
def endsInNumber (parts : List (List Char)) : Bool :=
  match (dropTrailingEmpty parts).getLast? with
  | some l => (!l.isEmpty && l.all Char.isDigit) || (ipv4Number? l).isSome
  | none => false

def dotted (n : Nat) : String :=
  ".".intercalate ([n / 16777216, n / 65536 % 256, n / 256 % 256, n % 256].map toString)

/-- The last number fills the bytes that the numbers before it leave. -/
def ipv4 (parts : List (List Char)) : Except ParseError String :=
  let numbers := (dropTrailingEmpty parts).map ipv4Number?
  if 4 < numbers.length || numbers.any Option.isNone then .error .invalidIpv4
  else match (numbers.filterMap id).reverse with
    | [] => .error .invalidIpv4
    | last :: front =>
      if Nat.pow 256 (4 - front.length) ≤ last || front.any (255 < ·) then .error .invalidIpv4
      else .ok (dotted
        (front.reverse.zipIdx.foldl (fun n p => n + p.1 * Nat.pow 256 (3 - p.2)) last))

/-- Four decimal bytes without leading zeros, as two pieces of an IPv6 address. -/
def ipv4Tail? (cs : List Char) : Option (List Nat) :=
  let byte? (ds : List Char) : Option Nat :=
    if ds.isEmpty || !ds.all Char.isDigit || (1 < ds.length && ds.head? == some '0') then none
    else (numeral? 10 ds).filter (· ≤ 255)
  match (fields '.' cs).map byte? with
  | [some a, some b, some c, some d] => some [a * 256 + b, c * 256 + d]
  | _ => none

def ipv6Piece? (cs : List Char) : Option Nat :=
  if cs.isEmpty || 4 < cs.length then none else numeral? 16 cs

/-- The pieces between colons; the last of an address may be an IPv4 address. -/
def ipv6Pieces? (final : Bool) : List (List Char) → Option (List Nat)
  | [] => some []
  | [p] => if final && p.contains '.' then ipv4Tail? p else (ipv6Piece? p).map ([·])
  | p :: rest => do
    let n ← ipv6Piece? p
    let ns ← ipv6Pieces? final rest
    return n :: ns

/-- What stands before and behind the first `::`. -/
def splitAtGap : List Char → Option (List Char × List Char)
  | ':' :: ':' :: r => some ([], r)
  | c :: r => (splitAtGap r).map (fun p => (c :: p.1, p.2))
  | [] => none

def piecesOf (final : Bool) (cs : List Char) : Option (List Nat) :=
  if cs.isEmpty then some [] else ipv6Pieces? final (fields ':' cs)

def ipv6Address? (cs : List Char) : Option (List Nat) :=
  match splitAtGap cs with
  | none => (piecesOf true cs).filter (·.length == 8)
  | some (l, r) => do
    let ls ← piecesOf false l
    let rs ← piecesOf true r
    if ls.length + rs.length ≤ 7 then
      some (ls ++ List.replicate (8 - ls.length - rs.length) 0 ++ rs)
    else none

/-- Start and length of the first longest run of zeros. -/
def longestGap (pieces : List Nat) : Nat × Nat :=
  (List.range pieces.length).foldl
    (fun best i =>
      let n := ((pieces.drop i).takeWhile (· == 0)).length
      if best.2 < n then (i, n) else best)
    (0, 0)

def hexText (n : Nat) : String := String.ofList (Nat.toDigits 16 n)

/-- The pieces in hexadecimal; the longest run of at least two zeros is left out. -/
def writeIpv6 (pieces : List Nat) : String :=
  let colons (ns : List Nat) := ":".intercalate (ns.map hexText)
  let (i, n) := longestGap pieces
  if n < 2 then colons pieces else colons (pieces.take i) ++ "::" ++ colons (pieces.drop (i + n))

def ipv6 (cs : List Char) : Except ParseError String :=
  match ipv6Address? cs with
  | some pieces => .ok ("[" ++ writeIpv6 pieces ++ "]")
  | none => .error .invalidIpv6

def bracketed (cs : List Char) : Except ParseError String :=
  if cs.getLast? == some ']' then ipv6 (cs.drop 1).dropLast else .error .invalidIpv6

def deniedInDomain (c : Char) : Bool :=
  c.toNat ≤ 0x20 || c.toNat == 0x7f ||
    ['%', '#', '/', ':', '<', '>', '?', '@', '[', '\\', ']', '^', '|'].contains c

/-- Full stops and letters that stand for those of ASCII, and lower case. -/
def domainChar (c : Char) : Char :=
  let n := c.toNat
  let between (a b : Nat) := a ≤ n && n ≤ b
  if [0x3002, 0xff0e, 0xff61].contains n then '.'
  else if between 0xff01 0xff5e then (Char.ofNat (n - 0xfee0)).toLower
  else if (between 0xc0 0xde && n != 0xd7) || between 0x391 0x3a9 || between 0x410 0x42f then
    Char.ofNat (n + 0x20)
  else if between 0x400 0x40f then Char.ofNat (n + 0x50)
  else c.toLower

def deniedInOpaqueHost (c : Char) : Bool :=
  ['\x00', '\t', '\n', '\r', ' ', '#', '/', ':', '<', '>', '?', '@', '[', '\\', ']', '^',
    '|'].contains c

def domain (cs : List Char) : Except ParseError String :=
  match String.fromUTF8? ⟨(percentDecode cs).toArray⟩ with
  | none => .error .invalidDomain
  | some text =>
    let ds := (text.toList.filter (·.toNat != 0xad)).map domainChar
    if ds.any deniedInDomain then .error .invalidDomain
    else if ds.isEmpty then .error .emptyHost
    else
      let parts := (fields '.' ds).map asciiLabel
      if endsInNumber parts then ipv4 parts
      else .ok (".".intercalate (parts.map String.ofList))

/-- The host of a URL with one of the special schemes. -/
def specialHost (cs : List Char) : Except ParseError String :=
  if cs.head? == some '[' then bracketed cs else domain cs

def opaqueHost (cs : List Char) : Except ParseError String :=
  if cs.head? == some '[' then bracketed cs
  else if cs.any deniedInOpaqueHost then .error .invalidDomainCharacter
  else .ok (String.ofList (percentEncode encodesControl cs))

end AmbientBundle.Url
