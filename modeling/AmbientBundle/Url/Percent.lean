/-!
Percent encoding: which characters each part of a URL keeps, and how the others are written.
-/
namespace AmbientBundle.Url

def isAsciiAlpha (c : Char) : Bool := c.isAlpha

def isHexDigit (c : Char) : Bool :=
  c.isDigit || ('a' ≤ c && c ≤ 'f') || ('A' ≤ c && c ≤ 'F')

def hexValue (c : Char) : Nat :=
  if c.isDigit then c.toNat - '0'.toNat
  else if 'a' ≤ c && c ≤ 'f' then c.toNat - 'a'.toNat + 10
  else c.toNat - 'A'.toNat + 10

/-- Controls and what lies outside ASCII are encoded in every part. -/
def encodesControl (c : Char) : Bool := c.toNat < 0x20 || 0x7f ≤ c.toNat

def encodesInFragment (c : Char) : Bool :=
  encodesControl c || [' ', '"', '<', '>', '\x60'].contains c

def encodesInPath (c : Char) : Bool :=
  encodesInFragment c || ['#', '?', '\x7b', '\x7d'].contains c

def encodesInUserinfo (c : Char) : Bool :=
  encodesInPath c || ['/', ':', ';', '=', '@', '[', '\\', ']', '^', '|'].contains c

def encodesInQuery (special : Bool) (c : Char) : Bool :=
  encodesControl c || [' ', '"', '#', '<', '>'].contains c || (special && c == '\'')

def hexDigit (n : Nat) : Char :=
  if n < 10 then Char.ofNat ('0'.toNat + n) else Char.ofNat ('A'.toNat + (n - 10))

def encodeByte (b : UInt8) : List Char :=
  ['%', hexDigit (b.toNat / 16), hexDigit (b.toNat % 16)]

/-- A character as the bytes of its UTF-8 form, each behind a percent sign. -/
def encodeChar (c : Char) : List Char :=
  (String.singleton c).toUTF8.toList.flatMap encodeByte

def percentEncode (encodes : Char → Bool) (cs : List Char) : List Char :=
  cs.flatMap (fun c => if encodes c then encodeChar c else [c])

/-- The bytes that a text stands for; a percent sign without two hex digits stands for itself. -/
def percentDecode : List Char → List UInt8
  | '%' :: a :: b :: r =>
    if isHexDigit a && isHexDigit b then
      UInt8.ofNat (hexValue a * 16 + hexValue b) :: percentDecode r
    else '%'.toUInt8 :: percentDecode (a :: b :: r)
  | c :: r => (String.singleton c).toUTF8.toList ++ percentDecode r
  | [] => []
termination_by cs => cs.length

end AmbientBundle.Url
