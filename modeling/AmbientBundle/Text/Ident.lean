import AmbientBundle.Text.IdentTable
/-!
Characters of identifiers and blank characters. An identifier starts with a letter, `$` or `_` and
goes on with these, digits and marks.
-/
namespace AmbientBundle.Text

def inRanges (rs : List (Nat × Nat)) (c : Char) : Bool :=
  rs.any fun r => r.1 ≤ c.toNat && c.toNat ≤ r.2

def isIdentStart (c : Char) : Bool :=
  c.isAlpha || c == '$' || c == '_' || (128 ≤ c.toNat && inRanges identStartRanges c)

/-- The joiners U+200C and U+200D may continue an identifier as well. -/
def isIdentPart (c : Char) : Bool :=
  isIdentStart c || c.isDigit || c == '\u200c' || c == '\u200d' ||
    (128 ≤ c.toNat && inRanges identPartRanges c)

theorem isIdentPart_of_isIdentStart {c : Char} (h : isIdentStart c = true) :
    isIdentPart c = true := by
  simp [isIdentPart, h]

/-- Whether the characters make up an identifier (or a keyword). -/
def isIdentName : List Char → Bool
  | [] => false
  | c :: cs => isIdentStart c && cs.all isIdentPart

def isLineBreak (c : Char) : Bool :=
  c == '\n' || c == '\r' || c == '\u2028' || c == '\u2029'

/-- A blank that is no line break: the ASCII blanks, the space separators and U+FEFF. -/
def isBlank (c : Char) : Bool :=
  c == ' ' || c == '\t' || c == '\x0b' || c == '\x0c' || c == '\u00a0' || c == '\u1680' ||
    (0x2000 ≤ c.toNat && c.toNat ≤ 0x200a) || c == '\u202f' || c == '\u205f' || c == '\u3000' ||
    c == '\ufeff'

end AmbientBundle.Text
