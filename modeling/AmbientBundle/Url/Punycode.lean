/-!
Labels of a domain in ASCII: a label with other characters is written as `xn--`, its ASCII
characters, and where the others stand, in digits of base 36 whose weights adapt.
-/
namespace AmbientBundle.Url

def punycodeDigit (n : Nat) : Char := Char.ofNat (if n < 26 then 97 + n else 22 + n)

/-- The least value of the `k`-th digit that is not the last one. -/
def threshold (bias k : Nat) : Nat := max 1 (min 26 (36 * (k + 1) - bias))

theorem one_le_threshold (bias k : Nat) : 1 ≤ threshold bias k := Nat.le_max_left _ _

/-- A number from its `k`-th digit on; the last digit lies below its threshold. -/
def writeDelta (bias k q : Nat) : List Char :=
  let t := threshold bias k
  if _h : q < t then [punycodeDigit q]
  else punycodeDigit (t + (q - t) % (36 - t)) :: writeDelta bias (k + 1) ((q - t) / (36 - t))
termination_by q
decreasing_by
  have ht := one_le_threshold bias k
  exact Nat.lt_of_le_of_lt (Nat.div_le_self _ _) (by omega)

/-- How often a number above 455 is divided by 35, and what is left. -/
def reduceDelta (d : Nat) : Nat × Nat :=
  if 455 < d then
    let r := reduceDelta (d / 35)
    (r.1 + 1, r.2)
  else (0, d)
termination_by d
decreasing_by omega

def adaptBias (delta count : Nat) (first : Bool) : Nat :=
  let d := if first then delta / 700 else delta / 2
  let r := reduceDelta (d + d / count)
  36 * r.1 + 36 * r.2 / (r.2 + 38)

structure Encoder where
  point : Nat
  delta : Nat
  bias : Nat
  written : Nat
  isFirst : Bool
  out : List Char

/-- Passes a character while the places of the code point `m` are written. -/
def Encoder.pass (m : Nat) (e : Encoder) (c : Char) : Encoder :=
  if c.toNat < m then { e with delta := e.delta + 1 }
  else if c.toNat = m then
    { e with
      delta := 0
      bias := adaptBias e.delta (e.written + 1) e.isFirst
      written := e.written + 1
      isFirst := false
      out := e.out ++ writeDelta e.bias 0 e.delta }
  else e

/-- Writes the places of the next greater code point. -/
def Encoder.write (label : List Char) (e : Encoder) (m : Nat) : Encoder :=
  let start := { e with delta := e.delta + (m - e.point) * (e.written + 1) }
  let after := label.foldl (Encoder.pass m) start
  { after with point := m + 1, delta := after.delta + 1 }

def isAscii (c : Char) : Bool := c.toNat < 128

def punycode (label : List Char) : List Char :=
  let ascii := label.filter isAscii
  let points := ((label.filter (fun c => !isAscii c)).map Char.toNat).mergeSort.eraseDups
  let front := if ascii.isEmpty then [] else ascii ++ ['-']
  (points.foldl (Encoder.write label) ⟨128, 0, 72, ascii.length, true, front⟩).out

/-- A label that is ASCII stays as it is. -/
def asciiLabel (label : List Char) : List Char :=
  if label.all isAscii then label else "xn--".toList ++ punycode label

end AmbientBundle.Url
