/-!
What a text starts or ends with, read off its characters.
-/
namespace AmbientBundle.Text

def startsWith (s p : String) : Bool := p.toList.isPrefixOf s.toList

def endsWith (s p : String) : Bool := p.toList.isSuffixOf s.toList

/-- What stands behind the given front, if the text starts with it. -/
def afterFront? (s p : String) : Option String :=
  if startsWith s p then some (String.ofList (s.toList.drop p.length)) else none

/-- What stands before the given end, if the text ends with it. -/
def beforeEnd? (s p : String) : Option String :=
  if endsWith s p then some (String.ofList (s.toList.take (s.length - p.length))) else none

/-- The text without the slashes at its end. -/
def dropTrailingSlashes (s : String) : String :=
  String.ofList (s.toList.reverse.dropWhile (· == '/')).reverse

/-- What stands behind the last slash. -/
def afterLastSlash (s : String) : String :=
  String.ofList (s.toList.reverse.takeWhile (· != '/')).reverse

theorem beforeEnd?_append (s p : String) : beforeEnd? (s ++ p) p = some s := by
  have hl : (s ++ p).length - p.length = s.toList.length := by simp [String.length_toList]
  have hs : endsWith (s ++ p) p = true := by simp [endsWith]
  rw [beforeEnd?, if_pos hs, hl]
  simp

end AmbientBundle.Text
