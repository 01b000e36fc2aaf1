/-!
Fresh names: the wanted name, or the first of its numbered forms that is not taken. Reserved words
get an underscore in front.
-/
namespace AmbientBundle.Names

def reservedWords : List String :=
  ["abstract", "any", "as", "async", "await", "boolean", "break", "case", "catch", "class",
   "const", "constructor", "continue", "debugger", "declare", "default", "delete", "do", "else",
   "enum", "export", "extends", "false", "finally", "for", "from", "function", "get", "if",
   "implements", "import", "in", "infer", "instanceof", "interface", "is", "keyof", "let",
   "module", "namespace", "never", "new", "null", "number", "object", "package", "private",
   "protected", "public", "readonly", "require", "return", "set", "static", "string", "super",
   "switch", "symbol", "this", "throw", "true", "try", "type", "typeof", "undefined", "unique",
   "unknown", "var", "void", "while", "with", "yield"]

def isReserved (name : String) : Bool := reservedWords.contains name

def unreserved (name : String) : String := if isReserved name then "_" ++ name else name

/-- The forms of a name in the order in which they are tried. -/
def numbered (base : String) : Nat → String
  | 0 => base
  | k + 1 => base ++ "_" ++ toString (k + 1)

/-- The first form from the `k`-th on that is not taken, or the last one tried. -/
def seek (taken : List String) (base : String) : Nat → Nat → String
  | 0, k => numbered base k
  | bound + 1, k =>
    if taken.contains (numbered base k) then seek taken base bound (k + 1) else numbered base k

/-- Of one more forms than there are taken names, one is free. -/
def fresh (taken : List String) (wanted : String) : String :=
  seek taken (unreserved wanted) taken.length 0

end AmbientBundle.Names
