import AmbientBundle.Specifier
import AmbientBundle.Syntax.Tree
/-!
The names of nameless default exports, made from the name of their file: `myUtilsClass` for a
class in `my-utils.d.ts`.
-/
namespace AmbientBundle.Exports

open Syntax

inductive DefaultKind where
  | cls | func
deriving DecidableEq, Repr

def DefaultKind.ending : DefaultKind → String
  | .cls => "Class"
  | .func => "Function"

def isNameChar (c : Char) : Bool := c.isAlphanum || c == '_' || c == '$'

/-- The runs of characters that names may hold. The path of a URL is ASCII. -/
def nameParts : List Char → List (List Char)
  | [] => []
  | c :: r =>
    if isNameChar c then
      match r, nameParts r with
      | d :: _, p :: ps => if isNameChar d then (c :: p) :: ps else [c] :: p :: ps
      | _, ps => [c] :: ps
    else nameParts r

def capitalize : List Char → List Char
  | [] => []
  | c :: r => c.toUpper :: r

def uncapitalize : List Char → List Char
  | [] => []
  | c :: r => c.toLower :: r

def joinParts : List (List Char) → List Char
  | [] => []
  | p :: ps => uncapitalize p ++ ps.flatMap capitalize

def defaultName (file : Url) (kind : DefaultKind) : String :=
  let name := joinParts (nameParts (Specifier.stem file).toList)
  let front := match name with
    | [] => "default".toList
    | c :: _ => if c.isDigit then '_' :: name else name
  String.ofList front ++ kind.ending

/-- The identifier of a default declaration, made up where it is nameless. -/
def identOf (file : Url) (kind : DefaultKind) : DefaultName → Ident
  | .named id => id
  | .anonymous start => ⟨defaultName file kind, start⟩

/-- The identifier under which a default declaration is known in its file. -/
def defaultIdent (file : Url) : DefaultDecl → Ident
  | .cls name _ => identOf file .cls name
  | .func name _ => identOf file .func name
  | .interface body => body.id

/-- Whether a statement exports a nameless class or function. -/
def isAnonymousDefault : Item → Bool
  | .exportDefaultDecl (.cls (.anonymous _) _) => true
  | .exportDefaultDecl (.func (.anonymous _) _) => true
  | _ => false

end AmbientBundle.Exports
