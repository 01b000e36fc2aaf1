import AmbientBundle.Text.Affix
import AmbientBundle.Url.Parse
import AmbientBundle.Url.Relative
/-!
Module specifiers: their extensions, the specifier that leads from one file to another, and the
URL that one denotes in a file.
-/
namespace AmbientBundle.Specifier

def declarationExtensions : List String := [".d.ts", ".d.mts", ".d.cts"]

def sourceExtensions : List String :=
  [".ts", ".mts", ".cts", ".tsx", ".js", ".mjs", ".cjs", ".jsx"]

def isRelative (specifier : String) : Bool :=
  Text.startsWith specifier "./" || Text.startsWith specifier "../"

/-- The text without its declaration extension, or else without its source extension. -/
def stripExtension (text : String) : String :=
  ((declarationExtensions ++ sourceExtensions).findSome? (Text.beforeEnd? text)).getD text

/-- The specifier by which `from_` names the module `target`. -/
def between? (from_ target : Url) : Option String := do
  let relative := stripExtension (← Url.makeRelative from_ target)
  return if Text.startsWith relative "../" then relative else "./" ++ relative

/-- The name of the URL's file without its extension. -/
def stem (u : Url) : String := stripExtension (Text.afterLastSlash u.path)

/-- Why a specifier denotes no URL. -/
inductive ResolveError where
  | invalidUrl (cause : Url.ParseError)
  | missingLead
deriving DecidableEq, Repr

def startsAsPath (specifier : String) : Bool :=
  Text.startsWith specifier "/" || isRelative specifier

/-- The URL that a specifier denotes in the file `referrer`. -/
def resolve (specifier : String) (referrer : Url) : Except ResolveError Url :=
  match Url.parse specifier with
  | .ok u => .ok u
  | .error .relativeWithoutBase =>
    if startsAsPath specifier then (referrer.join specifier).mapError .invalidUrl
    else .error .missingLead
  | .error e => .error (.invalidUrl e)

end AmbientBundle.Specifier
