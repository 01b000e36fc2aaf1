import AmbientBundle.Url.Basic
/-!
What merging warns about.
-/
namespace AmbientBundle

inductive Warning where
  | missingFile (file : Url)
  | unknownImport (target origin : Url) (name : String)
  | unknownReexport (target origin : Url) (name : String)
  | unknownExport (target : Url) (name : String)
  | hiddenDefault (target : Url) (space : String)
  | hiddenStar (space specifier : String)
  | selfExport (name : String)
  | nothingFound
deriving DecidableEq, Repr

def Warning.message : Warning → String
  | .missingFile file => "Missing declaration file " ++ file.href
  | .unknownImport target origin name =>
    target.href ++ " does not export the binding imported as '" ++ name ++ "' in " ++ origin.href
  | .unknownReexport target origin name =>
    target.href ++ " does not export '" ++ name ++ "' re-exported by " ++ origin.href
  | .unknownExport target name =>
    "Could not resolve '" ++ name ++ "' exported by " ++ target.href
  | .hiddenDefault target space =>
    "The default export of " ++ target.href ++ " is not available on namespace " ++ space
  | .hiddenStar space specifier =>
    "Namespace " ++ space ++ " can not re-export everything from '" ++ specifier ++ "'"
  | .selfExport name =>
    "Skipping export of '" ++ name ++ "' since it refers to itself in its namespace"
  | .nothingFound => "No declaration files were found for any chunk module"

end AmbientBundle
