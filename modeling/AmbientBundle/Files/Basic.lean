import AmbientBundle.OrderedMap
import AmbientBundle.Specifier
import AmbientBundle.Syntax.Tree
/-!
The declaration files at hand, and what a module specifier leads to among them.
-/
namespace AmbientBundle

structure Files where
  modules : OrderedMap Url Syntax.Module

namespace Files

def empty : Files := ⟨OrderedMap.empty⟩

/-- A file given again replaces the old one. -/
def insert (fs : Files) (u : Url) (m : Syntax.Module) : Files := ⟨fs.modules.put u m⟩

def get? (fs : Files) (u : Url) : Option Syntax.Module := fs.modules.get? u

def contains (fs : Files) (u : Url) : Bool := fs.modules.contains u

/-- The declaration files that may stand for a module: its own, then its directory's index. -/
def candidates (u : Url) : List Url :=
  let own := Specifier.stripExtension u.path
  let index := Text.dropTrailingSlashes u.path ++ "/index"
  [own, index].flatMap (fun base =>
    Specifier.declarationExtensions.map (fun e => u.setPath (base ++ e)))

/-- The declaration file of a module, if it is there. -/
def findForModule (fs : Files) (u : Url) : Option Url :=
  if fs.contains u then some u else (candidates u).find? fs.contains

end Files

/-- Tells which file a specifier leads to in a referrer; `none` leaves the specifier as it is. -/
abbrev Resolver := String → Url → Option Url

namespace Resolver

/-- Looks for the declaration file of what a specifier denotes. -/
def ofFiles (fs : Files) : Resolver := fun specifier referrer =>
  match Specifier.resolve specifier referrer with
  | .ok u => some (if u.isFile then (fs.findForModule u).getD u else u)
  | .error _ => none

/-- Specifiers that start with the first fitting name lead to a file under its base. -/
def withBases (bases : List (String × String)) (r : Resolver) : Resolver :=
  fun specifier referrer =>
    match bases.findSome? (fun b => (Text.afterFront? specifier b.1).map (b.2 ++ ·)) with
    | some path => (Url.parse (path ++ ".d.ts")).toOption
    | none => r specifier referrer

end Resolver

end AmbientBundle
