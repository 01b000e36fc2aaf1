import AmbientBundle.Url.Host
/-!
The relative text that leads from one URL to another of the same scheme and place.
-/
namespace AmbientBundle.Url

/-- The path in front of its last slash, and what stands behind the slash. Of a path without a
slash the first character is left out. -/
def splitFileName (path : List Char) : List Char × List Char :=
  if path.contains '/' then
    (((path.reverse.dropWhile (· != '/')).drop 1).reverse,
      (path.reverse.takeWhile (· != '/')).reverse)
  else ([], path.drop 1)

def dropCommon : List String → List String → List String × List String
  | a :: as, b :: bs => if a = b then dropCommon as bs else (a :: as, b :: bs)
  | as, bs => (as, bs)

/-- Appends a segment, behind a slash if there is something in front. -/
def addStep (text segment : String) : String :=
  if text.isEmpty then segment else text ++ "/" ++ segment

/-- One `..` for each left-over directory of the base, then the target's. -/
def directorySteps (base target : List String) : String :=
  let (bs, ts) := dropCommon base target
  let up := (bs.takeWhile (fun s => !s.isEmpty)).foldl (fun t _ => addStep t "..") ""
  ts.foldl addStep up

def addFileName (steps base target : String) : String :=
  if steps.isEmpty && base == target then steps
  else if target.isEmpty then steps ++ "/"
  else addStep steps target

/-- The text that leads from `base` to `target`. -/
def makeRelative (base target : Url) : Option String :=
  if base.isOpaque || base.scheme != target.scheme || base.host? != target.host? ||
      base.portNumber? != target.portNumber? then none
  else
    let (baseDir, baseName) := splitFileName base.path.toList
    let (targetDir, targetName) := splitFileName target.path.toList
    let segments (cs : List Char) := (fields '/' cs).map String.ofList
    let steps := directorySteps (segments baseDir) (segments targetDir)
    some (addFileName steps (String.ofList baseName) (String.ofList targetName) ++
      writePart "?" target.query ++ writePart "#" target.fragment)

end AmbientBundle.Url
