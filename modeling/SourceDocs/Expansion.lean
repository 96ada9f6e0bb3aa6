import SourceDocs.Glob.Expand
import SourceDocs.Ignore.Rules
import SourceDocs.Sorting

/-!
Expanding paths, directories and glob patterns into a list of files. The list is sorted by the
components of the paths and names each path once, in the spelling that came first.
-/

namespace SourceDocs

namespace Expansion

def versionControl : Text := ".git".toList

def keeps (matcher : Ignore.Matcher) (visit : Node.Visit) : Bool :=
  visit.name ≠ versionControl && matcher.verdictWithParents visit.path visit.isDir ≠ .ignored

def filesBelow (fs : FileSystem) (matcher : Ignore.Matcher) (directory : Text) : List Text :=
  match fs.get directory with
  | .error _ => []
  | .ok node =>
    let visits := node.walk (keeps matcher) directory
      ((Path.fileName? directory).getD directory)
    (visits.filter fun visit => !visit.isDir && visit.name ≠ Ignore.fileName).map (·.path)

def walkDirectory (fs : FileSystem) (respectIgnore : Bool) (directory : Text) :
    Logged (List Text) :=
  let matcher : Logged Ignore.Matcher :=
    if respectIgnore then Ignore.Matcher.below fs directory else ⟨.empty, []⟩
  ⟨filesBelow fs matcher.value directory, matcher.log⟩

def isGlob (pattern : Text) : Bool := pattern.any fun c => c == '*' || c == '?' || c == '['

def ofPattern (fs : FileSystem) (respectIgnore : Bool) (pattern : Text) : Logged (List Text) :=
  if isGlob pattern then
    match Glob.expand fs pattern with
    | .ok paths => ⟨paths.filter fs.isFile, []⟩
    | .error error =>
      ⟨[], [⟨.warn, s!"Invalid pattern '{String.ofList pattern}': {error.message}"⟩]⟩
  else if fs.isDir pattern then walkDirectory fs respectIgnore pattern
  else if fs.isFile pattern then ⟨[pattern], []⟩
  else ⟨[], [⟨.warn, s!"Path not found: {String.ofList pattern}"⟩]⟩

/-- A list without the paths that are the same as the one before them. -/
def dropRepeats : List Text → List Text
  | [] => []
  | [path] => [path]
  | path :: next :: paths =>
    match dropRepeats (next :: paths) with
    | [] => [path]
    | kept :: others => if Path.same path kept then path :: others else path :: kept :: others

def expand (fs : FileSystem) (respectIgnore : Bool) (patterns : List Text) :
    Logged (List Text) :=
  let parts := patterns.map (ofPattern fs respectIgnore)
  ⟨dropRepeats (sortBy Path.le (parts.flatMap (·.value))), parts.flatMap (·.log)⟩

end Expansion

end SourceDocs
