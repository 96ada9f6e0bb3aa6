import SourceDocs.FileSystem.Basic
import SourceDocs.Glob.Pattern

/-!
Expanding a glob pattern into the paths of a file system that fit it, component by component. A
component without wildcards is looked up as it is; the others are compared with the entries of a
directory. Names with a dot in front are entries like any other.
-/

namespace SourceDocs.Glob

/-- The components of a pattern, without the root; a slash at the end adds no component. -/
def componentTexts (pattern : Text) : List Text :=
  let relative := if Path.isAbsolute pattern then pattern.drop 1 else pattern
  let parts := relative.splitOn '/'
  if parts.getLast? = some [] then parts.dropLast else parts

def collapse : List Pattern → List Pattern
  | [] => []
  | [pattern] => [pattern]
  | pattern :: next :: patterns =>
    if isRecursive pattern && isRecursive next then collapse (next :: patterns)
    else pattern :: collapse (next :: patterns)

/-- The path of a name in a directory; the working directory is not written out. -/
def entryPath (directory name : Text) : Text :=
  if Path.same directory ['.'] then name else Path.join directory name

/-- The paths below a directory that fit a list of components. `wanted` tells which paths are given
once all components are used up. -/
def matchesIn (fs : FileSystem) (wanted : Text → Bool) : List Pattern → Text → List Text
  | [], _ => []
  | pattern :: patterns, directory =>
    let onward (path : Text) : List Text :=
      match patterns with
      | [] => if wanted path then [path] else []
      | _ :: _ => matchesIn fs wanted patterns path
    match literal? pattern with
    | some name =>
      let path := entryPath directory name
      let present :=
        if name = ['.'] ∨ name = ['.', '.'] then fs.isDir directory else fs.fileExists path
      if present then onward path else []
    | none =>
      match fs.entries? directory with
      | none => []
      | some entries =>
        if isRecursive pattern then
          let visits := Node.walkEntries (fun _ => true)
            (if Path.same directory ['.'] then [] else directory) entries
          match patterns with
          | [] => (visits.filter (·.isDir)).map (·.path)
          | next :: others =>
            visits.flatMap fun visit =>
              if fits next visit.name then
                match others with
                | [] => if wanted visit.path then [visit.path] else []
                | _ :: _ => matchesIn fs wanted others visit.path
              else []
        else
          let special := if pattern.head? = some (.char '.') then [['.'], ['.', '.']] else []
          (special.filter (fits pattern)).flatMap (fun name => onward (Path.join directory name)) ++
          (entries.filter fun entry => fits pattern entry.1).flatMap fun entry =>
            onward (entryPath directory entry.1)

def expand (fs : FileSystem) (pattern : Text) : Except PatternError (List Text) := do
  let _ ← parse pattern
  let patterns ← (componentTexts pattern).mapM parse
  let directoriesOnly := pattern.getLast? = some '/'
  let start := if Path.isAbsolute pattern then ['/'] else ['.']
  return matchesIn fs (fun path => !directoriesOnly || fs.isDir path) (collapse patterns) start

end SourceDocs.Glob
