import SourceDocs.CommandLine.Invocation
import SourceDocs.Configuration.Discovery

/-!
The part of a disk that a run looks at: the working directory, the places of configuration files, and
what the arguments name. A path is resolved by its text alone, so two dots lead back to the directory
that is written in front of them.
-/

namespace SourceDocs.CommandLine

def resolve (working : List Text) (path : Text) : List Text :=
  (Path.components path).foldl (fun place component =>
    match component with
    | .root => []
    | .current => place
    | .parent => place.dropLast
    | .normal name => place ++ [name]) working

/-- The beginning of a glob pattern that has no wildcards; a path is kept as a whole. -/
def fixedPart (pattern : Text) : Text :=
  ['/'].intercalate ((pattern.splitOn '/').takeWhile (!Expansion.isGlob ·))

def Invocation.namedPaths : Invocation → List Text
  | .process arguments =>
    arguments.paths ++ arguments.configuration.toList ++ arguments.outputDirectory.toList
  | .init output _ => [output]
  | .languages configuration => configuration.toList

/-- The places that a run looks at besides the working directory. -/
def Invocation.places (fs : FileSystem) (invocation : Invocation) : List (List Text) :=
  let paths := Configuration.candidates fs fs.workingPath ++ invocation.namedPaths.map fixedPart
  (paths.map (resolve fs.working)).filter (!fs.working.isPrefixOf ·)

end SourceDocs.CommandLine
