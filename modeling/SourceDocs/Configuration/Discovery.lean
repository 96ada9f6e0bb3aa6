import SourceDocs.Configuration.Load
import SourceDocs.Expansion

/-!
Finding configuration files. The file of the user comes first, then the files in the directories from
the outermost to the nearest, and what comes later wins. The first file that cannot be loaded ends
the search.
-/

namespace SourceDocs.Configuration

/-- The names of configuration files, the stronger one first. -/
def fileNames : List Text := ["literate.toml".toList, ".literaterc.toml".toList]

def globalPath? (fs : FileSystem) : Option Text :=
  fs.configurationHome.map fun home =>
    Path.join (Path.join home "literate".toList) "config.toml".toList

/-- The places where configuration files may be, the weakest first. -/
def candidates (fs : FileSystem) (start : Text) : List Text :=
  (globalPath? fs).toList ++
    ((Path.ancestors start).flatMap fun directory =>
      fileNames.map (Path.join directory)).reverse

def ofFile (fs : FileSystem) (path : Text) : Except ConfigurationError Configuration :=
  match fs.readText path with
  | .error cause => .error (.unreadable path cause)
  | .ok source => loadFile path source

structure Discovered where
  configuration : Configuration
  files : List Text

def loadAll (fs : FileSystem) (found : Option Discovered) :
    List Text → Logged (Except ConfigurationError (Option Discovered))
  | [] => ⟨.ok found, []⟩
  | path :: paths =>
    match ofFile fs path with
    | .error error => ⟨.error error, []⟩
    | .ok configuration =>
      let merged : Discovered := match found with
        | none => ⟨configuration, [path]⟩
        | some earlier => ⟨earlier.configuration.merge configuration, earlier.files ++ [path]⟩
      let ⟨result, log⟩ := loadAll fs (some merged) paths
      ⟨result, ⟨.debug, s!"loaded configuration from {String.ofList path}"⟩ :: log⟩

/-- The configuration that holds in a directory; `none` if there are no files. -/
def discover (fs : FileSystem) (start : Text) :
    Logged (Except ConfigurationError (Option Discovered)) :=
  loadAll fs none ((candidates fs start).filter fs.isFile)

end SourceDocs.Configuration
