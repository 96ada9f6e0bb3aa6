import SourceDocs.CommandLine.Reach
import SourceDocs.CommandLine.Run

/-!
The command-line tool. It takes a picture of the part of the disk that the run looks at, does the run
on that picture, prints what the run gives out and writes the files that the run has changed.
-/

namespace SourceDocs.Main

open CommandLine

partial def load (entry : IO.FS.DirEntry) : IO Node := do
  if ← entry.path.isDir then
    let mut directory := Node.emptyDir
    for inner in ← entry.path.readDir do
      try directory := Node.put (← load inner) [inner.fileName.toList] directory
      catch _ => pure ()
    return directory
  else return .file (← IO.FS.readBinFile entry.path)

def pathTo (place : List Text) : String := String.ofList ('/' :: ['/'].intercalate place)

def loadPlace (fs : FileSystem) (place : List Text) : IO FileSystem := do
  try
    let found ← load ⟨pathTo place.dropLast, String.ofList (place.getLastD [])⟩
    return fs.putAt place found
  catch _ => return fs

def configurationHome : IO (Option Text) := do
  match ← IO.getEnv "XDG_CONFIG_HOME", ← IO.getEnv "HOME" with
  | some directory, _ => return some directory.toList
  | none, some home => return some (Path.join home.toList ".config".toList)
  | none, none => return none

/-- The part of the disk that a run looks at. -/
def picture (invocation : Invocation) : IO FileSystem := do
  let working := Path.names (← IO.currentDir).toString.toList
  let bare : FileSystem := ⟨.emptyDir, working, ← configurationHome⟩
  let outside := invocation.places bare
  (working :: outside.filter (!·.isEmpty)).foldlM loadPlace bare

def save (before after : FileSystem) : IO Unit := do
  let old := before.root.files []
  for (path, content) in after.root.files [] do
    unless (old.lookup path).any (·.data == content.data) do
      let path := '/' :: path
      if let some parent := Path.parent? path then IO.FS.createDirAll (String.ofList parent)
      IO.FS.writeBinFile (String.ofList path) content

def run (arguments : List String) : IO UInt32 := do
  let arguments := arguments.map String.toList
  let fs ← match Invocation.ofArguments arguments with
    | .ok invocation => picture invocation
    | .error _ => pure ⟨.emptyDir, [], none⟩
  match run? fs 1 arguments with
  | none =>
    IO.eprintln "error: unexpected arguments. Run with --help for usage."
    return 2
  | some outcome =>
    for line in outcome.session.log do IO.eprintln line.render
    IO.eprint outcome.session.stderr
    IO.print outcome.session.stdout
    save fs outcome.session.fs
    return outcome.exitCode.toUInt32

end SourceDocs.Main

def main (arguments : List String) : IO UInt32 := SourceDocs.Main.run arguments
