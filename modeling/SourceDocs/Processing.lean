import SourceDocs.FileSystem.Basic
import SourceDocs.Registry

/-!
Segmenting files. The language is given or follows from the extension; each file succeeds or fails on
its own.
-/

namespace SourceDocs

inductive FileFailure where
  | noLanguage (error : ConfigurationError)
  | unsupported (path : Text)
  | unreadable (path : Text) (cause : FileError)
deriving DecidableEq, Repr

def FileFailure.message : FileFailure → String
  | .noLanguage error => error.messageWithCause
  | .unsupported path => s!"Unsupported file type: {String.ofList path}"
  | .unreadable path cause => s!"Failed to read file: {String.ofList path}: {cause.message}"

/-- The grammar for a file: of the language that is given, else by the extension. -/
def Registry.grammarFor (registry : Registry) (language : Option Text) (path : Text) :
    Except FileFailure Grammar :=
  match language with
  | some name => (registry.grammar name).mapError .noLanguage
  | none =>
    match registry.detect? path with
    | some grammar => .ok grammar
    | none => .error (.unsupported path)

def Document.fileLog (grammar : Grammar) (path source : Text) (document : Document) :
    List LogLine :=
  (Scan.ofSource grammar source).log grammar source ++
  document.diagnostics.map fun diagnostic =>
    ⟨.warn, s!"{String.ofList path}:{diagnostic.message}"⟩

def Registry.segmentFile (registry : Registry) (fs : FileSystem) (language : Option Text)
    (path : Text) : Logged (Except FileFailure Document) :=
  match registry.grammarFor language path with
  | .error failure => ⟨.error failure, []⟩
  | .ok grammar =>
    match fs.readText path with
    | .error cause => ⟨.error (.unreadable path cause), []⟩
    | .ok source =>
      let document := Document.ofSource grammar source
      ⟨.ok document, document.fileLog grammar path source⟩

end SourceDocs
