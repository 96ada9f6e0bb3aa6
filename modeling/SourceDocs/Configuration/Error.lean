import SourceDocs.FileSystem.Error
import SourceDocs.Grammar.Fault
import SourceDocs.Toml.Basic

/-!
Errors of configurations and of the look-up of languages in them.
-/

namespace SourceDocs

inductive ConfigurationError where
  | badTable (fault : TableFault) (file : Option Text)
  | unknownLanguage (name : Text)
  | malformed (file : Text) (fault : Toml.Fault)
  | unreadable (file : Text) (cause : FileError)
deriving DecidableEq, Repr

namespace ConfigurationError

def message : ConfigurationError → String
  | badTable fault none => s!"Configuration error: {fault.message}"
  | badTable fault (some file) =>
    s!"Configuration error: {fault.message} (in {String.ofList file})"
  | unknownLanguage name => s!"Unknown language: {String.ofList name}"
  | malformed file fault => s!"Failed to parse {String.ofList file}: {fault.words}"
  | unreadable file cause => s!"IO error on {String.ofList file}: {cause.message}"

def messageWithCause (error : ConfigurationError) : String :=
  match error with
  | unreadable _ cause => s!"{error.message}: {cause.message}"
  | _ => error.message

/-- Whether the content of a configuration is to blame, and not the reading of it. -/
def isConfiguration : ConfigurationError → Bool
  | unreadable _ _ => false
  | _ => true

def inFile (file : Text) : ConfigurationError → ConfigurationError
  | badTable fault _ => badTable fault (some file)
  | error => error

end ConfigurationError

end SourceDocs
