import SourceDocs.Configuration.Builtin
import SourceDocs.Configuration.Decode
import SourceDocs.Registry

/-!
Loading configurations from text: a text is decoded and every table in it is checked.
-/

namespace SourceDocs.Configuration

def inlineName : Text := "<inline>".toList

/-- Loads a text; `name` is the file that a malformed text is reported for. -/
def loadAs (name source : Text) : Except ConfigurationError Configuration :=
  match decode source with
  | .error fault => .error (.malformed name fault)
  | .ok configuration => configuration.validate.map fun _ => configuration

def load (source : Text) : Except ConfigurationError Configuration := loadAs inlineName source

def loadFile (file source : Text) : Except ConfigurationError Configuration :=
  (loadAs file source).mapError (·.inFile file)

def builtin : Except ConfigurationError Configuration := load Builtin.template.toList

end SourceDocs.Configuration
