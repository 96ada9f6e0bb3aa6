import SourceDocs.Configuration.Basic
import SourceDocs.Configuration.Error
import SourceDocs.Document
import SourceDocs.Grammar.Compile
import SourceDocs.Path.Basic

/-!
Registries: compiled grammars by language, and languages by file extension. A language or an
extension that is registered again refers to what was registered last.
-/

namespace SourceDocs

structure Registry where
  languages : Dictionary Grammar
  extensions : Dictionary Text
deriving Repr

namespace Registry

def empty : Registry := ⟨.empty, .empty⟩

def register (registry : Registry) (grammar : Grammar) : Registry :=
  ⟨registry.languages.insert grammar.id grammar,
    grammar.extensions.foldl (fun extensions extension =>
      Dictionary.insert extension grammar.id extensions) registry.extensions⟩

/-- Compiles tables one after another and registers them; the first bad table ends this. -/
def registerTables (registry : Registry) :
    List (Text × LanguageTable) → Except ConfigurationError Registry
  | [] => .ok registry
  | (id, table) :: tables =>
    match Grammar.compile id table with
    | .error fault => .error (.badTable fault none)
    | .ok grammar => registerTables (registry.register grammar) tables

/-- The registry of a configuration; its tables are taken in the order of their identifiers. -/
def ofConfiguration (configuration : Configuration) : Except ConfigurationError Registry :=
  registerTables empty configuration.languages.entries

def get? (registry : Registry) (name : Text) : Option Grammar :=
  Dictionary.get? registry.languages (Text.lowercase name)

def grammar (registry : Registry) (name : Text) : Except ConfigurationError Grammar :=
  match registry.get? name with
  | some grammar => .ok grammar
  | none => .error (.unknownLanguage name)

def languageOf? (registry : Registry) (path : Text) : Option Text :=
  (Path.extension? path).bind fun extension =>
    Dictionary.get? registry.extensions (Text.lowercase extension)

def detect? (registry : Registry) (path : Text) : Option Grammar :=
  (registry.languageOf? path).bind (Dictionary.get? registry.languages)

def identifiers (registry : Registry) : List Text := Dictionary.keys registry.languages

/-- Whether an extension is registered; dots in front of it do not count. -/
def supportsExtension (registry : Registry) (extension : Text) : Bool :=
  Dictionary.contains registry.extensions (Text.lowercase (extension.dropWhile (· = '.')))

def supportsLanguage (registry : Registry) (name : Text) : Bool :=
  Dictionary.contains registry.languages (Text.lowercase name)

def size (registry : Registry) : Nat := registry.languages.size

def segment (registry : Registry) (source name : Text) : Except ConfigurationError Document :=
  (registry.grammar name).map (Document.ofSource · source)

end Registry

namespace Configuration

def validate (configuration : Configuration) : Except ConfigurationError Unit :=
  (Registry.ofConfiguration configuration).map fun _ => ()

end Configuration

end SourceDocs
