import SourceDocs.Dictionary
import SourceDocs.LanguageTable

/-!
Configurations: language tables by identifier. Identifiers are told apart exactly as written.
-/

namespace SourceDocs

structure Configuration where
  languages : Dictionary LanguageTable
deriving Repr

namespace Configuration

def empty : Configuration := ⟨.empty⟩

/-- The tables of both configurations; `upper` wins where both declare an identifier. -/
def merge (lower upper : Configuration) : Configuration :=
  ⟨Dictionary.overlay lower.languages upper.languages⟩

end Configuration

end SourceDocs
