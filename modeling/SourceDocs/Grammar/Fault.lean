import SourceDocs.Text.Basic

/-!
What can be wrong with a language table, and how it is reported.
-/

namespace SourceDocs

inductive Purpose where
  | lineComment
  | blockComment
  | stringLiteral
deriving DecidableEq, Repr

def Purpose.words : Purpose → String
  | .lineComment => "line comment"
  | .blockComment => "block comment"
  | .stringLiteral => "string literal"

inductive GrammarFault where
  | emptyName
  | noMarkers
  | emptyLineMarker
  | emptyBlockStart (position : Nat)
  | missingBlockEnd (start : Text)
  | shadowedBlock (start earlier : Text)
  | emptyStringOpening
  | emptyStringClosing (opening : Text)
  | reusedMarker (marker : Text) (first second : Purpose)
deriving DecidableEq, Repr

namespace GrammarFault

def message : GrammarFault → String
  | emptyName => "empty name"
  | noMarkers => "no comment markers declared"
  | emptyLineMarker => "empty line-comment marker"
  | emptyBlockStart position => s!"block comment #{position} has an empty start"
  | missingBlockEnd start =>
    s!"block comment '{String.ofList start}' is missing its end marker"
  | shadowedBlock start earlier =>
    s!"block comment '{String.ofList start}' is shadowed by earlier entry " ++
    s!"'{String.ofList earlier}'; list the most specific start first"
  | emptyStringOpening => "string delimiter with an empty open marker"
  | emptyStringClosing opening =>
    s!"string delimiter '{String.ofList opening}' has an empty close marker"
  | reusedMarker marker first second =>
    s!"marker '{String.ofList marker}' is declared both as {first.words} and as {second.words}"

end GrammarFault

inductive TableFault where
  | emptyIdentifier
  | inLanguage (id : Text) (fault : GrammarFault)
deriving DecidableEq, Repr

def TableFault.message : TableFault → String
  | .emptyIdentifier => "language with an empty identifier"
  | .inLanguage id fault => s!"language '{String.ofList id}': {fault.message}"

end SourceDocs
