import SourceDocs.Grammar.Basic
import SourceDocs.Grammar.Fault
import SourceDocs.LanguageTable
import SourceDocs.Sorting
import SourceDocs.Text.Lowercase

/-!
Compiling a language table into a grammar. The first fault in the order identifier, name, line
markers, block styles, string delimiters, reused markers is the one reported.
-/

namespace SourceDocs.Grammar

/-- The line markers of a table in declared order, plain ones first. -/
def compileLines (table : LanguageTable) : Except GrammarFault (List LineMarker) :=
  let declared := table.lineComments.map (·, false) ++ table.docLineComments.map (·, true)
  declared.mapM fun (text, documentation) =>
    match Marker.ofText? text with
    | none => .error .emptyLineMarker
    | some marker => .ok ⟨marker, documentation⟩

/-- One block style, checked against the styles declared before it. -/
def compileBlock (earlier : List BlockStyle) (entry : BlockEntry) :
    Except GrammarFault BlockStyle :=
  match Marker.ofText? entry.start with
  | none => .error (.emptyBlockStart (earlier.length + 1))
  | some start =>
    match entry.stop.bind Marker.ofText? with
    | none => .error (.missingBlockEnd entry.start)
    | some stop =>
      match earlier.find? (·.start.isAt entry.start) with
      | some shadow => .error (.shadowedBlock entry.start shadow.start.text)
      | none => .ok ⟨start, stop, entry.documentation, entry.continuation.bind Marker.ofText?⟩

def compileBlocks (earlier : List BlockStyle) :
    List BlockEntry → Except GrammarFault (List BlockStyle)
  | [] => .ok earlier
  | entry :: entries =>
    match compileBlock earlier entry with
    | .error fault => .error fault
    | .ok style => compileBlocks (earlier ++ [style]) entries

def compileString (entry : StringEntry) : Except GrammarFault StringDelimiter :=
  match Marker.ofText? entry.opening with
  | none => .error .emptyStringOpening
  | some opening =>
    match entry.closing.getD entry.opening with
    | [] => .error (.emptyStringClosing entry.opening)
    | c :: rest => .ok ⟨opening, ⟨c, rest⟩, entry.escape.bind Marker.ofText?, entry.multiline⟩

def declaredOpeners (table : LanguageTable) : List (Text × Purpose) :=
  table.lineComments.map (·, .lineComment) ++ table.docLineComments.map (·, .lineComment) ++
  table.blockComments.map (·.start, .blockComment) ++ table.strings.map (·.opening, .stringLiteral)

/-- The first marker that is declared again, with both purposes. -/
def reused? : List (Text × Purpose) → Option GrammarFault
  | [] => none
  | (marker, purpose) :: rest =>
    match rest.find? (·.1 = marker) with
    | some (_, other) => some (.reusedMarker marker purpose other)
    | none => reused? rest

def compileTable (id : Text) (table : LanguageTable) : Except GrammarFault Grammar := do
  if Text.isBlank table.name then throw .emptyName
  if table.lineComments.isEmpty && table.docLineComments.isEmpty && table.blockComments.isEmpty then
    throw .noMarkers
  let lineMarkers ← compileLines table
  let blockStyles ← compileBlocks [] table.blockComments
  let strings ← table.strings.mapM compileString
  match reused? (declaredOpeners table) with
  | some fault => throw fault
  | none =>
    return {
      id := Text.lowercase id
      name := table.name
      highlight := table.highlight.getD (Text.lowercase id)
      extensions := table.extensions.map fun extension =>
        Text.lowercase (extension.dropWhile (· = '.'))
      lineMarkers := longestFirst (·.marker.bytes) lineMarkers
      blockStyles
      strings := longestFirst (·.opening.bytes) strings }

def compile (id : Text) (table : LanguageTable) : Except TableFault Grammar :=
  if Text.isBlank id then .error .emptyIdentifier
  else match compileTable id table with
    | .error fault => .error (.inLanguage id fault)
    | .ok grammar => .ok grammar

end SourceDocs.Grammar
