import SourceDocs.Span
import SourceDocs.Text.WhiteSpace

/-!
Comments: the prose recovered from one or more neighbouring comment spans. Delimiters and the
decoration of inner lines go, the words and the line structure stay.
-/

namespace SourceDocs

/-- Prose with the source range it came from; the range includes the indentation of the first line. -/
structure Comment where
  text : Text
  documentation : Bool
  indent : Text
  start : Nat
  stop : Nat
deriving DecidableEq, Repr

namespace Comment

def dropBlankEdges (lines : List Text) : List Text :=
  ((lines.dropWhile Text.isBlank).reverse.dropWhile Text.isBlank).reverse

/-- The lines of a block comment's body without decoration: the first line loses the white space in
front, the others one continuation marker, the last one the white space behind. -/
def undecorated (style : BlockStyle) (body : Text) : List Text :=
  match (Text.lines body).map Text.dropReturn with
  | [] => []
  | first :: others =>
    let lines := Text.trimStart first :: others.map style.stripContinuation
    lines.dropLast ++ [Text.trimEnd (lines.getLastD [])]

def ofBlockBody (style : BlockStyle) (body : Text) : Text :=
  Text.joinLines (dropBlankEdges (undecorated style body))

def lineBody (marker : LineMarker) (text : Text) : Text :=
  (marker.marker.text.isPrefixOf? text).getD text

def blockBody (style : BlockStyle) (terminated : Bool) (text : Text) : Text :=
  let body := (style.start.text.isPrefixOf? text).getD text
  if terminated then (style.stop.text.isSuffixOf? body).getD body else body

def ofSpan (span : Span) : Text :=
  match span.kind with
  | .line _ marker => Text.dropPadding (lineBody marker span.text)
  | .block _ style terminated => ofBlockBody style (blockBody style terminated span.text)
  | .code | .string _ _ _ => span.text

def indentation (before : Text) : Text :=
  let leading := Text.lastLine before
  if leading.all Text.isPadding then leading else []

/-- The comment made of the given spans; `none` without spans, with a span that is no comment, and
where documentation is mixed with other comments. -/
def ofSpans? (source : Text) : List Span → Option Comment
  | [] => none
  | first :: others =>
    match first.kind.documentation? with
    | none => none
    | some documentation =>
      if others.all (·.kind.documentation? == some documentation) then
        let indent := indentation (Text.takeBytes first.start source)
        some {
          text := Text.joinLines ((first :: others).map ofSpan)
          documentation
          indent
          start := first.start - Text.bytes indent
          stop := (others.getLastD first).stop }
      else none

end Comment

end SourceDocs
