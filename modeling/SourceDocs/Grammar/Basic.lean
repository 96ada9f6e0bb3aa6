import SourceDocs.Marker
import SourceDocs.Text.WhiteSpace

/-!
Grammars: the comment conventions of one language in the form that scanning uses. Line markers and
string delimiters stand longest first; block styles keep the order of the table.
-/

namespace SourceDocs

structure LineMarker where
  marker : Marker
  documentation : Bool
deriving DecidableEq, Repr

structure BlockStyle where
  start : Marker
  stop : Marker
  documentation : Bool
  continuation : Option Marker
deriving DecidableEq, Repr

structure StringDelimiter where
  opening : Marker
  closing : Marker
  escape : Option Marker
  multiline : Bool
deriving DecidableEq, Repr

structure Grammar where
  id : Text
  name : Text
  highlight : Text
  extensions : List Text
  lineMarkers : List LineMarker
  blockStyles : List BlockStyle
  strings : List StringDelimiter
deriving DecidableEq, Repr

/-- Removes padding, the marker and one more space or tab from the front of a line. The marker may
itself begin with padding, so the last place in the padding where it fits is taken. -/
def dropContinuation? (marker : Marker) : Text → Option Text
  | [] => none
  | c :: rest =>
    let further := if Text.isPadding c then dropContinuation? marker rest else none
    further <|> (marker.text.isPrefixOf? (c :: rest)).map Text.dropPadding

def BlockStyle.stripContinuation (style : BlockStyle) (line : Text) : Text :=
  match style.continuation with
  | none => line
  | some marker => (dropContinuation? marker line).getD line

end SourceDocs
