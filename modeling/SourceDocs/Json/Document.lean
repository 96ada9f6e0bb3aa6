import SourceDocs.Document
import SourceDocs.Json.Basic

/-!
Documents as JSON values.
-/

namespace SourceDocs

def Json.ofRange (start stop : Nat) : Json :=
  .obj [("start".toList, .num start), ("end".toList, .num stop)]

def Segment.toJson : Segment → Json
  | .documentation text start stop =>
    .obj [("kind".toList, .str "documentation".toList), ("text".toList, .str text),
      ("range".toList, .ofRange start stop)]
  | .code text language start stop =>
    .obj [("kind".toList, .str "code".toList), ("text".toList, .str text),
      ("language".toList, .str language), ("range".toList, .ofRange start stop)]

def Construct.tag : Construct → Text
  | .blockComment => "block_comment".toList
  | .stringLiteral => "string_literal".toList

def Diagnostic.toJson (diagnostic : Diagnostic) : Json :=
  .obj [
    ("kind".toList,
      .obj [("unterminated_construct".toList, .str diagnostic.construct.tag)]),
    ("offset".toList, .num diagnostic.place.offset),
    ("line".toList, .num diagnostic.place.line),
    ("column".toList, .num diagnostic.place.column)]

namespace Document

def jsonFields (document : Document) : List (Text × Json) := [
  ("language".toList, .str document.language),
  ("segments".toList, .arr (document.segments.map Segment.toJson)),
  ("diagnostics".toList, .arr (document.diagnostics.map Diagnostic.toJson))]

def toJson (document : Document) : Json := .obj document.jsonFields

def report (path : Text) (document : Document) : Json :=
  .obj (("path".toList, .str path) :: document.jsonFields)

def writeJson (layout : Json.Layout) (path : Text) (document : Document) : Text :=
  (document.report path).write layout

end Document

end SourceDocs
