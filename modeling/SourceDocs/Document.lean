import SourceDocs.Scan.Basic
import SourceDocs.Segment

/-!
Documents: the segments of one source text with the diagnostics of its scan.
-/

namespace SourceDocs

structure Document where
  language : Text
  segments : List Segment
  diagnostics : List Diagnostic
deriving DecidableEq, Repr

namespace Document

def ofSource (grammar : Grammar) (source : Text) : Document :=
  let scan := Scan.ofSource grammar source
  ⟨grammar.id, Segment.ofSpans grammar.highlight source scan.spans, scan.diagnostics⟩

def codeText (document : Document) : Text :=
  (document.segments.filter (!·.isDocumentation)).flatMap Segment.text

def documentation (document : Document) : List Text :=
  (document.segments.filter Segment.isDocumentation).map Segment.text

def countDocumentation (document : Document) : Nat :=
  document.segments.countP Segment.isDocumentation

def countCode (document : Document) : Nat :=
  document.segments.countP (!·.isDocumentation)

end Document

end SourceDocs
