import SourceDocs.Grammar.Basic

/-!
Spans: stretches of source text by lexical class. A comment or literal carries the entry of the
grammar that opened it and the entry's position.
-/

namespace SourceDocs

inductive SpanKind where
  | code
  | line (index : Nat) (marker : LineMarker)
  | block (index : Nat) (style : BlockStyle) (terminated : Bool)
  | string (index : Nat) (delimiter : StringDelimiter) (terminated : Bool)
deriving DecidableEq, Repr

namespace SpanKind

/-- Whether comments of this class are documentation; `none` for code and literals. -/
def documentation? : SpanKind → Option Bool
  | code => none
  | line _ marker => some marker.documentation
  | block _ style _ => some style.documentation
  | string _ _ _ => none

def isComment (kind : SpanKind) : Bool := kind.documentation?.isSome

end SpanKind

structure Span where
  kind : SpanKind
  start : Nat
  stop : Nat
  text : Text
deriving DecidableEq, Repr

def Span.isDocumentation (span : Span) : Bool := span.kind.documentation? == some true

end SourceDocs
