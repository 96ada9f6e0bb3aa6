import SourceDocs.Comment

/-!
Segments: a source text as alternating documentation and code. Documentation comments become prose;
everything else, other comments included, is copied. The ranges of the segments tile the source.
-/

namespace SourceDocs

inductive Segment where
  | documentation (text : Text) (start stop : Nat)
  | code (text language : Text) (start stop : Nat)
deriving DecidableEq, Repr

namespace Segment

def text : Segment → Text
  | documentation text _ _ => text
  | code text _ _ _ => text

def start : Segment → Nat
  | documentation _ start _ => start
  | code _ _ start _ => start

def stop : Segment → Nat
  | documentation _ _ stop => stop
  | code _ _ _ stop => stop

def language? : Segment → Option Text
  | documentation _ _ _ => none
  | code _ language _ _ => some language

def isDocumentation : Segment → Bool
  | documentation _ _ _ => true
  | code _ _ _ _ => false

def isBlankCode : Segment → Bool
  | documentation _ _ _ => false
  | code text _ _ _ => Text.isBlank text

/-- Whether two documentation comments belong together: nothing but white space with at most one
line feed stands between them. -/
def adjoins (source : Text) (previous next : Span) : Bool :=
  let gap := Text.slice source previous.stop next.start
  Text.isBlank gap && gap.count '\n' ≤ 1

def documentationComments (source : Text) (spans : List Span) : List Comment :=
  ((spans.filter Span.isDocumentation).splitBy (adjoins source)).filterMap
    (Comment.ofSpans? source)

def codeBetween (source language : Text) (start stop : Nat) : List Segment :=
  if start < stop then [.code (Text.slice source start stop) language start stop] else []

def weave (source language : Text) (cursor : Nat) : List Comment → List Segment
  | [] => codeBetween source language cursor (Text.bytes source)
  | comment :: comments =>
    codeBetween source language cursor comment.start ++
      .documentation comment.text comment.start comment.stop ::
        weave source language comment.stop comments

def ofSpans (language source : Text) (spans : List Span) : List Segment :=
  if Text.isBlank source then []
  else weave source language 0 (documentationComments source spans)

def inOrder : List Span → Bool
  | [] => true
  | [_] => true
  | previous :: next :: spans => previous.stop ≤ next.start && inOrder (next :: spans)

/-- The segments for spans of unknown order; `none` if the documentation comments of a text that is
not blank are out of order. -/
def ofSpans? (language source : Text) (spans : List Span) : Option (List Segment) :=
  if Text.isBlank source || inOrder (spans.filter Span.isDocumentation) then
    some (ofSpans language source spans)
  else none

end Segment

end SourceDocs
