import SourceDocs.Document
import SourceDocs.Proofs.Runs

/-!
The segments of a document tile its source: code and documentation follow one another without a gap
and without an overlap, and code is copied as it stands.
-/

namespace SourceDocs

namespace Segment

def range (segment : Segment) : Nat × Nat := (segment.start, segment.stop)

/-- Segments that tile a source text, with code copied from it. The last condition says once more
that the indentation a piece of documentation takes in stops short of the piece before. -/
structure Tiling (source : Text) (segments : List Segment) : Prop where
  tiles : Tile 0 (Text.bytes source) (segments.map range)
  boundaries : ∀ segment ∈ segments,
    Text.IsBoundary source segment.start ∧ Text.IsBoundary source segment.stop
  copied : ∀ segment ∈ segments, segment.isDocumentation = false →
    segment.text = Text.slice source segment.start segment.stop
  apart : (segments.filter isDocumentation).Pairwise fun previous next =>
    previous.stop ≤ next.start

variable {source language : Text}

def Faithful (source : Text) (segment : Segment) : Prop :=
  (Text.IsBoundary source segment.start ∧ Text.IsBoundary source segment.stop) ∧
    (segment.isDocumentation = false →
      segment.text = Text.slice source segment.start segment.stop)

theorem codeBetween_tile {start stop : Nat} (order : start ≤ stop) :
    Tile start stop ((codeBetween source language start stop).map range) := by
  unfold codeBetween
  split
  next grows => exact ⟨rfl, grows, rfl⟩
  next stuck =>
    have same : start = stop := by omega
    exact same

theorem codeBetween_faithful {start stop : Nat} (first : Text.IsBoundary source start)
    (last : Text.IsBoundary source stop) :
    ∀ segment ∈ codeBetween source language start stop, segment.Faithful source := by
  intro segment member
  unfold codeBetween at member
  split at member
  next =>
    rw [List.mem_singleton.mp member]
    exact ⟨⟨first, last⟩, fun _ => rfl⟩
  next => cases member

end Segment

namespace Woven

variable {source : Text} {cursor : Nat} {runs : List (List Span)} {comments : List Comment}

theorem tiles (woven : Woven source cursor runs comments) (language : Text) :
    Tile cursor (Text.bytes source)
      ((Segment.weave source language cursor comments).map Segment.range) := by
  induction woven with
  | done inside => exact Segment.codeBetween_tile inside
  | comment behind covers rest ih =>
    rw [Segment.weave, List.map_append, List.map_cons]
    exact (Segment.codeBetween_tile behind).append ⟨rfl, covers.grows, ih⟩

theorem faithful (woven : Woven source cursor runs comments) (language : Text)
    (boundary : Text.IsBoundary source cursor) :
    ∀ segment ∈ Segment.weave source language cursor comments, segment.Faithful source := by
  induction woven with
  | done inside => exact Segment.codeBetween_faithful boundary (Text.isBoundary_bytes source)
  | comment behind covers rest ih =>
    intro segment member
    rw [Segment.weave, List.mem_append, List.mem_cons] at member
    rcases member with code | rfl | later
    · exact Segment.codeBetween_faithful boundary covers.start_boundary segment code
    · exact ⟨⟨covers.start_boundary, covers.stop_boundary⟩, by simp [Segment.isDocumentation]⟩
    · exact ih covers.stop_boundary segment later

end Woven

namespace Document

/-- The segments of a source text tile it; a blank text has none. -/
theorem segments_tile (grammar : Grammar) (source : Text) :
    if Text.isBlank source then (ofSource grammar source).segments = []
    else Segment.Tiling source (ofSource grammar source).segments := by
  have lexing := Scan.lexing_spans grammar source
  simp only [ofSource, Segment.ofSpans]
  split
  next blank => rfl
  next visible =>
    have tiles := lexing.woven.tiles grammar.highlight
    have faithful := lexing.woven.faithful grammar.highlight (Text.isBoundary_zero source)
    refine ⟨tiles, fun segment member => (faithful segment member).1,
      fun segment member => (faithful segment member).2, ?_⟩
    exact (List.pairwise_map.mp tiles.ordered).filter _

end Document

end SourceDocs
