import SourceDocs.Proofs.Runs

/-!
Documentation comments of spans that were moved one by one, in the same text or into another. If the
moved spans keep their classes and prose and adjoin where they adjoined before, they fall into the
same runs, and the comments are those of before with their ranges moved.
-/

namespace SourceDocs

theorem splitBy_map {α β : Type} {move : α → β} {joins : α → α → Bool} {joins' : β → β → Bool}
    {items : List α}
    (same : ∀ first ∈ items, ∀ second ∈ items,
      joins' (move first) (move second) = joins first second) :
    (items.map move).splitBy joins' = (items.splitBy joins).map (List.map move) := by
  have inside : ∀ run ∈ items.splitBy joins, ∀ item ∈ run, item ∈ items := by
    intro run runMember item member
    have flat := List.mem_flatten_of_mem runMember member
    rwa [List.flatten_splitBy] at flat
  rw [List.splitBy_eq_iff]
  refine ⟨?_, ?_, ?_, ?_⟩
  · rw [← List.map_flatten, List.flatten_splitBy]
  · intro member
    obtain ⟨run, runMember, empty⟩ := List.mem_map.mp member
    rw [List.map_eq_nil_iff] at empty
    exact List.nil_notMem_splitBy joins items (empty ▸ runMember)
  · intro moved member
    obtain ⟨run, runMember, rfl⟩ := List.mem_map.mp member
    rw [List.isChain_map]
    refine (List.isChain_of_mem_splitBy runMember).imp_of_mem_imp ?_
    intro first second firstMember secondMember joined
    rw [same first (inside run runMember first firstMember) second
      (inside run runMember second secondMember)]
    exact joined
  · rw [List.isChain_map]
    refine (List.isChain_getLast_head_splitBy joins items).imp_of_mem_imp ?_
    rintro run next runMember nextMember ⟨filled, nextFilled, apart⟩
    refine ⟨by simpa using filled, by simpa using nextFilled, ?_⟩
    rw [List.getLast_map, List.head_map,
      same _ (inside run runMember _ (List.getLast_mem filled)) _
        (inside next nextMember _ (List.head_mem nextFilled))]
    exact apart

def Comment.moved (offset : Nat → Nat) (comment : Comment) : Comment :=
  { comment with start := offset comment.start, stop := offset comment.stop }

/-- Moving the spans of `source` into `other`, offset by offset, changes nothing that a comment made
of them shows. -/
structure Moves (source other : Text) (offset : Nat → Nat) (move : Span → Span)
    (spans : List Span) : Prop where
  classes : ∀ span ∈ spans, (move span).isDocumentation = span.isDocumentation
  prose : ∀ span ∈ spans, span.isDocumentation = true →
    Comment.ofSpan (move span) = Comment.ofSpan span
  joins : ∀ first ∈ spans, ∀ second ∈ spans,
    Segment.adjoins other (move first) (move second) = Segment.adjoins source first second
  indents : ∀ span ∈ spans, Comment.indentation (Text.takeBytes (move span).start other) =
    Comment.indentation (Text.takeBytes span.start source)
  starts : ∀ span ∈ spans, (move span).indentedStart other = offset (span.indentedStart source)
  stops : ∀ span ∈ spans, (move span).stop = offset span.stop

namespace Moves

variable {source other : Text} {offset : Nat → Nat} {move : Span → Span} {spans : List Span}

theorem ofSpans? (moves : Moves source other offset move spans) {run : List Span} (filled : run ≠ [])
    (members : ∀ span ∈ run, span ∈ spans ∧ span.isDocumentation = true) :
    Comment.ofSpans? other (run.map move) =
      (Comment.ofSpans? source run).map (Comment.moved offset) := by
  obtain ⟨first, others, rfl⟩ := List.exists_cons_of_ne_nil filled
  have firstMember := (members first List.mem_cons_self).1
  have lastMember := (members _ List.getLastD_mem_cons).1
  have documentation : ∀ span ∈ (first :: others).map move, span.isDocumentation = true := by
    rw [List.forall_mem_map]
    intro span member
    rw [moves.classes span (members span member).1]
    exact (members span member).2
  have texts : ((first :: others).map move).map Comment.ofSpan =
      (first :: others).map Comment.ofSpan := by
    rw [List.map_map]
    exact List.map_congr_left fun span member =>
      moves.prose span (members span member).1 (members span member).2
  rw [List.map_cons] at documentation texts ⊢
  rw [Comment.ofSpans?_of_documentation other documentation,
    Comment.ofSpans?_of_documentation source fun span member => (members span member).2, texts,
    List.getLastD_map, moves.indents first firstMember, moves.starts first firstMember,
    moves.stops _ lastMember]
  rfl

theorem documentationComments_map (moves : Moves source other offset move spans) :
    Segment.documentationComments other (spans.map move) =
      (Segment.documentationComments source spans).map (Comment.moved offset) := by
  have kept : (spans.map move).filter Span.isDocumentation =
      (spans.filter Span.isDocumentation).map move := by
    rw [List.filter_map]
    exact congrArg (List.map move) (List.filter_congr moves.classes)
  have joined : ∀ first ∈ spans.filter Span.isDocumentation,
      ∀ second ∈ spans.filter Span.isDocumentation,
      Segment.adjoins other (move first) (move second) = Segment.adjoins source first second := by
    intro first firstMember second secondMember
    exact moves.joins first (List.mem_filter.mp firstMember).1 second
      (List.mem_filter.mp secondMember).1
  unfold Segment.documentationComments
  rw [kept, splitBy_map joined, List.filterMap_map, List.map_filterMap]
  refine List.filterMap_congr ?_
  intro run runMember
  refine moves.ofSpans? (List.ne_nil_of_mem_splitBy runMember) ?_
  intro span member
  have flat := List.mem_flatten_of_mem runMember member
  rw [List.flatten_splitBy] at flat
  exact List.mem_filter.mp flat

end Moves

end SourceDocs
