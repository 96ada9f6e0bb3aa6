import SourceDocs.Proofs.Coverage

/-!
Documentation and code take turns. Between two runs of documentation comments stands visible text,
or white space with at least two line feeds. The indentation of the second run holds neither, so a
piece of code is left between them that still parts them; comments without such a gap between them
are in one piece of documentation.
-/

namespace SourceDocs

namespace Text

def Parted (source : Text) (start stop : Nat) : Prop :=
  isBlank (slice source start stop) = true → 2 ≤ (slice source start stop).count '\n'

variable {source : Text} {start stop first last : Nat}

theorem Parted.lt (parted : Parted source start stop) : start < stop := by
  by_contra stuck
  have size : stop - start = 0 := by omega
  have empty : slice source start stop = [] := by rw [slice, size, takeBytes_zero]
  have feeds := parted (by rw [empty]; rfl)
  rw [empty] at feeds
  simp at feeds

theorem Parted.widen (parted : Parted source start stop) (firstBoundary : IsBoundary source first)
    (startBoundary : IsBoundary source start) (stopBoundary : IsBoundary source stop)
    (lastBoundary : IsBoundary source last) (earlier : first ≤ start) (later : stop ≤ last) :
    Parted source first last := by
  have order := parted.lt
  have cut : slice source first last =
      slice source first start ++ slice source start stop ++ slice source stop last := by
    rw [slice_append_slice firstBoundary startBoundary stopBoundary earlier (by omega),
      slice_append_slice firstBoundary stopBoundary lastBoundary (by omega) later]
  intro blank
  rw [cut, isBlank, List.all_append, List.all_append, Bool.and_eq_true, Bool.and_eq_true] at blank
  have feeds := parted blank.1.2
  rw [cut, List.count_append, List.count_append]
  omega

end Text

/-- The code in front of an indented span parts it from a span that it does not adjoin. -/
theorem Span.Within.parted {source : Text} {previous span : Span} (within : span.Within source)
    (earlier : previous.Within source) (order : previous.stop ≤ span.start)
    (apart : Segment.adjoins source previous span = false) :
    Text.Parted source previous.stop (span.indentedStart source) := by
  have reach := within.stop_le_indentedStart earlier order (by rw [apart]; exact Bool.false_ne_true)
  obtain ⟨boundary, indented, indent⟩ := within.indented
  have padding := Comment.indentation_padding (Text.takeBytes span.start source)
  rw [← indent] at padding
  have cut := Text.slice_append_slice earlier.last boundary within.first reach indented
  intro blank
  -- the indentation is blank and has no line feed, so the gap is blank if the code is
  have gapBlank : Text.isBlank (Text.slice source previous.stop span.start) = true := by
    have indentBlank := Text.isBlank_of_padding padding
    rw [Text.isBlank] at blank indentBlank ⊢
    rw [← cut, List.all_append, blank, indentBlank, Bool.and_self]
  have indentFeeds : (Text.slice source (span.indentedStart source) span.start).count '\n' = 0 :=
    List.count_eq_zero.mpr (Text.not_mem_of_padding padding)
  have gapFeeds : ¬(Text.slice source previous.stop span.start).count '\n' ≤ 1 := by
    simpa [Segment.adjoins, gapBlank] using apart
  rw [← cut, List.count_append, indentFeeds] at gapFeeds
  omega

theorem Runs.isChain_parted {source : Text} {runs : List (List Span)} (grouped : Runs source runs) :
    (runs.filterMap (Comment.ofSpans? source)).IsChain fun previous next =>
      Text.Parted source previous.stop next.start := by
  induction runs with
  | nil => exact .nil
  | cons run runs ih =>
    cases run with
    | nil => exact absurd List.mem_cons_self grouped.filled
    | cons first others =>
      rw [List.filterMap_cons_some (Comment.ofSpans?_of_documentation source
        (grouped.documentation _ List.mem_cons_self)), List.isChain_cons]
      refine ⟨?_, ih grouped.tail⟩
      intro comment following
      match runs with
      | [] => cases following
      | [] :: more => exact absurd List.mem_cons_self grouped.tail.filled
      | (next :: nextOthers) :: more =>
        rw [List.filterMap_cons_some (Comment.ofSpans?_of_documentation source
          (grouped.tail.documentation _ List.mem_cons_self))] at following
        obtain rfl := Option.some.inj following
        obtain ⟨_, _, apart⟩ := (List.isChain_cons_cons.mp grouped.apart).1
        rw [List.getLast_eq_getLastD, List.head_cons] at apart
        have ordered := grouped.ordered
        rw [List.flatten_cons, List.pairwise_append] at ordered
        have nextMember : next ∈ ((next :: nextOthers) :: more).flatten := by simp
        have lastWithin : (others.getLastD first).Within source := by
          apply grouped.within
          rw [List.flatten_cons]
          exact List.mem_append_left _ List.getLastD_mem_cons
        exact (grouped.tail.within next nextMember).parted lastWithin
          (ordered.2.2 _ List.getLastD_mem_cons next nextMember) apart

namespace Segment

variable {source language : Text} {cursor : Nat} {comments : List Comment}

/-- Behind documentation, code comes first. -/
theorem isDocumentation_head_weave
    (parted : ∀ comment ∈ comments.head?, Text.Parted source cursor comment.start) :
    ∀ segment ∈ (weave source language cursor comments).head?, segment.isDocumentation = false := by
  intro segment found
  cases comments with
  | nil =>
    rw [weave, codeBetween] at found
    split at found
    next => rw [← Option.some.inj found]; rfl
    next => cases found
  | cons comment comments =>
    rw [weave, codeBetween, if_pos (parted comment rfl).lt] at found
    rw [← Option.some.inj found]
    rfl

theorem weave_isChain
    (parted : comments.IsChain fun previous next => Text.Parted source previous.stop next.start) :
    (weave source language cursor comments).IsChain fun previous next =>
      previous.isDocumentation ≠ next.isDocumentation := by
  induction comments generalizing cursor with
  | nil =>
    rw [weave, codeBetween]
    split
    next => exact .singleton _
    next => exact .nil
  | cons comment comments ih =>
    rw [List.isChain_cons] at parted
    have behind : (documentation comment.text comment.start comment.stop ::
        weave source language comment.stop comments).IsChain fun previous next =>
          previous.isDocumentation ≠ next.isDocumentation := by
      refine List.isChain_cons.mpr ⟨?_, ih parted.2⟩
      intro segment found
      rw [isDocumentation_head_weave parted.1 segment found]
      exact Bool.false_ne_true.symm
    rw [weave, codeBetween]
    split
    next => exact List.isChain_cons_cons.mpr ⟨Bool.false_ne_true, behind⟩
    next => exact behind

/-- Blank code that is not the last piece has two line feeds, if the cursor is parted from the first
comment. -/
theorem parted_of_weave {middle next : Segment}
    (front : ∀ comment ∈ comments.head?, Text.Parted source cursor comment.start)
    (parted : comments.IsChain fun previous next => Text.Parted source previous.stop next.start)
    (inOrder : [middle, next].Sublist (weave source language cursor comments))
    (blank : middle.isBlankCode = true) : 2 ≤ middle.text.count '\n' := by
  induction comments generalizing cursor with
  | nil =>
    have size := inOrder.length_le
    rw [weave, codeBetween] at size
    split at size <;> simp at size
  | cons comment comments ih =>
    rw [List.isChain_cons] at parted
    have here := front comment rfl
    rw [weave, codeBetween, if_pos here.lt, List.singleton_append] at inOrder
    rcases List.sublist_cons_iff.mp inOrder with later | ⟨_, same, _⟩
    · rcases List.sublist_cons_iff.mp later with later | ⟨_, same, _⟩
      · exact ih parted.1 parted.2 later
      · obtain ⟨rfl, _⟩ := List.cons.inj same
        cases blank
    · obtain ⟨rfl, _⟩ := List.cons.inj same
      exact here blank

theorem parted_between {previous middle next : Segment}
    (parted : comments.IsChain fun previous next => Text.Parted source previous.stop next.start)
    (inOrder : [previous, middle, next].Sublist (weave source language cursor comments))
    (first : previous.isDocumentation = true) (blank : middle.isBlankCode = true) :
    2 ≤ middle.text.count '\n' := by
  cases comments with
  | nil =>
    have size := inOrder.length_le
    rw [weave, codeBetween] at size
    split at size <;> simp at size
  | cons comment comments =>
    rw [List.isChain_cons] at parted
    have behind : [previous, middle, next].Sublist
        (documentation comment.text comment.start comment.stop ::
          weave source language comment.stop comments) := by
      rw [weave, codeBetween] at inOrder
      split at inOrder
      next =>
        rcases List.sublist_cons_iff.mp inOrder with later | ⟨_, same, _⟩
        · exact later
        · obtain ⟨rfl, _⟩ := List.cons.inj same
          cases first
      next => exact inOrder
    exact parted_of_weave parted.1 parted.2 behind.of_cons_cons blank

end Segment

/-- A comment holds both or none of two spans that nothing parts. -/
theorem Woven.liesBetween_eq {source : Text} {cursor : Nat} {runs : List (List Span)}
    {comments : List Comment} {first second : Span} (woven : Woven source cursor runs comments)
    (parted : comments.IsChain fun previous next => Text.Parted source previous.stop next.start)
    (firstMember : first ∈ runs.flatten) (secondMember : second ∈ runs.flatten)
    (order : first.stop ≤ second.start) (close : ¬Text.Parted source first.stop second.start) :
    ∀ comment ∈ comments, first.liesBetween comment.start comment.stop =
      second.liesBetween comment.start comment.stop := by
  induction woven with
  | done inside => cases firstMember
  | @comment cursor head others runs here comments behind covers rest ih =>
    have firstGrows := (Woven.comment behind covers rest).within firstMember
    have secondGrows := (Woven.comment behind covers rest).within secondMember
    have before : ∀ span : Span, span.Within source → here.stop ≤ span.start →
        span.liesBetween here.start here.stop = false := by
      intro span within later
      rw [← Bool.not_eq_true, Span.liesBetween_iff]
      have grows := within.grows
      omega
    have after : ∀ span : Span, span.Within source → span.stop ≤ here.stop → ∀ comment ∈ comments,
        span.liesBetween comment.start comment.stop = false := by
      intro span within earlier comment member
      have reach := rest.cursor_le_comment member
      rw [← Bool.not_eq_true, Span.liesBetween_iff]
      have grows := within.grows
      omega
    rw [List.flatten_cons, List.mem_append] at firstMember secondMember
    rw [List.isChain_cons] at parted
    rcases firstMember with firstHere | firstLater
    · rcases secondMember with secondHere | secondLater
      · intro comment member
        rcases List.mem_cons.mp member with rfl | member
        · rw [Span.liesBetween_iff.mpr (covers.holds firstHere),
            Span.liesBetween_iff.mpr (covers.holds secondHere)]
        · rw [after first firstGrows (covers.holds firstHere).2 comment member,
            after second secondGrows (covers.holds secondHere).2 comment member]
      · -- the code behind this comment stands between the two spans
        cases rest with
        | done inside => cases secondLater
        | comment nextBehind nextCovers nextRest =>
          have reach := (Woven.comment (Nat.le_refl _) nextCovers nextRest).cursor_le_span
            secondLater
          exact absurd ((parted.1 _ rfl).widen firstGrows.last covers.stop_boundary
            nextCovers.start_boundary secondGrows.first (covers.holds firstHere).2 reach) close
    · have firstReach := rest.cursor_le_span firstLater
      rcases secondMember with secondHere | secondLater
      · have secondReach := (covers.holds secondHere).2
        have grows := firstGrows.grows
        have grows' := secondGrows.grows
        omega
      · intro comment member
        rcases List.mem_cons.mp member with rfl | member
        · rw [before first firstGrows firstReach,
            before second secondGrows (rest.cursor_le_span secondLater)]
        · exact ih parted.2 firstLater secondLater comment member

/-- Kinds alternate; blank code with documentation on both sides has two line feeds; and
documentation comments with nothing but white space and at most one line feed between them are in
the same piece of documentation, unless the whole text is blank and has no pieces. -/
structure Segment.Alternating (source : Text) (spans : List Span) (segments : List Segment) :
    Prop where
  turns : segments.IsChain fun previous next => previous.isDocumentation ≠ next.isDocumentation
  parted : ∀ previous middle next, [previous, middle, next].Sublist segments →
    previous.isDocumentation = true → middle.isBlankCode = true → next.isDocumentation = true →
    2 ≤ middle.text.count '\n'
  merged : ∀ first ∈ spans, ∀ second ∈ spans, first.isDocumentation = true →
    second.isDocumentation = true → first.stop ≤ second.start →
    Text.isBlank (Text.slice source first.stop second.start) = true →
    (Text.slice source first.stop second.start).count '\n' ≤ 1 →
    (∀ segment ∈ segments, segment.isDocumentation = true →
      first.liesBetween segment.start segment.stop =
        second.liesBetween segment.start segment.stop) ∧
    (Text.isBlank source = false → ∃ segment ∈ segments, segment.isDocumentation = true ∧
      first.liesBetween segment.start segment.stop = true ∧
      second.liesBetween segment.start segment.stop = true)

theorem Lexing.alternating {grammar : Grammar} {source : Text} {spans : List Span}
    (lexing : Lexing grammar source spans) (language : Text) :
    Segment.Alternating source spans
      (Segment.weave source language 0 (Segment.documentationComments source spans)) := by
  have woven := lexing.woven
  have parted := lexing.runs.isChain_parted
  refine ⟨Segment.weave_isChain parted, ?_, ?_⟩
  · intro previous middle next inOrder first blank _
    exact Segment.parted_between parted inOrder first blank
  · intro first firstMember second secondMember firstDoc secondDoc order blank feeds
    have inRuns : ∀ span ∈ spans, span.isDocumentation = true →
        span ∈ ((spans.filter Span.isDocumentation).splitBy (Segment.adjoins source)).flatten := by
      intro span member documentation
      rw [List.flatten_splitBy]
      exact List.mem_filter.mpr ⟨member, documentation⟩
    have close : ¬Text.Parted source first.stop second.start := by
      intro apart
      have more := apart blank
      omega
    have together := woven.liesBetween_eq parted (inRuns first firstMember firstDoc)
      (inRuns second secondMember secondDoc) order close
    have pieces := Segment.weave_documentation source language 0
      (Segment.documentationComments source spans)
    constructor
    · intro segment member documentation
      have piece := List.mem_filter.mpr ⟨member, documentation⟩
      rw [pieces] at piece
      obtain ⟨comment, inside, rfl⟩ := List.mem_map.mp piece
      exact together comment inside
    · intro _
      have once := woven.countP_liesBetween (inRuns first firstMember firstDoc)
      obtain ⟨comment, inside, holds⟩ := List.countP_pos_iff.mp (by rw [once]; exact Nat.one_pos)
      have piece := List.mem_map_of_mem (f := fun comment : Comment =>
        Segment.documentation comment.text comment.start comment.stop) inside
      rw [← pieces] at piece
      exact ⟨_, (List.mem_filter.mp piece).1, rfl, holds,
        (together comment inside).symm.trans holds⟩

/-- The segments of a source text alternate between documentation and code. -/
theorem Document.segments_alternate (grammar : Grammar) (source : Text) :
    Segment.Alternating source (Scan.ofSource grammar source).spans
      (ofSource grammar source).segments := by
  have lexing := Scan.lexing_spans grammar source
  simp only [ofSource, Segment.ofSpans]
  cases blank : Text.isBlank source with
  | true =>
    refine ⟨.nil, ?_, ?_⟩
    · intro previous middle next inOrder
      cases inOrder
    · intro first _ second _ _ _ _ _ _
      refine ⟨?_, by simp [blank]⟩
      intro segment member
      cases member
  | false => exact lexing.alternating grammar.highlight

end SourceDocs
