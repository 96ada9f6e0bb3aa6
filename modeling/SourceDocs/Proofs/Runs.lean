import Mathlib.Data.List.SplitBy
import Mathlib.Data.List.TakeWhile
import SourceDocs.Proofs.Scanning
import SourceDocs.Segment

/-!
Runs of documentation comments and the comments made of them. A comment takes in the indentation in
front of its first span. Two runs are apart, so the indentation of one never reaches into the other:
text that is all indentation would have joined them.
-/

namespace SourceDocs

namespace Text

theorem lastLine_suffix (source : Text) : lastLine source <:+ source := by
  have front : source.reverse.takeWhile (· ≠ '\n') <+: source.reverse := List.takeWhile_prefix _
  have back := List.reverse_suffix.mpr front
  rwa [List.reverse_reverse] at back

theorem lastLine_append_of_mem {before after : Text} (broken : '\n' ∈ after) :
    lastLine (before ++ after) = lastLine after := by
  unfold lastLine
  rw [List.reverse_append, List.takeWhile_append, if_neg]
  intro whole
  have front : after.reverse.takeWhile (· ≠ '\n') <+: after.reverse := List.takeWhile_prefix _
  have member : '\n' ∈ after.reverse.takeWhile (· ≠ '\n') := by
    rw [front.eq_of_length whole, List.mem_reverse]
    exact broken
  have unbroken := List.mem_takeWhile_imp member
  simp at unbroken

theorem lastLine_append_of_not_mem {before after : Text} (unbroken : '\n' ∉ after) :
    lastLine (before ++ after) = lastLine before ++ after := by
  unfold lastLine
  rw [List.reverse_append, List.takeWhile_append_of_pos, List.reverse_append, List.reverse_reverse]
  intro c member
  rw [List.mem_reverse] at member
  have different : c ≠ '\n' := fun same => unbroken (same ▸ member)
  simpa using different

theorem isBlank_of_padding {source : Text} (padding : source.all isPadding = true) :
    isBlank source = true := by
  rw [List.all_eq_true] at padding
  exact List.all_eq_true.mpr fun c member => isSpace_of_isPadding (padding c member)

theorem not_mem_of_padding {source : Text} (padding : source.all isPadding = true) :
    '\n' ∉ source := by
  rw [List.all_eq_true] at padding
  intro member
  have wrong := padding '\n' member
  exact absurd wrong (by decide)

end Text

namespace Comment

theorem indentation_padding (before : Text) : (indentation before).all Text.isPadding = true := by
  unfold indentation
  dsimp only
  split
  next padding => exact padding
  next => rfl

theorem indentation_suffix (before : Text) : indentation before <:+ before := by
  unfold indentation
  dsimp only
  split
  next => exact Text.lastLine_suffix before
  next => exact List.nil_suffix

/-- Behind text that is not all padding, the indentation begins after that text. -/
theorem indentation_append_suffix {before gap : Text} (mixed : gap.all Text.isPadding ≠ true) :
    indentation (before ++ gap) <:+ gap := by
  unfold indentation
  dsimp only
  split
  next padding =>
    by_cases broken : '\n' ∈ gap
    · rw [Text.lastLine_append_of_mem broken]
      exact Text.lastLine_suffix gap
    · rw [Text.lastLine_append_of_not_mem broken, List.all_append, Bool.and_eq_true] at padding
      exact absurd padding.2 mixed
  next => exact List.nil_suffix

end Comment

structure Span.Within (source : Text) (span : Span) : Prop where
  first : Text.IsBoundary source span.start
  last : Text.IsBoundary source span.stop
  grows : span.start < span.stop
  text : span.text = Text.slice source span.start span.stop

namespace Lexing

variable {grammar : Grammar} {source : Text} {spans : List Span}

theorem within (lexing : Lexing grammar source spans) {span : Span} (member : span ∈ spans) :
    span.Within source := by
  obtain ⟨before, after, rfl, first, last, _⟩ := lexing.reads span member
  have grows := lexing.tiles.grows (List.mem_map_of_mem member)
  rw [Text.bytes_append, first] at last
  refine ⟨⟨before, span.text ++ after, List.append_assoc _ _ _, first⟩, ?_, grows, ?_⟩
  · rw [← last, ← first]
    exact Text.isBoundary_of_append before span.text after
  · exact (Text.slice_append first last).symm

theorem ordered (lexing : Lexing grammar source spans) :
    spans.Pairwise fun first second => first.stop ≤ second.start :=
  List.pairwise_map.mp lexing.tiles.ordered

end Lexing

def Span.indentedStart (source : Text) (span : Span) : Nat :=
  span.start - Text.bytes (Comment.indentation (Text.takeBytes span.start source))

namespace Span.Within

variable {source : Text} {span previous : Span}

/-- The indentation in front of a span stands between the two beginnings of the span. -/
theorem indented (within : span.Within source) :
    Text.IsBoundary source (span.indentedStart source) ∧ span.indentedStart source ≤ span.start ∧
      Text.slice source (span.indentedStart source) span.start =
        Comment.indentation (Text.takeBytes span.start source) := by
  obtain ⟨before, after, rfl, size⟩ := within.first
  rw [indentedStart, ← size, Text.takeBytes_append]
  obtain ⟨kept, split⟩ := Comment.indentation_suffix before
  generalize Comment.indentation before = indent at split
  subst split
  have start : Text.bytes (kept ++ indent) - Text.bytes indent = Text.bytes kept := by
    rw [Text.bytes_append, Nat.add_sub_cancel]
  rw [start, Text.bytes_append]
  refine ⟨⟨kept, indent ++ after, List.append_assoc _ _ _, rfl⟩, Nat.le_add_right _ _, ?_⟩
  exact Text.slice_append rfl rfl

/-- The indentation of a span does not reach into a span that it does not adjoin. -/
theorem stop_le_indentedStart (within : span.Within source) (earlier : previous.Within source)
    (order : previous.stop ≤ span.start) (apart : Segment.adjoins source previous span ≠ true) :
    previous.stop ≤ span.indentedStart source := by
  have front := Text.takeBytes_append_slice earlier.last within.first order
  have size := Text.bytes_slice earlier.last within.first order
  unfold Segment.adjoins at apart
  dsimp only at apart
  generalize Text.slice source previous.stop span.start = gap at front size apart
  -- a gap of spaces and tabs is blank and has no line feed, so it would have joined the two
  have mixed : gap.all Text.isPadding ≠ true := by
    intro padding
    apply apart
    have lineFeeds : gap.count '\n' = 0 := List.count_eq_zero.mpr (Text.not_mem_of_padding padding)
    rw [Text.isBlank_of_padding padding, lineFeeds]
    rfl
  have reach : Comment.indentation (Text.takeBytes previous.stop source ++ gap) <:+ gap :=
    Comment.indentation_append_suffix mixed
  obtain ⟨kept, split⟩ := reach
  have total := congrArg Text.bytes split
  rw [Text.bytes_append] at total
  rw [indentedStart, front]
  omega

end Span.Within

namespace Comment

theorem ofSpans?_of_documentation (source : Text) {first : Span} {others : List Span}
    (documentation : ∀ span ∈ first :: others, span.isDocumentation = true) :
    ofSpans? source (first :: others) = some {
      text := Text.joinLines ((first :: others).map ofSpan)
      documentation := true
      indent := indentation (Text.takeBytes first.start source)
      start := first.indentedStart source
      stop := (others.getLastD first).stop } := by
  have firstKind : first.kind.documentation? = some true := by
    simpa [Span.isDocumentation] using documentation first List.mem_cons_self
  have otherKinds : (others.all fun span => span.kind.documentation? == some true) = true := by
    rw [List.all_eq_true]
    intro span member
    exact documentation span (List.mem_cons_of_mem _ member)
  simp only [ofSpans?, firstKind, otherKinds, if_true, Span.indentedStart]

end Comment

structure Runs (source : Text) (runs : List (List Span)) : Prop where
  filled : [] ∉ runs
  documentation : ∀ run ∈ runs, ∀ span ∈ run, span.isDocumentation = true
  within : ∀ span ∈ runs.flatten, span.Within source
  ordered : runs.flatten.Pairwise fun first second => first.stop ≤ second.start
  adjoined : ∀ run ∈ runs, run.IsChain fun first second => Segment.adjoins source first second = true
  apart : runs.IsChain fun run next =>
    ∃ filled nextFilled, Segment.adjoins source (run.getLast filled) (next.head nextFilled) = false

theorem Runs.tail {source : Text} {run : List Span} {runs : List (List Span)}
    (grouped : Runs source (run :: runs)) : Runs source runs where
  filled := fun member => grouped.filled (List.mem_cons_of_mem _ member)
  documentation := fun other member => grouped.documentation other (List.mem_cons_of_mem _ member)
  within := fun span member => grouped.within span (by
    rw [List.flatten_cons]
    exact List.mem_append_right _ member)
  ordered := by
    have ordered := grouped.ordered
    rw [List.flatten_cons, List.pairwise_append] at ordered
    exact ordered.2.1
  adjoined := fun other member => grouped.adjoined other (List.mem_cons_of_mem _ member)
  apart := grouped.apart.tail

/-- A comment covers a run of spans: from the indentation of the first to the end of the last. -/
structure Comment.Covers (source : Text) (first : Span) (others : List Span) (comment : Comment) :
    Prop where
  within : ∀ span ∈ first :: others, span.Within source
  ordered : (first :: others).Pairwise fun first second => first.stop ≤ second.start
  adjoined : (first :: others).IsChain fun first second =>
    Segment.adjoins source first second = true
  start : comment.start = first.indentedStart source
  stop : comment.stop = (others.getLastD first).stop

namespace Comment.Covers

variable {source : Text} {first : Span} {others : List Span} {comment : Comment}

private theorem stop_le_getLastD
    (within : ∀ span ∈ first :: others, span.Within source)
    (ordered : (first :: others).Pairwise fun first second => first.stop ≤ second.start) {span : Span}
    (member : span ∈ first :: others) : span.stop ≤ (others.getLastD first).stop := by
  induction others generalizing first span with
  | nil =>
    rw [List.mem_singleton.mp member]
    exact Nat.le_refl _
  | cons next others ih =>
    have below : ∀ later ∈ next :: others, later.stop ≤ (others.getLastD next).stop := fun _ later =>
      ih (fun other here => within other (List.mem_cons_of_mem _ here)) ordered.of_cons later
    rw [List.getLastD_cons]
    rcases List.mem_cons.mp member with rfl | later
    · have order := List.rel_of_pairwise_cons ordered List.mem_cons_self
      have grows := (within next (List.mem_cons_of_mem _ List.mem_cons_self)).grows
      have reach := below next List.mem_cons_self
      omega
    · exact below span later

theorem holds (covers : comment.Covers source first others) {span : Span}
    (member : span ∈ first :: others) :
    comment.start ≤ span.start ∧ span.stop ≤ comment.stop := by
  rw [covers.start, covers.stop]
  refine ⟨?_, stop_le_getLastD covers.within covers.ordered member⟩
  have firstWithin := covers.within first List.mem_cons_self
  have indent := firstWithin.indented.2.1
  rcases List.mem_cons.mp member with rfl | later
  · exact indent
  · have order := List.rel_of_pairwise_cons covers.ordered later
    have grows := firstWithin.grows
    omega

theorem grows (covers : comment.Covers source first others) : comment.start < comment.stop := by
  have bounds := covers.holds List.mem_cons_self
  have grows := (covers.within first List.mem_cons_self).grows
  omega

theorem start_boundary (covers : comment.Covers source first others) :
    Text.IsBoundary source comment.start := by
  rw [covers.start]
  exact (covers.within first List.mem_cons_self).indented.1

theorem stop_boundary (covers : comment.Covers source first others) :
    Text.IsBoundary source comment.stop := by
  rw [covers.stop]
  exact (covers.within _ List.getLastD_mem_cons).last

end Comment.Covers

/-- Comments that cover runs one by one, each behind the one before it. -/
inductive Woven (source : Text) : Nat → List (List Span) → List Comment → Prop
  | done {cursor : Nat} (inside : cursor ≤ Text.bytes source) : Woven source cursor [] []
  | comment {cursor : Nat} {first : Span} {others : List Span} {runs : List (List Span)}
      {comment : Comment} {comments : List Comment} (behind : cursor ≤ comment.start)
      (covers : comment.Covers source first others) (rest : Woven source comment.stop runs comments) :
      Woven source cursor ((first :: others) :: runs) (comment :: comments)

theorem Runs.woven {source : Text} {runs : List (List Span)} {cursor : Nat}
    (grouped : Runs source runs) (inside : cursor ≤ Text.bytes source)
    (behind : ∀ first others more, runs = (first :: others) :: more →
      cursor ≤ first.indentedStart source) :
    Woven source cursor runs (runs.filterMap (Comment.ofSpans? source)) := by
  induction runs generalizing cursor with
  | nil => exact .done inside
  | cons run runs ih =>
    cases run with
    | nil => exact absurd List.mem_cons_self grouped.filled
    | cons first others =>
      have member : ∀ span ∈ first :: others, span ∈ ((first :: others) :: runs).flatten := by
        intro span member
        rw [List.flatten_cons]
        exact List.mem_append_left _ member
      have lastWithin := grouped.within _ (member _ List.getLastD_mem_cons)
      have ordered := grouped.ordered
      rw [List.flatten_cons, List.pairwise_append] at ordered
      rw [List.filterMap_cons_some (Comment.ofSpans?_of_documentation source
        (grouped.documentation _ List.mem_cons_self))]
      refine .comment (behind first others runs rfl) ?_ (ih grouped.tail lastWithin.last.le_bytes ?_)
      · exact ⟨fun span here => grouped.within span (member span here), ordered.1,
          grouped.adjoined _ List.mem_cons_self, rfl, rfl⟩
      · -- the next run does not adjoin this one, so its indentation begins behind it
        intro next others' more split
        subst split
        have nextMember : next ∈ ((next :: others') :: more).flatten := by
          rw [List.flatten_cons]
          exact List.mem_append_left _ List.mem_cons_self
        obtain ⟨_, _, separate⟩ := (List.isChain_cons_cons.mp grouped.apart).1
        rw [List.getLast_eq_getLastD, List.head_cons] at separate
        have order := ordered.2.2 _ List.getLastD_mem_cons next nextMember
        exact (grouped.tail.within next nextMember).stop_le_indentedStart lastWithin order
          (by rw [separate]; exact Bool.false_ne_true)

theorem Lexing.runs {grammar : Grammar} {source : Text} {spans : List Span}
    (lexing : Lexing grammar source spans) :
    Runs source ((spans.filter Span.isDocumentation).splitBy (Segment.adjoins source)) where
  filled := List.nil_notMem_splitBy _ _
  documentation := by
    intro run runMember span member
    have inside : span ∈ ((spans.filter Span.isDocumentation).splitBy
        (Segment.adjoins source)).flatten := List.mem_flatten_of_mem runMember member
    rw [List.flatten_splitBy] at inside
    exact (List.mem_filter.mp inside).2
  within := by
    intro span member
    rw [List.flatten_splitBy] at member
    exact lexing.within (List.mem_filter.mp member).1
  ordered := by
    rw [List.flatten_splitBy]
    exact lexing.ordered.filter _
  adjoined := fun run member => List.isChain_of_mem_splitBy member
  apart := List.isChain_getLast_head_splitBy _ _

theorem Lexing.woven {grammar : Grammar} {source : Text} {spans : List Span}
    (lexing : Lexing grammar source spans) :
    Woven source 0 ((spans.filter Span.isDocumentation).splitBy (Segment.adjoins source))
      (Segment.documentationComments source spans) :=
  lexing.runs.woven (Nat.zero_le _) fun _ _ _ _ => Nat.zero_le _

end SourceDocs
