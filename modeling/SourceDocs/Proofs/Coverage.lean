import SourceDocs.Document
import SourceDocs.Proofs.Runs
import SourceDocs.Proofs.WellFormedTables

/-!
Nothing but documentation leaves the code, and no documentation is lost. What the code segments leave
out of the source is the documentation comments, the gaps inside of their runs and the indentation in
front of the runs; only the comments have visible characters.
-/

namespace SourceDocs

namespace Text

def visible (source : Text) : Text := source.filter (!isSpace ·)

@[simp] theorem visible_append (first second : Text) :
    visible (first ++ second) = visible first ++ visible second := List.filter_append _ _

theorem visible_of_isBlank {source : Text} (blank : isBlank source = true) :
    visible source = [] := by
  rw [isBlank, List.all_eq_true] at blank
  rw [visible, List.filter_eq_nil_iff]
  intro c member
  rw [blank c member]
  decide

def outside (source : Text) : Nat → List (Nat × Nat) → Text
  | cursor, [] => slice source cursor (bytes source)
  | cursor, range :: ranges => slice source cursor range.1 ++ outside source range.2 ranges

/-- The text outside of ranges can be taken in two steps, the first in front of all ranges. -/
theorem slice_append_outside {source : Text} {start middle : Nat} {ranges : List (Nat × Nat)}
    (first : IsBoundary source start) (second : IsBoundary source middle) (order : start ≤ middle)
    (boundaries : ∀ range ∈ ranges, IsBoundary source range.1)
    (behind : ∀ range ∈ ranges, middle ≤ range.1) :
    slice source start middle ++ outside source middle ranges = outside source start ranges := by
  cases ranges with
  | nil =>
    exact slice_append_slice first second (isBoundary_bytes source) order second.le_bytes
  | cons range ranges =>
    have third := boundaries range List.mem_cons_self
    have later := behind range List.mem_cons_self
    rw [outside, outside, ← List.append_assoc, slice_append_slice first second third order later]

end Text

/-- The spans that are no documentation are the text outside of the documentation. -/
theorem flatMap_text_eq_outside {source : Text} {spans : List Span} {start : Nat}
    (boundary : Text.IsBoundary source start)
    (tiles : Tile start (Text.bytes source) (spans.map Span.range))
    (within : ∀ span ∈ spans, span.Within source) :
    (spans.filter (!·.isDocumentation)).flatMap Span.text =
      Text.outside source start ((spans.filter Span.isDocumentation).map Span.range) := by
  induction spans generalizing start with
  | nil =>
    have done : start = Text.bytes source := tiles
    change [] = Text.slice source start (Text.bytes source)
    rw [done, Text.slice_self]
  | cons span spans ih =>
    obtain ⟨begins, _, others⟩ := tiles
    have here := within span List.mem_cons_self
    have startEq : span.start = start := begins
    have below := ih here.last others fun other later => within other (List.mem_cons_of_mem _ later)
    cases documentation : span.isDocumentation with
    | true =>
      rw [List.filter_cons_of_neg (by simp [documentation]), List.filter_cons_of_pos documentation,
        List.map_cons, Text.outside, below, ← startEq]
      change _ = Text.slice source span.start span.start ++ _
      rw [Text.slice_self]
      rfl
    | false =>
      rw [List.filter_cons_of_pos (by simp [documentation]),
        List.filter_cons_of_neg (by simp [documentation]), List.flatMap_cons, below, here.text,
        startEq]
      refine Text.slice_append_outside boundary here.last (by have := here.grows; omega) ?_ ?_
      · intro range member
        obtain ⟨other, otherMember, rfl⟩ := List.mem_map.mp member
        have later := (List.mem_filter.mp otherMember).1
        exact (within other (List.mem_cons_of_mem _ later)).first
      · intro range member
        obtain ⟨other, otherMember, rfl⟩ := List.mem_map.mp member
        have later := (List.mem_filter.mp otherMember).1
        exact others.start_le (List.mem_map_of_mem later)

namespace Segment

theorem codeBetween_flatMap_text (source language : Text) (start stop : Nat) :
    (codeBetween source language start stop).flatMap text = Text.slice source start stop := by
  unfold codeBetween
  split
  next => simp [text]
  next stuck =>
    have size : stop - start = 0 := by omega
    rw [Text.slice, size, Text.takeBytes_zero]
    rfl

theorem filter_codeBetween (source language : Text) (start stop : Nat) :
    (codeBetween source language start stop).filter (!·.isDocumentation) =
      codeBetween source language start stop := by
  unfold codeBetween
  split <;> rfl

theorem weave_code (source language : Text) (cursor : Nat) (comments : List Comment) :
    ((weave source language cursor comments).filter (!·.isDocumentation)).flatMap text =
      Text.outside source cursor (comments.map fun comment => (comment.start, comment.stop)) := by
  induction comments generalizing cursor with
  | nil => rw [weave, filter_codeBetween, codeBetween_flatMap_text, List.map_nil, Text.outside]
  | cons comment comments ih =>
    rw [weave, List.filter_append, filter_codeBetween,
      List.filter_cons_of_neg (by simp [isDocumentation]), List.flatMap_append,
      codeBetween_flatMap_text, ih, List.map_cons, Text.outside]

theorem weave_documentation (source language : Text) (cursor : Nat) (comments : List Comment) :
    (weave source language cursor comments).filter isDocumentation =
      comments.map fun comment => .documentation comment.text comment.start comment.stop := by
  have code : ∀ start stop,
      (codeBetween source language start stop).filter isDocumentation = [] := by
    intro start stop
    unfold codeBetween
    split <;> rfl
  induction comments generalizing cursor with
  | nil => rw [weave, code, List.map_nil]
  | cons comment comments ih =>
    rw [weave, List.filter_append, code, List.nil_append, List.filter_cons_of_pos rfl, ih,
      List.map_cons]

end Segment

def Span.liesBetween (start stop : Nat) (span : Span) : Bool :=
  start ≤ span.start && span.stop ≤ stop

theorem Span.liesBetween_iff {start stop : Nat} {span : Span} :
    span.liesBetween start stop = true ↔ start ≤ span.start ∧ span.stop ≤ stop := by
  simp [liesBetween]

/-- Inside of a run nothing visible stands outside of the spans. -/
theorem visible_outside_run {source : Text} {first : Span} {others : List Span}
    (ranges : List (Nat × Nat))
    (adjoined : (first :: others).IsChain fun first second =>
      Segment.adjoins source first second = true) :
    Text.visible (Text.outside source first.stop (others.map Span.range ++ ranges)) =
      Text.visible (Text.outside source (others.getLastD first).stop ranges) := by
  induction others generalizing first with
  | nil => rfl
  | cons next others ih =>
    have joins := (List.isChain_cons_cons.mp adjoined).1
    rw [Segment.adjoins, Bool.and_eq_true] at joins
    have gap := Text.visible_of_isBlank joins.1
    rw [List.map_cons, List.cons_append, Text.outside, Text.visible_append]
    change Text.visible (Text.slice source first.stop next.start) ++ _ = _
    rw [gap, List.nil_append, List.getLastD_cons]
    exact ih adjoined.tail

namespace Woven

variable {source : Text} {cursor : Nat} {runs : List (List Span)} {comments : List Comment}

theorem within (woven : Woven source cursor runs comments) {span : Span}
    (member : span ∈ runs.flatten) : span.Within source := by
  induction woven with
  | done inside => cases member
  | comment behind covers rest ih =>
    rw [List.flatten_cons, List.mem_append] at member
    rcases member with here | later
    · exact covers.within span here
    · exact ih later

theorem cursor_le_span (woven : Woven source cursor runs comments) {span : Span}
    (member : span ∈ runs.flatten) : cursor ≤ span.start := by
  induction woven with
  | done inside => cases member
  | comment behind covers rest ih =>
    rw [List.flatten_cons, List.mem_append] at member
    rcases member with here | later
    · exact Nat.le_trans behind (covers.holds here).1
    · have below := ih later
      have grows := covers.grows
      omega

theorem cursor_le_comment (woven : Woven source cursor runs comments) {comment : Comment}
    (member : comment ∈ comments) : cursor ≤ comment.start := by
  induction woven with
  | done inside => cases member
  | comment behind covers rest ih =>
    rcases List.mem_cons.mp member with rfl | later
    · exact behind
    · have below := ih later
      have grows := covers.grows
      omega

/-- The comments leave out the same visible characters as the spans that they cover. -/
theorem visible_outside (woven : Woven source cursor runs comments)
    (boundary : Text.IsBoundary source cursor) :
    Text.visible (Text.outside source cursor (runs.flatten.map Span.range)) =
      Text.visible (Text.outside source cursor
        (comments.map fun comment => (comment.start, comment.stop))) := by
  induction woven with
  | done inside => rfl
  | @comment cursor first others runs comment comments behind covers rest ih =>
    have firstWithin := covers.within first List.mem_cons_self
    obtain ⟨_, order, indent⟩ := firstWithin.indented
    rw [← covers.start] at order indent
    have padding : Text.visible (Text.slice source comment.start first.start) = [] := by
      rw [indent]
      exact Text.visible_of_isBlank (Text.isBlank_of_padding (Comment.indentation_padding _))
    -- the comment begins earlier than its first span, by padding only
    have front : Text.visible (Text.slice source cursor first.start) =
        Text.visible (Text.slice source cursor comment.start) := by
      rw [← Text.slice_append_slice boundary covers.start_boundary firstWithin.first behind order,
        Text.visible_append, padding, List.append_nil]
    have inside := visible_outside_run (runs.flatten.map Span.range) covers.adjoined
    rw [← covers.stop, ih covers.stop_boundary] at inside
    rw [List.flatten_cons, List.map_append, List.map_cons, List.map_cons, List.cons_append,
      Text.outside, Text.outside, Text.visible_append, Text.visible_append]
    change Text.visible (Text.slice source cursor first.start) ++
      Text.visible (Text.outside source first.stop _) = _
    rw [front, inside]

theorem countP_liesBetween (woven : Woven source cursor runs comments) {span : Span}
    (member : span ∈ runs.flatten) :
    comments.countP (fun comment => span.liesBetween comment.start comment.stop) = 1 := by
  induction woven with
  | done inside => cases member
  | @comment cursor first others runs comment comments behind covers rest ih =>
    rw [List.flatten_cons, List.mem_append] at member
    rcases member with here | later
    · have bounds := covers.holds here
      have grows := (covers.within span here).grows
      have elsewhere :
          comments.countP (fun other => span.liesBetween other.start other.stop) = 0 := by
        rw [List.countP_eq_zero]
        intro other otherMember inside
        have reach := rest.cursor_le_comment otherMember
        rw [Span.liesBetween_iff] at inside
        omega
      rw [List.countP_cons, elsewhere, if_pos (Span.liesBetween_iff.mpr bounds)]
    · have reach := rest.cursor_le_span later
      have grows := (rest.within later).grows
      have outside : ¬span.liesBetween comment.start comment.stop = true := by
        rw [Span.liesBetween_iff]
        omega
      rw [List.countP_cons, ih later, if_neg outside]

theorem filter_liesBetween (woven : Woven source cursor runs comments) {comment : Comment}
    (member : comment ∈ comments) :
    ∃ first others, comment.Covers source first others ∧
      runs.flatten.filter (Span.liesBetween comment.start comment.stop) = first :: others := by
  induction woven with
  | done inside => cases member
  | @comment cursor first others runs here comments behind covers rest ih =>
    rw [List.flatten_cons, List.filter_append]
    rcases List.mem_cons.mp member with rfl | later
    · refine ⟨first, others, covers, ?_⟩
      have all : (first :: others).filter (Span.liesBetween comment.start comment.stop) =
          first :: others := by
        rw [List.filter_eq_self]
        intro span inside
        exact Span.liesBetween_iff.mpr (covers.holds inside)
      have none : runs.flatten.filter (Span.liesBetween comment.start comment.stop) = [] := by
        rw [List.filter_eq_nil_iff]
        intro span elsewhere inside
        have reach := rest.cursor_le_span elsewhere
        have grows := (rest.within elsewhere).grows
        rw [Span.liesBetween_iff] at inside
        omega
      rw [all, none, List.append_nil]
    · obtain ⟨first', others', covers', inside⟩ := ih later
      refine ⟨first', others', covers', ?_⟩
      have none : (first :: others).filter (Span.liesBetween comment.start comment.stop) = [] := by
        rw [List.filter_eq_nil_iff]
        intro span elsewhere inside
        have bounds := covers.holds elsewhere
        have grows := (covers.within span elsewhere).grows
        have reach := rest.cursor_le_comment later
        rw [Span.liesBetween_iff] at inside
        omega
      rw [none, List.nil_append, inside]

end Woven

/-- Every documentation comment lies inside one piece of documentation. Every piece holds such
comments, ends with the last of them and begins with the first, or with padding in front of it. -/
structure Segment.KeepsDocumentation (source : Text) (spans : List Span) (segments : List Segment) :
    Prop where
  kept : ∀ span ∈ spans, span.isDocumentation = true →
    segments.countP (fun segment =>
      segment.isDocumentation && span.liesBetween segment.start segment.stop) = 1
  anchored : ∀ segment ∈ segments, segment.isDocumentation = true →
    ∃ first others,
      (spans.filter Span.isDocumentation).filter (Span.liesBetween segment.start segment.stop) =
        first :: others ∧
      segment.stop = ((first :: others).getLast (List.cons_ne_nil _ _)).stop ∧
      segment.start ≤ first.start ∧
      (Text.slice source segment.start first.start).all Text.isPadding = true

namespace Lexing

variable {grammar : Grammar} {source : Text} {spans : List Span}

theorem visible_code (lexing : Lexing grammar source spans) (language : Text) :
    Text.visible (((Segment.weave source language 0
        (Segment.documentationComments source spans)).filter (!·.isDocumentation)).flatMap
          Segment.text) =
      Text.visible ((spans.filter (!·.isDocumentation)).flatMap Span.text) := by
  have start := Text.isBoundary_zero source
  have spansOutside := flatMap_text_eq_outside start lexing.tiles fun _ member =>
    lexing.within member
  have same := lexing.woven.visible_outside start
  rw [List.flatten_splitBy] at same
  rw [Segment.weave_code, spansOutside, same]

theorem keepsDocumentation (lexing : Lexing grammar source spans) (language : Text) :
    Segment.KeepsDocumentation source spans
      (Segment.weave source language 0 (Segment.documentationComments source spans)) := by
  have woven := lexing.woven
  constructor
  · intro span member documentation
    have inside : span ∈ ((spans.filter Span.isDocumentation).splitBy
        (Segment.adjoins source)).flatten := by
      rw [List.flatten_splitBy]
      exact List.mem_filter.mpr ⟨member, documentation⟩
    calc
      _ = ((Segment.weave source language 0 (Segment.documentationComments source spans)).filter
          Segment.isDocumentation).countP fun segment =>
            span.liesBetween segment.start segment.stop := by
        rw [List.countP_filter]
        simp only [Bool.and_comm]
      _ = (Segment.documentationComments source spans).countP fun comment =>
          span.liesBetween comment.start comment.stop := by
        rw [Segment.weave_documentation, List.countP_map]
        rfl
      _ = 1 := woven.countP_liesBetween inside
  · intro segment member documentation
    have commentMember : segment ∈ (Segment.weave source language 0
        (Segment.documentationComments source spans)).filter Segment.isDocumentation :=
      List.mem_filter.mpr ⟨member, documentation⟩
    rw [Segment.weave_documentation] at commentMember
    obtain ⟨comment, inside, rfl⟩ := List.mem_map.mp commentMember
    obtain ⟨first, others, covers, here⟩ := woven.filter_liesBetween inside
    rw [List.flatten_splitBy] at here
    obtain ⟨_, order, indent⟩ := (covers.within first List.mem_cons_self).indented
    rw [← covers.start] at order indent
    refine ⟨first, others, here, ?_, order, ?_⟩
    · rw [List.getLast_eq_getLastD]
      exact covers.stop
    · change (Text.slice source comment.start first.start).all Text.isPadding = true
      rw [indent]
      exact Comment.indentation_padding _

theorem visible_of_isBlank (lexing : Lexing grammar source spans)
    (blank : Text.isBlank source = true) (select : Span → Bool) :
    Text.visible ((spans.filter select).flatMap Span.text) = [] := by
  apply Text.visible_of_isBlank
  rw [Text.isBlank, List.all_eq_true] at blank ⊢
  intro c member
  obtain ⟨span, spanMember, inside⟩ := List.mem_flatMap.mp member
  obtain ⟨before, after, whole, _⟩ := lexing.reads span (List.mem_filter.mp spanMember).1
  apply blank
  rw [whole]
  exact List.mem_append_left _ (List.mem_append_right _ inside)

end Lexing

namespace Document

/-- Code shows what the spans show that are no documentation, and documentation keeps the rest. -/
theorem documentation_separated (grammar : Grammar) (source : Text) :
    Text.visible (ofSource grammar source).codeText =
        Text.visible (((Scan.ofSource grammar source).spans.filter (!·.isDocumentation)).flatMap
          Span.text) ∧
      (Text.isBlank source = false →
        Segment.KeepsDocumentation source (Scan.ofSource grammar source).spans
          (ofSource grammar source).segments) := by
  have lexing := Scan.lexing_spans grammar source
  simp only [codeText, ofSource, Segment.ofSpans]
  cases blank : Text.isBlank source with
  | true =>
    rw [lexing.visible_of_isBlank blank]
    exact ⟨rfl, by simp⟩
  | false =>
    exact ⟨lexing.visible_code grammar.highlight,
      fun _ => lexing.keepsDocumentation grammar.highlight⟩

/-- Documentation behind a literal that holds its marker, on two lines, and in front of a comment that
is none. -/
def mingled : Text := "'/// a'\n\t/// b\n %% c\n/* d */".toList

theorem documentation_separated_mingled :
    Grammar.compile "Sundry".toList .sundry = .ok .sundry ∧ Text.isBlank mingled = false ∧
      Text.visible (ofSource .sundry mingled).codeText = "'///a'/*d*/".toList ∧
      Segment.KeepsDocumentation mingled (Scan.ofSource .sundry mingled).spans
        (ofSource .sundry mingled).segments := by
  obtain ⟨visible, keeps⟩ := documentation_separated .sundry mingled
  exact ⟨by decide +kernel, by decide +kernel, visible.trans (by decide +kernel),
    keeps (by decide +kernel)⟩

end Document

end SourceDocs
