import SourceDocs.Document
import SourceDocs.Proofs.LongestMatch
import SourceDocs.Proofs.Normalizing
import SourceDocs.Proofs.Recovery

/-!
Writing documentation as line comments and reading it back. Every line of prose is written behind the
marker and one space; the lines read back are one piece of documentation with the same prose, whatever
markers and quotes the prose contains.
-/

namespace SourceDocs

/-- Inside of a line that ends in no carriage return no line break begins, whatever follows. -/
theorem Text.clear_of_unbroken {line after : Text} (unbroken : '\n' ∉ line)
    (unreturned : line.getLast? ≠ some '\r') : Clear (atLineBreak · = true) line after := by
  induction line with
  | nil => exact clear_nil
  | cons c line ih =>
    rw [List.mem_cons, not_or] at unbroken
    have below : line.getLast? ≠ some '\r' := by
      intro ends
      obtain ⟨front, split⟩ := List.getLast?_eq_some_iff.mp ends
      rw [split, ← List.cons_append, List.getLast?_concat] at unreturned
      exact unreturned rfl
    refine clear_cons_iff.mpr ⟨?_, ih unbroken.2 below⟩
    intro broken
    rcases isPrefix_of_atLineBreak broken with feed | both
    · exact unbroken.1 (List.cons_prefix_cons.mp feed).1
    · obtain ⟨rfl, feed⟩ := List.cons_prefix_cons.mp both
      cases line with
      | nil => exact unreturned rfl
      | cons d line => exact unbroken.2 ((List.cons_prefix_cons.mp feed).1 ▸ List.mem_cons_self)

/-- A marker of documentation that opens a comment wherever a space follows it. -/
structure Grammar.WritesLines (grammar : Grammar) (line : LineMarker) : Prop where
  declared : line ∈ grammar.lineMarkers
  documentation : line.documentation = true
  visible : Text.isBlank line.marker.text = false
  alone : ∀ marker ∈ grammar.openings, ¬line.marker.text ++ [' '] <+: marker.text

namespace LineMarker

variable {grammar : Grammar} {id : Text} {table : LanguageTable} {index : Nat} {line : LineMarker}
  {prose : Text} {lines : List Text}

def write (line : LineMarker) (prose : Text) : Text := line.marker.text ++ ' ' :: prose

def writeLines (line : LineMarker) (lines : List Text) : Text := Text.joinLines (lines.map line.write)

def lexemes (index : Nat) (line : LineMarker) : List Text → List Lexeme
  | [] => []
  | [prose] => [⟨.line index line, line.write prose⟩]
  | prose :: next :: others =>
    ⟨.line index line, line.write prose⟩ :: ⟨.code, ['\n']⟩ :: lexemes index line (next :: others)

def span (index : Nat) (line : LineMarker) (start : Nat) (prose : Text) : Span :=
  ⟨.line index line, start, start + Text.bytes (line.write prose), line.write prose⟩

def spans (index : Nat) (line : LineMarker) : Nat → List Text → List Span
  | _, [] => []
  | start, prose :: others =>
    span index line start prose ::
      spans index line (start + Text.bytes (line.write prose) + 1) others

theorem writeLines_cons_cons (line : LineMarker) (prose next : Text) (others : List Text) :
    line.writeLines (prose :: next :: others) =
      line.write prose ++ '\n' :: line.writeLines (next :: others) := by
  rw [writeLines, List.map_cons, Text.joinLines_cons (by simp)]
  rfl

theorem writeLines_singleton (line : LineMarker) (prose : Text) :
    line.writeLines [prose] = line.write prose := Text.joinLines_singleton _

theorem exists_writeLines (line : LineMarker) (prose : Text) (others : List Text) :
    ∃ after, line.writeLines (prose :: others) = line.write prose ++ after := by
  cases others with
  | nil => exact ⟨[], by rw [writeLines_singleton, List.append_nil]⟩
  | cons next others => exact ⟨_, writeLines_cons_cons line prose next others⟩

theorem write_ne_nil (line : LineMarker) (prose : Text) : line.write prose ≠ [] :=
  List.append_ne_nil_of_left_ne_nil line.marker.text_ne_nil _

theorem reads_feed (feeds : ∀ marker ∈ grammar.openings, '\n' ∉ marker.text) (after : Text) :
    Reads grammar ['\n'] after .code := by
  have quiet : grammar.openerAt ('\n' :: after) = none := by
    rw [Grammar.openerAt_eq_none_iff]
    intro marker member stands
    have first := (List.cons_prefix_cons.mp stands).1
    exact feeds marker member (first ▸ List.mem_cons_self)
  change Text.Clear (grammar.openerAt · ≠ none) ['\n'] after
  rw [Text.clear_cons_iff]
  exact ⟨not_not_intro quiet, Text.clear_nil⟩

section Lexemes

variable (compiled : Grammar.compile id table = .ok grammar) (writes : grammar.WritesLines line)
  (declared : grammar.lineMarkers[index]? = some line)

include compiled writes declared

theorem openerAt_write (prose after : Text) :
    grammar.openerAt (line.write prose ++ after) = some (.line index line) := by
  refine Grammar.openerAt_of_longest compiled ⟨⟨declared, ?_⟩, ?_⟩ (by simp [Opener.purpose])
  · rw [write, List.append_assoc]
    exact List.prefix_append _ _
  rintro other ⟨declares, stands⟩
  have front : line.marker.text ++ [' '] <+: line.write prose ++ after := by
    refine ⟨prose ++ after, ?_⟩
    rw [write, List.append_assoc, List.append_assoc]
    rfl
  -- what stands here is inside the marker or reaches over the space behind it
  have shorter : other.marker.text <+: line.marker.text ++ [' '] := by
    rcases List.prefix_or_prefix_of_prefix stands front with within | beyond
    · exact within
    · exact absurd beyond (writes.alone _ declares.mem_openings)
  rcases List.prefix_concat_iff.mp shorter with same | within
  · exact absurd (same ▸ List.prefix_rfl) (writes.alone _ declares.mem_openings)
  · exact Marker.bytes_le_of_begins within

theorem reads_write {after : Text} (unbroken : '\n' ∉ prose)
    (unreturned : prose.getLast? ≠ some '\r') (ends : after = [] ∨ Text.atLineBreak after = true) :
    Reads grammar (line.write prose) after (.line index line) := by
  refine ⟨openerAt_write compiled writes declared prose after, ' ' :: prose, rfl, ?_, ends⟩
  apply Text.clear_of_unbroken
  · rw [List.mem_cons, not_or]
    exact ⟨by decide, unbroken⟩
  · cases prose with
    | nil => decide
    | cons c prose => rwa [List.getLast?_cons_cons]

theorem lexes_writeLines (feeds : ∀ marker ∈ grammar.openings, '\n' ∉ marker.text)
    (unbroken : ∀ prose ∈ lines, '\n' ∉ prose)
    (unreturned : ∀ prose ∈ lines, prose.getLast? ≠ some '\r') :
    Lexes grammar (line.writeLines lines) (line.lexemes index lines) [] := by
  induction lines with
  | nil => rfl
  | cons prose others ih =>
    obtain ⟨here, below⟩ := List.forall_mem_cons.mp unbroken
    obtain ⟨here', below'⟩ := List.forall_mem_cons.mp unreturned
    cases others with
    | nil =>
      rw [writeLines_singleton]
      exact ⟨[], (List.append_nil _).symm, write_ne_nil line prose,
        reads_write compiled writes declared here here' (.inl rfl), by simp, rfl⟩
    | cons next others =>
      rw [writeLines_cons_cons]
      refine ⟨_, rfl, write_ne_nil line prose,
        reads_write compiled writes declared here here' (.inr rfl), by simp, ?_⟩
      refine ⟨_, List.singleton_append.symm, List.cons_ne_nil _ _, reads_feed feeds _,
        fun _ => .inr ?_, ih below below'⟩
      obtain ⟨after, begins⟩ := exists_writeLines line next others
      rw [begins, openerAt_write compiled writes declared]
      simp

end Lexemes

theorem raised_lexemes (start : Place) (lines : List Text) :
    Lexeme.raised start (line.lexemes index lines) = [] := by
  induction lines generalizing start with
  | nil => rfl
  | cons prose others ih =>
    cases others with
    | nil => rfl
    | cons next others => exact ih _

theorem filter_place (documentation : line.documentation = true) (start : Place)
    (lines : List Text) :
    (Lexeme.place start (line.lexemes index lines)).filter Span.isDocumentation =
      line.spans index start.offset lines := by
  have comment : ∀ start stop text,
      Span.isDocumentation ⟨.line index line, start, stop, text⟩ = true := by
    intro start stop text
    rw [Span.isDocumentation, SpanKind.documentation?, documentation, beq_self_eq_true]
  induction lines generalizing start with
  | nil => rfl
  | cons prose others ih =>
    cases others with
    | nil =>
      rw [lexemes, Lexeme.place, List.filter_cons_of_pos (comment _ _ _), Place.offset_advance]
      rfl
    | cons next others =>
      have feed : Text.bytes ['\n'] = 1 := by decide
      rw [lexemes, Lexeme.place, List.filter_cons_of_pos (comment _ _ _), Lexeme.place,
        List.filter_cons_of_neg (by simp [Span.isDocumentation, SpanKind.documentation?]), ih]
      simp only [Place.offset_advance, feed]
      rfl

theorem isChain_spans {source before : Text} (whole : source = before ++ line.writeLines lines) :
    (line.spans index (Text.bytes before) lines).IsChain
      fun first second => Segment.adjoins source first second = true := by
  induction lines generalizing before with
  | nil => exact .nil
  | cons prose others ih =>
    cases others with
    | nil => exact .singleton _
    | cons next others =>
      have feed : Text.bytes ['\n'] = 1 := by decide
      have split : source =
          before ++ line.write prose ++ ['\n'] ++ line.writeLines (next :: others) := by
        rw [whole, writeLines_cons_cons]
        simp only [List.append_assoc, List.singleton_append]
      have later := ih split
      rw [Text.bytes_append, Text.bytes_append, feed] at later
      refine .cons_cons ?_ later
      have gap : Text.slice source (Text.bytes before + Text.bytes (line.write prose))
          (Text.bytes before + Text.bytes (line.write prose) + 1) = ['\n'] := by
        rw [split]
        exact Text.slice_append (Text.bytes_append _ _) (by rw [feed])
      unfold Segment.adjoins
      dsimp only [span]
      rw [gap]
      decide

theorem stop_getLastD_spans (start : Nat) (prose : Text) (others : List Text) :
    ((line.spans index (start + Text.bytes (line.write prose) + 1) others).getLastD
      (line.span index start prose)).stop =
      start + Text.bytes (line.writeLines (prose :: others)) := by
  induction others generalizing start prose with
  | nil =>
    rw [writeLines_singleton]
    rfl
  | cons next others ih =>
    have feed : '\n'.utf8Size = 1 := by decide
    rw [spans, List.getLastD_cons, ih, writeLines_cons_cons, Text.bytes_append, Text.bytes_cons, feed]
    omega

theorem map_ofSpan_spans (start : Nat) (lines : List Text) :
    (line.spans index start lines).map Comment.ofSpan = lines := by
  induction lines generalizing start with
  | nil => rfl
  | cons prose others ih =>
    rw [spans, List.map_cons, ih]
    refine congrArg (· :: others) ?_
    change Text.dropPadding (Comment.lineBody line (line.marker.text ++ ' ' :: prose)) = prose
    have stands : line.marker.text.isPrefixOf? (line.marker.text ++ ' ' :: prose) =
        some (' ' :: prose) := List.isPrefixOf?_eq_some_iff_append_eq.mpr rfl
    rw [Comment.lineBody, stands]
    rfl

theorem documentationComments_writeLines (documentation : line.documentation = true) (prose : Text)
    (others : List Text) :
    Segment.documentationComments (line.writeLines (prose :: others))
        (Lexeme.place .start (line.lexemes index (prose :: others))) =
      [⟨Text.joinLines (prose :: others), true, [], 0,
        Text.bytes (line.writeLines (prose :: others))⟩] := by
  have comments : (Lexeme.place .start (line.lexemes index (prose :: others))).filter
      Span.isDocumentation = line.spans index 0 (prose :: others) := filter_place documentation _ _
  have isDocumentation : ∀ span ∈ line.spans index 0 (prose :: others),
      span.isDocumentation = true := by
    intro span member
    rw [← comments] at member
    exact (List.mem_filter.mp member).2
  have adjoined : (line.spans index 0 (prose :: others)).IsChain fun first second =>
      Segment.adjoins (line.writeLines (prose :: others)) first second = true :=
    isChain_spans (List.nil_append _).symm
  have nonempty : line.spans index 0 (prose :: others) ≠ [] := List.cons_ne_nil _ _
  have comment := Comment.ofSpans?_of_documentation (line.writeLines (prose :: others))
    isDocumentation
  have start : (line.span index 0 prose).start = 0 := rfl
  rw [← spans, map_ofSpan_spans, stop_getLastD_spans, Nat.zero_add, Span.indentedStart, start,
    Text.takeBytes_zero] at comment
  rw [Segment.documentationComments, comments, List.splitBy_of_isChain nonempty adjoined,
    List.filterMap_cons_some comment]
  rfl

end LineMarker

/-- Lines of prose that are written as documentation comments are read back as one piece of
documentation, and nothing is reported. -/
theorem Document.ofSource_writtenLines {id : Text} {table : LanguageTable} {grammar : Grammar}
    {line : LineMarker} {lines : List Text} (compiled : Grammar.compile id table = .ok grammar)
    (feeds : ∀ marker ∈ grammar.openings, '\n' ∉ marker.text)
    (writes : grammar.WritesLines line) (nonempty : lines ≠ [])
    (unbroken : ∀ prose ∈ lines, '\n' ∉ prose)
    (unreturned : ∀ prose ∈ lines, prose.getLast? ≠ some '\r') :
    ofSource grammar (line.writeLines lines) =
      ⟨grammar.id, [.documentation (Text.joinLines lines) 0 (Text.bytes (line.writeLines lines))],
        []⟩ := by
  obtain ⟨index, declared⟩ := List.mem_iff_getElem?.mp writes.declared
  have lexes := LineMarker.lexes_writeLines compiled writes declared feeds unbroken unreturned
  obtain ⟨prose, others, rfl⟩ := List.exists_cons_of_ne_nil nonempty
  have visible : ¬Text.isBlank (line.writeLines (prose :: others)) = true := by
    obtain ⟨after, begins⟩ := line.exists_writeLines prose others
    have marker := writes.visible
    unfold Text.isBlank at marker ⊢
    rw [begins, LineMarker.write, List.all_append, List.all_append, marker]
    simp
  rw [ofSource, Scan.ofSource_of_lexes lexes]
  dsimp only
  rw [LineMarker.raised_lexemes, Segment.ofSpans, if_neg visible,
    LineMarker.documentationComments_writeLines writes.documentation, Segment.weave, Segment.weave,
    Segment.codeBetween, if_neg (Nat.lt_irrefl 0), Segment.codeBetween, if_neg (Nat.lt_irrefl _)]
  rfl

/-- An empty line, blanks at both ends of a line, a string delimiter, a marker and a lone carriage
return all stay in the prose. -/
theorem Document.ofSource_writtenLines_sundry :
    ofSource .sundry (LineMarker.writeLines ⟨⟨'/', ['/', '/']⟩, true⟩
        ["  padded\t".toList, [], "a ' and /* b".toList, "x\ry".toList]) =
      ⟨"sundry".toList, [.documentation "  padded\t\n\na ' and /* b\nx\ry".toList 0 43], []⟩ := by
  have compiled : Grammar.compile "Sundry".toList .sundry = .ok .sundry := by decide +kernel
  have writes : Grammar.sundry.WritesLines ⟨⟨'/', ['/', '/']⟩, true⟩ := by
    constructor <;> decide +kernel
  refine (ofSource_writtenLines compiled ?_ writes ?_ ?_ ?_).trans ?_
  all_goals decide +kernel

end SourceDocs
