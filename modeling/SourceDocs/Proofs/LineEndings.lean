import SourceDocs.Document
import SourceDocs.Proofs.CarriageReturns
import SourceDocs.Proofs.MovedSpans
import SourceDocs.Proofs.Priority
import SourceDocs.Proofs.WrittenBlocks

/-!
Documents of a source text with either line ending, for grammars whose markers have no line ending
in them. The same constructs open and close at the same places, so the documentation is the same and
the code differs in its line endings alone. There is one exception: an escape takes one character,
and of a line break with a carriage return that leaves the line feed, which ends a literal of one
line.
-/

namespace SourceDocs

open Text (crlf)

def Marker.OneLine (marker : Marker) : Prop := '\n' ∉ marker.text ∧ '\r' ∉ marker.text

instance (marker : Marker) : Decidable marker.OneLine :=
  inferInstanceAs (Decidable ('\n' ∉ marker.text ∧ '\r' ∉ marker.text))

namespace Marker.OneLine

variable {marker : Marker} {rest : Text}

theorem crlf_text (oneLine : marker.OneLine) : crlf marker.text = marker.text :=
  Text.crlf_of_not_mem oneLine.1

theorem isPrefix_iff (oneLine : marker.OneLine) :
    marker.text <+: crlf rest ↔ marker.text <+: rest :=
  Text.isPrefix_crlf_iff oneLine.1 oneLine.2

theorem not_at_feed (oneLine : marker.OneLine) : ¬marker.text <+: '\n' :: rest := by
  intro begins
  have head : marker.head = '\n' := (List.cons_prefix_cons.mp begins).1
  exact oneLine.1 (head ▸ List.mem_cons_self)

theorem isAt_crlf (oneLine : marker.OneLine) : marker.isAt (crlf rest) = marker.isAt rest := by
  rw [Bool.eq_iff_iff, isAt_iff, isAt_iff, oneLine.isPrefix_iff]

end Marker.OneLine

namespace Grammar

/-- No marker that opens or ends something, and no escape, contains a line feed or a carriage
return. -/
structure OneLine (grammar : Grammar) : Prop where
  openings : ∀ marker ∈ grammar.openings, marker.OneLine
  stops : ∀ style ∈ grammar.blockStyles, style.stop.OneLine
  closings : ∀ delimiter ∈ grammar.strings, delimiter.closing.OneLine
  escapes : ∀ delimiter ∈ grammar.strings, ∀ escape ∈ delimiter.escape, escape.OneLine

namespace OneLine

variable {grammar : Grammar} {rest : Text}

theorem opener {opener : Opener} (oneLine : grammar.OneLine)
    (opens : grammar.openerAt rest = some opener) : opener.marker.OneLine :=
  oneLine.openings _ (openerAt_spec opens).1.mem_openings

theorem stop {index : Nat} {style : BlockStyle} (oneLine : grammar.OneLine)
    (opens : grammar.openerAt rest = some (.block index style)) : style.stop.OneLine :=
  oneLine.stops style (List.mem_of_getElem? (openerAt_spec opens).1)

theorem openerAt_crlf (oneLine : grammar.OneLine) (rest : Text) :
    grammar.openerAt (crlf rest) = grammar.openerAt rest := by
  apply openerAt_congr
  · intro marker member
    exact (oneLine.openings marker member).isAt_crlf
  · intro style member
    have start : style.start.OneLine := by
      apply oneLine.openings
      simp only [Grammar.openings, List.mem_append, List.mem_map]
      exact .inl (.inr ⟨style, member, rfl⟩)
    have stop := oneLine.stops style member
    rw [Bool.eq_iff_iff, BlockStyle.closesAtOnce_iff, BlockStyle.closesAtOnce_iff]
    apply Text.isPrefix_crlf_iff
    · simp [start.1, stop.1]
    · simp [start.2, stop.2]

theorem openerAt_feed (oneLine : grammar.OneLine) (rest : Text) :
    grammar.openerAt ('\n' :: rest) = none :=
  openerAt_eq_none_iff.mpr fun marker member => (oneLine.openings marker member).not_at_feed

end OneLine

end Grammar

namespace Literal

variable {delimiter : StringDelimiter} {body after : Text} {terminated : Bool}

private theorem feed (closing : delimiter.closing.OneLine)
    (escapes : ∀ escape ∈ delimiter.escape, escape.OneLine) (multiline : delimiter.multiline = true)
    (literal : Literal delimiter body after terminated) :
    Literal delimiter ('\n' :: body) after terminated :=
  .character (fun escape declared => (escapes escape declared).not_at_feed) closing.not_at_feed
    (.inl multiline) literal

theorem to_crlf (closing : delimiter.closing.OneLine)
    (escapes : ∀ escape ∈ delimiter.escape, escape.OneLine) (unreturned : '\r' ∉ body ++ after)
    (unbroken : delimiter.multiline = true ∨ '\n' ∉ body)
    (literal : Literal delimiter body after terminated) :
    Literal delimiter (crlf body) (crlf after) terminated := by
  have unescapedThere : ∀ rest, delimiter.Unescaped rest → delimiter.Unescaped (crlf rest) :=
    fun rest unescaped escape declared begins =>
      unescaped escape declared ((escapes escape declared).isPrefix_iff.mp begins)
  induction literal with
  | fileEnd => exact .fileEnd
  | @escaped escape c body after terminated declared tail ih =>
    have below := ih (fun member => unreturned (by simp_all))
      (unbroken.imp id fun absent member => absent (by simp [member]))
    rw [Text.crlf_append, (escapes escape declared).crlf_text]
    by_cases breaks : c = '\n'
    · -- the escape takes the return, the feed is an ordinary character of a literal of many lines
      subst breaks
      have multiline := unbroken.resolve_right (by simp)
      exact .escaped declared (below.feed closing escapes multiline)
    · rw [Text.crlf_cons breaks]
      exact .escaped declared below
  | escapeAtEnd declared =>
    rw [(escapes _ declared).crlf_text]
    exact .escapeAtEnd declared
  | @closed after unescaped =>
    have there := unescapedThere _ unescaped
    rw [Text.crlf_append, closing.crlf_text] at there
    rw [closing.crlf_text]
    exact .closed there
  | lineEnd unescaped unclosed single broken =>
    exact .lineEnd (unescapedThere _ unescaped) (mt closing.isPrefix_iff.mp unclosed) single
      ((Text.atLineBreak_crlf unreturned).trans broken)
  | @character c body after terminated unescaped unclosed ordinary tail ih =>
    have below := ih (fun member => unreturned (List.mem_cons_of_mem _ member))
      (unbroken.imp id fun absent member => absent (List.mem_cons_of_mem _ member))
    have unescaped' := unescapedThere _ unescaped
    have unclosed' := mt closing.isPrefix_iff.mp unclosed
    by_cases breaks : c = '\n'
    · subst breaks
      have multiline := unbroken.resolve_right (by simp)
      rw [List.cons_append, Text.crlf_feed, Text.crlf_append] at unescaped' unclosed'
      exact .character unescaped' unclosed' (.inl multiline) (below.feed closing escapes multiline)
    · rw [← Text.atLineBreak_crlf unreturned] at ordinary
      rw [List.cons_append, Text.crlf_cons breaks, Text.crlf_append] at unescaped' unclosed' ordinary
      rw [Text.crlf_cons breaks]
      exact .character unescaped' unclosed' ordinary below

end Literal

def SpanKind.singleLine : SpanKind → Bool
  | string _ delimiter _ => !delimiter.multiline
  | _ => false

section Reading

variable {grammar : Grammar} {source text after rest : Text} {kind : SpanKind}

theorem Reads.to_crlf (oneLine : grammar.OneLine) (unreturned : '\r' ∉ text ++ after)
    (unbroken : kind.singleLine = true → '\n' ∉ text) (reads : Reads grammar text after kind) :
    Reads grammar (crlf text) (crlf after) kind := by
  have opensThere : ∀ opener, grammar.openerAt (text ++ after) = some opener →
      grammar.openerAt (crlf text ++ crlf after) = some opener := by
    intro opener opens
    rw [← Text.crlf_append, oneLine.openerAt_crlf, opens]
  match kind with
  | .code =>
    refine reads.clear.to_crlf ?_ ?_ unreturned
    · intro rest _ opens
      rwa [oneLine.openerAt_crlf] at opens
    · exact fun _ rest opens => opens (oneLine.openerAt_feed rest)
  | .line index marker =>
    obtain ⟨opens, body, rfl, clear, ends⟩ := reads
    have opener : marker.marker.OneLine := oneLine.opener opens
    rw [List.append_assoc] at unreturned
    have below : '\r' ∉ body ++ after := fun member => unreturned (List.mem_append_right _ member)
    refine ⟨opensThere _ opens, crlf body, by rw [Text.crlf_append, opener.crlf_text], ?_, ?_⟩
    · refine clear.to_crlf ?_ (fun member => absurd member (Text.not_mem_of_clear clear)) below
      exact fun rest unreturned broken => (Text.atLineBreak_crlf unreturned).symm.trans broken
    · rcases ends with rfl | broken
      · exact .inl rfl
      · rw [List.mem_append, not_or] at below
        exact .inr ((Text.atLineBreak_crlf below.2).trans broken)
  | .block index style true =>
    obtain ⟨opens, body, rfl, clear⟩ := reads
    have start : style.start.OneLine := oneLine.opener opens
    have stop := oneLine.stop opens
    rw [List.append_assoc, List.append_assoc] at unreturned
    have below := clear.to_crlf (fun _ _ => stop.isPrefix_iff.mp) (fun _ _ => stop.not_at_feed)
      fun member => unreturned (List.mem_append_right _ member)
    rw [Text.crlf_append, stop.crlf_text] at below
    refine ⟨opensThere _ opens, crlf body, ?_, below⟩
    rw [Text.crlf_append, Text.crlf_append, start.crlf_text, stop.crlf_text]
  | .block index style false =>
    obtain ⟨opens, body, rfl, rfl, clear⟩ := reads
    have start : style.start.OneLine := oneLine.opener opens
    have stop := oneLine.stop opens
    rw [List.append_assoc] at unreturned
    have below := clear.to_crlf (fun _ _ => stop.isPrefix_iff.mp) (fun _ _ => stop.not_at_feed)
      fun member => unreturned (List.mem_append_right _ member)
    exact ⟨opensThere _ opens, crlf body, by rw [Text.crlf_append, start.crlf_text], rfl, below⟩
  | .string index delimiter terminated =>
    obtain ⟨opens, body, rfl, literal⟩ := reads
    have opener : delimiter.opening.OneLine := oneLine.opener opens
    have declared := List.mem_of_getElem? (Grammar.openerAt_spec opens).1
    rw [List.append_assoc] at unreturned
    refine ⟨opensThere _ opens, crlf body, by rw [Text.crlf_append, opener.crlf_text], ?_⟩
    refine literal.to_crlf (oneLine.closings _ declared) (oneLine.escapes _ declared)
      (fun member => unreturned (List.mem_append_right _ member)) ?_
    by_cases multiline : delimiter.multiline = true
    · exact .inl multiline
    · refine .inr fun member => unbroken ?_ (List.mem_append_right _ member)
      simpa [SpanKind.singleLine] using multiline

def Lexeme.crlf (lexeme : Lexeme) : Lexeme := { lexeme with text := Text.crlf lexeme.text }

theorem Lexes.to_crlf {lexemes : List Lexeme} (oneLine : grammar.OneLine)
    (unreturned : '\r' ∉ source)
    (unbroken : ∀ lexeme ∈ lexemes, lexeme.kind.singleLine = true → '\n' ∉ lexeme.text)
    (lexes : Lexes grammar source lexemes rest) :
    Lexes grammar (crlf source) (lexemes.map Lexeme.crlf) (crlf rest) := by
  induction lexemes generalizing source with
  | nil => exact congrArg crlf lexes
  | cons lexeme lexemes ih =>
    obtain ⟨after, rfl, nonempty, reads, ends, below⟩ := lexes
    refine ⟨crlf after, Text.crlf_append _ _, mt Text.crlf_eq_nil_iff.mp nonempty,
      reads.to_crlf oneLine unreturned (unbroken lexeme List.mem_cons_self), ?_, ?_⟩
    · intro inCode
      rw [Text.crlf_eq_nil_iff, oneLine.openerAt_crlf]
      exact ends inCode
    · exact ih (fun member => unreturned (List.mem_append_right _ member))
        (fun other member => unbroken other (List.mem_cons_of_mem _ member)) below

end Reading

def Span.crlf (source : Text) (span : Span) : Span :=
  ⟨span.kind, Text.crlfOffset source span.start, Text.crlfOffset source span.stop,
    Text.crlf span.text⟩

def Diagnostic.crlf (source : Text) (report : Diagnostic) : Diagnostic :=
  { report with
    place := { report.place with offset := Text.crlfOffset source report.place.offset } }

section Placing

theorem Place.crlfOffset_advance {source before after : Text} (whole : source = before ++ after) :
    Text.crlfOffset source (start.advance before).offset = (start.advance (crlf before)).offset := by
  have plain : ∀ passed, (start.advance passed).offset = Text.bytes passed := by
    intro passed
    rw [offset_advance]
    exact Nat.zero_add _
  rw [plain, plain, whole, Text.crlfOffset_append]

theorem Diagnostic.crlf_advance {source before after : Text} (whole : source = before ++ after)
    (construct : Construct) :
    Diagnostic.crlf source ⟨construct, Place.start.advance before⟩ =
      ⟨construct, Place.start.advance (Text.crlf before)⟩ := by
  have offset := Place.crlfOffset_advance whole
  rw [Place.start_advance_crlf] at offset ⊢
  rw [Diagnostic.crlf]
  dsimp only at offset ⊢
  rw [offset]

variable {source before : Text} {lexemes : List Lexeme}

theorem Lexeme.place_crlf (whole : source = before ++ texts lexemes) :
    place (Place.start.advance (Text.crlf before)) (lexemes.map Lexeme.crlf) =
      (place (Place.start.advance before) lexemes).map (Span.crlf source) := by
  induction lexemes generalizing before with
  | nil => rfl
  | cons lexeme lexemes ih =>
    rw [texts_cons] at whole
    have next : source = before ++ lexeme.text ++ texts lexemes := by rw [whole, List.append_assoc]
    have tail := ih next
    have first := Place.crlfOffset_advance whole
    have last := Place.crlfOffset_advance next
    rw [Text.crlf_append, Place.advance_append, Place.advance_append] at tail last
    rw [List.map_cons, place, place, List.map_cons, Lexeme.crlf, tail, Span.crlf]
    dsimp only
    rw [first, last]

theorem Lexeme.raised_crlf (whole : source = before ++ texts lexemes) :
    raised (Place.start.advance (Text.crlf before)) (lexemes.map Lexeme.crlf) =
      (raised (Place.start.advance before) lexemes).map (Diagnostic.crlf source) := by
  induction lexemes generalizing before with
  | nil => rfl
  | cons lexeme lexemes ih =>
    rw [texts_cons] at whole
    have next : source = before ++ lexeme.text ++ texts lexemes := by rw [whole, List.append_assoc]
    have tail := ih next
    rw [Text.crlf_append, Place.advance_append, Place.advance_append] at tail
    rw [List.map_cons, raised, raised, List.map_append, Lexeme.crlf, tail]
    dsimp only
    cases lexeme.kind.leftOpen? with
    | none => rfl
    | some construct => simp [Diagnostic.crlf_advance whole]

end Placing

theorem Scan.ofSource_of_crlf {grammar : Grammar} {source : Text} (oneLine : grammar.OneLine)
    (unreturned : '\r' ∉ source)
    (unbroken : ∀ span ∈ (ofSource grammar source).spans,
      span.kind.singleLine = true → '\n' ∉ span.text) :
    ofSource grammar (crlf source) = ⟨(ofSource grammar source).spans.map (Span.crlf source),
      (ofSource grammar source).diagnostics.map (Diagnostic.crlf source)⟩ := by
  obtain ⟨lexemes, lexes, result⟩ := exists_lexes grammar source
  rw [result] at unbroken ⊢
  have unbroken' : ∀ lexeme ∈ lexemes, lexeme.kind.singleLine = true → '\n' ∉ lexeme.text := by
    rw [← Lexeme.map_lexeme_place .start lexemes, List.forall_mem_map]
    exact unbroken
  have whole : source = [] ++ Lexeme.texts lexemes := by
    rw [List.nil_append, lexes.source_eq, List.append_nil]
  have moved := lexes.to_crlf oneLine unreturned unbroken'
  rw [ofSource_of_lexes moved]
  exact congr (congrArg Scan.mk (Lexeme.place_crlf whole)) (Lexeme.raised_crlf whole)

namespace Comment

theorem indentation_crlf (before : Text) : indentation (Text.crlf before) = indentation before := by
  rw [indentation, Text.lastLine_crlf, indentation]

theorem ofBlockBody_crlf (style : BlockStyle) {body : Text} (unreturned : '\r' ∉ body) :
    ofBlockBody style (Text.crlf body) = ofBlockBody style body := by
  rw [ofBlockBody, undecorated, Text.lines_crlf unreturned, ofBlockBody, undecorated]

/-- The prose of a documentation comment does not show how its lines end. -/
theorem ofSpan_crlf {grammar : Grammar} {source after : Text} {span : Span}
    (oneLine : grammar.OneLine) (unreturned : '\r' ∉ span.text)
    (documentation : span.isDocumentation = true) (reads : Reads grammar span.text after span.kind) :
    ofSpan (span.crlf source) = ofSpan span := by
  obtain ⟨kind, start, stop, text⟩ := span
  dsimp only at unreturned reads
  unfold ofSpan Span.crlf
  match kind with
  | .code => cases documentation
  | .line index marker =>
    obtain ⟨opens, body, rfl, clear, _⟩ := reads
    have opener : marker.marker.OneLine := oneLine.opener opens
    dsimp only
    rw [Text.crlf_append, opener.crlf_text, Text.crlf_of_not_mem (Text.not_mem_of_clear clear)]
  | .block index style true =>
    obtain ⟨opens, body, rfl, _⟩ := reads
    have opener : style.start.OneLine := oneLine.opener opens
    have stop := oneLine.stop opens
    have inside : '\r' ∉ body := fun member => unreturned (by simp [member])
    dsimp only
    rw [Text.crlf_append, Text.crlf_append, opener.crlf_text, stop.crlf_text, blockBody_terminated,
      blockBody_terminated, ofBlockBody_crlf style inside]
  | .block index style false =>
    obtain ⟨opens, body, rfl, _, _⟩ := reads
    have opener : style.start.OneLine := oneLine.opener opens
    have inside : '\r' ∉ body := fun member => unreturned (by simp [member])
    dsimp only
    rw [Text.crlf_append, opener.crlf_text, blockBody_open, blockBody_open,
      ofBlockBody_crlf style inside]
  | .string index delimiter terminated => cases documentation

end Comment

theorem Span.Within.indentedStart_crlf {source : Text} {span : Span} (within : span.Within source) :
    (span.crlf source).indentedStart (Text.crlf source) =
      Text.crlfOffset source (span.indentedStart source) := by
  obtain ⟨boundary, order, indent⟩ := within.indented
  have moved := Text.crlfOffset_add boundary within.first order
  have padding := Comment.indentation_padding (Text.takeBytes span.start source)
  rw [indent, Text.crlf_of_not_mem (Text.not_mem_of_padding padding)] at moved
  rw [indentedStart, Span.crlf]
  dsimp only
  rw [Text.takeBytes_crlf within.first, Comment.indentation_crlf]
  omega

theorem Segment.adjoins_crlf {source : Text} {first second : Span} (earlier : first.Within source)
    (later : second.Within source) :
    adjoins (crlf source) (first.crlf source) (second.crlf source) =
      adjoins source first second := by
  unfold adjoins Span.crlf
  dsimp only
  rw [Text.slice_crlf earlier.last later.first, Text.isBlank_crlf, Text.count_crlf]

theorem Lexing.moves_crlf {grammar : Grammar} {source : Text} {spans : List Span}
    (lexing : Lexing grammar source spans) (oneLine : grammar.OneLine)
    (unreturned : '\r' ∉ source) :
    Moves source (crlf source) (Text.crlfOffset source) (Span.crlf source) spans where
  classes := fun _ _ => rfl
  prose := by
    intro span member documentation
    obtain ⟨before, after, whole, _, _, reads⟩ := lexing.reads span member
    refine Comment.ofSpan_crlf oneLine ?_ documentation reads
    intro returned
    exact unreturned (by rw [whole]; simp [returned])
  joins := by
    intro first firstMember second secondMember
    exact Segment.adjoins_crlf (lexing.within firstMember) (lexing.within secondMember)
  indents := by
    intro span member
    rw [Span.crlf, Text.takeBytes_crlf (lexing.within member).first, Comment.indentation_crlf]
  starts := fun _ member => (lexing.within member).indentedStart_crlf
  stops := fun _ _ => rfl

namespace Segment

def crlf (source : Text) : Segment → Segment
  | documentation text start stop =>
    documentation text (Text.crlfOffset source start) (Text.crlfOffset source stop)
  | code text language start stop =>
    code (Text.crlf text) language (Text.crlfOffset source start) (Text.crlfOffset source stop)

variable {source : Text} (language : Text)

theorem codeBetween_crlf {start stop : Nat} (first : Text.IsBoundary source start)
    (last : Text.IsBoundary source stop) :
    codeBetween (Text.crlf source) language (Text.crlfOffset source start)
        (Text.crlfOffset source stop) =
      (codeBetween source language start stop).map (Segment.crlf source) := by
  simp only [codeBetween, Text.crlfOffset_lt_iff first last, Text.slice_crlf first last]
  split <;> rfl

theorem weave_crlf {cursor : Nat} {runs : List (List Span)} {comments : List Comment}
    (boundary : Text.IsBoundary source cursor) (woven : Woven source cursor runs comments) :
    weave (Text.crlf source) language (Text.crlfOffset source cursor)
        (comments.map (Comment.moved (Text.crlfOffset source))) =
      (weave source language cursor comments).map (Segment.crlf source) := by
  induction woven with
  | done inside =>
    rw [List.map_nil, weave, weave, ← Text.crlfOffset_bytes,
      codeBetween_crlf language boundary (Text.isBoundary_bytes source)]
  | comment behind covers rest ih =>
    have code := codeBetween_crlf language boundary covers.start_boundary
    rw [List.map_cons, weave, weave, List.map_append, List.map_cons, ← code,
      ← ih covers.stop_boundary]
    rfl

end Segment

namespace Document

def crlf (source : Text) (document : Document) : Document :=
  ⟨document.language, document.segments.map (Segment.crlf source),
    document.diagnostics.map (Diagnostic.crlf source)⟩

/-- The line endings of a source text show in the code of its document and nowhere else, if no
literal that ends with its line goes on behind an escaped line break. -/
theorem ofSource_crlf {grammar : Grammar} {source : Text} (oneLine : grammar.OneLine)
    (unreturned : '\r' ∉ source)
    (unbroken : ∀ span ∈ (Scan.ofSource grammar source).spans,
      span.kind.singleLine = true → '\n' ∉ span.text) :
    ofSource grammar (Text.crlf source) = (ofSource grammar source).crlf source := by
  have lexing := Scan.lexing_spans grammar source
  have comments := (lexing.moves_crlf oneLine unreturned).documentationComments_map
  have woven := Segment.weave_crlf grammar.highlight (Text.isBoundary_zero source) lexing.woven
  rw [Text.crlfOffset_zero] at woven
  unfold ofSource Document.crlf Segment.ofSpans
  dsimp only
  rw [Scan.ofSource_of_crlf oneLine unreturned unbroken]
  dsimp only
  rw [comments, woven, Text.isBlank_crlf]
  split <;> rfl

theorem ofSource_crlf_starred :
    Grammar.starred.OneLine ∧ '\r' ∉ "/** a\n * b */\ns = \"c\n/* d".toList ∧
      (∀ span ∈ (Scan.ofSource .starred "/** a\n * b */\ns = \"c\n/* d".toList).spans,
        span.kind.singleLine = true → '\n' ∉ span.text) ∧
      ofSource .starred (Text.crlf "/** a\n * b */\ns = \"c\n/* d".toList) =
        ⟨"c".toList, [.documentation "a\nb".toList 0 14,
          .code "\r\ns = \"c\r\n/* d".toList "c".toList 14 28],
          [⟨.stringLiteral, ⟨20, 3, 5⟩⟩, ⟨.blockComment, ⟨24, 4, 1⟩⟩]⟩ := by
  have oneLine : Grammar.starred.OneLine := by constructor <;> decide +kernel
  have unreturned : '\r' ∉ "/** a\n * b */\ns = \"c\n/* d".toList := by decide +kernel
  have unbroken : ∀ span ∈ (Scan.ofSource .starred "/** a\n * b */\ns = \"c\n/* d".toList).spans,
      span.kind.singleLine = true → '\n' ∉ span.text := by decide +kernel
  exact ⟨oneLine, unreturned, unbroken,
    (ofSource_crlf oneLine unreturned unbroken).trans (by decide +kernel)⟩

/-- An escaped line feed stays inside the literal. With a return in front the escape takes the return,
the literal ends, and what stood in it is read as a comment. -/
theorem ofSource_crlf_escaped :
    Grammar.starred.OneLine ∧ '\r' ∉ "s = \"a\\\n/** b */\";\n".toList ∧
      (ofSource .starred "s = \"a\\\n/** b */\";\n".toList).documentation = [] ∧
      (ofSource .starred (Text.crlf "s = \"a\\\n/** b */\";\n".toList)).documentation =
        ["b".toList] := by
  refine ⟨?_, by decide +kernel, by decide +kernel, by decide +kernel⟩
  constructor <;> decide +kernel

end Document

end SourceDocs
