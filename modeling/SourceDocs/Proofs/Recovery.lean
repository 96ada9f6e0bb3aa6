import SourceDocs.Proofs.Runs

/-!
Diagnostics and the spans they are about. A scan reports exactly the constructs that it closed itself,
each where it begins and all in the order of the spans. An open comment is the end of the text, so it
is reported last; an open literal ends with the text or, if it has to fit on one line, with its line.
-/

namespace SourceDocs

def Span.isLeftOpen (span : Span) : Bool := span.kind.leftOpen?.isSome

/-- The report on a span that is left open; `none` also if the span begins inside a character. -/
def Span.report? (source : Text) (span : Span) : Option Diagnostic :=
  span.kind.leftOpen?.bind (Diagnostic.unterminatedAt? · source span.start)

/-- The diagnostics of a scan as a function of its spans, and what follows about their order. -/
structure Scan.Recovery (source : Text) (scan : Scan) : Prop where
  reports : (scan.spans.filter Span.isLeftOpen).map (Span.report? source) =
    scan.diagnostics.map some
  increasing : scan.diagnostics.Pairwise fun first second =>
    first.place.offset < second.place.offset
  blockOnce : scan.diagnostics.countP (·.construct = .blockComment) ≤ 1
  blockLast : ∀ report ∈ scan.diagnostics, report.construct = .blockComment →
    scan.diagnostics.getLast? = some report ∧
      ∃ span, scan.spans.getLast? = some span ∧ span.report? source = some report ∧
        span.stop = Text.bytes source
  stringEnds : ∀ span ∈ scan.spans, ∀ index delimiter, span.kind = .string index delimiter false →
    span.stop = Text.bytes source ∨
      delimiter.multiline = false ∧ ∃ before after, source = before ++ after ∧
        Text.bytes before = span.stop ∧ (['\n'] <+: after ∨ ['\r', '\n'] <+: after)

theorem Text.lastLine_split (source : Text) :
    (source.reverse.dropWhile (· ≠ '\n')).reverse ++ lastLine source = source := by
  rw [lastLine, ← List.reverse_append, List.takeWhile_append_dropWhile, List.reverse_reverse]

/-- A place counts the line feeds in front of it, and the characters behind the last of them. -/
theorem Place.after_eq (before : Text) :
    after before =
      ⟨Text.bytes before, before.count '\n' + 1, (Text.lastLine before).length + 1⟩ := by
  induction before using List.reverseRecOn with
  | nil => rfl
  | append_singleton front c ih =>
    have stepped : after (front ++ [c]) = (after front).step c := advance_append start front [c]
    rw [stepped, ih, step, Text.bytes_append, List.count_append]
    split
    next feed =>
      rw [feed, Text.lastLine_append_of_mem (List.mem_singleton.mpr rfl)]
      rfl
    next ordinary =>
      have kept : '\n' ∉ [c] := fun member => ordinary (List.mem_singleton.mp member).symm
      rw [Text.lastLine_append_of_not_mem kept, List.count_eq_zero.mpr kept, List.length_append]
      rfl

namespace Diagnostic

/-- Counting in the text in front of an offset gives the place that this text leads up to. -/
theorem unterminatedAt?_append (construct : Construct) (before after : Text) :
    unterminatedAt? construct (before ++ after) (Text.bytes before) =
      some ⟨construct, .after before⟩ := by
  have line : Text.slice? (before ++ after) (Text.lastLineStart before) (Text.bytes before) =
      some (Text.lastLine before) := by
    have cut := Text.slice?_append (before.reverse.dropWhile (· ≠ '\n')).reverse
      (Text.lastLine before) after
    rwa [← Text.bytes_append, Text.lastLine_split] at cut
  unfold unterminatedAt?
  rw [Text.splitAt?_append]
  dsimp only [bind, Option.bind]
  rw [line, Place.after_eq]
  rfl

theorem of_unterminatedAt? {construct : Construct} {source : Text} {offset : Nat}
    {report : Diagnostic} (found : unterminatedAt? construct source offset = some report) :
    report.construct = construct ∧ report.place.offset = offset := by
  obtain ⟨_, _, found⟩ := Option.bind_eq_some_iff.mp found
  obtain ⟨_, _, found⟩ := Option.bind_eq_some_iff.mp found
  obtain rfl := Option.some.inj found
  exact ⟨rfl, rfl⟩

end Diagnostic

theorem Span.of_report? {source : Text} {span : Span} {report : Diagnostic}
    (reported : span.report? source = some report) :
    span.kind.leftOpen? = some report.construct ∧ report.place.offset = span.start := by
  obtain ⟨construct, leftOpen, found⟩ := Option.bind_eq_some_iff.mp reported
  obtain ⟨rfl, offset⟩ := Diagnostic.of_unterminatedAt? found
  exact ⟨leftOpen, offset⟩

/-- Each lexeme that is left open raises the report on its span. -/
theorem Lexeme.map_report?_place (before after : Text) (lexemes : List Lexeme) :
    ((place (Place.after before) lexemes).filter Span.isLeftOpen).map
        (Span.report? (before ++ texts lexemes ++ after)) =
      (raised (Place.after before) lexemes).map some := by
  induction lexemes generalizing before with
  | nil => rfl
  | cons lexeme lexemes ih =>
    have further : (Place.after before).advance lexeme.text = Place.after (before ++ lexeme.text) :=
      (Place.advance_append _ _ _).symm
    have offset : (Place.after before).offset = Text.bytes before := by
      rw [Place.after, Place.offset_advance]
      exact Nat.zero_add _
    have later := ih (before ++ lexeme.text)
    rw [texts_cons, place, raised, further, ← List.append_assoc before, List.map_append, ← later]
    cases leftOpen : lexeme.kind.leftOpen? with
    | none =>
      rw [List.filter_cons_of_neg (by simp [Span.isLeftOpen, leftOpen])]
      rfl
    | some construct =>
      rw [List.filter_cons_of_pos (by simp [Span.isLeftOpen, leftOpen]), List.map_cons]
      refine congrArg (· :: _) ?_
      simp only [Span.report?, leftOpen, Option.bind_some, offset]
      rw [List.append_assoc, List.append_assoc]
      exact Diagnostic.unterminatedAt?_append construct before _

namespace Lexing

variable {grammar : Grammar} {source : Text} {spans : List Span} {span : Span}

theorem starts_increasing (lexing : Lexing grammar source spans) :
    spans.Pairwise fun first second => first.start < second.start := by
  refine lexing.ordered.imp_of_mem ?_
  intro first second member _ order
  have grows : first.start < first.stop := (lexing.within member).grows
  omega

/-- A span that reaches the end of the text is the last one. -/
theorem eq_nil_of_stop {front back : List Span}
    (lexing : Lexing grammar source (front ++ span :: back))
    (reaches : span.stop = Text.bytes source) : back = [] := by
  apply List.eq_nil_iff_forall_not_mem.mpr
  intro later member
  have parts := (List.pairwise_append.mp lexing.ordered).2.1
  have order := (List.pairwise_cons.mp parts).1 later member
  have within : later.Within source := lexing.within (by simp [member])
  have grows := within.grows
  have inside := within.last.le_bytes
  omega

theorem stop_of_openBlock (lexing : Lexing grammar source spans) (member : span ∈ spans)
    (leftOpen : span.kind.leftOpen? = some .blockComment) : span.stop = Text.bytes source := by
  obtain ⟨before, after, whole, _, last, reads⟩ := lexing.reads span member
  have ends : after = [] := by
    unfold SpanKind.leftOpen? at leftOpen
    split at leftOpen
    next kind =>
      rw [kind] at reads
      obtain ⟨_, _, _, ends, _⟩ := reads
      exact ends
    next => cases leftOpen
    next => cases leftOpen
  rw [whole, ends, List.append_nil, last]

theorem stop_of_openString {index : Nat} {delimiter : StringDelimiter}
    (lexing : Lexing grammar source spans) (member : span ∈ spans)
    (kind : span.kind = .string index delimiter false) :
    span.stop = Text.bytes source ∨
      delimiter.multiline = false ∧ ∃ before after, source = before ++ after ∧
        Text.bytes before = span.stop ∧ (['\n'] <+: after ∨ ['\r', '\n'] <+: after) := by
  obtain ⟨before, after, whole, _, last, reads⟩ := lexing.reads span member
  rw [kind] at reads
  obtain ⟨_, body, _, literal⟩ := reads
  rcases literal.leftOpen_ends with ends | ⟨single, broken⟩
  · left
    rw [whole, ends, List.append_nil, last]
  · right
    exact ⟨single, before ++ span.text, after, whole, last, Text.isPrefix_of_atLineBreak broken⟩

end Lexing

private theorem countP_le_one {α : Type} {p : α → Bool} {l : List α}
    (last : ∀ before a after, l = before ++ a :: after → p a = true → after = []) :
    l.countP p ≤ 1 := by
  induction l with
  | nil => exact Nat.zero_le 1
  | cons a l ih =>
    by_cases holds : p a = true
    · rw [last [] a l rfl holds]
      exact List.countP_le_length
    · rw [List.countP_cons_of_neg holds]
      exact ih fun before b after split => last (a :: before) b after (by rw [split]; rfl)

namespace Scan

variable {grammar : Grammar} {source : Text} {scan : Scan}

/-- The diagnostics in front of a report and behind it are those of the spans in front of its span
and behind it. -/
theorem exists_span_of_report {before after : List Diagnostic} {report : Diagnostic}
    (reports : (scan.spans.filter Span.isLeftOpen).map (Span.report? source) =
      scan.diagnostics.map some)
    (split : scan.diagnostics = before ++ report :: after) :
    ∃ front span back, scan.spans = front ++ span :: back ∧ span.report? source = some report ∧
      (back.filter Span.isLeftOpen).map (Span.report? source) = after.map some := by
  rw [split, List.map_append, List.map_cons] at reports
  obtain ⟨_, further, filtered, _, reports⟩ := List.map_eq_append_iff.mp reports
  obtain ⟨span, others, rfl, reported, later⟩ := List.map_eq_cons_iff.mp reports
  obtain ⟨first, second, spans, _, filtered⟩ := List.filter_eq_append_iff.mp filtered
  obtain ⟨skipped, back, rfl, _, _, rfl⟩ := List.filter_eq_cons_iff.mp filtered
  exact ⟨first ++ skipped, span, back, by rw [spans, List.append_assoc], reported, later⟩

theorem block_report_last (lexing : Lexing grammar source scan.spans)
    {before after : List Diagnostic} {report : Diagnostic}
    (reports : (scan.spans.filter Span.isLeftOpen).map (Span.report? source) =
      scan.diagnostics.map some)
    (split : scan.diagnostics = before ++ report :: after)
    (block : report.construct = .blockComment) :
    after = [] ∧ ∃ span, scan.spans.getLast? = some span ∧ span.report? source = some report ∧
      span.stop = Text.bytes source := by
  obtain ⟨front, span, back, spans, reported, later⟩ := exists_span_of_report reports split
  have leftOpen := (Span.of_report? reported).1
  rw [block] at leftOpen
  have reaches := lexing.stop_of_openBlock (by rw [spans]; simp) leftOpen
  rw [spans] at lexing
  obtain rfl := lexing.eq_nil_of_stop reaches
  refine ⟨List.map_eq_nil_iff.mp later.symm, span, ?_, reported, reaches⟩
  rw [spans, List.getLast?_concat]

/-- The diagnostics of a scan are the reports on the spans that the source text leaves open. -/
theorem ofSource_recovery (grammar : Grammar) (source : Text) :
    Recovery source (ofSource grammar source) := by
  have lexing := lexing_spans grammar source
  have reports : ((ofSource grammar source).spans.filter Span.isLeftOpen).map
      (Span.report? source) = (ofSource grammar source).diagnostics.map some := by
    obtain ⟨lexemes, lexes, result⟩ := exists_lexes grammar source
    have placed := Lexeme.map_report?_place [] [] lexemes
    rw [List.nil_append, ← lexes.source_eq] at placed
    rw [result]
    exact placed
  refine ⟨reports, ?_, ?_, ?_, ?_⟩
  · have starts := List.Pairwise.filter Span.isLeftOpen lexing.starts_increasing
    have ordered : (((ofSource grammar source).spans.filter Span.isLeftOpen).map
        (Span.report? source)).Pairwise fun first second =>
          ∀ report ∈ first, ∀ other ∈ second, report.place.offset < other.place.offset := by
      refine List.pairwise_map.mpr (starts.imp ?_)
      intro first second order report reported other otherReported
      rw [(Span.of_report? reported).2, (Span.of_report? otherReported).2]
      exact order
    rw [reports] at ordered
    exact (List.pairwise_map.mp ordered).imp fun order => order _ rfl _ rfl
  · apply countP_le_one
    intro before report after split block
    exact (block_report_last lexing reports split (of_decide_eq_true block)).1
  · intro report member block
    obtain ⟨before, after, split⟩ := List.append_of_mem member
    obtain ⟨rfl, span⟩ := block_report_last lexing reports split block
    exact ⟨by rw [split, List.getLast?_concat], span⟩
  · intro span member index delimiter kind
    exact lexing.stop_of_openString member kind

end Scan

end SourceDocs
