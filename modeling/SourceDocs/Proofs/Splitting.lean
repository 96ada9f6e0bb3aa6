import SourceDocs.Proofs.Narrowing
import SourceDocs.Proofs.Scanning
import SourceDocs.Proofs.WrittenBlocks

/-!
A scan splits between two spans. The machine carries nothing over such a place, so the spans behind
it are those of the text behind it. The spans in front of it are those of the text in front of it if
no opening was decided by text further on, with one exception: a place inside the line break at which
a line comment or an open literal ends.
-/

namespace SourceDocs

namespace Lexes

variable {grammar : Grammar} {source rest : Text} {front back lexemes : List Lexeme}

theorem split (lexes : Lexes grammar source (front ++ back) rest) :
    ∃ middle, Lexes grammar source front middle ∧ Lexes grammar middle back rest := by
  induction front generalizing source with
  | nil => exact ⟨source, rfl, lexes⟩
  | cons lexeme front ih =>
    obtain ⟨after, whole, nonempty, reads, ends, below⟩ := lexes
    obtain ⟨middle, first, second⟩ := ih below
    exact ⟨middle, ⟨after, whole, nonempty, reads, ends, first⟩, second⟩

theorem eq_nil_of_texts (lexes : Lexes grammar source lexemes rest)
    (empty : Lexeme.texts lexemes = []) : lexemes = [] := by
  cases lexemes with
  | nil => rfl
  | cons lexeme lexemes =>
    obtain ⟨_, _, nonempty, _⟩ := lexes
    exact absurd (List.append_eq_nil_iff.mp empty).1 nonempty

theorem eq_singleton_of_texts {c : Char} (lexes : Lexes grammar source lexemes rest)
    (one : Lexeme.texts lexemes = [c]) : ∃ last, lexemes = [last] ∧ last.text = [c] := by
  cases lexemes with
  | nil => cases one
  | cons last lexemes =>
    obtain ⟨_, _, nonempty, _, _, below⟩ := lexes
    rcases List.append_eq_singleton_iff.mp one with ⟨empty, _⟩ | ⟨text, none⟩
    · exact absurd empty nonempty
    · exact ⟨last, by rw [below.eq_nil_of_texts none], text⟩

end Lexes

/-- The lexemes end with the carriage return of a line break that goes on behind them, and it ended
the comment or literal before. -/
def Lexeme.SplitsBreak (lexemes : List Lexeme) (rest : Text) : Prop :=
  ∃ earlier previous last, lexemes = earlier ++ [previous, last] ∧
    previous.kind.endsWithLine = true ∧ last.text = ['\r'] ∧ rest.head? = some '\n'

namespace Lexes

variable {grammar : Grammar} {source rest : Text} {lexemes : List Lexeme}

/-- A comment or literal that ends with its line does so in the text of the lexemes alone. -/
private theorem ends_narrow {lexeme : Lexeme} (lexes : Lexes grammar source lexemes rest)
    (whole : ¬Lexeme.SplitsBreak (lexeme :: lexemes) rest)
    (line : lexeme.kind.endsWithLine = true) (ends : source = [] ∨ Text.atLineBreak source = true) :
    Lexeme.texts lexemes = [] ∨ Text.atLineBreak (Lexeme.texts lexemes) = true := by
  rw [lexes.source_eq] at ends
  rcases ends with empty | broken
  · exact .inl (List.append_eq_nil_iff.mp empty).1
  · by_contra neither
    rw [not_or] at neither
    obtain ⟨text, feed⟩ := Text.eq_return_of_atLineBreak broken neither.1 neither.2
    obtain ⟨last, rfl, lastText⟩ := lexes.eq_singleton_of_texts text
    exact whole ⟨[], lexeme, last, rfl, line, lastText, feed⟩

theorem narrow (ranked : grammar.Ranked) (separate : grammar.Separate)
    (lexes : Lexes grammar source lexemes rest) (whole : ¬Lexeme.SplitsBreak lexemes rest) :
    Lexes grammar (Lexeme.texts lexemes) lexemes [] := by
  induction lexemes generalizing source with
  | nil => rfl
  | cons lexeme lexemes ih =>
    obtain ⟨after, _, nonempty, reads, ends, below⟩ := lexes
    have tail : Lexes grammar (Lexeme.texts lexemes) lexemes [] := by
      apply ih below
      rintro ⟨earlier, previous, last, rfl, line, text, feed⟩
      exact whole ⟨lexeme :: earlier, previous, last, rfl, line, text, feed⟩
    refine ⟨Lexeme.texts lexemes, rfl, nonempty, ?_, ?_, tail⟩
    · have lineEnds := fun line => below.ends_narrow whole line (reads.ends line)
      rw [below.source_eq] at reads
      exact reads.narrow ranked separate lineEnds
    · intro inCode
      rcases ends inCode with empty | opens
      · rw [below.source_eq] at empty
        exact .inl (List.append_eq_nil_iff.mp empty).1
      · cases lexemes with
        | nil => exact .inl rfl
        | cons next lexemes =>
          rw [below.opener, ← tail.opener] at opens
          exact .inr opens

theorem not_splitsBreak (lexes : Lexes grammar source lexemes []) (rest : Text) :
    ¬Lexeme.SplitsBreak lexemes rest := by
  rintro ⟨earlier, previous, last, rfl, line, text, _⟩
  obtain ⟨middle, _, below⟩ := lexes.split
  obtain ⟨after, _, _, reads, _, lastLexes⟩ := below
  have afterEq := lastLexes.source_eq
  rw [Lexeme.texts_cons, Lexeme.texts_nil, text] at afterEq
  have ends := reads.ends line
  rw [afterEq] at ends
  revert ends
  decide

end Lexes

def Span.shift (distance : Nat) (span : Span) : Span :=
  { span with start := span.start + distance, stop := span.stop + distance }

namespace Lexeme

theorem place_eq_append {start : Place} {lexemes : List Lexeme} {front back : List Span}
    (placed : place start lexemes = front ++ back) :
    lexemes = front.map Span.lexeme ++ back.map Span.lexeme ∧
      place start (front.map Span.lexeme) = front ∧
      place (start.advance (texts (front.map Span.lexeme))) (back.map Span.lexeme) = back := by
  have parts : lexemes = front.map Span.lexeme ++ back.map Span.lexeme := by
    rw [← map_lexeme_place start lexemes, placed, List.map_append]
  refine ⟨parts, ?_⟩
  rw [parts, place_append] at placed
  apply List.append_inj placed
  rw [← List.length_map Span.lexeme, map_lexeme_place, List.length_map]

theorem place_shift {start later : Place} {distance : Nat} (lexemes : List Lexeme)
    (apart : start.offset + distance = later.offset) :
    (place start lexemes).map (Span.shift distance) = place later lexemes := by
  induction lexemes generalizing start later with
  | nil => rfl
  | cons lexeme lexemes ih =>
    have next : (start.advance lexeme.text).offset + distance =
        (later.advance lexeme.text).offset := by
      simp only [Place.offset_advance]
      omega
    rw [place, place, List.map_cons, ih next, Span.shift]
    simp only [apart, next]

theorem raised_shift {start later : Place} {distance : Nat} (lexemes : List Lexeme)
    (apart : start.offset + distance = later.offset) :
    (raised start lexemes).map (fun report => (report.construct, report.place.offset + distance)) =
      (raised later lexemes).map fun report => (report.construct, report.place.offset) := by
  induction lexemes generalizing start later with
  | nil => rfl
  | cons lexeme lexemes ih =>
    have next : (start.advance lexeme.text).offset + distance =
        (later.advance lexeme.text).offset := by
      simp only [Place.offset_advance]
      omega
    rw [raised, raised, List.map_append, List.map_append, ih next]
    cases lexeme.kind.leftOpen? <;> simp [apart]

end Lexeme

theorem Lexes.offset_of_raised {grammar : Grammar} {source rest : Text} {lexemes : List Lexeme}
    (lexes : Lexes grammar source lexemes rest) {start : Place} {report : Diagnostic}
    (member : report ∈ Lexeme.raised start lexemes) :
    start.offset ≤ report.place.offset ∧
      report.place.offset < start.offset + Text.bytes (Lexeme.texts lexemes) := by
  induction lexemes generalizing source start with
  | nil => cases member
  | cons lexeme lexemes ih =>
    obtain ⟨_, _, nonempty, _, _, below⟩ := lexes
    have size := Text.bytes_pos nonempty
    rw [Lexeme.texts_cons, Text.bytes_append]
    rw [Lexeme.raised, List.mem_append] at member
    rcases member with here | later
    · obtain ⟨construct, _, rfl⟩ := Option.map_eq_some_iff.mp (Option.mem_toList.mp here)
      dsimp only
      omega
    · have bounds := ih below later
      rw [Place.offset_advance] at bounds
      omega

/-- The reports of a scan from the end of the first lexemes on. -/
theorem Lexes.filter_raised {grammar : Grammar} {source middle rest : Text}
    {front back : List Lexeme} (first : Lexes grammar source front middle)
    (second : Lexes grammar middle back rest) :
    (Lexeme.raised .start (front ++ back)).filter
        (fun report => Text.bytes (Lexeme.texts front) ≤ report.place.offset) =
      Lexeme.raised (Place.start.advance (Lexeme.texts front)) back := by
  have offset : (Place.start.advance (Lexeme.texts front)).offset =
      Text.bytes (Lexeme.texts front) := by
    rw [Place.offset_advance]
    exact Nat.zero_add _
  rw [Lexeme.raised_append, List.filter_append, List.filter_eq_nil_iff.mpr, List.nil_append,
    List.filter_eq_self.mpr]
  · intro report member
    have bounds := second.offset_of_raised member
    rw [offset] at bounds
    exact decide_eq_true bounds.1
  · intro report member behind
    have bounds := first.offset_of_raised member
    have order := of_decide_eq_true behind
    rw [show Place.start.offset = 0 from rfl, Nat.zero_add] at bounds
    omega

namespace Scan

/-- Between two spans a scan splits: behind the place it is the scan of the text behind, in front of
it, for a grammar whose openings do not depend on what follows them, the scan of the text in front,
unless the place is inside a line break at which a comment or literal ends. -/
theorem ofSource_splits {id : Text} {table : LanguageTable} {grammar : Grammar} {source : Text}
    {front back : List Span} {next : Span} (compiled : Grammar.compile id table = .ok grammar)
    (boundary : (ofSource grammar source).spans = front ++ next :: back) :
    (ofSource grammar (Text.dropBytes next.start source)).spans.map (Span.shift next.start) =
        next :: back ∧
      (ofSource grammar (Text.dropBytes next.start source)).diagnostics.map
          (fun report => (report.construct, report.place.offset + next.start)) =
        ((ofSource grammar source).diagnostics.filter
          (fun report => next.start ≤ report.place.offset)).map
            (fun report => (report.construct, report.place.offset)) ∧
      (grammar.Separate →
        ((ofSource grammar (Text.takeBytes next.start source)).spans = front ↔
          ¬Lexeme.SplitsBreak (front.map Span.lexeme) (Text.dropBytes next.start source))) := by
  obtain ⟨lexemes, lexes, result⟩ := exists_lexes grammar source
  rw [result] at boundary ⊢
  obtain ⟨parts, frontPlaced, backPlaced⟩ := Lexeme.place_eq_append boundary
  rw [parts] at lexes ⊢
  obtain ⟨middle, first, second⟩ := lexes.split
  generalize front.map Span.lexeme = frontLexemes at *
  have offset : (Place.start.advance (Lexeme.texts frontLexemes)).offset = next.start := by
    rw [List.map_cons, Lexeme.place] at backPlaced
    exact congrArg Span.start (List.cons.inj backPlaced).1
  have size : Text.bytes (Lexeme.texts frontLexemes) = next.start := by
    rw [← offset, Place.offset_advance]
    exact (Nat.zero_add _).symm
  have apart : Place.start.offset + next.start =
      (Place.start.advance (Lexeme.texts frontLexemes)).offset := by
    rw [offset]
    exact Nat.zero_add _
  have behind : Text.dropBytes next.start source = middle := by
    rw [first.source_eq, ← size, Text.dropBytes_append]
  have before : Text.takeBytes next.start source = Lexeme.texts frontLexemes := by
    rw [first.source_eq, ← size, Text.takeBytes_append]
  rw [behind, before, ofSource_of_lexes second]
  refine ⟨?_, ?_, ?_⟩
  · rw [Lexeme.place_shift _ apart, backPlaced]
  · have reports := first.filter_raised second
    rw [size] at reports
    rw [reports, Lexeme.raised_shift _ apart]
  · intro separate
    constructor
    · intro same
      obtain ⟨others, lexes', result'⟩ := exists_lexes grammar (Lexeme.texts frontLexemes)
      rw [result', ← frontPlaced] at same
      have equal := congrArg (List.map Span.lexeme) same
      rw [Lexeme.map_lexeme_place, Lexeme.map_lexeme_place] at equal
      rw [equal] at lexes'
      exact lexes'.not_splitsBreak middle
    · intro whole
      rw [ofSource_of_lexes (first.narrow (Grammar.ranked_of_compile compiled) separate whole)]
      exact frontPlaced

def sample : Text := "/**/ \"a\r\n".toList

def sampleSpans : List Span := [
  ⟨.block 1 ⟨⟨'/', ['*']⟩, ⟨'*', ['/']⟩, false, some ⟨'*', []⟩⟩ true, 0, 4, "/**/".toList⟩,
  ⟨.code, 4, 5, " ".toList⟩,
  ⟨.string 0 ⟨⟨'"', []⟩, ⟨'"', []⟩, some ⟨'\\', []⟩, false⟩ false, 5, 7, "\"a".toList⟩,
  ⟨.code, 7, 9, "\r\n".toList⟩]

theorem ofSource_splits_sample :
    Grammar.compile "c".toList (Configuration.Builtin.curly "C" ["c"]
        [Configuration.Builtin.quotedLine "\""]) = .ok Grammar.starred ∧
      Grammar.starred.Separate ∧ (ofSource Grammar.starred sample).spans = sampleSpans ∧
      (ofSource Grammar.starred (Text.dropBytes 4 sample)).spans.map (Span.shift 4) =
        sampleSpans.drop 1 ∧
      (ofSource Grammar.starred (Text.dropBytes 4 sample)).diagnostics.map
          (fun report => (report.construct, report.place.offset + 4)) = [(.stringLiteral, 5)] ∧
      (ofSource Grammar.starred (Text.takeBytes 4 sample)).spans = sampleSpans.take 1 := by
  have compiled : Grammar.compile "c".toList (Configuration.Builtin.curly "C" ["c"]
      [Configuration.Builtin.quotedLine "\""]) = .ok Grammar.starred := by decide +kernel
  have separate : Grammar.starred.Separate := by constructor <;> decide +kernel
  have boundary : (ofSource Grammar.starred sample).spans =
      sampleSpans.take 1 ++ ⟨.code, 4, 5, " ".toList⟩ :: sampleSpans.drop 2 := by decide +kernel
  obtain ⟨spans, reports, front⟩ := ofSource_splits compiled boundary
  refine ⟨compiled, separate, boundary, spans, reports.trans (by decide +kernel),
    (front separate).mpr ?_⟩
  rintro ⟨earlier, previous, last, same, _⟩
  have size := congrArg List.length same
  simp [sampleSpans] at size

def anchored : Grammar where
  id := ['r']
  name := ['R']
  highlight := ['r']
  extensions := []
  lineMarkers := [⟨⟨'#', []⟩, false⟩]
  blockStyles := [⟨⟨'\n', "=begin".toList⟩, ⟨'\n', "=end".toList⟩, true, none⟩]
  strings := []

/-- The line comment ends in front of the line break; without the line feed it takes in the carriage
return. -/
theorem ofSource_anchored_not_split :
    Grammar.compile "r".toList (((LanguageTable.named "R".toList).addLineComment "#".toList)
        |>.addBlockComment (.doc "\n=begin".toList "\n=end".toList)) = .ok anchored ∧
      anchored.Separate ∧
      (ofSource anchored "# a\r\n=begin\n=end".toList).spans =
        [⟨.line 0 ⟨⟨'#', []⟩, false⟩, 0, 3, "# a".toList⟩, ⟨.code, 3, 4, "\r".toList⟩] ++
          [⟨.block 0 ⟨⟨'\n', "=begin".toList⟩, ⟨'\n', "=end".toList⟩, true, none⟩ true, 4, 16,
            "\n=begin\n=end".toList⟩] ∧
      (ofSource anchored (Text.takeBytes 4 "# a\r\n=begin\n=end".toList)).spans ≠
        [⟨.line 0 ⟨⟨'#', []⟩, false⟩, 0, 3, "# a".toList⟩, ⟨.code, 3, 4, "\r".toList⟩] := by
  refine ⟨by decide +kernel, ?_, by decide +kernel, by decide +kernel⟩
  constructor <;> decide +kernel

end Scan

end SourceDocs
