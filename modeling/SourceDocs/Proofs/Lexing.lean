import Mathlib.Data.List.Chain
import SourceDocs.Diagnostic
import SourceDocs.Grammar.Opener
import SourceDocs.Proofs.Clear
import SourceDocs.Proofs.Literal
import SourceDocs.Proofs.Offsets
import SourceDocs.Span

/-!
What a correct lexing of a source text is, said without a machine. A span of code is clear of
openers; every other span begins where its construct opens and ends where that construct ends. A
source text has at most one lexing.

The lexing is stated twice: `Lexing` for spans placed in the whole text, and `Lexes` for lexemes read
off one after the other, which is the form that inductions use.
-/

namespace SourceDocs

namespace Place

theorem advance_append (place : Place) (first second : Text) :
    place.advance (first ++ second) = (place.advance first).advance second :=
  List.foldl_append

@[simp] theorem offset_advance (place : Place) (passed : Text) :
    (place.advance passed).offset = place.offset + Text.bytes passed := by
  induction passed generalizing place with
  | nil => rfl
  | cons c passed ih =>
    have moved : (place.step c).offset = place.offset + c.utf8Size := by
      unfold step
      split <;> rfl
    rw [advance, List.foldl_cons, ← advance, ih, moved, Text.bytes_cons, Nat.add_assoc]

theorem offset_after (before : Text) : (after before).offset = Text.bytes before := by
  rw [after, offset_advance]
  exact Nat.zero_add _

end Place

def SpanKind.opener? : SpanKind → Option Opener
  | code => none
  | line index marker => some (.line index marker)
  | block index style _ => some (.block index style)
  | string index delimiter _ => some (.string index delimiter)

def SpanKind.leftOpen? : SpanKind → Option Construct
  | block _ _ false => some .blockComment
  | string _ _ false => some .stringLiteral
  | _ => none

def Reads (grammar : Grammar) (text after : Text) : SpanKind → Prop
  | .code => Text.Clear (grammar.openerAt · ≠ none) text after
  | .line index marker =>
    grammar.openerAt (text ++ after) = some (.line index marker) ∧
      ∃ body, text = marker.marker.text ++ body ∧
        Text.Clear (Text.atLineBreak · = true) body after ∧
        (after = [] ∨ Text.atLineBreak after = true)
  | .block index style true =>
    grammar.openerAt (text ++ after) = some (.block index style) ∧
      ∃ body, text = style.start.text ++ body ++ style.stop.text ∧
        Text.Clear (style.stop.text <+: ·) body (style.stop.text ++ after)
  | .block index style false =>
    grammar.openerAt (text ++ after) = some (.block index style) ∧
      ∃ body, text = style.start.text ++ body ∧ after = [] ∧
        Text.Clear (style.stop.text <+: ·) body []
  | .string index delimiter terminated =>
    grammar.openerAt (text ++ after) = some (.string index delimiter) ∧
      ∃ body, text = delimiter.opening.text ++ body ∧ Literal delimiter body after terminated

def Span.range (span : Span) : Nat × Nat := (span.start, span.stop)

/-- A correct lexing: the spans tile the source, each is what its kind says at the place where it
stands, and code is not cut in two. -/
structure Lexing (grammar : Grammar) (source : Text) (spans : List Span) : Prop where
  tiles : Tile 0 (Text.bytes source) (spans.map Span.range)
  reads : ∀ span ∈ spans, ∃ before after, source = before ++ span.text ++ after ∧
    Text.bytes before = span.start ∧ Text.bytes (before ++ span.text) = span.stop ∧
    Reads grammar span.text after span.kind
  separated : spans.IsChain fun first second => first.kind = .code → second.kind ≠ .code

structure Lexeme where
  kind : SpanKind
  text : Text

def Lexes (grammar : Grammar) : Text → List Lexeme → Text → Prop
  | source, [], rest => source = rest
  | source, lexeme :: lexemes, rest =>
    ∃ after, source = lexeme.text ++ after ∧ lexeme.text ≠ [] ∧
      Reads grammar lexeme.text after lexeme.kind ∧
      (lexeme.kind = .code → after = [] ∨ grammar.openerAt after ≠ none) ∧
      Lexes grammar after lexemes rest

namespace Lexeme

def texts (lexemes : List Lexeme) : Text := lexemes.flatMap text

@[simp] theorem texts_nil : texts [] = [] := rfl

@[simp] theorem texts_cons (lexeme : Lexeme) (lexemes : List Lexeme) :
    texts (lexeme :: lexemes) = lexeme.text ++ texts lexemes := rfl

@[simp] theorem texts_append (first second : List Lexeme) :
    texts (first ++ second) = texts first ++ texts second := List.flatMap_append

def place : Place → List Lexeme → List Span
  | _, [] => []
  | start, lexeme :: lexemes =>
    ⟨lexeme.kind, start.offset, (start.advance lexeme.text).offset, lexeme.text⟩ ::
      place (start.advance lexeme.text) lexemes

def raised : Place → List Lexeme → List Diagnostic
  | _, [] => []
  | start, lexeme :: lexemes =>
    (lexeme.kind.leftOpen?.map (⟨·, start⟩)).toList ++ raised (start.advance lexeme.text) lexemes

theorem place_append (start : Place) (first second : List Lexeme) :
    place start (first ++ second) =
      place start first ++ place (start.advance (texts first)) second := by
  induction first generalizing start with
  | nil => rfl
  | cons lexeme lexemes ih =>
    rw [List.cons_append, place, place, ih, List.cons_append, texts_cons, Place.advance_append]

theorem raised_append (start : Place) (first second : List Lexeme) :
    raised start (first ++ second) =
      raised start first ++ raised (start.advance (texts first)) second := by
  induction first generalizing start with
  | nil => rfl
  | cons lexeme lexemes ih =>
    rw [List.cons_append, raised, raised, ih, List.append_assoc, texts_cons, Place.advance_append]

end Lexeme

namespace Reads

variable {grammar : Grammar} {text after other rest : Text} {kind kind' : SpanKind}

theorem clear (reads : Reads grammar text after .code) :
    Text.Clear (grammar.openerAt · ≠ none) text after := reads

theorem opener (reads : Reads grammar text after kind) (nonempty : text ≠ []) :
    grammar.openerAt (text ++ after) = kind.opener? := by
  match kind with
  | .code => exact Decidable.not_not.mp (reads.clear.not_here nonempty)
  | .line index marker => exact reads.1
  | .block index style true => exact reads.1
  | .block index style false => exact reads.1
  | .string index delimiter terminated => exact reads.1

/-- The body of a block comment, closed or not, and the text from its end on. -/
private theorem block_body {index : Nat} {style : BlockStyle} {terminated : Bool}
    (reads : Reads grammar text after (.block index style terminated)) :
    ∃ body tail, text ++ after = style.start.text ++ (body ++ tail) ∧
      Text.Clear (style.stop.text <+: ·) body tail ∧ (tail = [] ∨ style.stop.text <+: tail) ∧
      (terminated = true → tail ≠ [] ∧ text = style.start.text ++ body ++ style.stop.text) ∧
      (terminated = false → tail = [] ∧ text = style.start.text ++ body) := by
  cases terminated with
  | true =>
    obtain ⟨_, body, rfl, clear⟩ := reads
    refine ⟨body, style.stop.text ++ after, by simp only [List.append_assoc], clear,
      .inr ⟨after, rfl⟩, fun _ => ⟨?_, rfl⟩, by simp⟩
    exact List.append_ne_nil_of_left_ne_nil style.stop.text_ne_nil after
  | false =>
    obtain ⟨_, body, rfl, rfl, clear⟩ := reads
    exact ⟨body, [], by simp only [List.append_nil], clear, .inl rfl, by simp, fun _ => ⟨rfl, rfl⟩⟩

private theorem line_unique {index : Nat} {marker : LineMarker}
    (first : Reads grammar text after (.line index marker))
    (second : Reads grammar other rest (.line index marker)) (same : text ++ after = other ++ rest) :
    text = other := by
  obtain ⟨_, body, rfl, clear, ends⟩ := first
  obtain ⟨_, body', rfl, clear', ends'⟩ := second
  rw [List.append_assoc, List.append_assoc] at same
  obtain ⟨rfl, _⟩ := Text.Clear.unique (List.append_cancel_left same) clear ends clear' ends'
  rfl

private theorem block_unique {index : Nat} {style : BlockStyle} {terminated closed : Bool}
    (first : Reads grammar text after (.block index style terminated))
    (second : Reads grammar other rest (.block index style closed))
    (same : text ++ after = other ++ rest) : terminated = closed ∧ text = other := by
  obtain ⟨body, tail, whole, clear, ends, shut, unshut⟩ := first.block_body
  obtain ⟨body', tail', whole', clear', ends', shut', unshut'⟩ := second.block_body
  rw [whole, whole'] at same
  obtain ⟨rfl, rfl⟩ := Text.Clear.unique (List.append_cancel_left same) clear ends clear' ends'
  cases terminated with
  | true =>
    cases closed with
    | true => exact ⟨rfl, (shut rfl).2.trans (shut' rfl).2.symm⟩
    | false => exact absurd (unshut' rfl).1 (shut rfl).1
  | false =>
    cases closed with
    | true => exact absurd (unshut rfl).1 (shut' rfl).1
    | false => exact ⟨rfl, (unshut rfl).2.trans (unshut' rfl).2.symm⟩

private theorem string_unique {index : Nat} {delimiter : StringDelimiter} {terminated closed : Bool}
    (first : Reads grammar text after (.string index delimiter terminated))
    (second : Reads grammar other rest (.string index delimiter closed))
    (same : text ++ after = other ++ rest) : terminated = closed ∧ text = other := by
  obtain ⟨_, body, rfl, literal⟩ := first
  obtain ⟨_, body', rfl, literal'⟩ := second
  rw [List.append_assoc, List.append_assoc] at same
  obtain ⟨rfl, rfl⟩ := literal.unique literal' (List.append_cancel_left same)
  exact ⟨rfl, rfl⟩

/-- The first span of a text is determined by the text. -/
theorem unique (first : Reads grammar text after kind) (nonempty : text ≠ [])
    (ends : kind = .code → after = [] ∨ grammar.openerAt after ≠ none)
    (second : Reads grammar other rest kind') (nonempty' : other ≠ [])
    (ends' : kind' = .code → rest = [] ∨ grammar.openerAt rest ≠ none)
    (same : text ++ after = other ++ rest) : kind = kind' ∧ text = other := by
  have openers : kind.opener? = kind'.opener? := by
    rw [← first.opener nonempty, same, second.opener nonempty']
  cases kind with
  | code =>
    cases kind' with
    | code =>
      exact ⟨rfl, (Text.Clear.unique same first.clear (ends rfl) second.clear (ends' rfl)).1⟩
    | _ => simp [SpanKind.opener?] at openers
  | line index marker =>
    cases kind' with
    | line index' marker' =>
      simp only [SpanKind.opener?, Option.some.injEq, Opener.line.injEq] at openers
      obtain ⟨rfl, rfl⟩ := openers
      exact ⟨rfl, line_unique first second same⟩
    | _ => simp [SpanKind.opener?] at openers
  | block index style terminated =>
    cases kind' with
    | block index' style' closed =>
      simp only [SpanKind.opener?, Option.some.injEq, Opener.block.injEq] at openers
      obtain ⟨rfl, rfl⟩ := openers
      obtain ⟨rfl, equal⟩ := block_unique first second same
      exact ⟨rfl, equal⟩
    | _ => simp [SpanKind.opener?] at openers
  | string index delimiter terminated =>
    cases kind' with
    | string index' delimiter' closed =>
      simp only [SpanKind.opener?, Option.some.injEq, Opener.string.injEq] at openers
      obtain ⟨rfl, rfl⟩ := openers
      obtain ⟨rfl, equal⟩ := string_unique first second same
      exact ⟨rfl, equal⟩
    | _ => simp [SpanKind.opener?] at openers

end Reads

namespace Lexes

variable {grammar : Grammar} {source middle rest : Text} {lexemes further : List Lexeme}

theorem append (first : Lexes grammar source lexemes middle)
    (second : Lexes grammar middle further rest) : Lexes grammar source (lexemes ++ further) rest := by
  induction lexemes generalizing source with
  | nil =>
    have same : source = middle := first
    rw [same]
    exact second
  | cons lexeme lexemes ih =>
    obtain ⟨after, split, nonempty, reads, ends, below⟩ := first
    exact ⟨after, split, nonempty, reads, ends, ih below⟩

theorem source_eq (lexes : Lexes grammar source lexemes rest) :
    source = Lexeme.texts lexemes ++ rest := by
  induction lexemes generalizing source with
  | nil => exact lexes
  | cons lexeme lexemes ih =>
    obtain ⟨after, whole, _, _, _, below⟩ := lexes
    rw [whole, ih below, Lexeme.texts_cons, List.append_assoc]

theorem opener {lexeme : Lexeme} (lexes : Lexes grammar source (lexeme :: lexemes) rest) :
    grammar.openerAt source = lexeme.kind.opener? := by
  obtain ⟨after, rfl, nonempty, reads, _⟩ := lexes
  exact reads.opener nonempty

theorem unique (first : Lexes grammar source lexemes []) (second : Lexes grammar source further []) :
    lexemes = further := by
  induction lexemes generalizing source further with
  | nil =>
    have empty : source = [] := first
    cases further with
    | nil => rfl
    | cons lexeme further =>
      obtain ⟨after, split, nonempty, _⟩ := second
      rw [empty] at split
      exact absurd (List.append_eq_nil_iff.mp split.symm).1 nonempty
  | cons lexeme lexemes ih =>
    obtain ⟨after, split, nonempty, reads, ends, below⟩ := first
    cases further with
    | nil =>
      have empty : source = [] := second
      rw [empty] at split
      exact absurd (List.append_eq_nil_iff.mp split.symm).1 nonempty
    | cons lexeme' further =>
      obtain ⟨after', split', nonempty', reads', ends', below'⟩ := second
      have same := split.symm.trans split'
      obtain ⟨kinds, texts⟩ := reads.unique nonempty ends reads' nonempty' ends' same
      rw [texts] at same
      have rests := List.append_cancel_left same
      rw [rests] at below
      have heads : lexeme = lexeme' := by
        cases lexeme
        cases lexeme'
        exact congr (congrArg Lexeme.mk kinds) texts
      rw [heads, ih below below']

theorem tiles (lexes : Lexes grammar source lexemes []) (start : Place) :
    Tile start.offset (start.offset + Text.bytes source)
      ((Lexeme.place start lexemes).map Span.range) := by
  induction lexemes generalizing source start with
  | nil =>
    have empty : source = [] := lexes
    rw [empty]
    rfl
  | cons lexeme lexemes ih =>
    obtain ⟨after, rfl, nonempty, _, _, below⟩ := lexes
    have size := Text.bytes_pos nonempty
    have others := ih below (start.advance lexeme.text)
    rw [Place.offset_advance, Nat.add_assoc, ← Text.bytes_append] at others
    refine ⟨rfl, ?_, ?_⟩
    · simp only [Span.range, Place.offset_advance]
      omega
    · simpa only [Span.range, Place.offset_advance] using others

theorem reads_of_mem (lexes : Lexes grammar source lexemes []) (start : Place) {span : Span}
    (member : span ∈ Lexeme.place start lexemes) :
    ∃ before after, source = before ++ span.text ++ after ∧
      start.offset + Text.bytes before = span.start ∧
      start.offset + Text.bytes (before ++ span.text) = span.stop ∧
      Reads grammar span.text after span.kind := by
  induction lexemes generalizing source start with
  | nil => simp [Lexeme.place] at member
  | cons lexeme lexemes ih =>
    obtain ⟨after, rfl, _, reads, _, below⟩ := lexes
    rw [Lexeme.place, List.mem_cons] at member
    rcases member with rfl | member
    · exact ⟨[], after, rfl, rfl, by simp, reads⟩
    · obtain ⟨before, rest, rfl, first, last, reads⟩ := ih below (start.advance lexeme.text) member
      rw [Place.offset_advance, Nat.add_assoc, ← Text.bytes_append] at first last
      exact ⟨lexeme.text ++ before, rest, by simp only [List.append_assoc], first,
        by rw [List.append_assoc]; exact last, reads⟩

theorem separated (lexes : Lexes grammar source lexemes []) (start : Place) :
    (Lexeme.place start lexemes).IsChain fun first second =>
      first.kind = .code → second.kind ≠ .code := by
  induction lexemes generalizing source start with
  | nil => exact .nil
  | cons lexeme lexemes ih =>
    obtain ⟨after, rfl, _, _, ends, below⟩ := lexes
    cases lexemes with
    | nil => exact .singleton _
    | cons next lexemes =>
      refine List.isChain_cons_cons.mpr ⟨?_, ih below _⟩
      intro inCode nextCode
      have quiet : grammar.openerAt after = none := by
        rw [below.opener]
        exact congrArg SpanKind.opener? nextCode
      obtain ⟨_, rfl, nonempty, _⟩ := below
      rcases ends inCode with empty | opens
      · exact nonempty (List.append_eq_nil_iff.mp empty).1
      · exact opens quiet

theorem lexing (lexes : Lexes grammar source lexemes []) :
    Lexing grammar source (Lexeme.place .start lexemes) where
  tiles := by
    have tiles := lexes.tiles .start
    rwa [show Place.start.offset = 0 from rfl, Nat.zero_add] at tiles
  reads := by
    intro span member
    obtain ⟨before, after, whole, first, last, reads⟩ := lexes.reads_of_mem .start member
    rw [show Place.start.offset = 0 from rfl, Nat.zero_add] at first last
    exact ⟨before, after, whole, first, last, reads⟩
  separated := lexes.separated .start

end Lexes

def Span.lexeme (span : Span) : Lexeme := ⟨span.kind, span.text⟩

theorem Lexeme.map_lexeme_place (start : Place) (lexemes : List Lexeme) :
    (place start lexemes).map Span.lexeme = lexemes := by
  induction lexemes generalizing start with
  | nil => rfl
  | cons lexeme lexemes ih =>
    rw [place, List.map_cons, ih]
    rfl

/-- Spans that are correct where they stand can be read off one after the other. -/
theorem lexes_of_reads {grammar : Grammar} {whole before source : Text} {spans : List Span}
    (start : Place) (split : whole = before ++ source) (offset : start.offset = Text.bytes before)
    (tiles : Tile start.offset (Text.bytes whole) (spans.map Span.range))
    (reads : ∀ span ∈ spans, ∃ before after, whole = before ++ span.text ++ after ∧
      Text.bytes before = span.start ∧ Text.bytes (before ++ span.text) = span.stop ∧
      Reads grammar span.text after span.kind)
    (separated : spans.IsChain fun first second => first.kind = .code → second.kind ≠ .code) :
    Lexes grammar source (spans.map Span.lexeme) [] ∧
      Lexeme.place start (spans.map Span.lexeme) = spans := by
  induction spans generalizing before source start with
  | nil =>
    have size : start.offset = Text.bytes whole := tiles
    rw [offset, split, Text.bytes_append] at size
    exact ⟨Text.eq_nil_of_bytes (by omega), rfl⟩
  | cons span spans ih =>
    obtain ⟨begins, positive, others⟩ := tiles
    obtain ⟨front, after, whole_eq, first, last, here⟩ := reads span (by simp)
    have startEq : Text.bytes before = Text.bytes front := by
      rw [← offset, first]
      exact begins.symm
    rw [List.append_assoc] at whole_eq
    obtain ⟨rfl, rfl⟩ := Text.append_inj_of_bytes (split.symm.trans whole_eq) startEq
    have stopEq : (start.advance span.text).offset = span.stop := by
      rw [Place.offset_advance, offset, ← Text.bytes_append, last]
    have nonempty : span.text ≠ [] := by
      intro empty
      rw [empty, List.append_nil, first] at last
      have grows : span.start < span.stop := positive
      omega
    obtain ⟨below, placed⟩ := ih (start.advance span.text)
      (by rw [split, List.append_assoc]) (by rw [stopEq, last]) (by rw [stopEq]; exact others)
      (fun other member => reads other (List.mem_cons_of_mem _ member)) separated.tail
    refine ⟨⟨after, rfl, nonempty, here, ?_, below⟩, ?_⟩
    · -- code ends where the text ends or where the next span, which is no code, opens
      intro inCode
      cases spans with
      | nil => exact .inl below
      | cons next spans =>
        have nextKind := (List.isChain_cons_cons.mp separated).1 inCode
        refine .inr ?_
        rw [below.opener]
        simp only [Span.lexeme]
        cases kind : next.kind with
        | code => exact absurd kind nextKind
        | _ => simp [SpanKind.opener?]
    · have startHere : start.offset = span.start := begins.symm
      change ⟨span.kind, start.offset, (start.advance span.text).offset, span.text⟩ ::
        Lexeme.place (start.advance span.text) (spans.map Span.lexeme) = span :: spans
      rw [placed, stopEq, startHere]

theorem Lexing.lexes {grammar : Grammar} {source : Text} {spans : List Span}
    (lexing : Lexing grammar source spans) :
    Lexes grammar source (spans.map Span.lexeme) [] ∧
      Lexeme.place .start (spans.map Span.lexeme) = spans := by
  have split : source = [] ++ source := rfl
  exact lexes_of_reads .start split rfl lexing.tiles lexing.reads lexing.separated

end SourceDocs
