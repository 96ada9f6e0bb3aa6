import SourceDocs.Configuration.Builtin
import SourceDocs.Document
import SourceDocs.Proofs.Normalizing
import SourceDocs.Proofs.Runs
import SourceDocs.Proofs.Scanning
import SourceDocs.Proofs.SolidMarkers

/-!
Writing documentation as block comments and reading it back. Passages of prose, each in front of
the code it is about, are written with one decorated line per line of prose; the document of the
written text has the same prose and the same code in the same order, and nothing is reported.
-/

namespace SourceDocs

structure Passage where
  prose : List Text
  code : Text
deriving DecidableEq, Repr

namespace Passage

section Writing

variable (style : BlockStyle) (continuation : Marker)

def decorate (line : Text) : Text := ' ' :: (continuation.text ++ ' ' :: line)

def body (prose : List Text) : Text :=
  '\n' :: (prose.flatMap fun line => decorate continuation line ++ ['\n']) ++ [' ']

def comment (prose : List Text) : Text :=
  style.start.text ++ body continuation prose ++ style.stop.text

def write (passage : Passage) : Text := comment style continuation passage.prose ++ passage.code

def placed : Nat → List Passage → List (Nat × Passage)
  | _, [] => []
  | start, passage :: passages =>
    (start, passage) :: placed (start + Text.bytes (passage.write style continuation)) passages

def segments (language : Text) (entry : Nat × Passage) : List Segment :=
  let middle := entry.1 + Text.bytes (comment style continuation entry.2.prose)
  [.documentation (Text.joinLines entry.2.prose) entry.1 middle,
    .code entry.2.code language middle (middle + Text.bytes entry.2.code)]

end Writing

/-- What a passage has to be like so that reading it back gives it again. -/
structure Fits (grammar : Grammar) (style : BlockStyle) (passage : Passage) : Prop where
  nonempty : passage.prose ≠ []
  unbroken : ∀ line ∈ passage.prose, '\n' ∉ line
  unreturned : ∀ line ∈ passage.prose, line.getLast? ≠ some '\r'
  unclosed : ∀ line ∈ passage.prose, ¬style.stop.text <:+: line
  head : ∀ line ∈ passage.prose.head?, Text.isBlank line = false
  last : ∀ line ∈ passage.prose.getLast?, Text.isBlank line = false
  visible : Text.isBlank passage.code = false
  ends : passage.code.getLast? = some '\n'
  plain : ∀ marker ∈ grammar.openings, ¬marker.text <:+: passage.code

variable {grammar : Grammar} {index : Nat} {style : BlockStyle} {continuation : Marker}

section Prose

variable {prose : List Text}

theorem joinLines_decorated (prose : List Text) :
    Text.joinLines (prose.map (decorate continuation) ++ [[' ']]) =
      (prose.flatMap fun line => decorate continuation line ++ ['\n']) ++ [' '] := by
  induction prose with
  | nil => rfl
  | cons line prose ih =>
    rw [List.map_cons, List.cons_append, Text.joinLines_cons (by simp), ih, List.flatMap_cons]
    simp only [List.append_assoc, List.cons_append, List.nil_append]

theorem body_eq_joinLines (prose : List Text) :
    body continuation prose =
      Text.joinLines ([] :: (prose.map (decorate continuation) ++ [[' ']])) := by
  rw [Text.joinLines_cons (by simp), joinLines_decorated]
  rfl

theorem lines_body (solid : continuation.Solid) (unbroken : ∀ line ∈ prose, '\n' ∉ line) :
    Text.lines (body continuation prose) =
      [] :: (prose.map (decorate continuation) ++ [[' ']]) := by
  rw [body_eq_joinLines]
  apply Text.lines_joinLines (List.cons_ne_nil _ _)
  have lineFeed : '\n' ∉ continuation.text := solid.not_mem (by decide)
  intro piece member
  rw [List.mem_cons, List.mem_append, List.mem_map, List.mem_singleton] at member
  rcases member with rfl | ⟨line, inside, rfl⟩ | rfl
  · exact List.not_mem_nil
  · simp [decorate, lineFeed, unbroken line inside]
  · decide

theorem dropReturn_decorate {line : Text} (unreturned : line.getLast? ≠ some '\r') :
    Text.dropReturn (decorate continuation line) = decorate continuation line := by
  apply Text.dropReturn_of_getLast?
  have front : decorate continuation line = (' ' :: continuation.text) ++ (' ' :: line) := rfl
  rw [front, List.getLast?_append_cons]
  cases line with
  | nil => decide
  | cons c line => rwa [List.getLast?_cons_cons]

theorem undecorated_body (decorated : style.continuation = some continuation)
    (solid : continuation.Solid) (unbroken : ∀ line ∈ prose, '\n' ∉ line)
    (unreturned : ∀ line ∈ prose, line.getLast? ≠ some '\r') :
    Comment.undecorated style (body continuation prose) = [] :: prose ++ [[]] := by
  have returns : (prose.map (decorate continuation)).map Text.dropReturn =
      prose.map (decorate continuation) := by
    rw [List.map_map]
    exact List.map_congr_left fun line member => dropReturn_decorate (unreturned line member)
  have strips : ∀ line, style.stripContinuation (decorate continuation line) = line := by
    intro line
    rw [BlockStyle.stripContinuation, decorated]
    dsimp only
    rw [decorate, dropContinuation?_padded solid.not_isPadding_head, Option.getD_some]
  have stripsLast : style.stripContinuation [' '] = [' '] := by
    rw [BlockStyle.stripContinuation, decorated]
    dsimp only
    rw [dropContinuation?_blank solid.not_isPadding_head, Option.getD_none]
  have inner : (prose.map (decorate continuation)).map style.stripContinuation = prose := by
    rw [List.map_map]
    exact (List.map_congr_left fun line _ => strips line).trans (List.map_id prose)
  have edge : Text.dropReturn [' '] = [' '] := by decide
  unfold Comment.undecorated
  rw [lines_body solid unbroken, List.map_cons, List.map_append, returns, List.map_singleton, edge]
  dsimp only
  rw [List.map_append, inner, List.map_singleton, stripsLast, ← List.cons_append,
    List.dropLast_concat, List.getLastD_concat]
  rfl

theorem ofBlockBody_body {passage : Passage} (fits : passage.Fits grammar style)
    (decorated : style.continuation = some continuation) (solid : continuation.Solid) :
    Comment.ofBlockBody style (body continuation passage.prose) =
      Text.joinLines passage.prose := by
  rw [Comment.ofBlockBody, undecorated_body decorated solid fits.unbroken fits.unreturned,
    Comment.dropBlankEdges_framed rfl rfl fits.head fits.last]

end Prose

section Lexemes

variable {passage : Passage} {passages : List Passage} {after : Text}

private theorem clear_singleton {w : Char} (absent : w ∉ style.stop.text) :
    Text.Clear (style.stop.text <+: ·) [w] after :=
  Text.clear_of_absent absent style.stop.not_infix_nil

theorem clear_decorate (writes : grammar.Writes index style continuation) (solid : grammar.Solid)
    {line : Text} (unclosed : ¬style.stop.text <:+: line) :
    Text.Clear (style.stop.text <+: ·) (decorate continuation line ++ ['\n']) after := by
  have space : ' ' ∉ style.stop.text := (writes.stop_solid solid).not_mem (by decide)
  have lineFeed : '\n' ∉ style.stop.text := (writes.stop_solid solid).not_mem (by decide)
  have pieces : decorate continuation line ++ ['\n'] =
      [' '] ++ (continuation.text ++ [' '] ++ (line ++ ['\n'])) := by simp [decorate]
  rw [pieces, Text.clear_append_iff, Text.clear_append_iff]
  exact ⟨clear_singleton space, Text.clear_of_absent space writes.distinct,
    Text.clear_of_absent lineFeed unclosed⟩

theorem clear_body (writes : grammar.Writes index style continuation) (solid : grammar.Solid)
    {prose : List Text} (unclosed : ∀ line ∈ prose, ¬style.stop.text <:+: line) :
    Text.Clear (style.stop.text <+: ·) (body continuation prose) after := by
  have written : ∀ after, Text.Clear (style.stop.text <+: ·)
      (prose.flatMap fun line => decorate continuation line ++ ['\n']) after := by
    induction prose with
    | nil => exact fun _ => Text.clear_nil
    | cons line prose ih =>
      intro after
      rw [List.flatMap_cons, Text.clear_append_iff]
      refine ⟨clear_decorate writes solid (unclosed line List.mem_cons_self), ih ?_ after⟩
      exact fun line member => unclosed line (List.mem_cons_of_mem _ member)
  rw [body, ← List.singleton_append, Text.clear_append_iff, Text.clear_append_iff]
  exact ⟨⟨clear_singleton ((writes.stop_solid solid).not_mem (by decide)), written _⟩,
    clear_singleton ((writes.stop_solid solid).not_mem (by decide))⟩

theorem reads_comment (unshadowed : BlockStyle.Unshadowed grammar.blockStyles) (solid : grammar.Solid) (writes : grammar.Writes index style continuation)
    (fits : passage.Fits grammar style) :
    Reads grammar (comment style continuation passage.prose) after (.block index style true) := by
  refine ⟨?_, body continuation passage.prose, rfl, clear_body writes solid fits.unclosed⟩
  rw [comment, body, List.append_assoc, List.append_assoc, List.cons_append, List.cons_append]
  exact Grammar.openerAt_start unshadowed solid writes (by decide)

theorem reads_code (solid : grammar.Solid) (fits : passage.Fits grammar style) :
    Reads grammar passage.code after .code := by
  obtain ⟨front, code_eq⟩ := List.getLast?_eq_some_iff.mp fits.ends
  intro before back split nonempty begins
  obtain ⟨opener, found⟩ := Option.ne_none_iff_exists'.mp begins
  obtain ⟨declares, stands⟩ := Grammar.openerAt_spec found
  have member := declares.mem_openings
  have absent : ¬opener.marker.text <:+: front := by
    intro inside
    apply fits.plain _ member
    rw [code_eq]
    exact inside.trans (List.prefix_append front _).isInfix
  rw [code_eq] at split
  have lineFeed : '\n' ∉ opener.marker.text := (solid.openings _ member).not_mem (by decide)
  exact Text.clear_of_absent lineFeed absent before back split nonempty stands

def lexemes (index : Nat) (style : BlockStyle) (continuation : Marker) (passage : Passage) :
    List Lexeme :=
  [⟨.block index style true, comment style continuation passage.prose⟩, ⟨.code, passage.code⟩]

theorem comment_ne_nil (prose : List Text) : comment style continuation prose ≠ [] := by
  simp [comment, Marker.text]

theorem Fits.code_ne_nil (fits : passage.Fits grammar style) : passage.code ≠ [] := by
  intro empty
  have ends := fits.ends
  rw [empty] at ends
  cases ends

theorem lexes_write (unshadowed : BlockStyle.Unshadowed grammar.blockStyles) (solid : grammar.Solid) (writes : grammar.Writes index style continuation)
    (fits : ∀ passage ∈ passages, passage.Fits grammar style) :
    Lexes grammar (passages.flatMap (write style continuation))
      (passages.flatMap (lexemes index style continuation)) [] := by
  induction passages with
  | nil => rfl
  | cons passage passages ih =>
    have here := fits passage List.mem_cons_self
    have later := ih fun passage member => fits passage (List.mem_cons_of_mem _ member)
    rw [List.flatMap_cons, List.flatMap_cons, write, List.append_assoc]
    refine ⟨_, rfl, comment_ne_nil _, reads_comment unshadowed solid writes here, by simp, ?_⟩
    refine ⟨_, rfl, here.code_ne_nil, reads_code solid here, fun _ => ?_, later⟩
    cases passages with
    | nil => exact .inl rfl
    | cons next passages =>
      have there := fits next (List.mem_cons_of_mem _ List.mem_cons_self)
      have reads : Reads grammar (comment style continuation next.prose)
          (next.code ++ passages.flatMap (write style continuation)) (.block index style true) :=
        reads_comment unshadowed solid writes there
      rw [List.flatMap_cons, write, List.append_assoc, reads.opener (comment_ne_nil _)]
      exact .inr (by simp [SpanKind.opener?])

theorem raised_lexemes (start : Place) (passages : List Passage) :
    Lexeme.raised start (passages.flatMap (lexemes index style continuation)) = [] := by
  induction passages generalizing start with
  | nil => rfl
  | cons passage passages ih =>
    rw [List.flatMap_cons, Lexeme.raised_append, ih]
    rfl

end Lexemes

end Passage

namespace Segment

theorem splitBy_apart {source : Text} {spans : List Span}
    (apart : spans.IsChain fun first second => adjoins source first second = false) :
    spans.splitBy (adjoins source) = spans.map fun span => [span] := by
  rw [List.splitBy_eq_iff]
  refine ⟨(List.flatMap_singleton' spans).symm, by simp, ?_, ?_⟩
  · intro run member
    obtain ⟨span, _, rfl⟩ := List.mem_map.mp member
    exact .singleton span
  · rw [List.isChain_map]
    exact apart.imp fun first second separate =>
      ⟨List.cons_ne_nil _ _, List.cons_ne_nil _ _, separate⟩

theorem codeBetween_append {before code after language : Text} {start stop : Nat}
    (nonempty : code ≠ []) (first : Text.bytes before = start)
    (last : start + Text.bytes code = stop) :
    codeBetween (before ++ code ++ after) language start stop =
      [.code code language start stop] := by
  have positive := Text.bytes_pos nonempty
  rw [codeBetween, if_pos (by omega), Text.slice_append first last]

end Segment

namespace Passage

variable {grammar : Grammar} {index : Nat} {style : BlockStyle} {continuation : Marker}

section Documents

variable {passage : Passage} {passages : List Passage} {before after source : Text}

def span (index : Nat) (style : BlockStyle) (continuation : Marker) (entry : Nat × Passage) : Span :=
  ⟨.block index style true, entry.1,
    entry.1 + Text.bytes (comment style continuation entry.2.prose),
    comment style continuation entry.2.prose⟩

def documentation (style : BlockStyle) (continuation : Marker) (entry : Nat × Passage) : Comment :=
  ⟨Text.joinLines entry.2.prose, true, [], entry.1,
    entry.1 + Text.bytes (comment style continuation entry.2.prose)⟩

theorem write_moved {passage : Passage} {passages : List Passage} {before source : Text}
    (whole : source = before ++ (passage :: passages).flatMap (write style continuation)) :
    source = before ++ passage.write style continuation ++
      passages.flatMap (write style continuation) := by
  rw [whole, List.flatMap_cons, List.append_assoc]

theorem filter_place (documentation : style.documentation = true) (start : Place)
    (passages : List Passage) :
    (Lexeme.place start (passages.flatMap (lexemes index style continuation))).filter
        Span.isDocumentation =
      (placed style continuation start.offset passages).map (span index style continuation) := by
  induction passages generalizing start with
  | nil => rfl
  | cons passage passages ih =>
    rw [List.flatMap_cons, Lexeme.place_append, List.filter_append, ih, placed, List.map_cons,
      Place.offset_advance]
    simp [lexemes, Lexeme.place, Span.isDocumentation, SpanKind.documentation?, documentation, span,
      write]

/-- Comments with code between them do not belong together. -/
theorem isChain_spans (fits : ∀ passage ∈ passages, passage.Fits grammar style)
    (whole : source = before ++ passages.flatMap (write style continuation)) :
    ((placed style continuation (Text.bytes before) passages).map
      (span index style continuation)).IsChain
        fun first second => Segment.adjoins source first second = false := by
  induction passages generalizing before with
  | nil => exact .nil
  | cons passage passages ih =>
    cases passages with
    | nil => exact .singleton _
    | cons next passages =>
      have later := ih (fun passage member => fits passage (List.mem_cons_of_mem _ member))
        (write_moved whole)
      rw [Text.bytes_append] at later
      refine .cons_cons ?_ later
      have gap : Text.slice source
          (Text.bytes before + Text.bytes (comment style continuation passage.prose))
          (Text.bytes before + Text.bytes (passage.write style continuation)) = passage.code := by
        rw [write_moved whole, write, ← List.append_assoc]
        refine Text.slice_append ?_ ?_
        · rw [Text.bytes_append]
        · rw [Text.bytes_append, Nat.add_assoc]
      have visible := (fits passage List.mem_cons_self).visible
      simp [Segment.adjoins, span, gap, visible]

theorem mem_placed {entry : Nat × Passage}
    (member : entry ∈ placed style continuation (Text.bytes before) passages)
    (fits : ∀ passage ∈ passages, passage.Fits grammar style)
    (lineStart : Text.lastLine before = [])
    (whole : source = before ++ passages.flatMap (write style continuation)) :
    entry.2 ∈ passages ∧ ∃ front back, source = front ++ back ∧ Text.bytes front = entry.1 ∧
      Text.lastLine front = [] := by
  induction passages generalizing before with
  | nil => cases member
  | cons passage passages ih =>
    rcases List.mem_cons.mp member with rfl | later
    · exact ⟨List.mem_cons_self, before, _, whole, rfl, lineStart⟩
    · rw [← Text.bytes_append] at later
      obtain ⟨front, ends⟩ := List.getLast?_eq_some_iff.mp (fits passage List.mem_cons_self).ends
      have fresh : Text.lastLine (before ++ passage.write style continuation) = [] := by
        rw [write, ← List.append_assoc, ends, ← List.append_assoc,
          Text.lastLine_append_of_mem (List.mem_singleton_self _)]
        decide
      obtain ⟨inside, context⟩ := ih later
        (fun passage member => fits passage (List.mem_cons_of_mem _ member)) fresh
        (write_moved whole)
      exact ⟨List.mem_cons_of_mem _ inside, context⟩

theorem ofSpans?_span {entry : Nat × Passage} (solid : grammar.Solid)
    (writes : grammar.Writes index style continuation) (fits : entry.2.Fits grammar style)
    (whole : source = before ++ after) (start : Text.bytes before = entry.1)
    (lineStart : Text.lastLine before = []) :
    Comment.ofSpans? source [span index style continuation entry] =
      some (documentation style continuation entry) := by
  have unindented : Comment.indentation (Text.takeBytes entry.1 source) = [] := by
    rw [whole, ← start, Text.takeBytes_append, Comment.indentation, lineStart]
    rfl
  have prose : Comment.ofSpan (span index style continuation entry) =
      Text.joinLines entry.2.prose := by
    change Comment.ofBlockBody style (Comment.blockBody style true
      (comment style continuation entry.2.prose)) = _
    rw [comment, Comment.blockBody_terminated,
      ofBlockBody_body fits writes.decorated (writes.continuation_solid solid)]
  have isDocumentation : ∀ other ∈ [span index style continuation entry],
      other.isDocumentation = true := by
    intro other member
    rw [List.mem_singleton.mp member, Span.isDocumentation, span, SpanKind.documentation?,
      writes.documentation, beq_self_eq_true]
  have start_eq : (span index style continuation entry).start = entry.1 := rfl
  rw [Comment.ofSpans?_of_documentation source isDocumentation, Span.indentedStart, start_eq,
    unindented, List.map_singleton, prose, Text.joinLines_singleton]
  rfl

theorem documentationComments_write (solid : grammar.Solid)
    (writes : grammar.Writes index style continuation)
    (fits : ∀ passage ∈ passages, passage.Fits grammar style)
    (whole : source = passages.flatMap (write style continuation)) :
    Segment.documentationComments source
        (Lexeme.place .start (passages.flatMap (lexemes index style continuation))) =
      (placed style continuation 0 passages).map (documentation style continuation) := by
  have apart : ((placed style continuation 0 passages).map
      (span index style continuation)).IsChain
        fun first second => Segment.adjoins source first second = false :=
    isChain_spans fits (whole.trans (List.nil_append _).symm)
  have start_offset : Place.start.offset = 0 := rfl
  unfold Segment.documentationComments
  rw [filter_place writes.documentation, start_offset, Segment.splitBy_apart apart, List.map_map,
    List.filterMap_map, ← List.filterMap_eq_map]
  refine List.filterMap_congr fun entry member => ?_
  obtain ⟨inside, front, back, split, start, lineStart⟩ :=
    mem_placed member fits rfl (whole.trans (List.nil_append _).symm)
  exact ofSpans?_span solid writes (fits _ inside) split start lineStart

theorem weave_placed (language : Text) {code : Text}
    (fits : ∀ passage ∈ passages, passage.Fits grammar style)
    (whole : source = before ++ code ++ passages.flatMap (write style continuation)) :
    Segment.weave source language (Text.bytes before)
        ((placed style continuation (Text.bytes (before ++ code)) passages).map
          (documentation style continuation)) =
      Segment.codeBetween source language (Text.bytes before) (Text.bytes (before ++ code)) ++
        (placed style continuation (Text.bytes (before ++ code)) passages).flatMap
          (segments style continuation language) := by
  -- `code` is what the passage before left behind: it is copied when the next comment is met
  induction passages generalizing before code with
  | nil =>
    rw [List.flatMap_nil, List.append_nil] at whole
    rw [placed, List.map_nil, Segment.weave, whole, List.flatMap_nil, List.append_nil]
  | cons passage passages ih =>
    have here := fits passage List.mem_cons_self
    have moved : source = before ++ code ++ comment style continuation passage.prose ++
        passage.code ++ passages.flatMap (write style continuation) := by
      rw [write_moved whole, write, ← List.append_assoc]
    have later := ih (fun passage member => fits passage (List.mem_cons_of_mem _ member)) moved
    have copied : Segment.codeBetween source language
        (Text.bytes (before ++ code ++ comment style continuation passage.prose))
        (Text.bytes (before ++ code ++ comment style continuation passage.prose ++ passage.code)) =
        [.code passage.code language
          (Text.bytes (before ++ code ++ comment style continuation passage.prose))
          (Text.bytes (before ++ code ++ comment style continuation passage.prose ++
            passage.code))] := by
      rw [moved]
      exact Segment.codeBetween_append here.code_ne_nil rfl (Text.bytes_append _ _).symm
    have offset : Text.bytes (before ++ code) + Text.bytes (passage.write style continuation) =
        Text.bytes (before ++ code ++ comment style continuation passage.prose ++
          passage.code) := by
      simp only [write, Text.bytes_append]
      omega
    have middle : (documentation style continuation (Text.bytes (before ++ code), passage)).stop =
        Text.bytes (before ++ code ++ comment style continuation passage.prose) :=
      (Text.bytes_append _ _).symm
    rw [placed, List.map_cons, Segment.weave, offset, List.flatMap_cons, middle, later, copied]
    simp only [segments, documentation, Text.bytes_append, List.cons_append, List.nil_append]

theorem ofSpans_write (solid : grammar.Solid) (writes : grammar.Writes index style continuation)
    (fits : ∀ passage ∈ passages, passage.Fits grammar style) (language : Text) :
    Segment.ofSpans language (passages.flatMap (write style continuation))
        (Lexeme.place .start (passages.flatMap (lexemes index style continuation))) =
      (placed style continuation 0 passages).flatMap (segments style continuation language) := by
  have whole : passages.flatMap (write style continuation) =
      [] ++ [] ++ passages.flatMap (write style continuation) := rfl
  have woven := weave_placed language fits whole
  rw [List.append_nil, Text.bytes_nil, Segment.codeBetween, if_neg (Nat.lt_irrefl 0),
    List.nil_append] at woven
  cases passages with
  | nil => rfl
  | cons passage passages =>
    have visible : Text.isBlank ((passage :: passages).flatMap (write style continuation)) =
        false := by
      have code := (fits passage List.mem_cons_self).visible
      unfold Text.isBlank at code ⊢
      rw [List.flatMap_cons, write, List.all_append, List.all_append, code, Bool.and_false,
        Bool.false_and]
    rw [Segment.ofSpans, if_neg (Bool.eq_false_iff.mp visible),
      documentationComments_write solid writes fits rfl, woven]

end Documents

end Passage

/-- Passages that are written as documentation comments in front of their code are read back: the
prose of each, then its code, in order and where it was written, and nothing is reported. -/
theorem Document.ofSource_written {id : Text} {table : LanguageTable} {grammar : Grammar}
    {index : Nat} {style : BlockStyle} {continuation : Marker} {passages : List Passage}
    (compiled : Grammar.compile id table = .ok grammar) (solid : grammar.Solid)
    (writes : grammar.Writes index style continuation)
    (fits : ∀ passage ∈ passages, passage.Fits grammar style) :
    Document.ofSource grammar (passages.flatMap (Passage.write style continuation)) =
      ⟨grammar.id, (Passage.placed style continuation 0 passages).flatMap
        (Passage.segments style continuation grammar.highlight), []⟩ := by
  have lexes := Passage.lexes_write (Grammar.unshadowed_of_compile compiled) solid writes fits
  rw [Document.ofSource, Scan.ofSource_of_lexes lexes]
  dsimp only
  rw [Passage.raised_lexemes, Passage.ofSpans_write solid writes fits]

def BlockStyle.starred : BlockStyle := ⟨⟨'/', ['*', '*']⟩, ⟨'*', ['/']⟩, true, some ⟨'*', []⟩⟩

def Grammar.starred : Grammar where
  id := ['c']
  name := ['C']
  highlight := ['c']
  extensions := [['c']]
  lineMarkers := [⟨⟨'/', ['/']⟩, false⟩]
  blockStyles := [.starred, ⟨⟨'/', ['*']⟩, ⟨'*', ['/']⟩, false, some ⟨'*', []⟩⟩]
  strings := [⟨⟨'"', []⟩, ⟨'"', []⟩, some ⟨'\\', []⟩, false⟩]

def Passage.samples : List Passage := [
  ⟨["# Half".toList, [], "    x / 2  ".toList], "\nint f(int x);\n".toList⟩,
  ⟨["* Twice.".toList], " y = 2 * x;\n".toList⟩]

theorem Document.ofSource_written_starred :
    Grammar.compile "c".toList (Configuration.Builtin.curly "C" ["c"]
        [Configuration.Builtin.quotedLine "\""]) = .ok Grammar.starred ∧
      Document.ofSource Grammar.starred
          ("/**\n * # Half\n * \n *     x / 2  \n */\nint f(int x);\n" ++
            "/**\n * * Twice.\n */ y = 2 * x;\n").toList =
        ⟨"c".toList,
          [.documentation "# Half\n\n    x / 2  ".toList 0 36,
            .code "\nint f(int x);\n".toList "c".toList 36 51,
            .documentation "* Twice.".toList 51 70,
            .code " y = 2 * x;\n".toList "c".toList 70 82], []⟩ := by
  have compiled : Grammar.compile "c".toList (Configuration.Builtin.curly "C" ["c"]
      [Configuration.Builtin.quotedLine "\""]) = .ok Grammar.starred := by decide +kernel
  have solid : Grammar.starred.Solid := by constructor <;> decide +kernel
  have writes : Grammar.starred.Writes 0 .starred ⟨'*', []⟩ :=
    ⟨rfl, rfl, rfl, by decide +kernel, by decide +kernel⟩
  have fits : ∀ passage ∈ Passage.samples, passage.Fits Grammar.starred .starred := by
    refine List.forall_mem_cons.mpr ⟨?_, List.forall_mem_singleton.mpr ?_⟩
    · constructor <;> decide +kernel
    · constructor <;> decide +kernel
  have written : ("/**\n * # Half\n * \n *     x / 2  \n */\nint f(int x);\n" ++
      "/**\n * * Twice.\n */ y = 2 * x;\n").toList =
        Passage.samples.flatMap (Passage.write .starred ⟨'*', []⟩) := by decide +kernel
  refine ⟨compiled, ?_⟩
  rw [written, Document.ofSource_written compiled solid writes fits]
  decide +kernel

end SourceDocs
