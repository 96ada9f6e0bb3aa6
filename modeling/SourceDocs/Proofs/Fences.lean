import SourceDocs.Markdown
import SourceDocs.Proofs.Normalizing
import SourceDocs.Proofs.Runs

/-!
Reading code back from markdown. A reader that knows nothing of how the markdown was made goes over
its lines and remembers the block that is open: a run of three backticks or more opens one, and a
line of nothing but at least as many backticks closes it. Main statement: what it reads from the
markdown of a document is the code of the document, block by block.

No line of the code can close its own fence. Such a line would be a run of backticks in the code, and
the fence is longer than all of these.
-/

namespace SourceDocs

namespace Text

variable {source line rest : Text} {c : Char}

theorem lines_append_feed (first second : Text) :
    lines (first ++ '\n' :: second) = lines first ++ lines second := by
  induction first with
  | nil => exact lines_feed second
  | cons c first ih =>
    by_cases feed : c = '\n'
    · rw [feed, List.cons_append, lines_feed, lines_feed, ih]
      rfl
    · have nonempty : lines first ≠ [] := List.splitOn_ne_nil '\n' first
      obtain ⟨top, below, split⟩ := List.exists_cons_of_ne_nil nonempty
      rw [List.cons_append, lines_cons feed, lines_cons feed, ih, split]
      rfl

theorem lines_of_not_mem (unbroken : '\n' ∉ line) : lines line = [line] :=
  List.splitOn_eq_singleton unbroken

theorem lines_append_of_not_mem (unbroken : '\n' ∉ line) (rest : Text) :
    lines (line ++ rest) = (lines rest).modifyHead (line ++ ·) := by
  induction line with
  | nil => exact (congrFun List.modifyHead_id (lines rest)).symm
  | cons d line ih =>
    rw [List.mem_cons, not_or] at unbroken
    rw [List.cons_append, lines_cons (Ne.symm unbroken.1), ih unbroken.2]
    simp [Function.comp_def]

theorem joinLines_lines (source : Text) : joinLines (lines source) = source :=
  List.intercalate_splitOn '\n'

theorem isInfix_joinLines {pieces : List Text} (member : line ∈ pieces) :
    line <:+: joinLines pieces := by
  induction pieces with
  | nil => cases member
  | cons piece pieces ih =>
    cases pieces with
    | nil =>
      obtain rfl := List.mem_singleton.mp member
      exact ⟨[], [], by simp⟩
    | cons next pieces =>
      rw [joinLines_cons (List.cons_ne_nil next pieces)]
      rcases List.mem_cons.mp member with rfl | below
      · exact (List.prefix_append _ _).isInfix
      · apply (ih below).trans
        exact ((List.suffix_cons _ _).trans (List.suffix_append _ _)).isInfix

theorem isInfix_of_mem_lines (member : line ∈ lines source) : line <:+: source := by
  have inside := isInfix_joinLines member
  rwa [joinLines_lines] at inside

theorem isBlank_of_mem_lines (blank : isBlank source = true) (member : line ∈ lines source) :
    isBlank line = true := by
  rw [isBlank, List.all_eq_true] at blank ⊢
  intro c inside
  exact blank c ((isInfix_of_mem_lines member).subset inside)

theorem not_mem_lastLine (source : Text) : '\n' ∉ lastLine source := by
  intro member
  have ordinary := List.mem_takeWhile_imp (List.mem_reverse.mp member)
  simp at ordinary

theorem lastLine_of_not_mem (unbroken : '\n' ∉ source) : lastLine source = source :=
  calc lastLine source = lastLine ([] ++ source) := rfl
    _ = lastLine [] ++ source := lastLine_append_of_not_mem unbroken
    _ = source := rfl

/-- Before the last line of a broken text stands a line feed. -/
theorem exists_lastLine (broken : '\n' ∈ source) :
    ∃ front, source = front ++ '\n' :: lastLine source := by
  obtain ⟨back, front, split, unbroken⟩ :=
    List.eq_append_cons_of_mem (List.mem_reverse.mpr broken)
  rw [← List.mem_reverse] at unbroken
  have whole : source = front.reverse ++ ['\n'] ++ back.reverse := by
    rw [← List.reverse_reverse source, split]
    simp
  have last : lastLine source = back.reverse := by
    rw [whole, lastLine_append_of_not_mem unbroken, lastLine_append_of_mem List.mem_cons_self]
    rfl
  refine ⟨front.reverse, ?_⟩
  rw [last, whole, List.append_assoc]
  rfl

theorem dropWhile_isBlank_of_solid (unbroken : '\n' ∉ line) (solid : isSpace c = false) :
    (lines (line ++ c :: rest)).dropWhile isBlank = lines (line ++ c :: rest) := by
  have ordinary : c ≠ '\n' := by
    rintro rfl
    revert solid
    decide
  have nonempty : lines rest ≠ [] := List.splitOn_ne_nil '\n' rest
  obtain ⟨first, below, split⟩ := List.exists_cons_of_ne_nil nonempty
  rw [lines_append_of_not_mem unbroken, lines_cons ordinary, split]
  apply List.dropWhile_cons_of_neg
  simp [isBlank, solid]

/-- Of a text that begins with white space, the blank lines take all of it but the indentation. -/
theorem joinLines_dropWhile_isBlank {space : Text} (blank : isBlank space = true)
    (solid : isSpace c = false) :
    joinLines ((lines (space ++ c :: rest)).dropWhile isBlank) = lastLine space ++ c :: rest := by
  by_cases broken : '\n' ∈ space
  · obtain ⟨front, split⟩ := exists_lastLine broken
    have blankFront : ∀ line ∈ lines front, isBlank line = true := by
      intro line member
      apply isBlank_of_mem_lines blank
      rw [split, lines_append_feed]
      exact List.mem_append_left _ member
    have shape : space ++ c :: rest = front ++ '\n' :: (lastLine space ++ c :: rest) := by
      conv_lhs => rw [split]
      simp
    rw [shape, lines_append_feed, List.dropWhile_append_of_pos blankFront,
      dropWhile_isBlank_of_solid (not_mem_lastLine space) solid, joinLines_lines]
  · rw [dropWhile_isBlank_of_solid broken solid, joinLines_lines, lastLine_of_not_mem broken]

end Text

namespace Markdown

/-- Trimming a text is dropping its first lines while they are blank, and then the white space at
its end. -/
theorem trimBlankLines_eq (code : Text) :
    trimBlankLines code =
      Text.trimEnd (Text.joinLines ((Text.lines code).dropWhile Text.isBlank)) := by
  have whole : code.takeWhile Text.isSpace ++ Text.trimStart code = code :=
    List.takeWhile_append_dropWhile
  have blank : Text.isBlank (code.takeWhile Text.isSpace) = true :=
    List.all_eq_true.mpr fun c member => List.mem_takeWhile_imp member
  unfold trimBlankLines
  split
  next empty =>
    rw [empty, List.append_nil] at whole
    rw [whole] at blank
    rw [List.dropWhile_eq_nil_iff.mpr fun line member => Text.isBlank_of_mem_lines blank member]
    rfl
  next c rest found =>
    have solid : Text.isSpace c = false := by
      have stops := List.head?_dropWhile_not Text.isSpace code
      rw [show code.dropWhile Text.isSpace = c :: rest from found] at stops
      simpa using stops
    rw [found] at whole
    rw [← Text.joinLines_dropWhile_isBlank blank solid, whole]

section Runs

variable {code : Text} {size : Nat}

theorem run_le_longestRunFrom (run : Nat) (code : Text) : run ≤ longestRunFrom run code := by
  induction code generalizing run with
  | nil => exact Nat.le_refl run
  | cons c rest ih =>
    rw [longestRunFrom]
    split
    next =>
      have longer := ih (run + 1)
      omega
    next => exact Nat.le_max_left run _

theorem longestRunFrom_replicate (run size : Nat) (rest : Text) :
    longestRunFrom run (List.replicate size backtick ++ rest) = longestRunFrom (run + size) rest := by
  induction size generalizing run with
  | zero => rfl
  | succ size ih =>
    rw [List.replicate_succ, List.cons_append, longestRunFrom, if_pos rfl, ih,
      Nat.add_right_comm, Nat.add_assoc]

/-- No run of backticks in a text is longer than the longest. -/
theorem le_longestRunFrom (run : Nat) (inside : List.replicate size backtick <:+: code) :
    size ≤ longestRunFrom run code := by
  induction code generalizing run with
  | nil =>
    have empty : size = 0 := by simpa using inside
    omega
  | cons c rest ih =>
    rcases List.infix_cons_iff.mp inside with begins | below
    · obtain ⟨behind, split⟩ := begins
      rw [← split, longestRunFrom_replicate]
      have longer := run_le_longestRunFrom (run + size) behind
      omega
    · rw [longestRunFrom]
      split
      next => exact ih (run + 1) below
      next => exact Nat.le_trans (ih 0 below) (Nat.le_max_right run _)

end Runs

structure Block where
  info : Text
  content : Text
deriving DecidableEq, Repr

/-- A block that is not closed yet, with the length of its fence and its lines, last line first. -/
structure OpenBlock where
  size : Nat
  info : Text
  lines : List Text

def ticks (line : Text) : Nat := (line.takeWhile (· = backtick)).length

def opening? (line : Text) : Option OpenBlock :=
  if 3 ≤ ticks line then some ⟨ticks line, line.drop (ticks line), []⟩ else none

namespace OpenBlock

def closes (block : OpenBlock) (line : Text) : Bool :=
  decide (block.size ≤ line.length) && line.all (· = backtick)

def add (block : OpenBlock) (line : Text) : OpenBlock :=
  { block with lines := line :: block.lines }

def close (block : OpenBlock) : Block := ⟨block.info, Text.joinLines block.lines.reverse⟩

end OpenBlock

/-- The blocks in lines, in order. There is no answer if the last one is left open. -/
def readFrom : Option OpenBlock → List Text → Option (List Block)
  | none, [] => some []
  | some _, [] => none
  | none, line :: lines => readFrom (opening? line) lines
  | some block, line :: lines =>
    if block.closes line then (readFrom none lines).map (block.close :: ·)
    else readFrom (some (block.add line)) lines

def blocks? (markdown : Text) : Option (List Block) := readFrom none (Text.lines markdown)

section Reading

variable {front rest : List Text} {block : OpenBlock} {line info : Text} {size : Nat}

theorem replicate_isPrefix (all : ∀ c ∈ line, c = backtick) (long : size ≤ line.length) :
    List.replicate size backtick <+: line := by
  rw [List.eq_replicate_of_mem all, List.prefix_replicate_iff, List.length_replicate]
  exact ⟨long, rfl⟩

theorem isPrefix_of_le_ticks (long : size ≤ ticks line) : List.replicate size backtick <+: line := by
  apply (replicate_isPrefix _ long).trans (List.takeWhile_prefix _)
  intro c member
  simpa using List.mem_takeWhile_imp member

theorem opening?_eq_none (short : ¬List.replicate 3 backtick <+: line) : opening? line = none :=
  if_neg fun long => short (isPrefix_of_le_ticks long)

theorem ticks_replicate (plain : backtick ∉ info) :
    ticks (List.replicate size backtick ++ info) = size := by
  have stops : info.takeWhile (· = backtick) = [] := by
    cases info with
    | nil => rfl
    | cons c info =>
      have different : c ≠ backtick := fun same => plain (same ▸ List.mem_cons_self)
      simp [different]
  rw [ticks, List.takeWhile_append_of_pos (by simp), stops]
  simp

theorem opening?_replicate (long : 3 ≤ size) (plain : backtick ∉ info) :
    opening? (List.replicate size backtick ++ info) = some ⟨size, info, []⟩ := by
  rw [opening?, ticks_replicate plain, if_pos long, List.drop_left' List.length_replicate]

theorem isPrefix_of_closes (closing : block.closes line = true) :
    List.replicate block.size backtick <+: line := by
  rw [OpenBlock.closes, Bool.and_eq_true, decide_eq_true_eq, List.all_eq_true] at closing
  apply replicate_isPrefix _ closing.1
  intro c member
  simpa using closing.2 c member

theorem readFrom_plain (plain : ∀ line ∈ front, opening? line = none) (rest : List Text) :
    readFrom none (front ++ rest) = readFrom none rest := by
  induction front with
  | nil => rfl
  | cons line front ih =>
    rw [List.forall_mem_cons] at plain
    rw [List.cons_append, readFrom, plain.1, ih plain.2]

theorem readFrom_prose {prose : Text} (free : ¬List.replicate 3 backtick <:+: prose)
    (rest : List Text) : readFrom none (Text.lines prose ++ rest) = readFrom none rest := by
  apply readFrom_plain
  intro line member
  apply opening?_eq_none
  exact fun begins => free (begins.isInfix.trans (Text.isInfix_of_mem_lines member))

theorem readFrom_inside (inside : ∀ line ∈ front, block.closes line = false) (rest : List Text) :
    readFrom (some block) (front ++ rest) =
      readFrom (some { block with lines := front.reverse ++ block.lines }) rest := by
  induction front generalizing block with
  | nil => rfl
  | cons line front ih =>
    rw [List.forall_mem_cons] at inside
    have below : ∀ next ∈ front, (block.add line).closes next = false := inside.2
    rw [List.cons_append, readFrom, if_neg (by simp [inside.1]), ih below]
    simp [OpenBlock.add]

/-- A block whose lines do not close it is read as it was written. -/
theorem readFrom_block (long : 3 ≤ size) (plain : backtick ∉ info) {body : Text}
    (inside : ∀ line ∈ Text.lines body, ¬List.replicate size backtick <+: line) (rest : List Text) :
    readFrom none ((List.replicate size backtick ++ info) :: Text.lines body ++
        List.replicate size backtick :: rest) =
      (readFrom none rest).map (⟨info, body⟩ :: ·) := by
  have stays : ∀ line ∈ Text.lines body, OpenBlock.closes ⟨size, info, []⟩ line = false := by
    intro line member
    rw [Bool.eq_false_iff]
    exact fun closing => inside line member (isPrefix_of_closes closing)
  rw [List.cons_append, readFrom, opening?_replicate long plain, readFrom_inside stays, readFrom,
    if_pos (by simp [OpenBlock.closes])]
  simp [OpenBlock.close, Text.joinLines_lines]

end Reading

section Writing

theorem lines_fenced {code language : Text} (unbroken : '\n' ∉ language) :
    Text.lines (fenced code language) =
      (fence (trimBlankLines code) ++ language) :: Text.lines (trimBlankLines code) ++
        [fence (trimBlankLines code)] := by
  have solid : '\n' ∉ fence (trimBlankLines code) := by
    simp [fence, backtick]
  have top : '\n' ∉ fence (trimBlankLines code) ++ language := by
    simp [solid, unbroken]
  rw [fenced, List.append_assoc, List.cons_append, Text.lines_append_feed, Text.lines_append_feed,
    Text.lines_of_not_mem top, Text.lines_of_not_mem solid]
  rfl

/-- No line of a text begins with its fence: the line, and so the text, would hold a longer run than
the longest. -/
theorem not_isPrefix_fence {body line : Text} (member : line ∈ Text.lines body) :
    ¬fence body <+: line := by
  intro begins
  have inside : fence body <:+: body := begins.isInfix.trans (Text.isInfix_of_mem_lines member)
  have short := le_longestRunFrom 0 inside
  rw [← longestRun] at short
  omega

/-- What a reader should find of a segment: the text of code that is not blank, without its leading
blank lines and without the white space at its end. -/
def block? (segment : Segment) : Option Block :=
  match segment with
  | .documentation _ _ _ => none
  | .code text language _ _ =>
    if Text.isBlank text then none
    else some ⟨language, Text.trimEnd (Text.joinLines ((Text.lines text).dropWhile Text.isBlank))⟩

def Unfenced : Segment → Prop
  | .documentation text _ _ => ¬List.replicate 3 backtick <:+: text
  | .code _ language _ _ => '\n' ∉ language ∧ backtick ∉ language

instance (segment : Segment) : Decidable (Unfenced segment) :=
  match segment with
  | .documentation text _ _ => inferInstanceAs (Decidable (¬List.replicate 3 backtick <:+: text))
  | .code _ language _ _ => inferInstanceAs (Decidable ('\n' ∉ language ∧ backtick ∉ language))

variable {segment : Segment}

theorem fence_ne_nil (code : Text) : fence code ≠ [] := by
  simp [fence]

theorem block?_of_ofSegment_eq_nil (empty : ofSegment segment = []) : block? segment = none := by
  cases segment with
  | documentation text start stop => rfl
  | code text language start stop =>
    by_cases blank : Text.isBlank text = true
    · rw [block?, if_pos blank]
    · rw [ofSegment, Segment.isBlankCode, if_neg blank, fenced] at empty
      simp [fence_ne_nil] at empty

/-- Reading the markdown of a segment gives the block of the segment, and nothing stays open. -/
theorem readFrom_ofSegment (unfenced : Unfenced segment) (rest : List Text) :
    readFrom none (Text.lines (ofSegment segment) ++ rest) =
      (readFrom none rest).map ((block? segment).toList ++ ·) := by
  cases segment with
  | documentation text start stop => simpa [block?, ofSegment] using readFrom_prose unfenced rest
  | code text language start stop =>
    by_cases blank : Text.isBlank text = true
    · have free : ¬List.replicate 3 backtick <:+: [] := by decide
      rw [ofSegment, Segment.isBlankCode, if_pos blank, block?, if_pos blank]
      simpa using readFrom_prose free rest
    · rw [ofSegment, Segment.isBlankCode, if_neg blank, block?, if_neg blank, ← trimBlankLines_eq,
        lines_fenced unfenced.1, List.append_assoc]
      have long : 3 ≤ max (longestRun (trimBlankLines text)) 2 + 1 := by omega
      exact readFrom_block long unfenced.2 (fun line member => not_isPrefix_fence member) rest

/-- The lines of markdown are the lines of its pieces with an empty line after each. -/
theorem lines_intercalate {pieces : List Text} (nonempty : pieces ≠ []) :
    Text.lines (['\n', '\n'].intercalate pieces ++ ['\n']) =
      pieces.flatMap (Text.lines · ++ [[]]) := by
  induction pieces with
  | nil => exact absurd rfl nonempty
  | cons piece pieces ih =>
    cases pieces with
    | nil =>
      rw [List.intercalate_singleton, Text.lines_append_feed]
      simp [Text.lines]
    | cons next pieces =>
      have split : ['\n', '\n'].intercalate (piece :: next :: pieces) ++ ['\n'] =
          piece ++ '\n' :: '\n' :: (['\n', '\n'].intercalate (next :: pieces) ++ ['\n']) := by
        simp
      rw [split, Text.lines_append_feed, Text.lines_feed, ih (List.cons_ne_nil next pieces)]
      simp

theorem readFrom_pieces {segments : List Segment}
    (unfenced : ∀ segment ∈ segments, Unfenced segment) :
    readFrom none (((segments.map ofSegment).filter (!·.isEmpty)).flatMap (Text.lines · ++ [[]])) =
      some (segments.filterMap block?) := by
  induction segments with
  | nil => rfl
  | cons segment segments ih =>
    rw [List.forall_mem_cons] at unfenced
    by_cases empty : ofSegment segment = []
    · rw [List.map_cons, List.filter_cons_of_neg (by simp [empty]),
        List.filterMap_cons_none (block?_of_ofSegment_eq_nil empty)]
      exact ih unfenced.2
    · -- the empty line behind the piece opens nothing
      have between : ∀ lines, readFrom none ([[]] ++ lines) = readFrom none lines := fun _ => rfl
      rw [List.map_cons, List.filter_cons_of_pos (by simp [empty]), List.flatMap_cons,
        List.append_assoc, readFrom_ofSegment unfenced.1, between, ih unfenced.2,
        List.filterMap_cons]
      cases block? segment with
      | none => rfl
      | some block => rfl

theorem blocks?_ofDocument (document : Document)
    (unfenced : ∀ segment ∈ document.segments, Unfenced segment) :
    blocks? (ofDocument document) = some (document.segments.filterMap block?) := by
  rw [← readFrom_pieces unfenced, blocks?, ofDocument]
  split
  next empty =>
    rw [empty]
    rfl
  next piece pieces written => rw [written, lines_intercalate (List.cons_ne_nil piece pieces)]

/-- Code that holds a fence of its own, indented and between blank lines, in a document with blank
code and empty prose. -/
def fencedSample : Document where
  language := "rust".toList
  segments :=
    [.documentation "Two `` ticks.".toList 0 13, .code " \n\n  let s = \"\n````\n\";\n \n".toList
      "rust".toList 13 40, .documentation [] 40 41, .code "\n \n".toList "rust".toList 41 44,
      .code "`".toList [] 44 45]
  diagnostics := []

theorem blocks?_ofDocument_sample :
    (∀ segment ∈ fencedSample.segments, Unfenced segment) ∧
      blocks? (ofDocument fencedSample) =
        some [⟨"rust".toList, "  let s = \"\n````\n\";".toList⟩, ⟨[], "`".toList⟩] := by
  have unfenced : ∀ segment ∈ fencedSample.segments, Unfenced segment := by decide +kernel
  refine ⟨unfenced, ?_⟩
  rw [blocks?_ofDocument fencedSample unfenced]
  decide +kernel

end Writing

end Markdown

end SourceDocs
