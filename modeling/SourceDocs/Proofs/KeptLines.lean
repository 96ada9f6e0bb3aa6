import SourceDocs.Proofs.Coverage
import SourceDocs.Proofs.Normalizing
import SourceDocs.Proofs.WellFormedTables

/-!
What stays of a block comment. Its delimiters do not overlap, and of the lines between them the prose
has all from the first to the last that is not blank, without their decoration. So no visible
character is lost but the delimiters and the continuation markers.
-/

namespace SourceDocs

namespace Text

theorem visible_trimStart (source : Text) : visible (trimStart source) = visible source := by
  have blank : isBlank (source.takeWhile isSpace) = true := by
    rw [isBlank, List.all_eq_true]
    intro c member
    exact List.mem_takeWhile_imp member
  calc visible (trimStart source)
      = visible (source.takeWhile isSpace) ++ visible (trimStart source) := by
        rw [visible_of_isBlank blank, List.nil_append]
    _ = visible source := by
        rw [← visible_append, trimStart, List.takeWhile_append_dropWhile]

theorem visible_reverse (source : Text) : visible source.reverse = (visible source).reverse :=
  List.filter_reverse

theorem visible_trimEnd (source : Text) : visible (trimEnd source) = visible source := by
  rw [trimEnd, visible_reverse, ← trimStart, visible_trimStart, visible_reverse,
    List.reverse_reverse]

theorem visible_joinLines (pieces : List Text) :
    visible (joinLines pieces) = pieces.flatMap visible := by
  induction pieces with
  | nil => rfl
  | cons piece pieces ih =>
    by_cases last : pieces = []
    · rw [last, joinLines_singleton, List.flatMap_singleton]
    · have feed : visible ['\n'] = [] := by decide
      rw [joinLines_cons last, ← List.singleton_append, visible_append, visible_append, feed, ih]
      rfl

end Text

namespace Comment

variable {grammar : Grammar} {source : Text} {style : BlockStyle} {lines kept : List Text}

namespace Keeps

theorem eq_nil (keeps : Keeps lines kept) (blank : ∀ line ∈ lines, Text.isBlank line = true) :
    kept = [] := by
  obtain ⟨before, after, split, _⟩ := keeps.split
  cases kept with
  | nil => rfl
  | cons top below =>
    have member : top ∈ lines := by
      rw [split]
      simp
    have visible := keeps.first top rfl
    rw [blank top member] at visible
    cases visible

theorem flatMap_visible (keeps : Keeps lines kept) :
    kept.flatMap Text.visible = lines.flatMap Text.visible := by
  obtain ⟨before, after, rfl, blank⟩ := keeps.split
  obtain ⟨blankBefore, blankAfter⟩ := List.forall_mem_append.mp blank
  have invisible : ∀ {lines : List Text}, (∀ line ∈ lines, Text.isBlank line = true) →
      lines.flatMap Text.visible = [] := by
    intro lines blank
    rw [List.flatMap_eq_nil_iff]
    intro line member
    exact Text.visible_of_isBlank (blank line member)
  rw [List.flatMap_append, List.flatMap_append, invisible blankBefore, invisible blankAfter,
    List.nil_append, List.append_nil]

end Keeps

/-- The lines of a body, the first of them and the others, become `lines` without decoration: the
white space in front goes from the first one, a continuation marker from each of the others, and the
white space behind from the last one of all. -/
def Undecorates (style : BlockStyle) (first : Text) (others lines : List Text) : Prop :=
  ∃ inner last, Text.trimStart first :: others.map style.stripContinuation = inner ++ [last] ∧
    lines = inner ++ [Text.trimEnd last]

theorem exists_undecorates (style : BlockStyle) (body : Text) :
    ∃ first others, (Text.lines body).map Text.dropReturn = first :: others ∧
      Undecorates style first others (undecorated style body) := by
  have nonempty : (Text.lines body).map Text.dropReturn ≠ [] := by
    rw [Ne, List.map_eq_nil_iff]
    exact List.splitOn_ne_nil '\n' body
  obtain ⟨first, others, split⟩ := List.exists_cons_of_ne_nil nonempty
  obtain ⟨inner, last, whole⟩ : ∃ inner last,
      Text.trimStart first :: others.map style.stripContinuation = inner ++ [last] :=
    ⟨_, _, (List.dropLast_append_getLast (List.cons_ne_nil _ _)).symm⟩
  refine ⟨first, others, split, inner, last, whole, ?_⟩
  unfold undecorated
  rw [split]
  dsimp only
  rw [whole, List.dropLast_concat, List.getLastD_concat]

theorem Undecorates.flatMap_visible {first : Text} {others : List Text}
    (undecorates : Undecorates style first others lines) :
    lines.flatMap Text.visible =
      Text.visible first ++ others.flatMap fun line => Text.visible (style.stripContinuation line) := by
  obtain ⟨inner, last, split, rfl⟩ := undecorates
  calc (inner ++ [Text.trimEnd last]).flatMap Text.visible
      = (inner ++ [last]).flatMap Text.visible := by
        rw [List.flatMap_append, List.flatMap_append, List.flatMap_singleton,
          List.flatMap_singleton, Text.visible_trimEnd]
    _ = Text.visible first ++
          others.flatMap fun line => Text.visible (style.stripContinuation line) := by
        rw [← split, List.flatMap_cons, Text.visible_trimStart, List.flatMap_map]

/-- A block comment that is read somewhere has a style of the grammar, and its text is the body
between the delimiters of that style. -/
theorem exists_body {text after : Text} {index : Nat} {terminated : Bool}
    (reads : Reads grammar text after (.block index style terminated)) :
    grammar.blockStyles[index]? = some style ∧
      ∃ body, text = style.start.text ++ body ++ (if terminated then style.stop.text else []) ∧
        blockBody style terminated text = body := by
  cases terminated with
  | true =>
    obtain ⟨opens, body, rfl, _⟩ := reads
    exact ⟨(Grammar.openerAt_spec opens).1, body, rfl, blockBody_terminated style body⟩
  | false =>
    obtain ⟨opens, body, rfl, _⟩ := reads
    exact ⟨(Grammar.openerAt_spec opens).1, body, (List.append_nil _).symm,
      blockBody_open style body⟩

/-- The prose of a block comment is a contiguous part of the undecorated lines between its delimiters,
from the first to the last one that is not blank, and it has all of their visible characters. -/
theorem ofSpan_keeps_lines {span : Span} {index : Nat} {terminated : Bool}
    (member : span ∈ (Scan.ofSource grammar source).spans)
    (block : span.kind = .block index style terminated) :
    grammar.blockStyles[index]? = some style ∧ ∃ body first others lines kept,
      span.text = style.start.text ++ body ++ (if terminated then style.stop.text else []) ∧
      (Text.lines body).map Text.dropReturn = first :: others ∧
      Undecorates style first others lines ∧ Keeps lines kept ∧
      ofSpan span = Text.joinLines kept ∧
      ((∀ line ∈ lines, Text.isBlank line = true) → ofSpan span = []) ∧
      Text.visible (ofSpan span) = Text.visible first ++
        others.flatMap fun line => Text.visible (style.stripContinuation line) := by
  obtain ⟨_, after, _, _, _, reads⟩ := (Scan.lexing_spans grammar source).reads span member
  rw [block] at reads
  obtain ⟨declared, body, text, inside⟩ := exists_body reads
  obtain ⟨first, others, split, undecorates⟩ := exists_undecorates style body
  have keeps := keeps_dropBlankEdges (undecorated style body)
  have prose : ofSpan span = Text.joinLines (dropBlankEdges (undecorated style body)) := by
    rw [ofSpan, block]
    dsimp only
    rw [inside, ofBlockBody]
  refine ⟨declared, body, first, others, _, _, text, split, undecorates, keeps, prose, ?_, ?_⟩
  · intro blank
    rw [prose, keeps.eq_nil blank]
    rfl
  · rw [prose, Text.visible_joinLines, keeps.flatMap_visible, undecorates.flatMap_visible]

def decoratedSpan : Span where
  kind := .block 0 ⟨⟨'/', ['*', '*']⟩, ⟨'*', ['/']⟩, true, some ⟨'*', []⟩⟩ true
  start := 2
  stop := 38
  text := "/**\r\n * one \r\n\t*  two\n\n three\n *\n */".toList

theorem ofSpan_keeps_lines_decorated :
    decoratedSpan ∈ (Scan.ofSource .sundry
        "x /**\r\n * one \r\n\t*  two\n\n three\n *\n */ y".toList).spans ∧
      ofSpan decoratedSpan = "one \n two\n\n three".toList ∧
      ∃ first others lines kept,
        Undecorates ⟨⟨'/', ['*', '*']⟩, ⟨'*', ['/']⟩, true, some ⟨'*', []⟩⟩ first others lines ∧
        Keeps lines kept ∧ ofSpan decoratedSpan = Text.joinLines kept := by
  have found : (Scan.ofSource .sundry
      "x /**\r\n * one \r\n\t*  two\n\n three\n *\n */ y".toList).spans[1]? =
        some decoratedSpan := by decide +kernel
  have member := List.mem_of_getElem? found
  obtain ⟨_, _, first, others, lines, kept, _, _, undecorates, keeps, prose, _⟩ :=
    ofSpan_keeps_lines member rfl
  exact ⟨member, by decide +kernel, first, others, lines, kept, undecorates, keeps, prose⟩

end Comment

end SourceDocs
