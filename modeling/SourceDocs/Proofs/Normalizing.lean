import Mathlib.Data.List.Basic
import Mathlib.Data.List.TakeWhile
import SourceDocs.Comment

/-!
How the prose of a comment is recovered: delimiters and decoration that were put around lines come
off again, and blank lines at the edges go.
-/

namespace SourceDocs

namespace Text

theorem dropReturn_of_getLast? {line : Text} (ends : line.getLast? ≠ some '\r') :
    dropReturn line = line := by
  unfold dropReturn
  cases found : ['\r'].isSuffixOf? line with
  | none => rfl
  | some front =>
    rw [← List.isSuffixOf?_eq_some_iff_append_eq.mp found] at ends
    simp at ends

theorem lines_feed (rest : Text) : lines ('\n' :: rest) = [] :: lines rest := by
  simp [lines, List.splitOn, List.splitOnP_cons_eq_if_modifyHead]

theorem lines_cons {c : Char} (ordinary : c ≠ '\n') (rest : Text) :
    lines (c :: rest) = (lines rest).modifyHead (c :: ·) := by
  simp [lines, List.splitOn, List.splitOnP_cons_eq_if_modifyHead, ordinary]

theorem lines_joinLines {pieces : List Text} (nonempty : pieces ≠ [])
    (unbroken : ∀ piece ∈ pieces, '\n' ∉ piece) : lines (joinLines pieces) = pieces :=
  List.splitOn_intercalate '\n' unbroken nonempty

@[simp] theorem joinLines_singleton (piece : Text) : joinLines [piece] = piece := by
  simp [joinLines]

theorem joinLines_cons {piece : Text} {pieces : List Text} (nonempty : pieces ≠ []) :
    joinLines (piece :: pieces) = piece ++ '\n' :: joinLines pieces := by
  obtain ⟨next, others, rfl⟩ := List.exists_cons_of_ne_nil nonempty
  simp [joinLines]

end Text

/-- Behind padding, a marker that does not begin with padding is found where it stands. -/
theorem dropContinuation?_padded {marker : Marker} {line : Text}
    (solid : Text.isPadding marker.head = false) :
    dropContinuation? marker (' ' :: (marker.text ++ ' ' :: line)) = some line := by
  have inner : dropContinuation? marker (marker.text ++ ' ' :: line) = some line := by
    have shape : marker.text ++ ' ' :: line = marker.head :: (marker.tail ++ ' ' :: line) := rfl
    have stands : marker.text.isPrefixOf? (marker.text ++ ' ' :: line) = some (' ' :: line) :=
      List.isPrefixOf?_eq_some_iff_append_eq.mpr rfl
    rw [shape, dropContinuation?, if_neg (by simp [solid]), ← shape, stands]
    rfl
  rw [dropContinuation?, if_pos (by decide), inner]
  rfl

theorem dropContinuation?_blank {marker : Marker} (solid : Text.isPadding marker.head = false) :
    dropContinuation? marker [' '] = none := by
  have different : marker.head ≠ ' ' := by
    intro same
    rw [same] at solid
    cases solid
  simp [dropContinuation?, Marker.text, List.isPrefixOf?, different]

namespace Comment

theorem blockBody_terminated (style : BlockStyle) (body : Text) :
    blockBody style true (style.start.text ++ body ++ style.stop.text) = body := by
  have opens : style.start.text.isPrefixOf? (style.start.text ++ (body ++ style.stop.text)) =
      some (body ++ style.stop.text) := List.isPrefixOf?_eq_some_iff_append_eq.mpr rfl
  have shut : style.stop.text.isSuffixOf? (body ++ style.stop.text) = some body :=
    List.isSuffixOf?_eq_some_iff_append_eq.mpr rfl
  rw [blockBody, List.append_assoc, opens]
  dsimp only [Option.getD_some]
  rw [if_pos rfl, shut, Option.getD_some]

theorem blockBody_open (style : BlockStyle) (body : Text) :
    blockBody style false (style.start.text ++ body) = body := by
  have opens : style.start.text.isPrefixOf? (style.start.text ++ body) = some body :=
    List.isPrefixOf?_eq_some_iff_append_eq.mpr rfl
  rw [blockBody, opens]
  rfl

private theorem dropWhile_of_head? {p : Text → Bool} {lines : List Text}
    (stops : ∀ line, lines.head? = some line → p line = false) : lines.dropWhile p = lines := by
  cases lines with
  | nil => rfl
  | cons line lines => rw [List.dropWhile_cons_of_neg (by simp [stops line rfl])]

structure Keeps (lines kept : List Text) : Prop where
  split : ∃ before after, lines = before ++ kept ++ after ∧
    ∀ line ∈ before ++ after, Text.isBlank line = true
  first : ∀ line, kept.head? = some line → Text.isBlank line = false
  last : ∀ line, kept.getLast? = some line → Text.isBlank line = false

private theorem not_blank_of_head?_dropWhile {lines : List Text} {line : Text}
    (found : (lines.dropWhile Text.isBlank).head? = some line) : Text.isBlank line = false := by
  have stops := List.head?_dropWhile_not Text.isBlank lines
  rwa [found] at stops

theorem keeps_dropBlankEdges (lines : List Text) : Keeps lines (dropBlankEdges lines) := by
  have front : lines.takeWhile Text.isBlank ++ lines.dropWhile Text.isBlank = lines :=
    List.takeWhile_append_dropWhile
  have back : dropBlankEdges lines ++
      ((lines.dropWhile Text.isBlank).reverse.takeWhile Text.isBlank).reverse =
        lines.dropWhile Text.isBlank := by
    rw [dropBlankEdges, ← List.reverse_append, List.takeWhile_append_dropWhile,
      List.reverse_reverse]
  refine ⟨⟨lines.takeWhile Text.isBlank,
    ((lines.dropWhile Text.isBlank).reverse.takeWhile Text.isBlank).reverse, ?_, ?_⟩, ?_, ?_⟩
  · rw [List.append_assoc, back, front]
  · intro line member
    rw [List.mem_append, List.mem_reverse] at member
    rcases member with here | here <;> exact List.mem_takeWhile_imp here
  · intro line found
    have top : (lines.dropWhile Text.isBlank).head? = some line := by
      rw [← back, List.head?_append, found, Option.some_or]
    exact not_blank_of_head?_dropWhile top
  · intro line found
    rw [dropBlankEdges, List.getLast?_reverse] at found
    exact not_blank_of_head?_dropWhile found

/-- Nothing else is kept: the blank lines in front end at the first line kept, and those behind at
the last one. -/
theorem Keeps.dropBlankEdges_eq {lines kept : List Text} (keeps : Keeps lines kept) :
    dropBlankEdges lines = kept := by
  obtain ⟨before, after, rfl, blank⟩ := keeps.split
  obtain ⟨blankBefore, blankAfter⟩ := List.forall_mem_append.mp blank
  rw [dropBlankEdges, List.append_assoc, List.dropWhile_append_of_pos blankBefore]
  cases kept with
  | nil =>
    rw [List.nil_append, List.dropWhile_eq_nil_iff.mpr blankAfter]
    rfl
  | cons top below =>
    have front : (top :: below ++ after).dropWhile Text.isBlank = top :: below ++ after := by
      apply dropWhile_of_head?
      intro line found
      exact keeps.first line found
    have behind : ∀ line ∈ after.reverse, Text.isBlank line = true := by
      intro line member
      exact blankAfter line (List.mem_reverse.mp member)
    have back : (top :: below).reverse.dropWhile Text.isBlank = (top :: below).reverse := by
      apply dropWhile_of_head?
      intro line found
      rw [List.head?_reverse] at found
      exact keeps.last line found
    rw [front, List.reverse_append, List.dropWhile_append_of_pos behind, back,
      List.reverse_reverse]

/-- Lines between two blank ones, the first and the last of which are not blank. -/
theorem dropBlankEdges_framed {lines : List Text} {first last : Text}
    (firstBlank : Text.isBlank first = true) (lastBlank : Text.isBlank last = true)
    (head : ∀ line, lines.head? = some line → Text.isBlank line = false)
    (getLast : ∀ line, lines.getLast? = some line → Text.isBlank line = false) :
    dropBlankEdges (first :: lines ++ [last]) = lines := by
  refine Keeps.dropBlankEdges_eq ⟨⟨[first], [last], rfl, ?_⟩, head, getLast⟩
  intro line member
  rcases List.mem_cons.mp member with rfl | behind
  · exact firstBlank
  · rwa [List.mem_singleton.mp behind]

end Comment

end SourceDocs
