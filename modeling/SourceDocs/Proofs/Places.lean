import SourceDocs.Proofs.Fences
import SourceDocs.Proofs.Recovery

/-!
What the line and the column of a diagnostic say about the text in front of it: it is all lines above,
and of the line itself as many characters as there are columns before the place. So a line and a column
belong to one offset only, and they ascend with the offset, the line before the column.
-/

namespace SourceDocs

namespace Text

theorem length_lines (source : Text) : (lines source).length = source.count '\n' + 1 := by
  induction source with
  | nil => rfl
  | cons c rest ih =>
    by_cases feed : c = '\n'
    · rw [feed, lines_feed, List.length_cons, ih, List.count_cons_self]
    · rw [lines_cons feed, List.length_modifyHead, ih, List.count_cons_of_ne feed]

theorem flatMap_lines (source : Text) :
    (lines source).flatMap (· ++ ['\n']) = source ++ ['\n'] := by
  induction source with
  | nil => rfl
  | cons c rest ih =>
    by_cases feed : c = '\n'
    · rw [feed, lines_feed, List.flatMap_cons, ih]
      rfl
    · obtain ⟨top, below, split⟩ := List.exists_cons_of_ne_nil (List.splitOn_ne_nil '\n' rest)
      rw [lines, split, List.flatMap_cons] at ih
      rw [lines_cons feed, lines, split, List.modifyHead_cons, List.flatMap_cons,
        List.cons_append, List.cons_append, ih]
      rfl

/-- A cut divides the lines of a text into those above it, the one it falls into and those below. -/
theorem exists_lines_append (before after : Text) :
    ∃ above top below, lines (before ++ after) = above ++ (lastLine before ++ top) :: below ∧
      above.length = before.count '\n' ∧
      above.flatMap (· ++ ['\n']) ++ lastLine before = before := by
  obtain ⟨top, below, split⟩ := List.exists_cons_of_ne_nil (List.splitOn_ne_nil '\n' after)
  have started : lines (lastLine before ++ after) = (lastLine before ++ top) :: below := by
    rw [lines_append_of_not_mem (not_mem_lastLine before), lines, split, List.modifyHead_cons]
  by_cases broken : '\n' ∈ before
  · obtain ⟨front, whole⟩ := exists_lastLine broken
    refine ⟨lines front, top, below, ?_, ?_, ?_⟩
    · rw [← started, ← lines_append_feed, ← List.cons_append, ← List.append_assoc, ← whole]
    · calc (lines front).length
          = front.count '\n' + 1 := length_lines front
        _ = (front ++ '\n' :: lastLine before).count '\n' := by
          rw [List.count_append, List.count_cons_self,
            List.count_eq_zero.mpr (not_mem_lastLine before)]
        _ = before.count '\n' := by rw [← whole]
    · rw [flatMap_lines, List.append_assoc, List.singleton_append, ← whole]
  · rw [lastLine_of_not_mem broken] at started ⊢
    exact ⟨[], top, below, started, (List.count_eq_zero.mpr broken).symm, rfl⟩

end Text

namespace Place

variable {first second third : Place}

def Precedes (first second : Place) : Prop :=
  first.line < second.line ∨ first.line = second.line ∧ first.column < second.column

instance (first second : Place) : Decidable (first.Precedes second) :=
  inferInstanceAs (Decidable (_ ∨ _))

theorem Precedes.trans (left : first.Precedes second) (right : second.Precedes third) :
    first.Precedes third := by
  unfold Precedes at left right ⊢
  omega

theorem precedes_step (place : Place) (c : Char) : place.Precedes (place.step c) := by
  unfold Precedes step
  split
  · exact .inl (Nat.lt_succ_self _)
  · exact .inr ⟨rfl, Nat.lt_succ_self _⟩

theorem precedes_advance (place : Place) {passed : Text} (moves : passed ≠ []) :
    place.Precedes (place.advance passed) := by
  induction passed generalizing place with
  | nil => exact absurd rfl moves
  | cons c passed ih =>
    have begun := place.precedes_step c
    by_cases last : passed = []
    · rw [last]
      exact begun
    · exact begun.trans (ih (place.step c) last)

/-- Of two cuts of one text the one that leaves more in front of it has the later place. -/
theorem after_precedes {before rest further others : Text}
    (same : before ++ rest = further ++ others) (order : Text.bytes before < Text.bytes further) :
    (after before).Precedes (after further) := by
  obtain ⟨gap, longer, _⟩ := Text.exists_gap same (Nat.le_of_lt order)
  have moves : gap ≠ [] := by
    rintro rfl
    rw [longer, List.append_nil] at order
    exact Nat.lt_irrefl _ order
  have advanced : after further = (after before).advance gap := by
    rw [longer]
    exact advance_append start before gap
  rw [advanced]
  exact precedes_advance _ moves

/-- The text in front of an offset is what stands in front of the place: the lines above it, and as
much of its own line as its column says. -/
structure Locates (place : Place) (source : Text) (offset : Nat) : Prop where
  offset_eq : place.offset = offset
  line_pos : 0 < place.line
  column_pos : 0 < place.column
  text_eq : ∃ next, (Text.lines source)[place.line - 1]? = some next ∧
    place.column - 1 ≤ next.length ∧
    Text.takeBytes offset source =
      ((Text.lines source).take (place.line - 1)).flatMap (· ++ ['\n']) ++
        next.take (place.column - 1)

theorem locates_after (before rest : Text) :
    (after before).Locates (before ++ rest) (Text.bytes before) := by
  obtain ⟨above, top, below, split, count, whole⟩ := Text.exists_lines_append before rest
  rw [after_eq]
  refine ⟨rfl, Nat.succ_pos _, Nat.succ_pos _, Text.lastLine before ++ top, ?_, ?_, ?_⟩
  · rw [Nat.add_sub_cancel, split, ← count, List.getElem?_append_right (Nat.le_refl _),
      Nat.sub_self, List.getElem?_cons_zero]
  · rw [Nat.add_sub_cancel, List.length_append]
    exact Nat.le_add_right _ _
  · rw [Nat.add_sub_cancel, Nat.add_sub_cancel, split, ← count, List.take_left, List.take_left,
      whole, Text.takeBytes_append]

/-- A line and a column belong to one offset. -/
theorem Locates.offset_unique {source : Text} {offset other : Nat}
    (located : first.Locates source offset) (otherLocated : second.Locates source other)
    (line : first.line = second.line) (column : first.column = second.column)
    (boundary : Text.IsBoundary source offset) (otherBoundary : Text.IsBoundary source other) :
    offset = other := by
  obtain ⟨next, there, _, text⟩ := located.text_eq
  obtain ⟨otherNext, otherThere, _, otherText⟩ := otherLocated.text_eq
  rw [← line] at otherThere otherText
  obtain rfl := Option.some.inj (there.symm.trans otherThere)
  rw [← column, ← text] at otherText
  obtain ⟨before, rest, rfl, rfl⟩ := boundary
  obtain ⟨otherBefore, otherRest, same, rfl⟩ := otherBoundary
  rw [Text.takeBytes_append, same, Text.takeBytes_append] at otherText
  rw [otherText]

end Place

namespace Diagnostic

/-- For an offset between two characters the diagnostic has the line and the column of that offset.
No other offset has both, and a greater offset has a greater line or, on the same line, a greater
column. -/
theorem unterminatedAt?_locates (construct : Construct) {source : Text} {first second : Nat}
    (firstBoundary : Text.IsBoundary source first)
    (secondBoundary : Text.IsBoundary source second) :
    ∃ firstPlace secondPlace : Place,
      unterminatedAt? construct source first = some ⟨construct, firstPlace⟩ ∧
      unterminatedAt? construct source second = some ⟨construct, secondPlace⟩ ∧
      firstPlace.Locates source first ∧ secondPlace.Locates source second ∧
      (firstPlace.line = secondPlace.line → firstPlace.column = secondPlace.column →
        first = second) ∧
      (first < second → firstPlace.Precedes secondPlace) := by
  obtain ⟨before, rest, source_eq, rfl⟩ := firstBoundary
  obtain ⟨further, others, same, rfl⟩ := secondBoundary
  have firstLocated := Place.locates_after before rest
  have secondLocated := Place.locates_after further others
  have firstFound := unterminatedAt?_append construct before rest
  have secondFound := unterminatedAt?_append construct further others
  rw [← source_eq] at firstLocated firstFound
  rw [← same] at secondLocated secondFound
  refine ⟨.after before, .after further, firstFound, secondFound, firstLocated, secondLocated, ?_,
    ?_⟩
  · intro line column
    exact firstLocated.offset_unique secondLocated line column ⟨before, rest, source_eq, rfl⟩
      ⟨further, others, same, rfl⟩
  · intro order
    exact Place.after_precedes (source_eq.symm.trans same) order

/-- A comment right behind a line feed, and one further on behind a character of two bytes. -/
def accented : Text := "ä\n/* ö */ /*".toList

theorem unterminatedAt?_locates_accented :
    Text.IsBoundary accented 3 ∧ Text.IsBoundary accented 12 ∧
      unterminatedAt? .blockComment accented 3 = some ⟨.blockComment, ⟨3, 2, 1⟩⟩ ∧
      unterminatedAt? .blockComment accented 12 = some ⟨.blockComment, ⟨12, 2, 9⟩⟩ ∧
      Place.Locates ⟨3, 2, 1⟩ accented 3 ∧ Place.Locates ⟨12, 2, 9⟩ accented 12 ∧
      Place.Precedes ⟨3, 2, 1⟩ ⟨12, 2, 9⟩ := by
  have near : unterminatedAt? .blockComment accented 3 = some ⟨.blockComment, ⟨3, 2, 1⟩⟩ := by
    decide
  have far : unterminatedAt? .blockComment accented 12 = some ⟨.blockComment, ⟨12, 2, 9⟩⟩ := by
    decide
  have nearBoundary : Text.IsBoundary accented 3 :=
    ⟨"ä\n".toList, "/* ö */ /*".toList, by decide, by decide⟩
  have farBoundary : Text.IsBoundary accented 12 :=
    ⟨"ä\n/* ö */ ".toList, "/*".toList, by decide, by decide⟩
  obtain ⟨_, _, nearFound, farFound, nearLocated, farLocated, _, order⟩ :=
    unterminatedAt?_locates .blockComment nearBoundary farBoundary
  rw [near, Option.some.injEq, Diagnostic.mk.injEq] at nearFound
  rw [far, Option.some.injEq, Diagnostic.mk.injEq] at farFound
  rw [← nearFound.2] at nearLocated order
  rw [← farFound.2] at farLocated order
  exact ⟨nearBoundary, farBoundary, near, far, nearLocated, farLocated, order (by decide)⟩

end Diagnostic

end SourceDocs
