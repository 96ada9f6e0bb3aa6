import SourceDocs.Text.Basic

/-!
Stretches of text inside of which nothing of some kind begins. Whether something begins at a place
may depend on all the text from that place on, so a stretch is always read with what follows it. The
ends of lines and of block comments are the ends of clear stretches.
-/

namespace SourceDocs.Text

/-- At no place inside `inner` does `here` hold of the text from that place on. -/
def Clear (here : Text → Prop) (inner after : Text) : Prop :=
  ∀ front back, inner = front ++ back → back ≠ [] → ¬here (back ++ after)

variable {here : Text → Prop} {inner after : Text}

theorem clear_nil : Clear here [] after := by
  intro front back split nonempty
  exact absurd (List.append_eq_nil_iff.mp split.symm).2 nonempty

theorem clear_cons_iff {c : Char} :
    Clear here (c :: inner) after ↔ ¬here (c :: inner ++ after) ∧ Clear here inner after := by
  constructor
  · intro clear
    refine ⟨clear [] (c :: inner) rfl (List.cons_ne_nil _ _), ?_⟩
    intro front back split nonempty
    exact clear (c :: front) back (by rw [split, List.cons_append]) nonempty
  · rintro ⟨first, others⟩ front back split nonempty
    cases front with
    | nil =>
      rw [List.nil_append] at split
      rw [← split]
      exact first
    | cons d front =>
      rw [List.cons_append, List.cons.injEq] at split
      exact others front back split.2 nonempty

theorem clear_append_iff {further : Text} :
    Clear here (inner ++ further) after ↔
      Clear here inner (further ++ after) ∧ Clear here further after := by
  induction inner with
  | nil => simp [clear_nil]
  | cons c inner ih =>
    rw [List.cons_append, clear_cons_iff, clear_cons_iff, ih, and_assoc, List.cons_append,
      List.cons_append, List.append_assoc]

theorem Clear.not_here (clear : Clear here inner after) (nonempty : inner ≠ []) :
    ¬here (inner ++ after) := clear [] inner rfl nonempty

/-- A clear stretch does not go on behind a place where another one ends. -/
private theorem Clear.gap_eq_nil {gap rest : Text} (clear : Clear here (inner ++ gap) rest)
    (ends : gap ++ rest = [] ∨ here (gap ++ rest)) : gap = [] := by
  apply Decidable.byContradiction
  intro nonempty
  rcases ends with empty | begins
  · exact nonempty (List.append_eq_nil_iff.mp empty).1
  · exact clear inner gap rfl nonempty begins

/-- A text has one clear beginning that ends with the text or where something begins. -/
theorem Clear.unique {first rest second others : Text} (same : first ++ rest = second ++ others)
    (firstClear : Clear here first rest) (firstEnds : rest = [] ∨ here rest)
    (secondClear : Clear here second others) (secondEnds : others = [] ∨ here others) :
    first = second ∧ rest = others := by
  rcases List.append_eq_append_iff.mp same with ⟨gap, longer, tail⟩ | ⟨gap, longer, tail⟩
  · rw [longer] at secondClear
    rw [tail] at firstEnds
    have empty := secondClear.gap_eq_nil firstEnds
    subst empty
    exact ⟨by simpa using longer.symm, by simpa using tail⟩
  · rw [longer] at firstClear
    rw [tail] at secondEnds
    have empty := firstClear.gap_eq_nil secondEnds
    subst empty
    exact ⟨by simpa using longer, by simpa using tail.symm⟩

theorem isPrefix_of_atLineBreak {rest : Text} (broken : atLineBreak rest = true) :
    ['\n'] <+: rest ∨ ['\r', '\n'] <+: rest := by
  unfold atLineBreak at broken
  split at broken
  next tail => exact .inl ⟨tail, rfl⟩
  next tail => exact .inr ⟨tail, rfl⟩
  next => cases broken

theorem clear_lineLength (source : Text) :
    Clear (atLineBreak · = true) (source.take (lineLength source))
        (source.drop (lineLength source)) ∧
      (source.drop (lineLength source) = [] ∨
        atLineBreak (source.drop (lineLength source)) = true) := by
  induction source with
  | nil => exact ⟨clear_nil, .inl rfl⟩
  | cons c rest ih =>
    by_cases broken : atLineBreak (c :: rest) = true
    · rw [lineLength, if_pos broken]
      exact ⟨clear_nil, .inr broken⟩
    · rw [lineLength, if_neg broken, List.take_succ_cons, List.drop_succ_cons, clear_cons_iff,
        List.cons_append, List.take_append_drop]
      exact ⟨⟨broken, ih.1⟩, ih.2⟩

theorem not_mem_of_clear {inner after : Text} (clear : Clear (atLineBreak · = true) inner after) :
    '\n' ∉ inner := by
  intro member
  obtain ⟨front, back, split⟩ := List.append_of_mem member
  exact clear front ('\n' :: back) split (List.cons_ne_nil _ _) rfl

/-- What leads up to the end of the first occurrence of `needle`: a stretch clear of it, then it. -/
theorem exists_of_lengthThrough? {needle source : Text} {count : Nat}
    (found : lengthThrough? needle source = some count) :
    ∃ body after, source = body ++ needle ++ after ∧ count = (body ++ needle).length ∧
      Clear (needle <+: ·) body (needle ++ after) := by
  induction source generalizing count with
  | nil =>
    cases needle with
    | nil => exact ⟨[], [], rfl, by simpa [lengthThrough?] using found.symm, clear_nil⟩
    | cons c needle => simp [lengthThrough?] at found
  | cons c rest ih =>
    rw [lengthThrough?] at found
    split at found
    next begins =>
      have stands : needle <+: c :: rest := by simpa using begins
      obtain ⟨after, split⟩ := stands
      exact ⟨[], after, split.symm, (Option.some.inj found).symm, clear_nil⟩
    next absent =>
      have elsewhere : ¬needle <+: c :: rest := by simpa using absent
      obtain ⟨further, below, rfl⟩ := Option.map_eq_some_iff.mp found
      obtain ⟨body, after, rest_eq, size, clear⟩ := ih below
      refine ⟨c :: body, after, by rw [rest_eq]; rfl, by rw [size]; rfl, ?_⟩
      rw [clear_cons_iff, List.cons_append, ← List.append_assoc, ← rest_eq]
      exact ⟨elsewhere, clear⟩

theorem clear_of_lengthThrough?_eq_none {needle source : Text}
    (missing : lengthThrough? needle source = none) : Clear (needle <+: ·) source [] := by
  induction source with
  | nil => exact clear_nil
  | cons c rest ih =>
    rw [lengthThrough?] at missing
    split at missing
    next => simp at missing
    next absent =>
      have elsewhere : ¬needle <+: c :: rest := by simpa using absent
      rw [clear_cons_iff, List.append_nil]
      exact ⟨elsewhere, ih (Option.map_eq_none_iff.mp missing)⟩

end SourceDocs.Text
