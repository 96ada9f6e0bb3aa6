import SourceDocs.Grammar.Basic

/-!
String literals as a relation. A literal is read unit by unit behind its opening delimiter; at each
place an escape comes before the closing delimiter, the closing delimiter before a line break, and a
line break before an ordinary character. The literal is determined by the text it begins.
-/

namespace SourceDocs

def StringDelimiter.Unescaped (delimiter : StringDelimiter) (rest : Text) : Prop :=
  ∀ escape, delimiter.escape = some escape → ¬escape.text <+: rest

/-- The text of a string literal behind its opening delimiter, the text that follows it, and whether
the literal is closed. -/
inductive Literal (delimiter : StringDelimiter) : Text → Text → Bool → Prop
  | fileEnd : Literal delimiter [] [] false
  | escaped {escape : Marker} {c : Char} {body after : Text} {terminated : Bool}
      (declared : delimiter.escape = some escape) (tail : Literal delimiter body after terminated) :
      Literal delimiter (escape.text ++ c :: body) after terminated
  | escapeAtEnd {escape : Marker} (declared : delimiter.escape = some escape) :
      Literal delimiter escape.text [] false
  | closed {after : Text} (unescaped : delimiter.Unescaped (delimiter.closing.text ++ after)) :
      Literal delimiter delimiter.closing.text after true
  | lineEnd {after : Text} (unescaped : delimiter.Unescaped after)
      (unclosed : ¬delimiter.closing.text <+: after) (single : delimiter.multiline = false)
      (broken : Text.atLineBreak after = true) : Literal delimiter [] after false
  | character {c : Char} {body after : Text} {terminated : Bool}
      (unescaped : delimiter.Unescaped (c :: body ++ after))
      (unclosed : ¬delimiter.closing.text <+: c :: body ++ after)
      (unbroken : delimiter.multiline = true ∨ Text.atLineBreak (c :: body ++ after) = false)
      (tail : Literal delimiter body after terminated) :
      Literal delimiter (c :: body) after terminated

namespace Literal

variable {delimiter : StringDelimiter} {body after : Text} {terminated : Bool}

private theorem marker_not_prefix_nil (marker : Marker) : ¬marker.text <+: [] := by
  intro stands
  exact marker.text_ne_nil (List.prefix_nil.mp stands)

theorem of_nil (literal : Literal delimiter body after terminated) (empty : body ++ after = []) :
    body = [] ∧ terminated = false := by
  cases literal with
  | fileEnd => exact ⟨rfl, rfl⟩
  | escaped declared tail => simp at empty
  | @escapeAtEnd escape declared => simp [escape.text_ne_nil] at empty
  | closed unescaped => simp [delimiter.closing.text_ne_nil] at empty
  | lineEnd unescaped unclosed single broken => exact ⟨rfl, rfl⟩
  | character unescaped unclosed unbroken tail => simp at empty

/-- Where an escape stands, the literal ends with it or takes it and one more character. -/
theorem of_escape {escape : Marker} {rest : Text}
    (literal : Literal delimiter body after terminated) (declared : delimiter.escape = some escape)
    (stands : body ++ after = escape.text ++ rest) :
    rest = [] ∧ body = escape.text ∧ terminated = false ∨
      ∃ c tail, rest = c :: tail ++ after ∧ body = escape.text ++ c :: tail ∧
        Literal delimiter tail after terminated := by
  have begins : escape.text <+: body ++ after := ⟨rest, stands.symm⟩
  cases literal with
  | fileEnd => exact absurd begins (marker_not_prefix_nil escape)
  | @escaped other c tail _ _ declared' literal =>
    rw [declared, Option.some.injEq] at declared'
    subst declared'
    rw [List.append_assoc] at stands
    exact .inr ⟨c, tail, (List.append_cancel_left stands).symm, rfl, literal⟩
  | @escapeAtEnd other declared' =>
    rw [declared, Option.some.injEq] at declared'
    subst declared'
    exact .inl ⟨(List.append_cancel_left stands).symm, rfl, rfl⟩
  | closed unescaped => exact absurd begins (unescaped escape declared)
  | lineEnd unescaped unclosed single broken => exact absurd begins (unescaped escape declared)
  | character unescaped unclosed unbroken tail => exact absurd begins (unescaped escape declared)

private theorem begins_with_escape {escape : Marker} (rest after : Text) :
    escape.text <+: escape.text ++ rest ++ after :=
  ⟨rest ++ after, by rw [List.append_assoc]⟩

theorem of_closing (literal : Literal delimiter body after terminated)
    (unescaped : delimiter.Unescaped (body ++ after))
    (closes : delimiter.closing.text <+: body ++ after) :
    body = delimiter.closing.text ∧ terminated = true := by
  cases literal with
  | fileEnd => exact absurd closes (marker_not_prefix_nil _)
  | @escaped escape c tail _ _ declared _ =>
    exact absurd (begins_with_escape (c :: tail) after) (unescaped escape declared)
  | @escapeAtEnd escape declared =>
    exact absurd ⟨[], rfl⟩ (unescaped escape declared)
  | closed _ => exact ⟨rfl, rfl⟩
  | lineEnd _ unclosed _ _ => exact absurd closes unclosed
  | character _ unclosed _ _ => exact absurd closes unclosed

theorem of_lineBreak (literal : Literal delimiter body after terminated)
    (unescaped : delimiter.Unescaped (body ++ after))
    (unclosed : ¬delimiter.closing.text <+: body ++ after) (single : delimiter.multiline = false)
    (broken : Text.atLineBreak (body ++ after) = true) : body = [] ∧ terminated = false := by
  cases literal with
  | fileEnd => exact ⟨rfl, rfl⟩
  | @escaped escape c tail _ _ declared _ =>
    exact absurd (begins_with_escape (c :: tail) after) (unescaped escape declared)
  | @escapeAtEnd escape declared =>
    exact absurd ⟨[], rfl⟩ (unescaped escape declared)
  | closed _ => exact absurd ⟨after, rfl⟩ unclosed
  | lineEnd _ _ _ _ => exact ⟨rfl, rfl⟩
  | character _ _ unbroken _ =>
    simp only [single, broken, Bool.false_eq_true, Bool.true_eq_false, or_self] at unbroken

theorem of_character {c : Char} {rest : Text} (literal : Literal delimiter body after terminated)
    (begins : body ++ after = c :: rest) (unescaped : delimiter.Unescaped (c :: rest))
    (unclosed : ¬delimiter.closing.text <+: c :: rest)
    (unbroken : delimiter.multiline = true ∨ Text.atLineBreak (c :: rest) = false) :
    ∃ tail, body = c :: tail ∧ rest = tail ++ after ∧ Literal delimiter tail after terminated := by
  rw [← begins] at unescaped unclosed unbroken
  cases literal with
  | fileEnd => simp at begins
  | @escaped escape d tail _ _ declared _ =>
    exact absurd (begins_with_escape (d :: tail) after) (unescaped escape declared)
  | @escapeAtEnd escape declared =>
    exact absurd ⟨[], rfl⟩ (unescaped escape declared)
  | closed _ => exact absurd ⟨after, rfl⟩ unclosed
  | lineEnd _ _ single broken =>
    simp only [single, List.nil_append, broken, Bool.false_eq_true, Bool.true_eq_false, or_self]
      at unbroken
  | @character d tail _ _ _ _ _ literal =>
    rw [List.cons_append, List.cons.injEq] at begins
    exact ⟨tail, by rw [begins.1], begins.2.symm, literal⟩

/-- A literal that is left open ends with the text or, on one line, with its line. -/
theorem leftOpen_ends (literal : Literal delimiter body after false) :
    after = [] ∨ delimiter.multiline = false ∧ Text.atLineBreak after = true := by
  generalize shut : false = terminated at literal
  induction literal with
  | fileEnd => exact .inl rfl
  | escaped _ _ ih => exact ih shut
  | escapeAtEnd _ => exact .inl rfl
  | closed _ => cases shut
  | lineEnd _ _ single broken => exact .inr ⟨single, broken⟩
  | character _ _ _ _ ih => exact ih shut

theorem unique {other rest : Text} {closed : Bool}
    (first : Literal delimiter body after terminated) (second : Literal delimiter other rest closed)
    (same : body ++ after = other ++ rest) : body = other ∧ terminated = closed := by
  induction first generalizing other with
  | fileEnd =>
    obtain ⟨rfl, rfl⟩ := second.of_nil same.symm
    exact ⟨rfl, rfl⟩
  | @escaped escape c body after terminated declared _ ih =>
    rw [List.append_assoc] at same
    rcases second.of_escape declared same.symm with ⟨empty, _⟩ | ⟨d, tail, split, rfl, literal⟩
    · simp at empty
    · simp only [List.cons_append, List.cons.injEq] at split
      obtain ⟨rfl, below⟩ := split
      obtain ⟨rfl, rfl⟩ := ih literal below
      exact ⟨rfl, rfl⟩
  | @escapeAtEnd escape declared =>
    rcases second.of_escape declared same.symm with ⟨_, rfl, rfl⟩ | ⟨d, tail, split, _⟩
    · exact ⟨rfl, rfl⟩
    · simp at split
  | @closed after unescaped =>
    have closes : delimiter.closing.text <+: other ++ rest := ⟨after, same⟩
    rw [same] at unescaped
    obtain ⟨rfl, rfl⟩ := second.of_closing unescaped closes
    exact ⟨rfl, rfl⟩
  | lineEnd unescaped unclosed single broken =>
    rw [List.nil_append] at same
    rw [same] at unescaped unclosed broken
    obtain ⟨rfl, rfl⟩ := second.of_lineBreak unescaped unclosed single broken
    exact ⟨rfl, rfl⟩
  | character unescaped unclosed unbroken _ ih =>
    obtain ⟨tail, rfl, below, literal⟩ :=
      second.of_character same.symm unescaped unclosed unbroken
    obtain ⟨rfl, rfl⟩ := ih literal below
    exact ⟨rfl, rfl⟩

/-- A literal is read up to here: each way in which it can go on completes it. Behind an escape one
character, or the end of the text, comes first. -/
def Resumes (delimiter : StringDelimiter) (body rest : Text) : Bool → Prop
  | false => ∀ tail after terminated, rest = tail ++ after →
      Literal delimiter tail after terminated → Literal delimiter (body ++ tail) after terminated
  | true => (rest = [] → Literal delimiter body [] false) ∧
      ∀ c tail after terminated, rest = c :: tail ++ after →
        Literal delimiter tail after terminated →
        Literal delimiter (body ++ c :: tail) after terminated

namespace Resumes

variable {c : Char} {rest : Text}

theorem start (rest : Text) : Resumes delimiter [] rest false := by
  intro tail after terminated _ literal
  exact literal

theorem pass_escaped (resumes : Resumes delimiter body (c :: rest) true) :
    Resumes delimiter (body ++ [c]) rest false := by
  intro tail after terminated below literal
  rw [List.append_assoc, List.singleton_append]
  exact resumes.2 c tail after terminated (by rw [below]; rfl) literal

theorem pass_escape {escape : Marker} (declared : delimiter.escape = some escape)
    (resumes : Resumes delimiter body (escape.text ++ rest) false) :
    Resumes delimiter (body ++ escape.text) rest true := by
  constructor
  · intro empty
    exact resumes escape.text [] false (by rw [empty]) (.escapeAtEnd declared)
  · intro d tail after terminated below literal
    rw [List.append_assoc]
    exact resumes _ after terminated (by rw [below, List.append_assoc]) (.escaped declared literal)

theorem pass_character (unescaped : delimiter.Unescaped (c :: rest))
    (unclosed : ¬delimiter.closing.text <+: c :: rest)
    (unbroken : delimiter.multiline = true ∨ Text.atLineBreak (c :: rest) = false)
    (resumes : Resumes delimiter body (c :: rest) false) :
    Resumes delimiter (body ++ [c]) rest false := by
  intro tail after terminated below literal
  rw [below] at unescaped unclosed unbroken
  rw [List.append_assoc, List.singleton_append]
  exact resumes (c :: tail) after terminated (by rw [below]; rfl)
    (.character unescaped unclosed unbroken literal)

theorem at_end {escaped : Bool} (resumes : Resumes delimiter body [] escaped) :
    Literal delimiter body [] false := by
  cases escaped with
  | true => exact resumes.1 rfl
  | false => simpa using resumes [] [] false rfl .fileEnd

end Resumes

end Literal

end SourceDocs
