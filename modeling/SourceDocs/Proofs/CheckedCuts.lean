import SourceDocs.Grammar.Basic
import SourceDocs.Proofs.Clear
import SourceDocs.Proofs.Offsets

/-!
Searches by byte offsets for a line break, for a marker and for the end of a line. They cut the text
at what they find, and a cut can fail: an offset may lie past the end or inside a character. None of
these fails, and what is found is what the searches by characters find.
-/

namespace SourceDocs

namespace Text

def charBytes : Text → Nat
  | [] => 1
  | c :: _ => c.utf8Size

theorem charBytes_eq {rest : Text} (more : rest ≠ []) : charBytes rest = bytes (rest.take 1) := by
  obtain ⟨c, tail, rfl⟩ := List.exists_cons_of_ne_nil more
  simp [charBytes]

def offsetOf? (needle : Text) : Text → Option Nat
  | [] => if needle.isEmpty then some 0 else none
  | c :: rest =>
    if needle.isPrefixOf (c :: rest) then some 0
    else (offsetOf? needle rest).map (c.utf8Size + ·)

theorem offsetOf?_of_clear {needle body after : Text}
    (clear : Clear (needle <+: ·) body (needle ++ after)) :
    offsetOf? needle (body ++ (needle ++ after)) = some (bytes body) := by
  induction body with
  | nil =>
    rw [List.nil_append]
    cases whole : needle ++ after with
    | nil => simp [offsetOf?, (List.append_eq_nil_iff.mp whole).1]
    | cons c rest =>
      have stands : needle <+: c :: rest := ⟨after, whole⟩
      simp [offsetOf?, stands]
  | cons c body ih =>
    obtain ⟨elsewhere, below⟩ := clear_cons_iff.mp clear
    rw [List.cons_append] at elsewhere ⊢
    simp [offsetOf?, elsewhere, ih below]

theorem offsetOf?_eq_none {needle source : Text} (nonempty : needle ≠ [])
    (clear : Clear (needle <+: ·) source []) : offsetOf? needle source = none := by
  induction source with
  | nil => simp [offsetOf?, nonempty]
  | cons c rest ih =>
    obtain ⟨elsewhere, below⟩ := clear_cons_iff.mp clear
    rw [List.append_nil] at elsewhere
    simp [offsetOf?, elsewhere, ih below]

theorem clear_feed {line : Text} (unbroken : '\n' ∉ line) (after : Text) :
    Clear (['\n'] <+: ·) line after := by
  intro front back split nonempty stands
  obtain ⟨c, others, rfl⟩ := List.exists_cons_of_ne_nil nonempty
  obtain rfl : '\n' = c := by simpa using stands
  exact unbroken (by simp [split])

/-- The size of the text in front of the first line break. A return right before the line feed belongs
to the break, so the text up to the line feed is cut off and looked at. -/
def lineBytes? (rest : Text) : Option Nat :=
  match offsetOf? ['\n'] rest with
  | none => some (bytes rest)
  | some feed => do
    let (before, _) ← splitAt? feed rest
    if before.getLast? = some '\r' then
      if 1 ≤ feed then some (feed - 1) else none
    else some feed

theorem lineBytes?_eq (rest : Text) :
    lineBytes? rest = some (bytes (rest.take (lineLength rest))) := by
  obtain ⟨clear, ends⟩ := clear_lineLength rest
  have whole := List.take_append_drop (lineLength rest) rest
  generalize rest.take (lineLength rest) = line at *
  generalize rest.drop (lineLength rest) = after at *
  have unbroken := not_mem_of_clear clear
  -- behind a line feed that the search finds, the text in front of it is cut off without fail
  have found : ∀ before tail, rest = before ++ (['\n'] ++ tail) → '\n' ∉ before →
      lineBytes? rest = if before.getLast? = some '\r' then
        if 1 ≤ bytes before then some (bytes before - 1) else none else some (bytes before) := by
    intro before tail split absent
    unfold lineBytes?
    rw [split, offsetOf?_of_clear (clear_feed absent _)]
    dsimp only
    rw [splitAt?_append]
    rfl
  rcases ends with rfl | broken
  · rw [List.append_nil] at whole
    subst whole
    rw [lineBytes?, offsetOf?_eq_none (List.cons_ne_nil _ _) (clear_feed unbroken [])]
  · rcases isPrefix_of_atLineBreak broken with ⟨tail, rfl⟩ | ⟨tail, rfl⟩
    · rw [found line tail whole.symm unbroken, if_neg]
      intro returned
      obtain ⟨front, rfl⟩ := List.getLast?_eq_some_iff.mp returned
      exact clear front ['\r'] rfl (List.cons_ne_nil _ _) rfl
    · have split : rest = (line ++ ['\r']) ++ (['\n'] ++ tail) := by
        rw [← whole]
        simp
      have absent : '\n' ∉ line ++ ['\r'] := by
        rw [List.mem_append, not_or]
        exact ⟨unbroken, by decide⟩
      have size : bytes (line ++ ['\r']) = bytes line + 1 := bytes_append line ['\r']
      rw [found _ tail split absent, if_pos (List.getLast?_concat), size, if_pos (Nat.le_add_left 1 _),
        Nat.add_sub_cancel]

/-- A text begins with a line break if nothing stands in front of the first one. -/
theorem map_lineBytes? {rest : Text} (more : rest ≠ []) :
    (lineBytes? rest).map (· == 0) = some (atLineBreak rest) := by
  rw [lineBytes?_eq, Option.map_some]
  obtain ⟨c, tail, rfl⟩ := List.exists_cons_of_ne_nil more
  have size := c.utf8Size_pos
  cases broken : atLineBreak (c :: tail) with
  | true => simp [lineLength, broken]
  | false =>
    have positive : bytes ((c :: tail).take (lineLength (c :: tail))) ≠ 0 := by
      simp only [lineLength, broken, Bool.false_eq_true, if_false, List.take_succ_cons, bytes_cons]
      omega
    simp [positive]

end Text

/-- Whether a literal is left open here: only one that has to fit on its line is looked at for a line
break. -/
def StringDelimiter.breaksAt? (rest : Text) (delimiter : StringDelimiter) : Option Bool :=
  if delimiter.multiline then some false else (Text.lineBytes? rest).map (· == 0)

theorem StringDelimiter.breaksAt?_eq {rest : Text} (more : rest ≠ [])
    (delimiter : StringDelimiter) :
    delimiter.breaksAt? rest = some (!delimiter.multiline && Text.atLineBreak rest) := by
  rw [breaksAt?, Text.map_lineBytes? more]
  cases delimiter.multiline <;> rfl

theorem Marker.bytes_take {marker : Marker} {rest : Text} (stands : marker.text <+: rest) :
    Text.bytes (rest.take marker.text.length) = marker.bytes := by
  obtain ⟨after, rfl⟩ := stands
  rw [List.take_left, bytes]

end SourceDocs
