import SourceDocs.Proofs.Lexing
import SourceDocs.Proofs.Normalizing
import SourceDocs.Proofs.Runs

/-!
Texts whose line feeds are written with a carriage return in front. A text without either character
begins in such a text exactly where it began before, and the lines of both are the same once the
returns at their ends are gone. Offsets move: a place keeps its line and column, but all the returns
in front of it lie between its old offset and the new one.
-/

namespace SourceDocs

namespace Text

def crlf (source : Text) : Text := source.flatMap fun c => if c = '\n' then ['\r', '\n'] else [c]

variable {source rest needle : Text} {c : Char}

@[simp] theorem crlf_nil : crlf [] = [] := rfl

@[simp] theorem crlf_append (first second : Text) :
    crlf (first ++ second) = crlf first ++ crlf second := List.flatMap_append

@[simp] theorem crlf_feed (rest : Text) : crlf ('\n' :: rest) = '\r' :: '\n' :: crlf rest := rfl

theorem crlf_cons (ordinary : c ≠ '\n') (rest : Text) : crlf (c :: rest) = c :: crlf rest := by
  rw [crlf, List.flatMap_cons, if_neg ordinary]
  rfl

theorem crlf_of_not_mem (unbroken : '\n' ∉ source) : crlf source = source := by
  induction source with
  | nil => rfl
  | cons c rest ih =>
    rw [List.mem_cons, not_or] at unbroken
    rw [crlf_cons (Ne.symm unbroken.1), ih unbroken.2]

theorem crlf_eq_nil_iff : crlf source = [] ↔ source = [] := by
  cases source with
  | nil => exact Iff.rfl
  | cons c rest =>
    by_cases feed : c = '\n'
    · simp [feed]
    · simp [crlf_cons feed]

theorem isPrefix_crlf_iff (unbroken : '\n' ∉ needle) (unreturned : '\r' ∉ needle) :
    needle <+: crlf rest ↔ needle <+: rest := by
  induction needle generalizing rest with
  | nil => simp
  | cons d needle ih =>
    rw [List.mem_cons, not_or] at unbroken unreturned
    cases rest with
    | nil => simp
    | cons c rest =>
      by_cases feed : c = '\n'
      · rw [feed, crlf_feed, List.cons_prefix_cons, List.cons_prefix_cons]
        exact ⟨fun begins => absurd begins.1.symm unreturned.1,
          fun begins => absurd begins.1.symm unbroken.1⟩
      · rw [crlf_cons feed, List.cons_prefix_cons, List.cons_prefix_cons,
          ih unbroken.2 unreturned.2]

theorem atLineBreak_crlf (unreturned : '\r' ∉ rest) :
    atLineBreak (crlf rest) = atLineBreak rest := by
  cases rest with
  | nil => rfl
  | cons c rest =>
    rw [List.mem_cons, not_or] at unreturned
    by_cases feed : c = '\n'
    · rw [feed]
      rfl
    · rw [crlf_cons feed]
      unfold atLineBreak
      split
      next split => exact absurd (List.cons.inj split).1 feed
      next split => exact absurd (List.cons.inj split).1.symm unreturned.1
      next =>
        split
        next split => exact absurd (List.cons.inj split).1 feed
        next split => exact absurd (List.cons.inj split).1.symm unreturned.1
        next => rfl

/-- A stretch stays clear if nothing that is looked for begins inside a line break. -/
theorem Clear.to_crlf {here : Text → Prop} {inner after : Text}
    (same : ∀ rest, '\r' ∉ rest → here (crlf rest) → here rest)
    (inside : '\n' ∈ inner → ∀ rest, ¬here ('\n' :: rest)) (unreturned : '\r' ∉ inner ++ after)
    (clear : Clear here inner after) : Clear here (crlf inner) (crlf after) := by
  induction inner with
  | nil => exact clear_nil
  | cons c inner ih =>
    rw [clear_cons_iff] at clear
    have below := ih (fun member => inside (List.mem_cons_of_mem _ member))
      (fun member => unreturned (List.mem_cons_of_mem _ member)) clear.2
    have absent : ¬here (crlf (c :: inner ++ after)) :=
      fun begins => clear.1 (same _ unreturned begins)
    by_cases feed : c = '\n'
    · subst feed
      rw [List.cons_append, crlf_feed, crlf_append] at absent
      rw [crlf_feed, clear_cons_iff, clear_cons_iff]
      exact ⟨absent, inside List.mem_cons_self _, below⟩
    · rw [List.cons_append, crlf_cons feed, crlf_append] at absent
      rw [crlf_cons feed, clear_cons_iff]
      exact ⟨absent, below⟩

theorem isBlank_crlf (source : Text) : isBlank (crlf source) = isBlank source := by
  unfold isBlank
  induction source with
  | nil => rfl
  | cons c rest ih =>
    by_cases feed : c = '\n'
    · rw [feed, crlf_feed, List.all_cons, List.all_cons, List.all_cons, ih]
      rfl
    · rw [crlf_cons feed, List.all_cons, List.all_cons, ih]

theorem count_crlf (source : Text) : (crlf source).count '\n' = source.count '\n' := by
  induction source with
  | nil => rfl
  | cons c rest ih =>
    by_cases feed : c = '\n'
    · rw [feed, crlf_feed, List.count_cons_of_ne (by decide), List.count_cons_self,
        List.count_cons_self, ih]
    · rw [crlf_cons feed, List.count_cons_of_ne feed, List.count_cons_of_ne feed, ih]

section Lines

theorem dropReturn_cons {line : Text} (ordinary : c ≠ '\r') :
    dropReturn (c :: line) = c :: dropReturn line := by
  by_cases returned : line.getLast? = some '\r'
  · obtain ⟨front, rfl⟩ := List.getLast?_eq_some_iff.mp returned
    have here : ['\r'].isSuffixOf? (c :: (front ++ ['\r'])) = some (c :: front) :=
      List.isSuffixOf?_eq_some_iff_append_eq.mpr rfl
    have below : ['\r'].isSuffixOf? (front ++ ['\r']) = some front :=
      List.isSuffixOf?_eq_some_iff_append_eq.mpr rfl
    rw [dropReturn, dropReturn, here, below]
    rfl
  · have unreturned : (c :: line).getLast? ≠ some '\r' := by
      cases line with
      | nil => simpa using ordinary
      | cons d line => simpa using returned
    rw [dropReturn_of_getLast? returned, dropReturn_of_getLast? unreturned]

/-- A text read line by line does not show how its lines end. -/
theorem lines_crlf (unreturned : '\r' ∉ source) :
    (lines (crlf source)).map dropReturn = (lines source).map dropReturn := by
  induction source with
  | nil => rfl
  | cons c rest ih =>
    rw [List.mem_cons, not_or] at unreturned
    by_cases feed : c = '\n'
    · rw [feed, crlf_feed, lines_cons (by decide), lines_feed, lines_feed, List.map_cons,
        ← ih unreturned.2]
      rfl
    · have kept : ∀ pieces : List Text, (pieces.modifyHead (c :: ·)).map dropReturn =
          (pieces.map dropReturn).modifyHead (c :: ·) := by
        intro pieces
        cases pieces with
        | nil => rfl
        | cons line pieces =>
          simp only [List.modifyHead_cons, List.map_cons, dropReturn_cons (Ne.symm unreturned.1)]
      rw [crlf_cons feed, lines_cons feed, lines_cons feed, kept, kept, ih unreturned.2]

theorem lastLine_crlf (source : Text) : lastLine (crlf source) = lastLine source := by
  induction source using List.reverseRecOn with
  | nil => rfl
  | append_singleton front c ih =>
    by_cases feed : c = '\n'
    · rw [feed, crlf_append, lastLine_append_of_mem (by decide), lastLine_append_of_mem (by decide)]
      rfl
    · have unbroken : '\n' ∉ [c] := by simpa using Ne.symm feed
      rw [crlf_append, crlf_of_not_mem unbroken, lastLine_append_of_not_mem unbroken,
        lastLine_append_of_not_mem unbroken, ih]

end Lines

section Offsets

def crlfOffset (source : Text) (offset : Nat) : Nat := bytes (crlf (takeBytes offset source))

theorem crlfOffset_append (before after : Text) :
    crlfOffset (before ++ after) (bytes before) = bytes (crlf before) := by
  rw [crlfOffset, takeBytes_append]

@[simp] theorem crlfOffset_zero (source : Text) : crlfOffset source 0 = 0 := by
  rw [crlfOffset, takeBytes_zero]
  rfl

@[simp] theorem crlfOffset_bytes (source : Text) :
    crlfOffset source (bytes source) = bytes (crlf source) := by
  have whole := crlfOffset_append source []
  rwa [List.append_nil] at whole

variable {start stop : Nat}

theorem takeBytes_crlf (boundary : IsBoundary source start) :
    takeBytes (crlfOffset source start) (crlf source) = crlf (takeBytes start source) := by
  obtain ⟨before, after, rfl, rfl⟩ := boundary
  rw [crlfOffset_append, crlf_append, takeBytes_append, takeBytes_append]

theorem crlfOffset_add (first : IsBoundary source start) (last : IsBoundary source stop)
    (order : start ≤ stop) :
    crlfOffset source stop = crlfOffset source start + bytes (crlf (slice source start stop)) := by
  rw [crlfOffset, takeBytes_append_slice first last order, crlf_append, bytes_append, crlfOffset]

theorem crlfOffset_lt_iff (first : IsBoundary source start) (last : IsBoundary source stop) :
    crlfOffset source start < crlfOffset source stop ↔ start < stop := by
  constructor
  · intro less
    by_contra order
    have moved := crlfOffset_add last first (by omega)
    omega
  · intro less
    have moved := crlfOffset_add first last (by omega)
    have size := bytes_slice first last (by omega)
    have nonempty : slice source start stop ≠ [] := by
      intro empty
      rw [empty, bytes_nil] at size
      omega
    have positive := bytes_pos (mt crlf_eq_nil_iff.mp nonempty)
    omega

theorem slice_crlf (first : IsBoundary source start) (last : IsBoundary source stop) :
    slice (crlf source) (crlfOffset source start) (crlfOffset source stop) =
      crlf (slice source start stop) := by
  rcases Nat.le_total start stop with order | order
  · have moved := crlfOffset_add first last order
    obtain ⟨before, after, whole, size, _⟩ := exists_slice first last order
    generalize slice source start stop = inner at whole moved ⊢
    subst whole
    have front : crlfOffset (before ++ inner ++ after) start = bytes (crlf before) := by
      rw [← size, List.append_assoc, crlfOffset_append]
    rw [crlf_append, crlf_append]
    exact slice_append front.symm moved.symm
  · have moved := crlfOffset_add last first order
    have empty : slice source start stop = [] := by
      rw [slice, Nat.sub_eq_zero_of_le order, takeBytes_zero]
    rw [empty, slice, Nat.sub_eq_zero_of_le (by omega), takeBytes_zero]
    rfl

end Offsets

end Text

namespace Place

/-- Going over a line break leads to the same line and column with or without a return. -/
theorem advance_crlf {first second : Place} (line : first.line = second.line)
    (column : first.column = second.column) (passed : Text) :
    (first.advance (Text.crlf passed)).line = (second.advance passed).line ∧
      (first.advance (Text.crlf passed)).column = (second.advance passed).column := by
  induction passed generalizing first second with
  | nil => exact ⟨line, column⟩
  | cons c passed ih =>
    by_cases feed : c = '\n'
    · subst feed
      have next : ((first.step '\r').step '\n').line = (second.step '\n').line :=
        congrArg (· + 1) line
      exact ih next rfl
    · rw [Text.crlf_cons feed]
      refine ih ?_ ?_
      · simp only [step, if_neg feed, line]
      · simp only [step, if_neg feed, column]

theorem start_advance_crlf (before : Text) :
    start.advance (Text.crlf before) =
      { start.advance before with offset := Text.bytes (Text.crlf before) } := by
  obtain ⟨line, column⟩ := @advance_crlf start start rfl rfl before
  have offset : (start.advance (Text.crlf before)).offset = Text.bytes (Text.crlf before) := by
    rw [offset_advance]
    exact Nat.zero_add _
  dsimp only
  rw [← line, ← column, ← offset]

end Place

end SourceDocs
