import SourceDocs.Text.Basic

/-!
Byte offsets into a text. A cut between two characters is given by the two parts or by the number of
bytes in front of it; the lemmas here pass from one to the other. Ranges tile a stretch of text when
none is empty and each begins where the one before it ends.
-/

namespace SourceDocs

namespace Text

theorem bytes_pos {source : Text} (nonempty : source ≠ []) : 0 < bytes source := by
  obtain ⟨c, rest, rfl⟩ := List.exists_cons_of_ne_nil nonempty
  have size := c.utf8Size_pos
  rw [bytes_cons]
  omega

theorem length_le_bytes (source : Text) : source.length ≤ bytes source := by
  induction source with
  | nil => exact Nat.le_refl 0
  | cons c rest ih =>
    have size := c.utf8Size_pos
    rw [List.length_cons, bytes_cons]
    omega

theorem eq_nil_of_bytes {source : Text} (size : bytes source = 0) : source = [] := by
  apply Decidable.byContradiction
  intro nonempty
  have positive := bytes_pos nonempty
  omega

theorem exists_gap {first after second other : Text} (same : first ++ after = second ++ other)
    (order : bytes first ≤ bytes second) :
    ∃ gap, second = first ++ gap ∧ after = gap ++ other := by
  rcases List.append_eq_append_iff.mp same with ⟨gap, later, rest⟩ | ⟨gap, earlier, rest⟩
  · exact ⟨gap, later, rest⟩
  · rw [earlier, bytes_append] at order
    have empty : gap = [] := eq_nil_of_bytes (by omega)
    subst empty
    exact ⟨[], by simpa using earlier.symm, by simpa using rest.symm⟩

theorem append_inj_of_bytes {first after second other : Text}
    (same : first ++ after = second ++ other) (size : bytes first = bytes second) :
    first = second ∧ after = other := by
  obtain ⟨gap, later, rest⟩ := exists_gap same (Nat.le_of_eq size)
  rw [later, bytes_append] at size
  have empty : gap = [] := eq_nil_of_bytes (by omega)
  subst empty
  exact ⟨by simpa using later.symm, by simpa using rest⟩

@[simp] theorem takeBytes_zero (source : Text) : takeBytes 0 source = [] := by
  cases source with
  | nil => rfl
  | cons c rest =>
    have size := c.utf8Size_pos
    rw [takeBytes, if_neg (by omega)]

@[simp] theorem dropBytes_zero (source : Text) : dropBytes 0 source = source := by
  cases source with
  | nil => rfl
  | cons c rest =>
    have size := c.utf8Size_pos
    rw [dropBytes, if_neg (by omega)]

@[simp] theorem takeBytes_append (before after : Text) :
    takeBytes (bytes before) (before ++ after) = before := by
  induction before with
  | nil => simp
  | cons c before ih =>
    rw [List.cons_append, bytes_cons, takeBytes, if_pos (by omega), Nat.add_sub_cancel_left, ih]

@[simp] theorem dropBytes_append (before after : Text) :
    dropBytes (bytes before) (before ++ after) = after := by
  induction before with
  | nil => simp
  | cons c before ih =>
    rw [List.cons_append, bytes_cons, dropBytes, if_pos (by omega), Nat.add_sub_cancel_left, ih]

theorem splitAt?_append (before after : Text) :
    splitAt? (bytes before) (before ++ after) = some (before, after) := by
  simp [splitAt?]

theorem slice?_append (before inner after : Text) :
    slice? (before ++ inner ++ after) (bytes before) (bytes before + bytes inner) = some inner := by
  unfold slice?
  rw [← bytes_append, splitAt?_append]
  dsimp only [bind, Option.bind]
  rw [splitAt?_append]
  rfl

theorem slice_append {before inner after : Text} {start stop : Nat}
    (first : bytes before = start) (last : start + bytes inner = stop) :
    slice (before ++ inner ++ after) start stop = inner := by
  have size : stop - start = bytes inner := by omega
  rw [slice, size, ← first, List.append_assoc, dropBytes_append, takeBytes_append]

/-- An offset between two characters of a text, or at one of its ends. -/
def IsBoundary (source : Text) (offset : Nat) : Prop :=
  ∃ before after, source = before ++ after ∧ bytes before = offset

theorem isBoundary_zero (source : Text) : IsBoundary source 0 := ⟨[], source, rfl, rfl⟩

theorem isBoundary_bytes (source : Text) : IsBoundary source (bytes source) :=
  ⟨source, [], by simp, rfl⟩

theorem isBoundary_of_append (before inner after : Text) :
    IsBoundary (before ++ inner ++ after) (bytes before + bytes inner) :=
  ⟨before ++ inner, after, rfl, bytes_append before inner⟩

theorem IsBoundary.le_bytes {source : Text} {offset : Nat} (boundary : IsBoundary source offset) :
    offset ≤ bytes source := by
  obtain ⟨before, after, rfl, rfl⟩ := boundary
  rw [bytes_append]
  omega

/-- Two boundaries cut a text into three parts, the slice between them in the middle. -/
theorem exists_slice {source : Text} {start stop : Nat} (first : IsBoundary source start)
    (last : IsBoundary source stop) (order : start ≤ stop) :
    ∃ before after, source = before ++ slice source start stop ++ after ∧
      bytes before = start ∧ start + bytes (slice source start stop) = stop := by
  obtain ⟨before, rest, source_eq, start_eq⟩ := first
  obtain ⟨front, after, same, stop_eq⟩ := last
  obtain ⟨inner, front_eq, -⟩ :=
    exists_gap (source_eq.symm.trans same) (by rw [start_eq, stop_eq]; exact order)
  have size : start + bytes inner = stop := by
    rw [← stop_eq, front_eq, bytes_append, start_eq]
  rw [front_eq] at same
  have inner_eq : slice source start stop = inner := by
    rw [same]
    exact slice_append start_eq size
  rw [inner_eq]
  exact ⟨before, after, same, start_eq, size⟩

theorem bytes_slice {source : Text} {start stop : Nat} (first : IsBoundary source start)
    (last : IsBoundary source stop) (order : start ≤ stop) :
    bytes (slice source start stop) = stop - start := by
  obtain ⟨_, _, _, _, size⟩ := exists_slice first last order
  omega

theorem takeBytes_append_slice {source : Text} {start stop : Nat}
    (first : IsBoundary source start) (last : IsBoundary source stop) (order : start ≤ stop) :
    takeBytes stop source = takeBytes start source ++ slice source start stop := by
  obtain ⟨before, after, source_eq, start_eq, size⟩ := exists_slice first last order
  generalize slice source start stop = inner at source_eq size
  have stop_eq : bytes (before ++ inner) = stop := by rw [bytes_append, start_eq, size]
  rw [source_eq, ← stop_eq, takeBytes_append, List.append_assoc, ← start_eq, takeBytes_append]

theorem slice_append_slice {source : Text} {start middle stop : Nat}
    (first : IsBoundary source start) (second : IsBoundary source middle)
    (third : IsBoundary source stop) (earlier : start ≤ middle) (later : middle ≤ stop) :
    slice source start middle ++ slice source middle stop = slice source start stop := by
  have whole : takeBytes start source ++ (slice source start middle ++ slice source middle stop) =
      takeBytes start source ++ slice source start stop := by
    rw [← List.append_assoc, ← takeBytes_append_slice first second earlier,
      ← takeBytes_append_slice second third later,
      ← takeBytes_append_slice first third (Nat.le_trans earlier later)]
  exact List.append_cancel_left whole

theorem slice_self (source : Text) (offset : Nat) : slice source offset offset = [] := by
  rw [slice, Nat.sub_self, takeBytes_zero]

end Text

def Tile : Nat → Nat → List (Nat × Nat) → Prop
  | start, stop, [] => start = stop
  | start, stop, range :: ranges => range.1 = start ∧ range.1 < range.2 ∧ Tile range.2 stop ranges

namespace Tile

variable {start stop : Nat} {ranges : List (Nat × Nat)} {range : Nat × Nat}

theorem start_le (tile : Tile start stop ranges) (member : range ∈ ranges) : start ≤ range.1 := by
  induction ranges generalizing start with
  | nil => cases member
  | cons first ranges ih =>
    obtain ⟨begins, grows, others⟩ := tile
    rcases List.mem_cons.mp member with rfl | later
    · omega
    · have below := ih others later
      omega

theorem grows (tile : Tile start stop ranges) (member : range ∈ ranges) : range.1 < range.2 := by
  induction ranges generalizing start with
  | nil => cases member
  | cons first ranges ih =>
    obtain ⟨_, grows, others⟩ := tile
    rcases List.mem_cons.mp member with rfl | later
    · exact grows
    · exact ih others later

theorem append {middle : Nat} {others : List (Nat × Nat)} (first : Tile start middle ranges)
    (second : Tile middle stop others) : Tile start stop (ranges ++ others) := by
  induction ranges generalizing start with
  | nil =>
    have same : start = middle := first
    rw [same]
    exact second
  | cons range ranges ih =>
    obtain ⟨begins, grows, below⟩ := first
    exact ⟨begins, grows, ih below⟩

theorem ordered (tile : Tile start stop ranges) :
    ranges.Pairwise fun first second => first.2 ≤ second.1 := by
  induction ranges generalizing start with
  | nil => exact .nil
  | cons first ranges ih =>
    obtain ⟨_, _, others⟩ := tile
    exact .cons (fun range member => others.start_le member) (ih others)

end Tile

end SourceDocs
