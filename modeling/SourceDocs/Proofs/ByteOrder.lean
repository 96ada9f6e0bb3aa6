import SourceDocs.Text.Utf8

/-!
The order of texts by their characters is the order of their UTF-8 encodings by their bytes: the first
byte of a character tells how long its encoding is, a longer one comes later, and the bits of a code
point stand in the encoding from the highest to the lowest.
-/

namespace SourceDocs.Text

theorem ofNat_lt_ofNat {a b : Nat} (order : a < b) (bound : b < 256) :
    UInt8.ofNat a < UInt8.ofNat b := by
  rw [UInt8.lt_iff_toNat_lt, UInt8.toNat_ofNat', UInt8.toNat_ofNat']
  omega

theorem cons_lt_cons {a b : Nat} {first second : List UInt8} (bound : b < 256) (ordered : a ≤ b)
    (further : a = b → first < second) : UInt8.ofNat a :: first < UInt8.ofNat b :: second := by
  rw [List.cons_lt_cons_iff]
  rcases Nat.lt_or_eq_of_le ordered with less | same
  · exact .inl (ofNat_lt_ofNat less bound)
  · exact .inr ⟨congrArg UInt8.ofNat same, further same⟩

section Digits

variable {v w : Nat} {first second : List UInt8}

/-- The byte for the last six bits. -/
theorem lowDigit_lt (order : v < w) (above : v / 64 = w / 64) :
    UInt8.ofNat (v % 64 + 128) :: first < UInt8.ofNat (w % 64 + 128) :: second :=
  cons_lt_cons (by omega) (by omega) (fun _ => by omega)

/-- The bytes for the last twelve bits. -/
theorem middleDigits_lt (order : v < w) (above : v / 4096 = w / 4096) :
    UInt8.ofNat (v / 64 % 64 + 128) :: UInt8.ofNat (v % 64 + 128) :: first <
      UInt8.ofNat (w / 64 % 64 + 128) :: UInt8.ofNat (w % 64 + 128) :: second :=
  cons_lt_cons (by omega) (by omega) fun _ => lowDigit_lt order (by omega)

/-- The bytes for the last eighteen bits. -/
theorem upperDigits_lt (order : v < w) (above : v / 262144 = w / 262144) :
    UInt8.ofNat (v / 4096 % 64 + 128) :: UInt8.ofNat (v / 64 % 64 + 128) ::
        UInt8.ofNat (v % 64 + 128) :: first <
      UInt8.ofNat (w / 4096 % 64 + 128) :: UInt8.ofNat (w / 64 % 64 + 128) ::
        UInt8.ofNat (w % 64 + 128) :: second :=
  cons_lt_cons (by omega) (by omega) fun _ => middleDigits_lt order (by omega)

end Digits

/-- A greater code point has a greater encoding, whatever follows. -/
theorem utf8EncodeChar_append_lt {c d : Char} (order : c < d) (first second : List UInt8) :
    String.utf8EncodeChar c ++ first < String.utf8EncodeChar d ++ second := by
  have points : c.val.toNat < d.val.toNat := order
  have limit : d.val.toNat < 0x110000 := by
    have valid := d.valid
    unfold UInt32.isValidChar Nat.isValidChar at valid
    omega
  unfold String.utf8EncodeChar
  generalize c.val.toNat = v at points ⊢
  generalize d.val.toNat = w at points limit ⊢
  -- the first bytes tell encodings of different lengths apart, the digits those of one length
  have lead {a b : Nat} {first second : List UInt8} (order : a < b) (bound : b < 256) :
      UInt8.ofNat a :: first < UInt8.ofNat b :: second :=
    cons_lt_cons bound (by omega) (fun _ => by omega)
  rcases (by omega : w ≤ 127 ∨ 127 < w ∧ w ≤ 2047 ∨ 2047 < w ∧ w ≤ 65535 ∨ 65535 < w) with
    one | ⟨_, two⟩ | ⟨_, three⟩ | four
  · simp only [if_pos one, if_pos (show v ≤ 127 by omega)]
    exact lead points (by omega)
  · simp only [if_neg (show ¬w ≤ 127 by omega), if_pos two]
    split
    next => exact lead (by omega) (by omega)
    next =>
      rw [if_pos (show v ≤ 2047 by omega)]
      exact cons_lt_cons (by omega) (by omega) fun _ => lowDigit_lt points (by omega)
  · simp only [if_neg (show ¬w ≤ 127 by omega), if_neg (show ¬w ≤ 2047 by omega), if_pos three]
    split
    next => exact lead (by omega) (by omega)
    next =>
      split
      next => exact lead (by omega) (by omega)
      next =>
        rw [if_pos (show v ≤ 65535 by omega)]
        exact cons_lt_cons (by omega) (by omega) fun _ => middleDigits_lt points (by omega)
  · simp only [if_neg (show ¬w ≤ 127 by omega), if_neg (show ¬w ≤ 2047 by omega),
      if_neg (show ¬w ≤ 65535 by omega)]
    split
    next => exact lead (by omega) (by omega)
    next =>
      split
      next => exact lead (by omega) (by omega)
      next =>
        split
        next => exact lead (by omega) (by omega)
        next => exact cons_lt_cons (by omega) (by omega) fun _ => upperDigits_lt points (by omega)

theorem utf8_lt_utf8 {first second : Text} (order : first < second) : utf8 first < utf8 second := by
  induction first generalizing second with
  | nil =>
    cases second with
    | nil => exact absurd order (List.lt_irrefl _)
    | cons d rest =>
      have size : (String.utf8EncodeChar d).length = d.utf8Size := String.length_utf8EncodeChar d
      have nonempty : String.utf8EncodeChar d ≠ [] := by
        intro empty
        have positive := d.utf8Size_pos
        rw [empty, List.length_nil] at size
        omega
      obtain ⟨byte, bytes, shape⟩ := List.exists_cons_of_ne_nil nonempty
      rw [utf8, utf8, List.flatMap_cons, shape]
      exact List.nil_lt_cons _ _
  | cons c first ih =>
    cases second with
    | nil => cases order
    | cons d second =>
      rw [utf8, utf8, List.flatMap_cons, List.flatMap_cons]
      rcases List.cons_lt_cons_iff.mp order with less | ⟨same, further⟩
      · exact utf8EncodeChar_append_lt less _ _
      · rw [same]
        exact List.append_left_lt (ih further)

end SourceDocs.Text
