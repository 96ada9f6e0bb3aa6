import Mathlib.Data.List.Chain
import SourceDocs.Text.Lowercase

/-!
Lowercasing a text twice is lowercasing it once. No lowercase form has a lowercase form of its own
that differs from it, and none is a capital sigma; so what stands around a character does not matter
the second time. For the table of pairs this is checked range by range.
-/

namespace SourceDocs.Text

def Lowered (c : Char) : Prop := lowerChar c = [c] ∧ c.toNat ≠ 0x3A3

instance (c : Char) : Decidable (Lowered c) := inferInstanceAs (Decidable (_ ∧ _))

theorem lowerAfter_of_lowered {source : Text} (lowered : ∀ c ∈ source, Lowered c) (seen : Text) :
    lowerAfter seen source = source := by
  induction source generalizing seen with
  | nil => rfl
  | cons c rest ih =>
    obtain ⟨⟨kept, notSigma⟩, others⟩ := List.forall_mem_cons.mp lowered
    rw [lowerAfter, if_neg notSigma, kept, ih others]
    rfl

namespace CaseRange

def low (range : CaseRange) : Nat := (range.first + range.shift).toNat

def high (range : CaseRange) : Nat := (range.last + range.shift).toNat

def isSparse (range : CaseRange) : Bool := range.step == 2 || range.first == range.last

/-- Whether the lowercase forms of a range lie outside some ranges, which ascend: below one of them,
above it, or between its members. -/
def misses (range : CaseRange) : List CaseRange → Bool
  | [] => true
  | other :: others =>
    Nat.blt range.high other.first ||
      (Nat.blt other.last range.low ||
        other.step == 2 && range.isSparse && (range.low + other.first) % 2 == 1) &&
      range.misses others

def isSettled (range : CaseRange) : Bool :=
  Nat.blt 0x5A range.low && (Nat.blt range.high 0x130 || Nat.blt 0x130 range.low) &&
    (Nat.blt range.high 0xD800 || Nat.blt 0xDFFF range.low) && Nat.blt range.high 0x110000 &&
    range.misses lowercaseRanges

theorem ranges_settled : lowercaseRanges.all isSettled = true := by decide +kernel

theorem ranges_ascend : lowercaseRanges.Pairwise fun range next => range.first ≤ next.first := by
  have chain : lowercaseRanges.IsChain fun range next => range.first ≤ next.first := by
    decide +kernel
  have : IsTrans CaseRange fun range next => range.first ≤ next.first :=
    ⟨fun _ _ _ => Nat.le_trans⟩
  exact List.isChain_iff_pairwise.mp chain

variable {range other : CaseRange} {ranges : List CaseRange} {n m : Nat}

theorem holds_iff :
    range.holds n = true ↔
      range.first ≤ n ∧ n ≤ range.last ∧ (n - range.first) % range.step = 0 := by
  simp [holds, and_assoc]

/-- Where the lowercase form of a member of a range lies. -/
theorem bounds (member : range.holds n = true) (positive : 0 < range.low) :
    range.low ≤ (n + range.shift).toNat ∧ (n + range.shift).toNat ≤ range.high ∧
      (range.isSparse = true → (n + range.shift).toNat % 2 = range.low % 2) := by
  obtain ⟨above, below, stepped⟩ := holds_iff.mp member
  unfold low at positive ⊢
  unfold high
  refine ⟨by omega, by omega, ?_⟩
  intro sparse
  rw [isSparse, Bool.or_eq_true, beq_iff_eq, beq_iff_eq] at sparse
  rcases sparse with two | single
  · rw [two] at stepped
    omega
  · have only : n = range.first := by omega
    rw [only]

theorem not_holds (ascend : ranges.Pairwise fun range next => range.first ≤ next.first)
    (missed : range.misses ranges = true) (above : range.low ≤ m) (below : m ≤ range.high)
    (sparse : range.isSparse = true → m % 2 = range.low % 2) (member : other ∈ ranges) :
    ¬other.holds m = true := by
  induction ranges with
  | nil => cases member
  | cons next others ih =>
    obtain ⟨ordered, rest⟩ := List.pairwise_cons.mp ascend
    rw [misses, Bool.or_eq_true, Bool.and_eq_true, Bool.or_eq_true, Nat.blt_eq, Nat.blt_eq] at missed
    rcases missed with under | ⟨outside, further⟩
    · -- the ranges from here on begin above the forms
      have begins : next.first ≤ other.first := by
        rcases List.mem_cons.mp member with rfl | later
        · exact Nat.le_refl _
        · exact ordered other later
      rw [holds_iff]
      omega
    · rcases List.mem_cons.mp member with rfl | later
      · rw [holds_iff]
        rintro ⟨first, last, stepped⟩
        rcases outside with beyond | between
        · omega
        · simp only [Bool.and_eq_true, beq_iff_eq] at between
          obtain ⟨⟨two, even⟩, odd⟩ := between
          have parity := sparse even
          rw [two] at stepped
          omega
      · exact ih rest further later

end CaseRange

theorem lowered_toLower {c : Char} (ascii : c.toNat < 0x80) : Lowered c.toLower := by
  have checked : ∀ n < 0x80, Lowered (Char.ofNat n).toLower := by decide +kernel
  have here := checked c.toNat ascii
  rwa [Char.ofNat_toNat] at here

theorem lowerChar_of_find?_eq_none {c : Char} (beyond : ¬c.toNat < 0x80) (plain : c.toNat ≠ 0x130)
    (absent : lowercaseRanges.find? (·.holds c.toNat) = none) : lowerChar c = [c] := by
  rw [lowerChar, if_neg beyond, if_neg plain, absent]

theorem toNat_ofNat {n : Nat} (valid : n.isValidChar) : (Char.ofNat n).toNat = n := by
  rw [Char.ofNat, dif_pos valid]
  rfl

theorem lowered_of_holds {range : CaseRange} {n : Nat} (listed : range ∈ lowercaseRanges)
    (member : range.holds n = true) : Lowered (Char.ofNat (n + range.shift).toNat) := by
  have settled := List.all_eq_true.mp CaseRange.ranges_settled range listed
  simp only [CaseRange.isSettled, Bool.and_eq_true, Bool.or_eq_true, Nat.blt_eq] at settled
  obtain ⟨⟨⟨⟨noCapital, noDotted⟩, noSurrogate⟩, inside⟩, missed⟩ := settled
  obtain ⟨above, below, sparse⟩ := CaseRange.bounds member (by omega)
  generalize (n + range.shift).toNat = m at above below sparse
  by_cases ascii : m < 0x80
  · have checked : ∀ m < 0x80, 0x5A < m → Lowered (Char.ofNat m) := by decide +kernel
    exact checked m ascii (by omega)
  · have point : (Char.ofNat m).toNat = m := by
      apply toNat_ofNat
      unfold Nat.isValidChar
      omega
    have absent : lowercaseRanges.find? (·.holds m) = none := by
      rw [List.find?_eq_none]
      intro other otherListed
      exact CaseRange.not_holds CaseRange.ranges_ascend missed above below sparse otherListed
    have ordinary : m ≠ 0x3A3 := by
      rintro rfl
      revert absent
      decide +kernel
    refine ⟨lowerChar_of_find?_eq_none ?_ ?_ ?_, ?_⟩
    · rwa [point]
    · rw [point]
      omega
    · rwa [point]
    · rwa [point]

theorem lowered_lowerChar {c d : Char} (ordinary : c.toNat ≠ 0x3A3) (member : d ∈ lowerChar c) :
    Lowered d := by
  by_cases ascii : c.toNat < 0x80
  · rw [lowerChar, if_pos ascii, List.mem_singleton] at member
    rw [member]
    exact lowered_toLower ascii
  by_cases dotted : c.toNat = 0x130
  · have both : Lowered 'i' ∧ Lowered (Char.ofNat 0x307) := by decide +kernel
    rw [lowerChar, if_neg ascii, if_pos dotted] at member
    rcases List.mem_pair.mp member with rfl | rfl
    · exact both.1
    · exact both.2
  cases found : lowercaseRanges.find? (·.holds c.toNat) with
  | none =>
    have kept := lowerChar_of_find?_eq_none ascii dotted found
    rw [kept, List.mem_singleton] at member
    rw [member]
    exact ⟨kept, ordinary⟩
  | some range =>
    have holds := List.find?_some found
    rw [lowerChar, if_neg ascii, if_neg dotted, found, List.mem_singleton] at member
    rw [member]
    exact lowered_of_holds (List.mem_of_find?_eq_some found) holds

theorem lowered_lowerAfter {seen source : Text} {d : Char} (member : d ∈ lowerAfter seen source) :
    Lowered d := by
  induction source generalizing seen with
  | nil => cases member
  | cons c rest ih =>
    rw [lowerAfter] at member
    rcases List.mem_append.mp member with here | later
    · split at here
      next =>
        have sigmas : Lowered (Char.ofNat 0x3C2) ∧ Lowered (Char.ofNat 0x3C3) := by decide +kernel
        split at here
        · rw [List.mem_singleton.mp here]
          exact sigmas.1
        · rw [List.mem_singleton.mp here]
          exact sigmas.2
      next ordinary => exact lowered_lowerChar ordinary here
    · exact ih later

theorem lowercase_lowercase (source : Text) : lowercase (lowercase source) = lowercase source :=
  lowerAfter_of_lowered (fun _ => lowered_lowerAfter) []

end SourceDocs.Text
