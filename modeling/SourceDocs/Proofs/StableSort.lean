import Mathlib.Data.List.Sort
import SourceDocs.Sorting

/-!
Sorting is insertion sort, so it permutes a list, puts it in order and keeps the order of elements that
the order does not tell apart.
-/

namespace SourceDocs

variable {α : Type}

theorem sortBy_eq_insertionSort (le : α → α → Bool) (l : List α) :
    sortBy le l = l.insertionSort (le · · = true) := by
  unfold sortBy List.insertionSort
  congr 1
  funext a sorted
  simp [List.orderedInsert_eq_take_drop]

theorem sortBy_perm (le : α → α → Bool) (l : List α) : (sortBy le l).Perm l := by
  rw [sortBy_eq_insertionSort]
  exact List.perm_insertionSort _ l

theorem sortBy_pairwise {le : α → α → Bool} (total : ∀ a b, le a b = true ∨ le b a = true)
    (trans : ∀ a b c, le a b = true → le b c = true → le a c = true) (l : List α) :
    (sortBy le l).Pairwise (le · · = true) := by
  have : Std.Total (le · · = true) := ⟨total⟩
  have : IsTrans α (le · · = true) := ⟨trans⟩
  rw [sortBy_eq_insertionSort]
  exact List.pairwise_insertionSort _ l

/-- Elements that may stand in either order keep the order that they have. -/
theorem sortBy_filter {le : α → α → Bool} {p : α → Bool}
    (either : ∀ a b, p a = true → p b = true → le a b = true) (l : List α) :
    (sortBy le l).filter p = l.filter p := by
  have ordered : (l.filter p).Pairwise (le · · = true) :=
    List.pairwise_of_forall_mem_list fun a first b second =>
      either a b (List.of_mem_filter first) (List.of_mem_filter second)
  have kept : (l.filter p).Sublist (sortBy le l) := by
    rw [sortBy_eq_insertionSort]
    exact List.sublist_insertionSort ordered List.filter_sublist
  have size : ((sortBy le l).filter p).length = (l.filter p).length :=
    ((sortBy_perm le l).filter p).length_eq
  have inner := kept.filter p
  simp only [List.filter_filter, Bool.and_self] at inner
  exact (inner.eq_of_length size.symm).symm

theorem longestFirst_perm (size : α → Nat) (l : List α) : (longestFirst size l).Perm l :=
  sortBy_perm _ l

theorem longestFirst_pairwise (size : α → Nat) (l : List α) :
    (longestFirst size l).Pairwise fun a b => size b ≤ size a := by
  have sorted : (longestFirst size l).Pairwise fun a b => decide (size b ≤ size a) = true := by
    apply sortBy_pairwise
    · intro a b
      simp only [decide_eq_true_eq]
      omega
    · intro a b c
      simp only [decide_eq_true_eq]
      omega
  exact sorted.imp of_decide_eq_true

theorem longestFirst_filter (size : α → Nat) (l : List α) (n : Nat) :
    (longestFirst size l).filter (size · = n) = l.filter (size · = n) := by
  apply sortBy_filter
  intro a b first second
  rw [decide_eq_true_eq] at first second ⊢
  omega

end SourceDocs
