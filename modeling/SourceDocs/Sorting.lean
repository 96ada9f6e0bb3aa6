/-!
Stable sorting by insertion: elements that the order does not tell apart keep their order. Sorting by
merging is not reducible, so sorted lists could not be computed in proofs.
-/

namespace SourceDocs

variable {α : Type}

def sortBy (le : α → α → Bool) (l : List α) : List α :=
  l.foldr (fun a sorted => sorted.takeWhile (!le a ·) ++ a :: sorted.dropWhile (!le a ·)) []

def longestFirst (size : α → Nat) (l : List α) : List α :=
  sortBy (fun a b => size b ≤ size a) l

end SourceDocs
