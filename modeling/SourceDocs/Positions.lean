/-!
Sets of positions in a list. A set has one mark for each position, from the front of the list to the
place behind its last item, so it is one longer than the list. A pattern is compared with a list by
moving such a set along piece by piece, which takes one pass over the list for each piece.
-/

namespace SourceDocs

/-- A set of positions in a list, as marks. -/
abbrev Positions := List Bool

namespace Positions

variable {α : Type}

def front (items : List α) : Positions := true :: items.map fun _ => false

def nowhere (items : List α) : Positions := false :: items.map fun _ => false

def union (first second : Positions) : Positions := List.zipWith or first second

def step (passes : α → Bool) (items : List α) (positions : Positions) : Positions :=
  false :: List.zipWith (fun item mark => mark && passes item) items positions

/-- The positions behind any number of items that pass a test; `reached` tells whether the items
before these lead to their front. -/
def spreadFrom (passes : α → Bool) (reached : Bool) : List α → Positions → Positions
  | item :: items, mark :: marks =>
    (mark || reached) :: spreadFrom passes ((mark || reached) && passes item) items marks
  | [], mark :: marks => (mark || reached) :: marks
  | _, [] => []

def spread (passes : α → Bool) (items : List α) (positions : Positions) : Positions :=
  spreadFrom passes false items positions

def atEnd (positions : Positions) : Bool := positions.getLastD false

end Positions

end SourceDocs
