import SourceDocs.Text.Basic

/-!
Markers: the texts that open, close and decorate comments and string literals. A marker has at least
one character, so a scanner that passes one always moves on.
-/

namespace SourceDocs

/-- A non-empty text. -/
structure Marker where
  head : Char
  tail : Text
deriving DecidableEq, Repr

namespace Marker

def text (marker : Marker) : Text := marker.head :: marker.tail

def ofText? : Text → Option Marker
  | [] => none
  | c :: rest => some ⟨c, rest⟩

def bytes (marker : Marker) : Nat := Text.bytes marker.text

def isAt (marker : Marker) (rest : Text) : Bool := marker.text.isPrefixOf rest

theorem text_ne_nil (marker : Marker) : marker.text ≠ [] := List.cons_ne_nil _ _

theorem text_length_pos (marker : Marker) : 0 < marker.text.length := Nat.succ_pos _

theorem text_injective {first second : Marker} (same : first.text = second.text) :
    first = second := by
  cases first
  cases second
  simpa [text] using same

theorem ofText?_eq_some_iff {source : Text} {marker : Marker} :
    ofText? source = some marker ↔ source = marker.text := by
  cases source with
  | nil => simp [ofText?, text]
  | cons c rest =>
    constructor
    · intro found
      simp only [ofText?, Option.some.injEq] at found
      rw [← found]
      rfl
    · intro same
      rw [same]
      rfl

theorem isAt_iff {marker : Marker} {rest : Text} :
    marker.isAt rest = true ↔ marker.text <+: rest := by
  simp [isAt]

end Marker

end SourceDocs
