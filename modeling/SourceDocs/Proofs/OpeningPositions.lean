import SourceDocs.Proofs.Offsets
import SourceDocs.Proofs.Priority

/-!
What opens at a place by its position in the grammar and the size of its marker. The entry at a
position is looked up and the text is cut behind a marker, both of which can fail. Neither does, and
what is found is the opener that the search by entries finds.
-/

namespace SourceDocs

section Positions

variable {α : Type} {check : α → Option Bool} {passes : α → Bool} {items : List α}

def itemsFrom? (position : Nat) (items : List α) : Option (List α) :=
  if position ≤ items.length then some (items.drop position) else none

/-- The position of the first item that passes a check; `none` if a check fails before that. -/
def positionOf? (check : α → Option Bool) : List α → Option (Option Nat)
  | [] => some none
  | item :: items => do
    if ← check item then return some 0
    let later ← positionOf? check items
    return later.map (· + 1)

theorem positionOf?_eq (checked : ∀ item, check item = some (passes item)) :
    positionOf? check items = some (items.findIdx? passes) := by
  induction items with
  | nil => rfl
  | cons item items ih =>
    rw [positionOf?, checked, ih, List.findIdx?_cons]
    cases passes item <;> rfl

theorem map_snd_find?_zipIdx (passes : α → Bool) (items : List α) (first : Nat) :
    ((items.zipIdx first).find? fun entry => passes entry.1).map Prod.snd =
      (items.findIdx? passes).map (first + ·) := by
  induction items generalizing first with
  | nil => rfl
  | cons item items ih =>
    rw [List.zipIdx_cons, List.find?_cons, List.findIdx?_cons]
    cases passes item with
    | true => rfl
    | false =>
      simp only [Bool.false_eq_true, if_false, ih, Option.map_map, Function.comp_def]
      congr 1
      funext position
      omega

theorem findIdx?_eq (passes : α → Bool) (items : List α) :
    items.findIdx? passes = (items.zipIdx.find? fun entry => passes entry.1).map Prod.snd := by
  simp [map_snd_find?_zipIdx]

theorem drop_zipIdx (items : List α) (count : Nat) :
    items.zipIdx.drop count = (items.drop count).zipIdx count := by
  apply List.ext_getElem?
  intro position
  simp

end Positions

namespace Scan

/-- What the machine is inside of, with the position of the entry among those of its kind. -/
inductive Inside where
  | code
  | line (index : Nat)
  | block (index : Nat)
  | string (index : Nat) (escaped : Bool)
deriving DecidableEq, Repr

namespace Inside

def Declared (grammar : Grammar) : Inside → Prop
  | code => True
  | line index => index < grammar.lineMarkers.length
  | block index => index < grammar.blockStyles.length
  | string index _ => index < grammar.strings.length

def opening? (grammar : Grammar) : Inside → Option Marker
  | code => none
  | line index => grammar.lineMarkers[index]?.map LineMarker.marker
  | block index => grammar.blockStyles[index]?.map BlockStyle.start
  | string index _ => grammar.strings[index]?.map StringDelimiter.opening

def ofOpener : Opener → Inside
  | .line index _ => line index
  | .block index _ => block index
  | .string index _ => string index false

theorem opening?_ofOpener {grammar : Grammar} {opener : Opener}
    (declared : grammar.Declares opener) :
    (ofOpener opener).opening? grammar = some opener.marker := by
  cases opener with
  | line index marker =>
    have entry : grammar.lineMarkers[index]? = some marker := declared
    rw [ofOpener, opening?, entry]
    rfl
  | block index style =>
    have entry : grammar.blockStyles[index]? = some style := declared
    rw [ofOpener, opening?, entry]
    rfl
  | string index delimiter =>
    have entry : grammar.strings[index]? = some delimiter := declared
    rw [ofOpener, opening?, entry]
    rfl

end Inside

end Scan

/-- Whether the style has a start of fewer than `size` bytes and a comment in it would begin here and
end right after its start. Only where the start stands is the text cut behind it. -/
def BlockStyle.closesWithin? (size : Nat) (rest : Text) (style : BlockStyle) : Option Bool :=
  if style.start.bytes < size && style.start.isAt rest then do
    let (_, after) ← Text.splitAt? style.start.bytes rest
    return style.stop.isAt after
  else some false

theorem BlockStyle.closesWithin?_eq (size : Nat) (rest : Text) (style : BlockStyle) :
    style.closesWithin? size rest =
      some (style.start.bytes < size && style.closesAtOnce rest) := by
  unfold closesWithin?
  by_cases stands : style.start.isAt rest = true
  · obtain ⟨after, rfl⟩ := Marker.isAt_iff.mp stands
    have closes : style.closesAtOnce (style.start.text ++ after) = style.stop.isAt after := by
      rw [Bool.eq_iff_iff, closesAtOnce_iff, Marker.isAt_iff, List.prefix_append_right_inj]
    rw [stands, Bool.and_true, closes, Marker.bytes, Text.splitAt?_append]
    by_cases shorter : Text.bytes style.start.text < size
    · simp [shorter]
    · simp [shorter]
  · have unclosed : style.closesAtOnce rest = false := by
      rw [Bool.eq_false_iff]
      intro closes
      exact stands (Marker.isAt_iff.mpr (start_of_closesAtOnce closes))
    simp [stands, unclosed]

namespace Grammar

open Scan (Inside)

def blockPosition? (grammar : Grammar) (rest : Text) : Option (Option Nat) :=
  match grammar.blockStyles.findIdx? (·.start.isAt rest) with
  | none => some none
  | some first => do
    let style ← grammar.blockStyles[first]?
    let later ← itemsFrom? (first + 1) grammar.blockStyles
    let shorter ← positionOf? (·.closesWithin? style.start.bytes rest) later
    return some ((shorter.map (first + 1 + ·)).getD first)

theorem blockPosition?_eq (grammar : Grammar) (rest : Text) :
    grammar.blockPosition? rest = some ((grammar.startAt rest).map fun first =>
      ((grammar.closingAt rest first).getD first).2) := by
  unfold blockPosition?
  rw [findIdx?_eq, ← startAt]
  cases found : grammar.startAt rest with
  | none => rfl
  | some first =>
    have entry : grammar.blockStyles[first.2]? = some first.1 :=
      List.mem_zipIdx_iff_getElem?.mp (List.mem_of_find?_eq_some found)
    have inside : first.2 + 1 ≤ grammar.blockStyles.length :=
      (List.getElem?_eq_some_iff.mp entry).1
    have shorter : positionOf? (·.closesWithin? first.1.start.bytes rest)
        (grammar.blockStyles.drop (first.2 + 1)) = some ((grammar.blockStyles.drop
          (first.2 + 1)).findIdx? fun style =>
            style.start.bytes < first.1.start.bytes && style.closesAtOnce rest) :=
      positionOf?_eq (BlockStyle.closesWithin?_eq _ _)
    have closing : (grammar.closingAt rest first).map Prod.snd =
        ((grammar.blockStyles.drop (first.2 + 1)).findIdx? fun style =>
          style.start.bytes < first.1.start.bytes && style.closesAtOnce rest).map
            (first.2 + 1 + ·) := by
      rw [closingAt, drop_zipIdx]
      exact map_snd_find?_zipIdx (fun style : BlockStyle =>
        style.start.bytes < first.1.start.bytes && style.closesAtOnce rest) _ _
    dsimp only [Option.map_some]
    rw [entry, itemsFrom?, if_pos inside]
    dsimp only [bind, Option.bind]
    rw [shorter]
    dsimp only
    rw [← closing]
    cases grammar.closingAt rest first <;> rfl

def sized? (grammar : Grammar) (inside : Inside) : Option (Inside × Nat) := do
  let marker ← inside.opening? grammar
  return (inside, marker.bytes)

def longerSized (first second : Inside × Nat) : Inside × Nat :=
  if first.2 < second.2 then second else first

def openingAt? (grammar : Grammar) (rest : Text) : Option (Option (Inside × Nat)) := do
  let position ← grammar.blockPosition? rest
  let block ← (position.map Inside.block).mapM grammar.sized?
  let line ← ((grammar.lineMarkers.findIdx? (·.marker.isAt rest)).map
    Inside.line).mapM grammar.sized?
  let string ← ((grammar.strings.findIdx? (·.opening.isAt rest)).map
    (Inside.string · false)).mapM grammar.sized?
  return (block.merge longerSized line).merge longerSized string

def sizedOpener (opener : Opener) : Inside × Nat := (.ofOpener opener, opener.marker.bytes)

theorem mapM_sized? {grammar : Grammar} {found : Option Opener}
    (declared : ∀ opener, found = some opener → grammar.Declares opener) :
    (found.map Inside.ofOpener).mapM grammar.sized? = some (found.map sizedOpener) := by
  cases found with
  | none => rfl
  | some opener =>
    have opening := Inside.opening?_ofOpener (declared opener rfl)
    simp [sized?, opening, sizedOpener]

theorem merge_longerSized (first second : Option Opener) :
    (first.map sizedOpener).merge longerSized (second.map sizedOpener) =
      (first.merge Opener.longer second).map sizedOpener := by
  cases first with
  | none => cases second <;> rfl
  | some first =>
    cases second with
    | none => rfl
    | some second =>
      simp only [Option.map_some, Option.merge_some_some, longerSized, sizedOpener, Opener.longer]
      split <;> rfl

theorem openingAt?_eq (grammar : Grammar) (rest : Text) :
    grammar.openingAt? rest = some ((grammar.openerAt rest).map sizedOpener) := by
  have block : (grammar.startAt rest).map (fun first =>
      Inside.block ((grammar.closingAt rest first).getD first).2) =
      (grammar.blockAt rest).map Inside.ofOpener := by
    rw [blockAt_eq_map, Option.map_map]
    rfl
  have line : (grammar.lineMarkers.findIdx? (·.marker.isAt rest)).map Inside.line =
      (grammar.lineAt rest).map Inside.ofOpener := by
    rw [findIdx?_eq, lineAt, Option.map_map, Option.map_map]
    rfl
  have string : (grammar.strings.findIdx? (·.opening.isAt rest)).map (Inside.string · false) =
      (grammar.stringAt rest).map Inside.ofOpener := by
    rw [findIdx?_eq, stringAt, Option.map_map, Option.map_map]
    rfl
  unfold openingAt?
  rw [blockPosition?_eq, line, string]
  dsimp only [bind, Option.bind]
  rw [Option.map_map, Function.comp_def, block,
    mapM_sized? fun _ found => (blockAt_spec found).1,
    mapM_sized? fun _ found => (lineAt_spec found).1,
    mapM_sized? fun _ found => (stringAt_spec found).1]
  dsimp only
  rw [merge_longerSized, merge_longerSized, openerAt_eq_merge]
  rfl

end Grammar

end SourceDocs
