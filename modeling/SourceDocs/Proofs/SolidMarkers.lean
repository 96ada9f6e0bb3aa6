import SourceDocs.Proofs.Clear
import SourceDocs.Proofs.Compilation
import SourceDocs.Proofs.Openers

/-!
Grammars whose markers contain no white space. A marker that begins in front of a space or a line
feed then also ends in front of it, so where a block style begins in front of white space, only
markers inside its start can stand, and the style is what opens there.
-/

namespace SourceDocs

namespace Text

/-- A text without the character `w` that begins in front of a `w` ends in front of it. -/
theorem isPrefix_of_not_mem {needle back after : Text} {w : Char} (absent : w ∉ needle)
    (stands : needle <+: back ++ w :: after) : needle <+: back := by
  induction back generalizing needle with
  | nil =>
    cases needle with
    | nil => exact List.nil_prefix
    | cons c needle =>
      rw [List.nil_append, List.cons_prefix_cons] at stands
      exact absurd (stands.1 ▸ List.mem_cons_self) absent
  | cons d back ih =>
    cases needle with
    | nil => exact List.nil_prefix
    | cons c needle =>
      rw [List.cons_append, List.cons_prefix_cons] at stands
      rw [List.cons_prefix_cons]
      exact ⟨stands.1, ih (fun member => absent (List.mem_cons_of_mem _ member)) stands.2⟩

/-- A line that does not hold `needle` is clear of it, whatever follows the character `w` behind
the line. -/
theorem clear_of_absent {needle line after : Text} {w : Char} (absent : w ∉ needle)
    (elsewhere : ¬needle <:+: line) : Clear (needle <+: ·) (line ++ [w]) after := by
  intro front back split nonempty stands
  -- the stretch behind any place ends with `w`
  rw [← List.dropLast_concat_getLast nonempty] at split stands
  rw [← List.append_assoc] at split
  obtain ⟨line_eq, same⟩ := List.append_inj' split rfl
  rw [← same, List.append_assoc, List.singleton_append] at stands
  have inside := isPrefix_of_not_mem absent stands
  rw [line_eq] at elsewhere
  exact elsewhere (inside.isInfix.trans (List.suffix_append front back.dropLast).isInfix)

end Text

namespace Marker

def Solid (marker : Marker) : Prop := ∀ c ∈ marker.text, Text.isSpace c = false

instance (marker : Marker) : Decidable marker.Solid :=
  List.decidableBAll (fun c => Text.isSpace c = false) marker.text

theorem Solid.not_mem {marker : Marker} (solid : marker.Solid) {w : Char}
    (space : Text.isSpace w = true) : w ∉ marker.text := by
  intro member
  rw [solid w member] at space
  cases space

theorem Solid.not_isPadding_head {marker : Marker} (solid : marker.Solid) :
    Text.isPadding marker.head = false := by
  rw [← Bool.not_eq_true]
  intro padding
  exact solid.not_mem (Text.isSpace_of_isPadding padding) List.mem_cons_self

theorem not_infix_nil (marker : Marker) : ¬marker.text <:+: [] := by
  intro within
  exact marker.text_ne_nil (List.infix_nil.mp within)

end Marker

namespace Grammar

def openings (grammar : Grammar) : List Marker :=
  grammar.lineMarkers.map LineMarker.marker ++ grammar.blockStyles.map BlockStyle.start ++
    grammar.strings.map StringDelimiter.opening

structure Solid (grammar : Grammar) : Prop where
  openings : ∀ marker ∈ grammar.openings, marker.Solid
  stops : ∀ style ∈ grammar.blockStyles, style.stop.Solid
  continuations : ∀ style ∈ grammar.blockStyles, ∀ marker ∈ style.continuation, marker.Solid

/-- The style at `index` can write documentation: its comments are documentation with decorated
lines, no later style takes an opening in its place by closing at once, and its end is not part of
the decoration. -/
structure Writes (grammar : Grammar) (index : Nat) (style : BlockStyle) (continuation : Marker) :
    Prop where
  declared : grammar.blockStyles[index]? = some style
  documentation : style.documentation = true
  decorated : style.continuation = some continuation
  prior : ∀ other ∈ grammar.blockStyles.drop (index + 1),
    ¬other.start.text ++ other.stop.text <+: style.start.text
  distinct : ¬style.stop.text <:+: continuation.text

variable {grammar : Grammar} {index : Nat} {style : BlockStyle} {continuation : Marker}

theorem Declares.mem_openings {opener : Opener} (declares : grammar.Declares opener) :
    opener.marker ∈ grammar.openings := by
  unfold openings
  rw [List.mem_append, List.mem_append]
  cases opener with
  | line index marker =>
    exact .inl (.inl (List.mem_map_of_mem (List.mem_of_getElem? declares)))
  | block index style =>
    exact .inl (.inr (List.mem_map_of_mem (List.mem_of_getElem? declares)))
  | string index delimiter =>
    exact .inr (List.mem_map_of_mem (List.mem_of_getElem? declares))

theorem Writes.mem (writes : grammar.Writes index style continuation) :
    style ∈ grammar.blockStyles := List.mem_of_getElem? writes.declared

theorem Writes.stop_solid (writes : grammar.Writes index style continuation)
    (solid : grammar.Solid) : style.stop.Solid := solid.stops style writes.mem

theorem Writes.continuation_solid (writes : grammar.Writes index style continuation)
    (solid : grammar.Solid) : continuation.Solid :=
  solid.continuations style writes.mem continuation writes.decorated

section Opening

variable {w : Char} {rest : Text}

theorem Solid.isPrefix_start (solid : grammar.Solid) (space : Text.isSpace w = true)
    {marker : Marker} (member : marker ∈ grammar.openings)
    (stands : marker.text <+: style.start.text ++ w :: rest) : marker.text <+: style.start.text :=
  Text.isPrefix_of_not_mem ((solid.openings marker member).not_mem space) stands

private theorem find_start (unshadowed : BlockStyle.Unshadowed grammar.blockStyles) (solid : grammar.Solid) (writes : grammar.Writes index style continuation)
    (space : Text.isSpace w = true) :
    (grammar.blockStyles.zipIdx.find? fun entry =>
      entry.1.start.isAt (style.start.text ++ w :: rest)) = some (style, index) := by
  obtain ⟨bound, found⟩ := List.getElem?_eq_some_iff.mp writes.declared
  rw [List.find?_eq_some_iff_getElem]
  refine ⟨Marker.isAt_iff.mpr (List.prefix_append _ _), index, by simpa using bound,
    by simp [found], ?_⟩
  intro earlier before
  rw [List.getElem_zipIdx, Bool.not_eq_true', ← Bool.not_eq_true, Marker.isAt_iff]
  intro stands
  -- an earlier style that begins here would be in front of the white space, inside our start
  have declares : grammar.Declares (.block earlier (grammar.blockStyles[earlier])) :=
    List.getElem?_eq_getElem (by omega)
  have shadows := solid.isPrefix_start space declares.mem_openings stands
  have apart := List.pairwise_iff_getElem.mp unshadowed earlier index (by omega) bound before
  rw [found] at apart
  exact apart shadows

private theorem find_closing (solid : grammar.Solid)
    (writes : grammar.Writes index style continuation) (space : Text.isSpace w = true) :
    ((grammar.blockStyles.zipIdx.drop (index + 1)).find? fun entry =>
      entry.1.start.bytes < style.start.bytes &&
        entry.1.closesAtOnce (style.start.text ++ w :: rest)) = none := by
  rw [List.find?_eq_none]
  rintro ⟨other, position⟩ member fits
  have later : other ∈ grammar.blockStyles.drop (index + 1) := by
    have moved := List.mem_map_of_mem (f := Prod.fst) member
    rwa [List.map_drop, List.zipIdx_map_fst] at moved
  have declared := List.mem_of_mem_drop later
  rw [Bool.and_eq_true, BlockStyle.closesAtOnce_iff] at fits
  have startSolid : other.start.Solid := by
    refine solid.openings _ ?_
    rw [openings, List.mem_append, List.mem_append]
    exact .inl (.inr (List.mem_map_of_mem declared))
  have absent : w ∉ other.start.text ++ other.stop.text := by
    rw [List.mem_append, not_or]
    exact ⟨startSolid.not_mem space, (solid.stops other declared).not_mem space⟩
  exact writes.prior other later (Text.isPrefix_of_not_mem absent fits.2)

/-- The start of a style in front of white space opens a comment in that style. -/
theorem openerAt_start (unshadowed : BlockStyle.Unshadowed grammar.blockStyles) (solid : grammar.Solid) (writes : grammar.Writes index style continuation)
    (space : Text.isSpace w = true) :
    grammar.openerAt (style.start.text ++ w :: rest) = some (.block index style) := by
  have found : grammar.blockAt (style.start.text ++ w :: rest) = some (.block index style) := by
    unfold blockAt
    dsimp only
    rw [find_start unshadowed solid writes space]
    dsimp only
    rw [find_closing solid writes space]
    rfl
  have shorter : ∀ other, grammar.Declares other ∧
      other.marker.text <+: style.start.text ++ w :: rest →
      other.marker.bytes ≤ style.start.bytes := by
    rintro other ⟨declares, stands⟩
    obtain ⟨tail, start_eq⟩ := solid.isPrefix_start space declares.mem_openings stands
    rw [Marker.bytes, Marker.bytes, ← start_eq, Text.bytes_append]
    omega
  exact openerAt_of_blockAt found (fun other line => shorter other (lineAt_spec line))
    (fun other string => shorter other (stringAt_spec string))

end Opening

end Grammar

end SourceDocs
