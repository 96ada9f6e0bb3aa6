import SourceDocs.Grammar.Opener

/-!
What the choice of an opener guarantees: the chosen construct is declared by the grammar at its
position, and its marker stands at the place where it was looked for.
-/

namespace SourceDocs

def Grammar.Declares (grammar : Grammar) : Opener → Prop
  | .line index marker => grammar.lineMarkers[index]? = some marker
  | .block index style => grammar.blockStyles[index]? = some style
  | .string index delimiter => grammar.strings[index]? = some delimiter

namespace BlockStyle

theorem closesAtOnce_iff {style : BlockStyle} {rest : Text} :
    style.closesAtOnce rest = true ↔ style.start.text ++ style.stop.text <+: rest := by
  simp [closesAtOnce]

theorem start_of_closesAtOnce {style : BlockStyle} {rest : Text}
    (closes : style.closesAtOnce rest = true) : style.start.text <+: rest :=
  (List.prefix_append _ _).trans (closesAtOnce_iff.mp closes)

end BlockStyle

namespace Opener

theorem longer_eq (first second : Opener) :
    first.longer second = first ∨ first.longer second = second := by
  unfold longer
  split
  · exact .inr rfl
  · exact .inl rfl

theorem longer_of_le {first second : Opener} (order : second.marker.bytes ≤ first.marker.bytes) :
    first.longer second = first := by
  rw [longer, if_neg (by omega)]

theorem foldl_longer_mem (first : Opener) (others : List Opener) :
    others.foldl longer first ∈ first :: others := by
  induction others generalizing first with
  | nil => simp
  | cons next others ih =>
    rw [List.foldl_cons]
    have member := ih (first.longer next)
    rw [List.mem_cons] at member
    rcases member with same | later
    · rw [same]
      rcases first.longer_eq next with chosen | chosen
      · rw [chosen]
        exact List.mem_cons_self
      · rw [chosen]
        exact List.mem_cons_of_mem _ List.mem_cons_self
    · exact List.mem_cons_of_mem _ (List.mem_cons_of_mem _ later)

theorem foldl_longer_of_le {first : Opener} {others : List Opener}
    (order : ∀ other ∈ others, other.marker.bytes ≤ first.marker.bytes) :
    others.foldl longer first = first := by
  induction others with
  | nil => rfl
  | cons next others ih =>
    rw [List.foldl_cons, longer_of_le (order next List.mem_cons_self)]
    exact ih fun other member => order other (List.mem_cons_of_mem _ member)

end Opener

namespace Grammar

variable {grammar : Grammar} {rest : Text} {opener : Opener}

private theorem find_standing {α : Type} {entries : List α} {marker : α → Marker} {found : α × Nat}
    (first : (entries.zipIdx.find? fun entry => (marker entry.1).isAt rest) = some found) :
    entries[found.2]? = some found.1 ∧ (marker found.1).text <+: rest := by
  have stands := List.find?_some first
  have member := List.mem_of_find?_eq_some first
  exact ⟨List.mem_zipIdx_iff_getElem?.mp member, Marker.isAt_iff.mp stands⟩

theorem lineAt_spec (found : grammar.lineAt rest = some opener) :
    grammar.Declares opener ∧ opener.marker.text <+: rest := by
  obtain ⟨entry, first, rfl⟩ := Option.map_eq_some_iff.mp found
  exact find_standing first

theorem stringAt_spec (found : grammar.stringAt rest = some opener) :
    grammar.Declares opener ∧ opener.marker.text <+: rest := by
  obtain ⟨entry, first, rfl⟩ := Option.map_eq_some_iff.mp found
  exact find_standing first

theorem blockAt_spec (found : grammar.blockAt rest = some opener) :
    grammar.Declares opener ∧ opener.marker.text <+: rest := by
  unfold blockAt at found
  dsimp only at found
  split at found
  next => cases found
  next first begins =>
    obtain rfl := Option.some.inj found
    generalize shorter : List.find? _ (List.drop (first.2 + 1) _) = choice
    cases choice with
    | none => exact find_standing begins
    | some chosen =>
      have fits := List.find?_some shorter
      have member := List.mem_of_mem_drop (List.mem_of_find?_eq_some shorter)
      rw [Bool.and_eq_true] at fits
      exact ⟨List.mem_zipIdx_iff_getElem?.mp member,
        BlockStyle.start_of_closesAtOnce fits.2⟩

theorem openerAt_offered (found : grammar.openerAt rest = some opener) :
    grammar.blockAt rest = some opener ∨ grammar.lineAt rest = some opener ∨
      grammar.stringAt rest = some opener := by
  unfold openerAt at found
  split at found
  next => cases found
  next first others offered =>
    obtain rfl := Option.some.inj found
    have member := Opener.foldl_longer_mem first others
    rw [← offered, List.mem_append, List.mem_append, Option.mem_toList, Option.mem_toList,
      Option.mem_toList, or_assoc] at member
    exact member

theorem openerAt_spec (found : grammar.openerAt rest = some opener) :
    grammar.Declares opener ∧ opener.marker.text <+: rest := by
  rcases openerAt_offered found with block | line | string
  · exact blockAt_spec block
  · exact lineAt_spec line
  · exact stringAt_spec string

/-- A block style that no line marker and no string delimiter exceeds is what opens. -/
theorem openerAt_of_blockAt (found : grammar.blockAt rest = some opener)
    (lines : ∀ other, grammar.lineAt rest = some other → other.marker.bytes ≤ opener.marker.bytes)
    (strings : ∀ other, grammar.stringAt rest = some other →
      other.marker.bytes ≤ opener.marker.bytes) : grammar.openerAt rest = some opener := by
  unfold openerAt
  rw [found, Option.toList_some, List.singleton_append, List.cons_append]
  refine congrArg some (Opener.foldl_longer_of_le ?_)
  intro other member
  rw [List.mem_append, Option.mem_toList, Option.mem_toList] at member
  rcases member with line | string
  · exact lines other line
  · exact strings other string

end Grammar

end SourceDocs
