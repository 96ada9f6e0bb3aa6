import SourceDocs.Proofs.Lexing
import SourceDocs.Proofs.Priority

/-!
Reading a text that is cut short. What does not begin at a place in the whole text does not begin
there in a part of it, and what opens at a place still opens there if its own text is left. Two things
look further: a shorter block style takes an opening from a longer one whose start may end behind it,
and a line comment or open literal ends where the text does or in front of a whole line break.
-/

namespace SourceDocs

namespace Text

variable {here : Text → Prop} {inner after rest cut : Text}

theorem atLineBreak_append (broken : atLineBreak rest = true) : atLineBreak (rest ++ cut) = true := by
  unfold atLineBreak at broken
  split at broken
  next => rfl
  next => rfl
  next => cases broken

theorem Clear.narrow (grows : ∀ rest, here rest → here (rest ++ cut))
    (clear : Clear here inner (after ++ cut)) : Clear here inner after := by
  intro front back split nonempty begins
  apply clear front back split nonempty
  rw [← List.append_assoc]
  exact grows _ begins

/-- A line break that reaches over the end of a text is cut between its two characters. -/
theorem eq_return_of_atLineBreak (broken : atLineBreak (rest ++ cut) = true) (nonempty : rest ≠ [])
    (unbroken : atLineBreak rest ≠ true) : rest = ['\r'] ∧ cut.head? = some '\n' := by
  match rest with
  | [] => exact absurd rfl nonempty
  | [c] =>
    rw [List.singleton_append] at broken
    unfold atLineBreak at broken
    split at broken
    next split =>
      obtain ⟨rfl, _⟩ := List.cons.inj split
      exact absurd rfl unbroken
    next tail split =>
      obtain ⟨rfl, rfl⟩ := List.cons.inj split
      exact ⟨rfl, rfl⟩
    next => cases broken
  | c :: d :: more =>
    unfold atLineBreak at broken unbroken
    split at broken
    next split =>
      obtain ⟨rfl, _⟩ := List.cons.inj split
      exact absurd rfl unbroken
    next split =>
      obtain ⟨rfl, tail⟩ := List.cons.inj split
      have second : d = '\n' := (List.cons.inj tail).1
      subst second
      exact absurd rfl unbroken
    next => cases broken

end Text

theorem Marker.isAt_append {marker : Marker} {rest cut : Text} (stands : marker.isAt rest = true) :
    marker.isAt (rest ++ cut) = true := by
  rw [isAt_iff] at stands ⊢
  exact stands.trans (List.prefix_append rest cut)

theorem BlockStyle.closesAtOnce_append {style : BlockStyle} {rest cut : Text}
    (closes : style.closesAtOnce rest = true) : style.closesAtOnce (rest ++ cut) = true := by
  rw [closesAtOnce_iff] at closes ⊢
  exact closes.trans (List.prefix_append rest cut)

namespace Opener

theorem bytes_le_of_longer {first second : Opener} (chosen : first.longer second = first) :
    second.marker.bytes ≤ first.marker.bytes := by
  unfold longer at chosen
  split at chosen
  next shorter =>
    rw [chosen] at shorter
    exact absurd shorter (Nat.lt_irrefl _)
  next => omega

theorem bytes_lt_of_longer {first second : Opener} (chosen : first.longer second = second)
    (different : first ≠ second) : first.marker.bytes < second.marker.bytes := by
  unfold longer at chosen
  split at chosen
  next shorter => exact shorter
  next => exact absurd chosen different

theorem longer_of_lt {first second : Opener} (order : first.marker.bytes < second.marker.bytes) :
    first.longer second = second := if_pos order

end Opener

namespace Grammar

/-- No style's shortest comment begins the start of another style, and no other marker shares its
beginning with the start of a style. -/
structure Separate (grammar : Grammar) : Prop where
  closings : ∀ first ∈ grammar.blockStyles, ∀ second ∈ grammar.blockStyles, first ≠ second →
    ¬first.start.text ++ first.stop.text <+: second.start.text
  starts : ∀ style ∈ grammar.blockStyles,
    ∀ marker ∈ grammar.lineMarkers.map LineMarker.marker ++
      grammar.strings.map StringDelimiter.opening,
    ¬marker.text <+: style.start.text ∧ ¬style.start.text <+: marker.text

variable {grammar : Grammar} {rest cut : Text} {opener : Opener}

theorem Separate.blockAt_eq_none (separate : grammar.Separate) {marker : Marker}
    (member : marker ∈ grammar.lineMarkers.map LineMarker.marker ++
      grammar.strings.map StringDelimiter.opening) (stands : marker.text <+: rest) :
    grammar.blockAt rest = none := by
  rw [blockAt_eq_none_iff]
  intro style declared begins
  obtain ⟨longer, shorter⟩ := separate.starts style declared marker member
  rcases List.prefix_or_prefix_of_prefix stands begins with within | within
  · exact longer within
  · exact shorter within

theorem Separate.only_block (separate : grammar.Separate) {style : BlockStyle}
    (declared : style ∈ grammar.blockStyles) (stands : style.start.text <+: rest) :
    grammar.lineAt rest = none ∧ grammar.stringAt rest = none := by
  have apart : ∀ marker ∈ grammar.lineMarkers.map LineMarker.marker ++
      grammar.strings.map StringDelimiter.opening, ¬marker.text <+: rest := by
    intro marker member begins
    have absent := separate.blockAt_eq_none member begins
    exact blockAt_eq_none_iff.mp absent style declared stands
  rw [List.forall_mem_append, List.forall_mem_map, List.forall_mem_map] at apart
  exact ⟨lineAt_eq_none_iff.mpr apart.1, stringAt_eq_none_iff.mpr apart.2⟩

section Narrow

variable {α : Type} {p q : α → Bool} {entries : List α} {found : α}

private theorem find?_narrow (narrower : ∀ entry, q entry = true → p entry = true)
    (first : entries.find? p = some found) (holds : q found = true) :
    entries.find? q = some found := by
  rw [List.find?_eq_some_iff_append] at first ⊢
  obtain ⟨_, before, behind, split, unmet⟩ := first
  refine ⟨holds, before, behind, split, ?_⟩
  intro entry member
  have fails := unmet entry member
  rw [Bool.not_eq_true', ← Bool.not_eq_true] at fails ⊢
  exact fun meets => fails (narrower entry meets)

end Narrow

theorem lineAt_narrow (found : grammar.lineAt (rest ++ cut) = some opener)
    (stands : opener.marker.text <+: rest) : grammar.lineAt rest = some opener := by
  obtain ⟨entry, first, rfl⟩ := Option.map_eq_some_iff.mp found
  exact Option.map_eq_some_iff.mpr ⟨entry, find?_narrow (fun _ => Marker.isAt_append) first
    (Marker.isAt_iff.mpr stands), rfl⟩

theorem stringAt_narrow (found : grammar.stringAt (rest ++ cut) = some opener)
    (stands : opener.marker.text <+: rest) : grammar.stringAt rest = some opener := by
  obtain ⟨entry, first, rfl⟩ := Option.map_eq_some_iff.mp found
  exact Option.map_eq_some_iff.mpr ⟨entry, find?_narrow (fun _ => Marker.isAt_append) first
    (Marker.isAt_iff.mpr stands), rfl⟩

theorem blockAt_eq_some (found : grammar.blockAt rest = some opener) :
    ∃ index style, opener = .block index style ∧ style ∈ grammar.blockStyles := by
  have declares := (blockAt_spec found).1
  rw [blockAt_eq_map] at found
  obtain ⟨first, _, rfl⟩ := Option.map_eq_some_iff.mp found
  exact ⟨_, _, rfl, List.mem_of_getElem? declares⟩

section Styles

variable {first chosen : BlockStyle × Nat}

theorem startAt_narrow (found : grammar.startAt (rest ++ cut) = some first)
    (stands : first.1.start.text <+: rest) : grammar.startAt rest = some first :=
  find?_narrow (fun _ => Marker.isAt_append) found (Marker.isAt_iff.mpr stands)

private theorem fits_append {entry : BlockStyle × Nat}
    (fits : (decide (entry.1.start.bytes < first.1.start.bytes) &&
      entry.1.closesAtOnce rest) = true) :
    (decide (entry.1.start.bytes < first.1.start.bytes) &&
      entry.1.closesAtOnce (rest ++ cut)) = true := by
  rw [Bool.and_eq_true] at fits ⊢
  exact ⟨fits.1, BlockStyle.closesAtOnce_append fits.2⟩

theorem closingAt_eq_none (absent : grammar.closingAt (rest ++ cut) first = none) :
    grammar.closingAt rest first = none := by
  unfold closingAt at absent ⊢
  rw [List.find?_eq_none] at absent ⊢
  exact fun entry member fits => absent entry member (fits_append fits)

theorem closingAt_narrow (found : grammar.closingAt (rest ++ cut) first = some chosen)
    (closes : chosen.1.closesAtOnce rest = true) :
    grammar.closingAt rest first = some chosen := by
  refine find?_narrow (fun _ => fits_append) found ?_
  rw [Bool.and_eq_true, decide_eq_true_eq]
  exact ⟨(closingAt_spec found).2.1, closes⟩

/-- The start that gives way to a comment that closes at once ends inside that comment. -/
theorem Separate.start_of_closingAt (separate : grammar.Separate)
    (begins : grammar.startAt (rest ++ cut) = some first)
    (found : grammar.closingAt (rest ++ cut) first = some chosen)
    (closes : chosen.1.closesAtOnce rest = true) : first.1.start.text <+: rest := by
  obtain ⟨firstDeclared, firstStands⟩ := startAt_spec begins
  obtain ⟨chosenDeclared, shorter, closed⟩ := closingAt_spec found
  have different : chosen.1 ≠ first.1 := by
    intro same
    rw [same] at shorter
    exact Nat.lt_irrefl _ shorter
  rw [BlockStyle.closesAtOnce_iff] at closes closed
  rcases List.prefix_or_prefix_of_prefix firstStands closed with within | within
  · exact within.trans closes
  · exact absurd within (separate.closings _ chosenDeclared _ firstDeclared different)

end Styles

theorem blockAt_narrow (separate : grammar.Separate) {index : Nat} {style : BlockStyle}
    (found : grammar.blockAt (rest ++ cut) = some (.block index style))
    (stands : style.start.text <+: rest)
    (closes : style.closesAtOnce (rest ++ cut) = true → style.closesAtOnce rest = true) :
    grammar.blockAt rest = some (.block index style) := by
  rw [blockAt_eq_map, Option.map_eq_some_iff] at found ⊢
  obtain ⟨first, begins, choice⟩ := found
  refine ⟨first, ?_⟩
  cases closing : grammar.closingAt (rest ++ cut) first with
  | none =>
    rw [closing] at choice
    obtain ⟨rfl, rfl⟩ := Opener.block.inj choice
    rw [closingAt_eq_none closing]
    exact ⟨startAt_narrow begins stands, rfl⟩
  | some chosen =>
    rw [closing] at choice
    obtain ⟨rfl, rfl⟩ := Opener.block.inj choice
    have closed := closes (closingAt_spec closing).2.2
    rw [closingAt_narrow closing closed]
    exact ⟨startAt_narrow begins (separate.start_of_closingAt begins closing closed), rfl⟩

/-- A construct whose marker is left still opens, if a block comment that closes at once is left
whole. -/
theorem openerAt_narrow (ranked : grammar.Ranked) (separate : grammar.Separate)
    (opens : grammar.openerAt (rest ++ cut) = some opener) (stands : opener.marker.text <+: rest)
    (closes : ∀ index style, opener = .block index style →
      style.closesAtOnce (rest ++ cut) = true → style.closesAtOnce rest = true) :
    grammar.openerAt rest = some opener := by
  have wholeStands := stands.trans (List.prefix_append rest cut)
  rw [openerAt_eq_merge]
  rcases openerAt_offered opens with block | line | string
  · obtain ⟨index, style, rfl, declared⟩ := blockAt_eq_some block
    obtain ⟨noLine, noString⟩ := separate.only_block declared stands
    rw [blockAt_narrow separate block stands (closes index style rfl), noLine, noString]
    rfl
  · obtain ⟨index, entry, rfl, first⟩ := lineAt_head? line
    have member : entry.marker ∈ grammar.lineMarkers.map LineMarker.marker ++
        grammar.strings.map StringDelimiter.opening :=
      List.mem_append_left _ (List.mem_map_of_mem (List.mem_of_getElem? (lineAt_spec line).1))
    rw [openerAt_eq_merge, separate.blockAt_eq_none member wholeStands, line] at opens
    rw [separate.blockAt_eq_none member stands, lineAt_narrow line stands]
    cases short : grammar.stringAt rest with
    | none => rfl
    | some other =>
      obtain ⟨declares, otherStands⟩ := stringAt_spec short
      obtain ⟨_, delimiter, rfl, _⟩ := stringAt_head? short
      have otherWhole := otherStands.trans (List.prefix_append rest cut)
      cases long : grammar.stringAt (rest ++ cut) with
      | none =>
        exact absurd otherWhole
          (stringAt_eq_none_iff.mp long delimiter (List.mem_of_getElem? declares))
      | some best =>
        rw [long] at opens
        have size := Opener.bytes_le_of_longer (Option.some.inj opens)
        obtain ⟨_, longest, rfl, head⟩ := stringAt_head? long
        have below := ranked.strings.bytes_le head (List.mem_of_getElem? declares) otherWhole
        exact congrArg some (Opener.longer_of_le (Nat.le_trans below size))
  · obtain ⟨index, entry, rfl, first⟩ := stringAt_head? string
    have member : entry.opening ∈ grammar.lineMarkers.map LineMarker.marker ++
        grammar.strings.map StringDelimiter.opening :=
      List.mem_append_right _ (List.mem_map_of_mem (List.mem_of_getElem? (stringAt_spec string).1))
    rw [openerAt_eq_merge, separate.blockAt_eq_none member wholeStands, string] at opens
    rw [separate.blockAt_eq_none member stands, stringAt_narrow string stands]
    cases short : grammar.lineAt rest with
    | none => rfl
    | some other =>
      obtain ⟨declares, otherStands⟩ := lineAt_spec short
      obtain ⟨_, marker, rfl, _⟩ := lineAt_head? short
      have otherWhole := otherStands.trans (List.prefix_append rest cut)
      cases long : grammar.lineAt (rest ++ cut) with
      | none =>
        exact absurd otherWhole
          (lineAt_eq_none_iff.mp long marker (List.mem_of_getElem? declares))
      | some best =>
        rw [long] at opens
        obtain ⟨_, longest, rfl, head⟩ := lineAt_head? long
        have size := Opener.bytes_lt_of_longer (Option.some.inj opens) (by simp)
        have below := ranked.lines.bytes_le head (List.mem_of_getElem? declares) otherWhole
        exact congrArg some (Opener.longer_of_lt (Nat.lt_of_le_of_lt below size))

theorem openerAt_append (opens : grammar.openerAt rest ≠ none) :
    grammar.openerAt (rest ++ cut) ≠ none := by
  intro quiet
  apply opens
  rw [openerAt_eq_none_iff] at quiet ⊢
  exact fun marker member stands =>
    quiet marker member (stands.trans (List.prefix_append rest cut))

end Grammar

theorem StringDelimiter.Unescaped.narrow {delimiter : StringDelimiter} {rest cut : Text}
    (unescaped : delimiter.Unescaped (rest ++ cut)) : delimiter.Unescaped rest :=
  fun escape declared stands =>
    unescaped escape declared (stands.trans (List.prefix_append rest cut))

namespace Literal

variable {delimiter : StringDelimiter} {body after cut : Text} {terminated : Bool}

theorem narrow (literal : Literal delimiter body (after ++ cut) terminated)
    (ends : terminated = false → after = [] ∨ Text.atLineBreak after = true) :
    Literal delimiter body after terminated := by
  generalize whole : after ++ cut = text at literal
  have shorter : ∀ needle rest : Text, ¬needle <+: rest ++ text → ¬needle <+: rest ++ after := by
    intro needle rest absent begins
    rw [← whole, ← List.append_assoc] at absent
    exact absent (begins.trans (List.prefix_append _ cut))
  have unescapedThere : ∀ rest : Text, delimiter.Unescaped (rest ++ text) →
      delimiter.Unescaped (rest ++ after) := by
    intro rest unescaped
    rw [← whole, ← List.append_assoc] at unescaped
    exact unescaped.narrow
  induction literal with
  | fileEnd =>
    rw [(List.append_eq_nil_iff.mp whole).1]
    exact .fileEnd
  | escaped declared _ ih => exact .escaped declared (ih ends whole shorter unescapedThere)
  | escapeAtEnd declared =>
    rw [(List.append_eq_nil_iff.mp whole).1]
    exact .escapeAtEnd declared
  | closed unescaped => exact .closed (unescapedThere _ unescaped)
  | lineEnd unescaped unclosed single broken =>
    rcases ends rfl with rfl | broken
    · exact .fileEnd
    · exact .lineEnd (unescapedThere [] unescaped) (shorter _ [] unclosed) single broken
  | @character c body _ _ unescaped unclosed unbroken _ ih =>
    refine .character (unescapedThere _ unescaped) (shorter _ _ unclosed) ?_
      (ih ends whole shorter unescapedThere)
    refine unbroken.imp id ?_
    intro ordinary
    rw [← Bool.not_eq_true] at ordinary ⊢
    rw [← whole, ← List.append_assoc] at ordinary
    exact fun broken => ordinary (Text.atLineBreak_append broken)

end Literal

def SpanKind.endsWithLine : SpanKind → Bool
  | line _ _ => true
  | string _ _ terminated => !terminated
  | _ => false

namespace Reads

variable {grammar : Grammar} {text after cut : Text} {kind : SpanKind}

theorem ends (reads : Reads grammar text after kind) (line : kind.endsWithLine = true) :
    after = [] ∨ Text.atLineBreak after = true := by
  match kind with
  | .line index marker =>
    obtain ⟨_, _, _, _, ends⟩ := reads
    exact ends
  | .string index delimiter false =>
    obtain ⟨_, body, _, literal⟩ := reads
    exact literal.leftOpen_ends.imp_right And.right

/-- A block comment that closes at once in the whole text is all there is of it. -/
private theorem closes {index : Nat} {style : BlockStyle}
    (reads : Reads grammar text (after ++ cut) (.block index style true))
    (closes : style.closesAtOnce (text ++ (after ++ cut)) = true) :
    style.closesAtOnce (text ++ after) = true := by
  obtain ⟨_, body, rfl, clear⟩ := reads
  rw [BlockStyle.closesAtOnce_iff, List.append_assoc, List.append_assoc,
    List.prefix_append_right_inj] at closes
  have empty : body = [] := by
    by_contra nonempty
    exact clear.not_here nonempty closes
  rw [BlockStyle.closesAtOnce_iff, empty, List.append_nil]
  exact List.prefix_append _ _

theorem narrow (ranked : grammar.Ranked) (separate : grammar.Separate)
    (reads : Reads grammar text (after ++ cut) kind)
    (ends : kind.endsWithLine = true → after = [] ∨ Text.atLineBreak after = true) :
    Reads grammar text after kind := by
  have opens : ∀ opener : Opener, opener.marker.text <+: text →
      (∀ index style, opener = .block index style →
        style.closesAtOnce (text ++ (after ++ cut)) = true →
        style.closesAtOnce (text ++ after) = true) →
      grammar.openerAt (text ++ (after ++ cut)) = some opener →
      grammar.openerAt (text ++ after) = some opener := by
    intro opener begins closes opens
    rw [← List.append_assoc] at opens closes
    exact Grammar.openerAt_narrow ranked separate opens
      (begins.trans (List.prefix_append text after)) closes
  match kind with
  | .code => exact reads.clear.narrow fun _ => Grammar.openerAt_append
  | .line index marker =>
    obtain ⟨here, body, rfl, clear, _⟩ := reads
    refine ⟨opens _ (List.prefix_append _ _) (by simp) here, body, rfl, ?_, ends rfl⟩
    exact clear.narrow fun _ => Text.atLineBreak_append
  | .block index style true =>
    have closing : ∀ index' style', Opener.block index style = .block index' style' →
        style'.closesAtOnce (text ++ (after ++ cut)) = true →
        style'.closesAtOnce (text ++ after) = true := by
      intro index' style' same
      obtain ⟨rfl, rfl⟩ := Opener.block.inj same
      exact reads.closes
    obtain ⟨here, body, rfl, clear⟩ := reads
    refine ⟨opens _ ?_ closing here, body, rfl, ?_⟩
    · rw [List.append_assoc]
      exact List.prefix_append _ _
    · rw [← List.append_assoc] at clear
      exact clear.narrow fun rest stands => stands.trans (List.prefix_append rest cut)
  | .block index style false =>
    obtain ⟨here, body, rfl, whole, clear⟩ := reads
    obtain ⟨rfl, rfl⟩ := List.append_eq_nil_iff.mp whole
    exact ⟨here, body, rfl, rfl, clear⟩
  | .string index delimiter terminated =>
    obtain ⟨here, body, rfl, literal⟩ := reads
    refine ⟨opens _ (List.prefix_append _ _) (by simp) here, body, rfl, literal.narrow ?_⟩
    intro unterminated
    exact ends (by rw [unterminated]; rfl)

end Reads

end SourceDocs
