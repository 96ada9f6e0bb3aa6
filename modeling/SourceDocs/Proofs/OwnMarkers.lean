import SourceDocs.Proofs.LongestMatch

/-!
What opens at a marker that stands alone. Every marker that stands there is a beginning of it, so none
is longer. A line marker and the opening of a literal therefore open their own construct; the start of
a block comment does so unless a later style begins and ends within it, and then the style can never
be chosen where nothing but its start is written.
-/

namespace SourceDocs.Grammar

variable {grammar : Grammar} {id : Text} {table : LanguageTable} {opener : Opener} {index : Nat}
  {style : BlockStyle}

/-- The construct opens at the beginning of a text, and the size found for its marker is that of the
whole text. -/
def OpensWhole (grammar : Grammar) (rest : Text) (opener : Opener) : Prop :=
  grammar.openerAt rest = some opener ∧
    grammar.openingAt? rest = some (some (.ofOpener opener, Text.bytes rest))

theorem opensWhole_iff (opener : Opener) :
    grammar.OpensWhole opener.marker.text opener ↔
      grammar.openerAt opener.marker.text = some opener := by
  refine ⟨And.left, fun opens => ⟨opens, ?_⟩⟩
  rw [openingAt?_eq, opens]
  rfl

theorem isLongest_own (declares : grammar.Declares opener) :
    Opener.IsLongest (grammar.Stands opener.marker.text) opener := by
  refine ⟨⟨declares, List.prefix_rfl⟩, ?_⟩
  intro other stands
  exact Marker.bytes_le_of_begins stands.2

theorem opensWhole_own (opener : Opener) (compiled : compile id table = .ok grammar)
    (declares : grammar.Declares opener) (unblocked : opener.purpose ≠ .blockComment) :
    grammar.OpensWhole opener.marker.text opener :=
  (opensWhole_iff opener).mpr (openerAt_of_longest compiled (isLongest_own declares) unblocked)

/-- At its own start a block style is chosen unless a shorter one closes at once there. -/
theorem opensWhole_start_iff (compiled : compile id table = .ok grammar)
    (declares : grammar.Declares (.block index style)) :
    grammar.OpensWhole style.start.text (.block index style) ↔
      ∀ other, ¬grammar.Undercuts style.start.text (.block index style) other := by
  have longest := isLongest_own declares
  have longestBlock : Opener.IsLongest (grammar.StandsFor style.start.text .blockComment)
      (.block index style) :=
    ⟨⟨longest.1, rfl⟩, fun other standing => longest.2 other standing.1⟩
  constructor
  · intro whole
    cases ((openerAt_eq_some_iff compiled).mp whole.1).1 with
    | line ofKind => cases ofKind.1.2
    | string ofKind => cases ofKind.1.2
    | block _ alone => exact alone
    | undercut first closing =>
      -- the longest style would have to be shorter than itself
      have same := isLongest_unique (openings_nodup_of_compile compiled) StandsFor.stands first
        longestBlock
      rw [same] at closing
      exact absurd closing.1.2.1 (Nat.lt_irrefl _)
  · intro alone
    apply (opensWhole_iff (.block index style)).mpr
    refine (openerAt_eq_some_iff compiled).mpr ⟨.block longestBlock alone, ?_⟩
    intro other offered
    exact longest.2 other (Offers.stands other offered)

/-- A style that begins within the start of another one is declared behind it. -/
theorem lt_of_start_begins {later : Nat} {other : BlockStyle} (ranked : grammar.Ranked)
    (declared : grammar.blockStyles[index]? = some style)
    (otherDeclared : grammar.blockStyles[later]? = some other)
    (begins : other.start.text <+: style.start.text) (different : other ≠ style) :
    index < later := by
  obtain ⟨bound, rfl⟩ := List.getElem?_eq_some_iff.mp declared
  obtain ⟨otherBound, rfl⟩ := List.getElem?_eq_some_iff.mp otherDeclared
  rcases Nat.lt_trichotomy index later with behind | equal | before
  · exact behind
  · subst equal
    exact absurd rfl different
  · exact absurd begins (List.pairwise_iff_getElem.mp ranked.blocks later index _ _ before)

/-- Being undercut at the own start, said of the declared styles. -/
theorem undercuts_start_iff (ranked : grammar.Ranked)
    (declared : grammar.blockStyles[index]? = some style) (later : Nat) (other : BlockStyle) :
    grammar.Undercuts style.start.text (.block index style) (.block later other) ↔
      index < later ∧ grammar.blockStyles[later]? = some other ∧
        other.start.text ++ other.stop.text <+: style.start.text := by
  constructor
  · rintro ⟨⟨otherDeclared, begins⟩, shorter, closes⟩
    refine ⟨lt_of_start_begins ranked declared otherDeclared begins ?_, otherDeclared, closes⟩
    rintro rfl
    exact absurd shorter (Nat.lt_irrefl _)
  · rintro ⟨_, otherDeclared, closes⟩
    have begins : other.start.text <+: style.start.text := (List.prefix_append _ _).trans closes
    have shorter : other.start.bytes < style.start.bytes := by
      obtain ⟨tail, whole⟩ := closes
      have ends := Text.bytes_pos other.stop.text_ne_nil
      rw [Marker.bytes, Marker.bytes, ← whole, Text.bytes_append, Text.bytes_append]
      omega
    exact ⟨⟨otherDeclared, begins⟩, shorter, closes⟩

/-- Every line marker and every opening of a literal opens its own construct where it stands alone.
The start of a block style does so if and only if no later style begins and ends within it. -/
theorem openerAt_own_marker (compiled : compile id table = .ok grammar) :
    (∀ index line, grammar.lineMarkers[index]? = some line →
      grammar.OpensWhole line.marker.text (.line index line)) ∧
    (∀ index delimiter, grammar.strings[index]? = some delimiter →
      grammar.OpensWhole delimiter.opening.text (.string index delimiter)) ∧
    ∀ index style, grammar.blockStyles[index]? = some style →
      (grammar.OpensWhole style.start.text (.block index style) ↔
        ∀ later other, index < later → grammar.blockStyles[later]? = some other →
          ¬other.start.text ++ other.stop.text <+: style.start.text) := by
  refine ⟨?_, ?_, ?_⟩
  · intro index line declared
    exact opensWhole_own (.line index line) compiled declared nofun
  · intro index delimiter declared
    exact opensWhole_own (.string index delimiter) compiled declared nofun
  · intro index style declared
    have undercuts := undercuts_start_iff (ranked_of_compile compiled) declared
    rw [opensWhole_start_iff compiled declared]
    constructor
    · intro alone later other behind otherDeclared closes
      exact alone _ ((undercuts later other).mpr ⟨behind, otherDeclared, closes⟩)
    · intro unclosed opener shorter
      cases opener with
      | line => exact shorter
      | string => exact shorter
      | block later other =>
        obtain ⟨behind, otherDeclared, closes⟩ := (undercuts later other).mp shorter
        exact unclosed later other behind otherDeclared closes

/-- Markers that begin with one another, and a start in which a whole later comment fits. -/
def entangledTable : LanguageTable where
  name := "Entangled".toList
  extensions := []
  highlight := none
  lineComments := ["(".toList]
  docLineComments := ["(**".toList]
  blockComments := [.doc "(**)!".toList "!)".toList, .plain "(*".toList "*)".toList]
  strings := [.delimitedBy "(**)".toList]

def entangled : Grammar where
  id := "entangled".toList
  name := "Entangled".toList
  highlight := "entangled".toList
  extensions := []
  lineMarkers := [⟨⟨'(', ['*', '*']⟩, true⟩, ⟨⟨'(', []⟩, false⟩]
  blockStyles := [⟨⟨'(', ['*', '*', ')', '!']⟩, ⟨'!', [')']⟩, true, none⟩,
    ⟨⟨'(', ['*']⟩, ⟨'*', [')']⟩, false, none⟩]
  strings := [⟨⟨'(', ['*', '*', ')']⟩, ⟨'(', ['*', '*', ')']⟩, none, true⟩]

/-- The shorter markers open their own constructs beside the longer ones. The documentation comment
does not open at its own start, because a plain comment would fit into it. -/
theorem openerAt_own_marker_entangled :
    compile "Entangled".toList entangledTable = .ok entangled ∧
      entangled.OpensWhole "(**".toList (.line 0 ⟨⟨'(', ['*', '*']⟩, true⟩) ∧
      entangled.OpensWhole "(**)".toList
        (.string 0 ⟨⟨'(', ['*', '*', ')']⟩, ⟨'(', ['*', '*', ')']⟩, none, true⟩) ∧
      entangled.OpensWhole "(*".toList (.block 1 ⟨⟨'(', ['*']⟩, ⟨'*', [')']⟩, false, none⟩) ∧
      ¬entangled.OpensWhole "(**)!".toList
        (.block 0 ⟨⟨'(', ['*', '*', ')', '!']⟩, ⟨'!', [')']⟩, true, none⟩) := by
  have compiled : compile "Entangled".toList entangledTable = .ok entangled := by decide +kernel
  obtain ⟨lines, strings, blocks⟩ := openerAt_own_marker compiled
  refine ⟨compiled, lines 0 _ rfl, strings 0 _ rfl, ?_, ?_⟩
  · apply (blocks 1 _ rfl).mpr
    intro later other behind declared
    have outside := (List.getElem?_eq_some_iff.mp declared).1
    exact absurd outside (Nat.not_lt.mpr behind)
  · intro opens
    exact (blocks 0 _ rfl).mp opens 1 _ (by decide) rfl (by decide)

end SourceDocs.Grammar
