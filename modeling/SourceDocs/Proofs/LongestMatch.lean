import Mathlib.Data.List.Nodup
import SourceDocs.Proofs.OpeningPositions
import SourceDocs.Proofs.WellFormedTables

/-!
Which construct opens at a place, said without an order of trying. Every kind of construct offers the
longest one that stands there; the longest block style gives way to the longest shorter one that would
also close at once. The longest offer opens. Markers that stand at one place and are equally long are
the same marker, and no two constructs of a compiled grammar share one, so there is never a tie.
-/

namespace SourceDocs

namespace Opener

def purpose : Opener → Purpose
  | .line _ _ => .lineComment
  | .block _ _ => .blockComment
  | .string _ _ => .stringLiteral

def IsLongest (among : Opener → Prop) (opener : Opener) : Prop :=
  among opener ∧ ∀ other, among other → other.marker.bytes ≤ opener.marker.bytes

def longest? : List Opener → Option Opener
  | [] => none
  | first :: others => some (others.foldl longer first)

theorem bytes_le_longer (first second : Opener) :
    first.marker.bytes ≤ (first.longer second).marker.bytes ∧
      second.marker.bytes ≤ (first.longer second).marker.bytes := by
  unfold longer
  split
  · omega
  · omega

theorem bytes_le_foldl_longer {first other : Opener} {others : List Opener}
    (member : other ∈ first :: others) :
    other.marker.bytes ≤ (others.foldl longer first).marker.bytes := by
  induction others generalizing first other with
  | nil =>
    rw [List.mem_singleton.mp member]
    exact Nat.le_refl _
  | cons next others ih =>
    have reach : (first.longer next).marker.bytes ≤
        (others.foldl longer (first.longer next)).marker.bytes := ih List.mem_cons_self
    have sizes := first.bytes_le_longer next
    rw [List.foldl_cons]
    rcases List.mem_cons.mp member with rfl | later
    · omega
    · rcases List.mem_cons.mp later with rfl | later
      · omega
      · exact ih (List.mem_cons_of_mem _ later)

theorem isLongest_longest? {openers : List Opener} {opener : Opener}
    (found : longest? openers = some opener) : IsLongest (· ∈ openers) opener := by
  cases openers with
  | nil => cases found
  | cons first others =>
    obtain rfl := Option.some.inj found
    exact ⟨foldl_longer_mem first others, fun _ => bytes_le_foldl_longer⟩

end Opener

namespace Grammar

variable {grammar : Grammar} {id : Text} {table : LanguageTable} {rest : Text}
  {opener first other : Opener}

def Stands (grammar : Grammar) (rest : Text) (opener : Opener) : Prop :=
  grammar.Declares opener ∧ opener.marker.text <+: rest

def StandsFor (grammar : Grammar) (rest : Text) (purpose : Purpose) (opener : Opener) : Prop :=
  grammar.Stands rest opener ∧ opener.purpose = purpose

/-- A block style that stands here, shorter than `first`, whose end follows its start at once. -/
def Undercuts (grammar : Grammar) (rest : Text) (first : Opener) : Opener → Prop
  | .block index style =>
    grammar.Stands rest (.block index style) ∧ style.start.bytes < first.marker.bytes ∧
      style.start.text ++ style.stop.text <+: rest
  | _ => False

inductive Offers (grammar : Grammar) (rest : Text) : Opener → Prop
  | line {opener : Opener}
      (longest : Opener.IsLongest (grammar.StandsFor rest .lineComment) opener) :
      Offers grammar rest opener
  | string {opener : Opener}
      (longest : Opener.IsLongest (grammar.StandsFor rest .stringLiteral) opener) :
      Offers grammar rest opener
  | block {opener : Opener}
      (longest : Opener.IsLongest (grammar.StandsFor rest .blockComment) opener)
      (alone : ∀ other, ¬grammar.Undercuts rest opener other) : Offers grammar rest opener
  | undercut {first opener : Opener}
      (longest : Opener.IsLongest (grammar.StandsFor rest .blockComment) first)
      (closing : Opener.IsLongest (grammar.Undercuts rest first) opener) :
      Offers grammar rest opener

/-- The construct that opens at a place is the longest of those that are offered for it, whatever
order they are tried in; it is found by its position, with the size of its marker. -/
structure ChoosesLongest (grammar : Grammar) (rest : Text) : Prop where
  silent : grammar.openerAt rest = none ↔ ∀ opener, ¬grammar.Stands rest opener
  chosen : ∀ opener, grammar.openerAt rest = some opener ↔
    Opener.IsLongest (grammar.Offers rest) opener
  unsized : grammar.openingAt? rest = some none ↔ ∀ opener, ¬grammar.Stands rest opener
  sized : ∀ inside size, grammar.openingAt? rest = some (some (inside, size)) ↔
    ∃ opener, Opener.IsLongest (grammar.Offers rest) opener ∧
      inside = .ofOpener opener ∧ size = opener.marker.bytes
  apart : ∀ first second, grammar.Stands rest first → grammar.Stands rest second →
    first.marker.bytes = second.marker.bytes → first = second
  anyOrder : ∀ tried, (∀ opener, opener ∈ tried ↔ grammar.Offers rest opener) →
    Opener.longest? tried = grammar.openerAt rest

section Distinct

def constructs (grammar : Grammar) : List Opener :=
  grammar.lineMarkers.zipIdx.map (fun entry => .line entry.2 entry.1) ++
    grammar.blockStyles.zipIdx.map (fun entry => .block entry.2 entry.1) ++
    grammar.strings.zipIdx.map fun entry => .string entry.2 entry.1

theorem mem_constructs_iff : opener ∈ grammar.constructs ↔ grammar.Declares opener := by
  rw [constructs, List.mem_append, List.mem_append, List.mem_map, List.mem_map, List.mem_map]
  simp only [List.mem_zipIdx_iff_getElem?, Prod.exists]
  cases opener <;> simp [Declares]

theorem map_marker_constructs (grammar : Grammar) :
    grammar.constructs.map Opener.marker = grammar.openings := by
  have unplaced : ∀ {α : Type} (entries : List α) (marker : α → Marker),
      entries.zipIdx.map (fun entry => marker entry.1) = entries.map marker := by
    intro α entries marker
    have moved := congrArg (List.map marker) (List.zipIdx_map_fst 0 entries)
    rwa [List.map_map] at moved
  rw [constructs, openings, List.map_append, List.map_append, List.map_map, List.map_map,
    List.map_map]
  exact congrArg₂ _ (congrArg₂ _ (unplaced _ LineMarker.marker) (unplaced _ BlockStyle.start))
    (unplaced _ StringDelimiter.opening)

/-- Every opening marker of a table is one of its grammar. -/
theorem Lists.openings_perm (lists : grammar.Lists table) :
    (grammar.openings.map Marker.text).Perm table.openings := by
  have lines := lists.lines.perm.map Prod.fst
  have blocks := congrArg (List.map BlockEntry.start) lists.blocks
  have strings := lists.strings.perm.map StringEntry.opening
  have texts : table.lines.map Prod.fst = table.lineComments ++ table.docLineComments := by
    simp [LanguageTable.lines, Function.comp_def]
  rw [List.map_map, texts] at lines
  rw [List.map_map, List.map_map] at blocks
  rw [List.map_map, List.map_map] at strings
  rw [openings, LanguageTable.openings, List.map_append, List.map_append, List.map_map,
    List.map_map, List.map_map]
  exact (lines.append (.of_eq blocks)).append strings

theorem openings_nodup_of_compile (compiled : compile id table = .ok grammar) :
    grammar.openings.Nodup := by
  obtain ⟨_, _, _, _, _, unused, _⟩ := compileTable_eq_ok (compileTable_of_compile compiled)
  have distinct := reused?_eq_none_iff.mp unused
  rw [map_fst_declaredOpeners] at distinct
  exact ((lists_of_compile compiled).openings_perm.nodup_iff.mpr distinct).of_map

/-- Constructs that stand at one place are told apart by the length of their markers. -/
theorem Stands.eq_of_bytes (distinct : grammar.openings.Nodup) (stands : grammar.Stands rest first)
    (stands' : grammar.Stands rest other) (size : first.marker.bytes = other.marker.bytes) :
    first = other := by
  have same : first.marker = other.marker := by
    apply Marker.text_injective
    rcases List.prefix_or_prefix_of_prefix stands.2 stands'.2 with begins | begins
    · exact Marker.text_eq_of_begins begins (Nat.le_of_eq size.symm)
    · exact (Marker.text_eq_of_begins begins (Nat.le_of_eq size)).symm
  rw [← map_marker_constructs] at distinct
  exact List.inj_on_of_nodup_map distinct (mem_constructs_iff.mpr stands.1)
    (mem_constructs_iff.mpr stands'.1) same

end Distinct

theorem isLongest_unique {among : Opener → Prop} (distinct : grammar.openings.Nodup)
    (stands : ∀ opener, among opener → grammar.Stands rest opener)
    (longest : Opener.IsLongest among first) (longest' : Opener.IsLongest among other) :
    first = other := by
  refine (stands first longest.1).eq_of_bytes distinct (stands other longest'.1) ?_
  exact Nat.le_antisymm (longest'.2 first longest.1) (longest.2 other longest'.1)

theorem StandsFor.stands {purpose : Purpose} (opener : Opener)
    (stands : grammar.StandsFor rest purpose opener) : grammar.Stands rest opener := stands.1

theorem Undercuts.stands (opener : Opener) (undercuts : grammar.Undercuts rest first opener) :
    grammar.Stands rest opener := by
  cases opener with
  | block index style => exact undercuts.1
  | line index marker => exact undercuts.elim
  | string index delimiter => exact undercuts.elim

theorem Offers.stands (opener : Opener) (offers : grammar.Offers rest opener) :
    grammar.Stands rest opener := by
  cases offers with
  | line longest => exact longest.1.1
  | string longest => exact longest.1.1
  | block longest alone => exact longest.1.1
  | undercut longest closing => exact Undercuts.stands opener closing.1

section Offered

def firstFor (grammar : Grammar) (rest : Text) : Purpose → Option Opener
  | .lineComment => grammar.lineAt rest
  | .blockComment => (grammar.startAt rest).map blockOpener
  | .stringLiteral => grammar.stringAt rest

theorem firstFor_ne_none {purpose : Purpose} (standing : grammar.StandsFor rest purpose opener) :
    grammar.firstFor rest purpose ≠ none := by
  obtain ⟨⟨declares, stands⟩, rfl⟩ := standing
  intro absent
  cases opener with
  | line index marker =>
    exact lineAt_eq_none_iff.mp absent marker (List.mem_of_getElem? declares) stands
  | block index style =>
    have quiet : grammar.blockAt rest = none := by
      rw [blockAt_eq_map, Option.map_eq_none_iff.mp absent]
      rfl
    exact blockAt_eq_none_iff.mp quiet style (List.mem_of_getElem? declares) stands
  | string index delimiter =>
    exact stringAt_eq_none_iff.mp absent delimiter (List.mem_of_getElem? declares) stands

theorem isLongest_firstFor {purpose : Purpose} (ranked : grammar.Ranked)
    (found : grammar.firstFor rest purpose = some opener) :
    Opener.IsLongest (grammar.StandsFor rest purpose) opener := by
  cases purpose with
  | lineComment =>
    obtain ⟨index, entry, rfl, first⟩ := lineAt_head? found
    refine ⟨⟨lineAt_spec found, rfl⟩, ?_⟩
    rintro other ⟨stands, kind⟩
    cases other <;> cases kind
    exact ranked.lines.bytes_le first (List.mem_of_getElem? stands.1) stands.2
  | blockComment =>
    obtain ⟨start, begins, rfl⟩ := Option.map_eq_some_iff.mp found
    have first : (Marker.standing BlockStyle.start rest grammar.blockStyles).head? =
        some start.1 := by
      rw [← Marker.map_fst_find?]
      exact congrArg (Option.map Prod.fst) begins
    have declares : grammar.Declares (blockOpener start) :=
      List.mem_zipIdx_iff_getElem?.mp (List.mem_of_find?_eq_some begins)
    refine ⟨⟨⟨declares, (startAt_spec begins).2⟩, rfl⟩, ?_⟩
    rintro other ⟨stands, kind⟩
    cases other <;> cases kind
    exact ranked.blocks.bytes_le first (List.mem_of_getElem? stands.1) stands.2
  | stringLiteral =>
    obtain ⟨index, entry, rfl, first⟩ := stringAt_head? found
    refine ⟨⟨stringAt_spec found, rfl⟩, ?_⟩
    rintro other ⟨stands, kind⟩
    cases other <;> cases kind
    exact ranked.strings.bytes_le first (List.mem_of_getElem? stands.1) stands.2

theorem firstFor_eq_some_iff {purpose : Purpose} (ranked : grammar.Ranked)
    (distinct : grammar.openings.Nodup) :
    grammar.firstFor rest purpose = some opener ↔
      Opener.IsLongest (grammar.StandsFor rest purpose) opener := by
  constructor
  · exact isLongest_firstFor ranked
  · intro longest
    obtain ⟨found, first⟩ := Option.ne_none_iff_exists'.mp (firstFor_ne_none longest.1)
    rw [first, isLongest_unique distinct StandsFor.stands (isLongest_firstFor ranked first) longest]

variable {start chosen : BlockStyle × Nat}

/-- A style that undercuts the first standing one is listed behind it. -/
theorem mem_drop_of_undercuts {index : Nat} {style : BlockStyle}
    (found : grammar.startAt rest = some start)
    (undercuts : grammar.Undercuts rest (blockOpener start) (.block index style)) :
    (style, index) ∈ grammar.blockStyles.zipIdx.drop (start.2 + 1) := by
  obtain ⟨⟨declares, stands⟩, shorter, _⟩ := undercuts
  have declared : grammar.blockStyles[index]? = some style := declares
  obtain ⟨bound, same⟩ := List.getElem?_eq_some_iff.mp declared
  obtain ⟨_, place, _, entry, absent⟩ := List.find?_eq_some_iff_getElem.mp found
  rw [List.getElem_zipIdx, Nat.zero_add] at entry
  have behind : place < index := by
    rcases Nat.lt_trichotomy index place with before | equal | behind
    · have unmet := absent index before
      have here : style.start.isAt rest = true := Marker.isAt_iff.mpr stands
      simp [same, here] at unmet
    · subst equal
      rw [← entry, blockOpener, same] at shorter
      exact absurd shorter (Nat.lt_irrefl _)
    · exact behind
  have position : place + 1 + (index - (place + 1)) = index := by omega
  rw [← entry]
  refine List.mem_of_getElem? (i := index - (place + 1)) ?_
  rw [List.getElem?_drop, position, List.getElem?_zipIdx, declared, Nat.zero_add]
  rfl

theorem undercuts_iff {index : Nat} {style : BlockStyle}
    (found : grammar.startAt rest = some start) :
    grammar.Undercuts rest (blockOpener start) (.block index style) ↔
      (style, index) ∈ grammar.blockStyles.zipIdx.drop (start.2 + 1) ∧
        (decide (style.start.bytes < start.1.start.bytes) && style.closesAtOnce rest) = true := by
  rw [Bool.and_eq_true, decide_eq_true_eq, BlockStyle.closesAtOnce_iff]
  constructor
  · intro undercuts
    exact ⟨mem_drop_of_undercuts found undercuts, undercuts.2⟩
  · rintro ⟨later, shorter, closes⟩
    have declares := List.mem_zipIdx_iff_getElem?.mp (List.mem_of_mem_drop later)
    exact ⟨⟨declares, (List.prefix_append _ _).trans closes⟩, shorter, closes⟩

theorem not_undercuts (found : grammar.startAt rest = some start)
    (alone : grammar.closingAt rest start = none) (other : Opener) :
    ¬grammar.Undercuts rest (blockOpener start) other := by
  intro undercuts
  cases other with
  | line index marker => exact undercuts
  | string index delimiter => exact undercuts
  | block index style =>
    obtain ⟨later, fits⟩ := (undercuts_iff found).mp undercuts
    exact List.find?_eq_none.mp alone _ later fits

theorem isLongest_closingAt (ranked : grammar.Ranked) (found : grammar.startAt rest = some start)
    (closing : grammar.closingAt rest start = some chosen) :
    Opener.IsLongest (grammar.Undercuts rest (blockOpener start)) (blockOpener chosen) := by
  obtain ⟨fits, before, behind, split, unmet⟩ := List.find?_eq_some_iff_append.mp closing
  have listed : grammar.Undercuts rest (blockOpener start) (blockOpener chosen) := by
    refine (undercuts_iff found).mpr ⟨?_, fits⟩
    rw [split]
    exact List.mem_append_right _ List.mem_cons_self
  refine ⟨listed, ?_⟩
  intro other undercuts
  cases other with
  | line index marker => exact undercuts.elim
  | string index delimiter => exact undercuts.elim
  | block index style =>
    obtain ⟨later, fits'⟩ := (undercuts_iff found).mp undercuts
    rw [split, List.mem_append] at later
    rcases later with earlier | later
    · have wrong := unmet _ earlier
      rw [fits'] at wrong
      cases wrong
    rcases List.mem_cons.mp later with rfl | later
    · exact Nat.le_refl _
    -- a later style does not begin with the chosen one, and both stand here
    have ordered : Marker.Ranked (fun entry : BlockStyle × Nat => entry.1.start)
        (grammar.blockStyles.zipIdx.drop (start.2 + 1)) := by
      refine List.Pairwise.sublist (List.drop_sublist _ _) ?_
      rw [← List.pairwise_map (f := Prod.fst)
        (R := fun first second : BlockStyle => ¬first.start.text <+: second.start.text),
        List.zipIdx_map_fst]
      exact ranked.blocks
    rw [split] at ordered
    have unshadowed := List.rel_of_pairwise_cons (List.pairwise_append.mp ordered).2.1 later
    rcases List.prefix_or_prefix_of_prefix listed.1.2 undercuts.1.2 with begins | begins
    · exact absurd begins unshadowed
    · exact Marker.bytes_le_of_begins begins

end Offered

theorem blockAt_of_startAt {start : BlockStyle × Nat} (found : grammar.startAt rest = some start) :
    grammar.blockAt rest = some (blockOpener ((grammar.closingAt rest start).getD start)) := by
  rw [blockAt_eq_map, found]
  rfl

/-- The offers are the results of the three look-ups. -/
theorem offers_iff (ranked : grammar.Ranked) (distinct : grammar.openings.Nodup) :
    grammar.Offers rest opener ↔ grammar.blockAt rest = some opener ∨
      grammar.lineAt rest = some opener ∨ grammar.stringAt rest = some opener := by
  constructor
  · intro offers
    cases offers with
    | line longest => exact .inr (.inl ((firstFor_eq_some_iff ranked distinct).mpr longest))
    | string longest => exact .inr (.inr ((firstFor_eq_some_iff ranked distinct).mpr longest))
    | block longest alone =>
      have first := (firstFor_eq_some_iff ranked distinct).mpr longest
      obtain ⟨start, found, rfl⟩ := Option.map_eq_some_iff.mp first
      rw [blockAt_of_startAt found]
      cases closing : grammar.closingAt rest start with
      | none => exact .inl rfl
      | some chosen => exact absurd (isLongest_closingAt ranked found closing).1 (alone _)
    | undercut longest shorter =>
      have first := (firstFor_eq_some_iff ranked distinct).mpr longest
      obtain ⟨start, found, rfl⟩ := Option.map_eq_some_iff.mp first
      rw [blockAt_of_startAt found]
      cases closing : grammar.closingAt rest start with
      | none => exact absurd shorter.1 (not_undercuts found closing _)
      | some chosen =>
        have same := isLongest_unique distinct Undercuts.stands
          (isLongest_closingAt ranked found closing) shorter
        exact .inl (congrArg some same)
  · rintro (block | line | string)
    · rw [blockAt_eq_map] at block
      obtain ⟨start, found, rfl⟩ := Option.map_eq_some_iff.mp block
      have longest : Opener.IsLongest (grammar.StandsFor rest .blockComment) (blockOpener start) :=
        isLongest_firstFor ranked (congrArg (Option.map blockOpener) found)
      cases closing : grammar.closingAt rest start with
      | none => exact .block longest (not_undercuts found closing)
      | some chosen => exact .undercut longest (isLongest_closingAt ranked found closing)
    · exact .line (isLongest_firstFor ranked line)
    · exact .string (isLongest_firstFor ranked string)

theorem openerAt_eq_longest? (grammar : Grammar) (rest : Text) :
    grammar.openerAt rest = Opener.longest? ((grammar.blockAt rest).toList ++
      (grammar.lineAt rest).toList ++ (grammar.stringAt rest).toList) := by
  unfold openerAt
  split
  next none => rw [none]; rfl
  next first others offered => rw [offered]; rfl

theorem longest?_eq_some_iff {tried : List Opener} (distinct : grammar.openings.Nodup)
    (listed : ∀ opener, opener ∈ tried ↔ grammar.Offers rest opener) :
    Opener.longest? tried = some opener ↔ Opener.IsLongest (grammar.Offers rest) opener := by
  have same : (· ∈ tried) = grammar.Offers rest := funext fun opener => propext (listed opener)
  constructor
  · intro found
    rw [← same]
    exact Opener.isLongest_longest? found
  · intro longest
    have member := (listed opener).mpr longest.1
    cases found : Opener.longest? tried with
    | none =>
      cases tried with
      | nil => cases member
      | cons first others => cases found
    | some chosen =>
      have longest' := Opener.isLongest_longest? found
      rw [same] at longest'
      rw [isLongest_unique distinct Offers.stands longest' longest]

theorem openerAt_eq_some_iff (compiled : compile id table = .ok grammar) :
    grammar.openerAt rest = some opener ↔ Opener.IsLongest (grammar.Offers rest) opener := by
  have distinct := openings_nodup_of_compile compiled
  rw [openerAt_eq_longest?]
  refine longest?_eq_some_iff distinct fun opener => ?_
  rw [offers_iff (ranked_of_compile compiled) distinct, List.mem_append, List.mem_append,
    Option.mem_toList, Option.mem_toList, Option.mem_toList, or_assoc]

/-- A line marker or a string delimiter opens where no longer marker stands. -/
theorem openerAt_of_longest (compiled : compile id table = .ok grammar)
    (longest : Opener.IsLongest (grammar.Stands rest) opener)
    (unblocked : opener.purpose ≠ .blockComment) : grammar.openerAt rest = some opener := by
  have longestOfKind : Opener.IsLongest (grammar.StandsFor rest opener.purpose) opener :=
    ⟨⟨longest.1, rfl⟩, fun other standing => longest.2 other standing.1⟩
  have offers : grammar.Offers rest opener := by
    cases opener with
    | line index marker => exact .line longestOfKind
    | block index style => exact absurd rfl unblocked
    | string index delimiter => exact .string longestOfKind
  exact (openerAt_eq_some_iff compiled).mpr
    ⟨offers, fun other offered => longest.2 other (Offers.stands other offered)⟩

theorem openerAt_eq_none_iff_stands :
    grammar.openerAt rest = none ↔ ∀ opener, ¬grammar.Stands rest opener := by
  rw [openerAt_eq_none_iff, ← map_marker_constructs, List.forall_mem_map]
  simp only [mem_constructs_iff, Stands, not_and]

theorem openerAt_chooses_longest (compiled : compile id table = .ok grammar) (rest : Text) :
    grammar.ChoosesLongest rest := by
  have distinct := openings_nodup_of_compile compiled
  refine ⟨openerAt_eq_none_iff_stands, fun opener => openerAt_eq_some_iff compiled, ?_, ?_,
    fun first second stands stands' => stands.eq_of_bytes distinct stands', ?_⟩
  · rw [openingAt?_eq, Option.some.injEq, Option.map_eq_none_iff, openerAt_eq_none_iff_stands]
  · intro inside size
    rw [openingAt?_eq, Option.some.injEq, Option.map_eq_some_iff]
    simp only [openerAt_eq_some_iff compiled, sizedOpener, Prod.mk.injEq, eq_comm]
  · intro tried listed
    refine Option.ext fun opener => ?_
    rw [longest?_eq_some_iff distinct listed, openerAt_eq_some_iff compiled]

/-- A plain comment that closes at once is chosen over the longer start of a documentation comment. -/
theorem openerAt_chooses_longest_closed :
    compile "Sundry".toList .sundry = .ok .sundry ∧
      sundry.openerAt "/**/ //".toList =
        some (.block 1 ⟨⟨'/', ['*']⟩, ⟨'*', ['/']⟩, false, none⟩) ∧
      sundry.openingAt? "/**/ //".toList = some (some (.block 1, 2)) ∧
      Opener.IsLongest (sundry.Offers "/**/ //".toList)
        (.block 1 ⟨⟨'/', ['*']⟩, ⟨'*', ['/']⟩, false, none⟩) := by
  have compiled : compile "Sundry".toList .sundry = .ok .sundry := by decide +kernel
  have found : sundry.openerAt "/**/ //".toList =
      some (.block 1 ⟨⟨'/', ['*']⟩, ⟨'*', ['/']⟩, false, none⟩) := by decide +kernel
  have chooses := openerAt_chooses_longest compiled "/**/ //".toList
  have longest := (chooses.chosen _).mp found
  exact ⟨compiled, found, (chooses.sized _ _).mpr ⟨_, longest, rfl, rfl⟩, longest⟩

end Grammar

end SourceDocs
