import Mathlib.Data.Set.List
import SourceDocs.Proofs.Compilation

/-!
Which language tables compile, and to what. A table has to name its language and declare a comment,
its delimiters have to be there, and its opening markers have to be told apart; nothing else is asked
of it. The grammar lists the same entries: block styles as declared, the others longest first.
-/

namespace SourceDocs

structure StablyDescending {α : Type} (size : α → Nat) (declared sorted : List α) : Prop where
  perm : sorted.Perm declared
  descending : sorted.Pairwise fun first second => size second ≤ size first
  stable : ∀ n, sorted.filter (size · = n) = declared.filter (size · = n)

theorem stablyDescending_map {α β : Type} {size : α → Nat} {size' : β → Nat} {view : α → β}
    (same : ∀ a, size' (view a) = size a) (declared : List α) :
    StablyDescending size' (declared.map view) ((longestFirst size declared).map view) where
  perm := (longestFirst_perm size declared).map view
  descending := by
    rw [List.pairwise_map]
    simp only [same]
    exact longestFirst_pairwise size declared
  stable := by
    intro n
    have kept : (fun b => decide (size' b = n)) ∘ view = fun a => decide (size a = n) := by
      funext a
      exact congrArg (fun bytes => decide (bytes = n)) (same a)
    rw [List.filter_map, List.filter_map, kept, longestFirst_filter]

namespace LanguageTable

def openings (table : LanguageTable) : List Text :=
  table.lineComments ++ table.docLineComments ++ table.blockComments.map BlockEntry.start ++
    table.strings.map StringEntry.opening

structure WellFormed (id : Text) (table : LanguageTable) : Prop where
  identified : Text.isBlank id = false
  named : Text.isBlank table.name = false
  commented : table.lineComments ≠ [] ∨ table.docLineComments ≠ [] ∨ table.blockComments ≠ []
  opened : ∀ opening ∈ table.openings, opening ≠ []
  ended : ∀ entry ∈ table.blockComments, ∃ stop ∈ entry.stop, stop ≠ []
  closed : ∀ entry ∈ table.strings, entry.closing ≠ some []
  unshadowed : table.blockComments.Pairwise fun first second => ¬first.start <+: second.start
  distinct : table.openings.Nodup

end LanguageTable

/-- The grammar has the entries of the table, in the order in which scanning tries them. -/
structure Grammar.Lists (grammar : Grammar) (table : LanguageTable) : Prop where
  lines : StablyDescending (fun line => Text.bytes line.1) table.lines
    (grammar.lineMarkers.map LineMarker.entry)
  blocks : grammar.blockStyles.map BlockStyle.entry = table.blockComments.map BlockEntry.settled
  strings : StablyDescending (fun entry => Text.bytes entry.opening)
    (table.strings.map StringEntry.settled) (grammar.strings.map StringDelimiter.entry)

namespace Marker

theorem exists_text_iff {source : Text} : (∃ marker : Marker, marker.text = source) ↔ source ≠ [] := by
  constructor
  · rintro ⟨marker, rfl⟩
    exact marker.text_ne_nil
  · intro nonempty
    obtain ⟨c, rest, rfl⟩ := List.exists_cons_of_ne_nil nonempty
    exact ⟨⟨c, rest⟩, rfl⟩

end Marker

namespace Grammar

variable {id : Text} {table : LanguageTable} {grammar : Grammar}

theorem exists_block_iff {entry : BlockEntry} :
    (∃ style : BlockStyle, style.entry = entry.settled) ↔
      entry.start ≠ [] ∧ ∃ stop ∈ entry.stop, stop ≠ [] := by
  constructor
  · rintro ⟨style, same⟩
    have start : style.start.text = entry.start := congrArg BlockEntry.start same
    have stop : some style.stop.text = entry.stop := congrArg BlockEntry.stop same
    rw [← start, ← stop]
    exact ⟨style.start.text_ne_nil, _, rfl, style.stop.text_ne_nil⟩
  · rintro ⟨opened, stopText, declared, ended⟩
    obtain ⟨start, begins⟩ := Marker.exists_text_iff.mpr opened
    obtain ⟨stop, rfl⟩ := Marker.exists_text_iff.mpr ended
    refine ⟨⟨start, stop, entry.documentation, entry.continuation.bind Marker.ofText?⟩, ?_⟩
    rw [BlockStyle.entry, BlockEntry.settled, BlockEntry.mk.injEq, ← Marker.bind_ofText?_eq_iff]
    exact ⟨begins, declared.symm, rfl, rfl⟩

theorem exists_string_iff {entry : StringEntry} :
    (∃ delimiter : StringDelimiter, delimiter.entry = entry.settled) ↔
      entry.opening ≠ [] ∧ entry.closing ≠ some [] := by
  constructor
  · rintro ⟨delimiter, same⟩
    have opening : delimiter.opening.text = entry.opening := congrArg StringEntry.opening same
    have closing : some delimiter.closing.text = some (entry.closing.getD entry.opening) :=
      congrArg StringEntry.closing same
    refine ⟨opening ▸ delimiter.opening.text_ne_nil, ?_⟩
    intro empty
    rw [empty] at closing
    exact delimiter.closing.text_ne_nil (Option.some.inj closing)
  · rintro ⟨opened, closed⟩
    obtain ⟨opening, opens⟩ := Marker.exists_text_iff.mpr opened
    have filled : entry.closing.getD entry.opening ≠ [] := by
      cases closing : entry.closing with
      | none => exact opened
      | some text => exact fun empty => closed (by rw [closing, ← empty]; rfl)
    obtain ⟨closing, closes⟩ := Marker.exists_text_iff.mpr filled
    refine ⟨⟨opening, closing, entry.escape.bind Marker.ofText?, entry.multiline⟩, ?_⟩
    rw [StringDelimiter.entry, StringEntry.settled, StringEntry.mk.injEq,
      ← Marker.bind_ofText?_eq_iff, opens, closes]
    exact ⟨rfl, rfl, rfl, rfl⟩

theorem exists_map_eq_iff {α β γ : Type} {entries : List α} {before : α → γ} {after : β → γ} :
    (∃ results : List β, results.map after = entries.map before) ↔
      ∀ entry ∈ entries, ∃ result, after result = before entry := by
  have covered := Set.ext_iff.mp (Set.range_list_map after) (entries.map before)
  rw [← List.forall_mem_map (P := fun shown => ∃ result, after result = shown)]
  exact covered

private theorem uncommented_iff :
    (table.lineComments.isEmpty && table.docLineComments.isEmpty && table.blockComments.isEmpty) =
        true ↔
      ¬(table.lineComments ≠ [] ∨ table.docLineComments ≠ [] ∨ table.blockComments ≠ []) := by
  simp [and_assoc]

theorem exists_compileTable_iff :
    (∃ grammar, compileTable id table = .ok grammar) ↔
      Text.isBlank table.name = false ∧
      (table.lineComments ≠ [] ∨ table.docLineComments ≠ [] ∨ table.blockComments ≠ []) ∧
      (∃ lineMarkers, compileLines table = .ok lineMarkers) ∧
      (∃ blockStyles, compileBlocks [] table.blockComments = .ok blockStyles) ∧
      (∃ strings, table.strings.mapM compileString = .ok strings) ∧
      reused? (declaredOpeners table) = none := by
  constructor
  · rintro ⟨grammar, compiled⟩
    obtain ⟨lineMarkers, strings, lines, blocks, literals, unused, _⟩ := compileTable_eq_ok compiled
    rw [compileTable] at compiled
    dsimp only at compiled
    have named : ¬Text.isBlank table.name = true := by
      intro unnamed
      rw [if_pos unnamed] at compiled
      cases compiled
    refine ⟨Bool.eq_false_iff.mpr named, ?_, ⟨_, lines⟩, ⟨_, blocks⟩, ⟨_, literals⟩, unused⟩
    apply Decidable.byContradiction
    intro bare
    rw [if_neg named, if_pos (uncommented_iff.mpr bare)] at compiled
    cases compiled
  · rintro ⟨named, commented, ⟨lineMarkers, lines⟩, ⟨blockStyles, blocks⟩, ⟨strings, literals⟩,
      unused⟩
    have marked := (not_congr uncommented_iff).mpr (not_not_intro commented)
    rw [compileTable, if_neg (Bool.eq_false_iff.mp named), lines, blocks, literals, unused]
    dsimp only
    rw [if_neg marked]
    exact ⟨_, rfl⟩

theorem exists_compile_iff :
    (∃ grammar, compile id table = .ok grammar) ↔
      Text.isBlank id = false ∧ ∃ grammar, compileTable id table = .ok grammar := by
  cases blank : Text.isBlank id with
  | true => simp [compile, blank]
  | false => cases compiled : compileTable id table <;> simp [compile, blank, compiled]

theorem exists_compileLines_iff :
    (∃ lineMarkers, compileLines table = .ok lineMarkers) ↔
      ∀ text ∈ table.lineComments ++ table.docLineComments, text ≠ [] := by
  have shown : ∀ line : Text × Bool,
      (∃ result : LineMarker, result.entry = line) ↔ line.1 ≠ [] := by
    rintro ⟨text, documentation⟩
    rw [← Marker.exists_text_iff]
    constructor
    · rintro ⟨result, same⟩
      exact ⟨result.marker, congrArg Prod.fst same⟩
    · rintro ⟨marker, rfl⟩
      exact ⟨⟨marker, documentation⟩, rfl⟩
  simp only [compileLines_eq_ok_iff]
  rw [← List.map_id table.lines, exists_map_eq_iff]
  simp only [id_eq, shown, LanguageTable.lines, List.forall_mem_append, List.forall_mem_map]

theorem exists_compileBlocks_iff {entries : List BlockEntry} :
    (∃ blockStyles, compileBlocks [] entries = .ok blockStyles) ↔
      (∀ entry ∈ entries, entry.start ≠ [] ∧ ∃ stop ∈ entry.stop, stop ≠ []) ∧
      entries.Pairwise fun first second => ¬first.start <+: second.start := by
  simp only [compileBlocks_eq_ok_iff, ← exists_block_iff, ← exists_map_eq_iff, List.nil_append]
  simp

theorem exists_compileStrings_iff {entries : List StringEntry} :
    (∃ strings, entries.mapM compileString = .ok strings) ↔
      ∀ entry ∈ entries, entry.opening ≠ [] ∧ entry.closing ≠ some [] := by
  simp only [mapM_eq_ok_iff fun _ _ => compileString_eq_ok_iff, exists_map_eq_iff,
    exists_string_iff]

theorem lists_of_compile (compiled : compile id table = .ok grammar) : grammar.Lists table := by
  obtain ⟨lineMarkers, strings, lines, blocks, literals, _, linesEq, stringsEq, _⟩ :=
    compileTable_eq_ok (compileTable_of_compile compiled)
  constructor
  · rw [linesEq, ← compileLines_eq_ok_iff.mp lines]
    exact stablyDescending_map (fun _ => rfl) lineMarkers
  · obtain ⟨further, styles, same, _⟩ := compileBlocks_eq_ok_iff.mp blocks
    rw [styles, List.nil_append, same]
  · rw [stringsEq, ← (mapM_eq_ok_iff fun _ _ => compileString_eq_ok_iff).mp literals]
    exact stablyDescending_map (fun _ => rfl) strings

/-- A table compiles exactly if it is well-formed, and the grammar lists its entries. -/
theorem compile_accepts_wellFormed (id : Text) (table : LanguageTable) :
    ((∃ grammar, compile id table = .ok grammar) ↔ table.WellFormed id) ∧
      ∀ grammar, compile id table = .ok grammar → grammar.Lists table := by
  refine ⟨?_, fun grammar => lists_of_compile⟩
  have opened : (∀ opening ∈ table.openings, opening ≠ []) ↔
      (∀ text ∈ table.lineComments ++ table.docLineComments, text ≠ []) ∧
        (∀ entry ∈ table.blockComments, entry.start ≠ []) ∧
        ∀ entry ∈ table.strings, entry.opening ≠ [] := by
    simp only [LanguageTable.openings, List.forall_mem_append, List.forall_mem_map, and_assoc]
  rw [exists_compile_iff, exists_compileTable_iff, exists_compileLines_iff,
    exists_compileBlocks_iff, exists_compileStrings_iff, reused?_eq_none_iff,
    map_fst_declaredOpeners]
  constructor
  · rintro ⟨identified, named, commented, lines, ⟨blocks, unshadowed⟩, strings, distinct⟩
    exact ⟨identified, named, commented,
      opened.mpr ⟨lines, fun entry member => (blocks entry member).1,
        fun entry member => (strings entry member).1⟩,
      fun entry member => (blocks entry member).2, fun entry member => (strings entry member).2,
      unshadowed, distinct⟩
  · intro wellFormed
    obtain ⟨lines, starts, openings⟩ := opened.mp wellFormed.opened
    exact ⟨wellFormed.identified, wellFormed.named, wellFormed.commented, lines,
      ⟨fun entry member => ⟨starts entry member, wellFormed.ended entry member⟩,
        wellFormed.unshadowed⟩,
      fun entry member => ⟨openings entry member, wellFormed.closed entry member⟩,
      wellFormed.distinct⟩

end Grammar

/-- Markers of one size, and entries that leave something to be settled. -/
def LanguageTable.sundry : LanguageTable where
  name := "Sundry".toList
  extensions := []
  highlight := none
  lineComments := ["#".toList, "//".toList]
  docLineComments := ["%%".toList, "///".toList]
  blockComments := [(BlockEntry.doc "/**".toList "*/".toList).withContinuation "*".toList,
    (BlockEntry.plain "/*".toList "*/".toList).withContinuation []]
  strings := [(StringEntry.delimitedBy "'".toList).withEscape [],
    ((StringEntry.delimitedBy "[[".toList).withClosing "]]".toList).withEscape "\\".toList,
    (StringEntry.delimitedBy "|".toList).singleLine]

def Grammar.sundry : Grammar where
  id := "sundry".toList
  name := "Sundry".toList
  highlight := "sundry".toList
  extensions := []
  lineMarkers := [⟨⟨'/', ['/', '/']⟩, true⟩, ⟨⟨'/', ['/']⟩, false⟩, ⟨⟨'%', ['%']⟩, true⟩,
    ⟨⟨'#', []⟩, false⟩]
  blockStyles := [⟨⟨'/', ['*', '*']⟩, ⟨'*', ['/']⟩, true, some ⟨'*', []⟩⟩,
    ⟨⟨'/', ['*']⟩, ⟨'*', ['/']⟩, false, none⟩]
  strings := [⟨⟨'[', ['[']⟩, ⟨']', [']']⟩, some ⟨'\\', []⟩, true⟩,
    ⟨⟨'\'', []⟩, ⟨'\'', []⟩, none, true⟩, ⟨⟨'|', []⟩, ⟨'|', []⟩, none, false⟩]

theorem Grammar.compile_accepts_wellFormed_sundry :
    LanguageTable.sundry.WellFormed "Sundry".toList ∧
      Grammar.compile "Sundry".toList .sundry = .ok .sundry ∧
      Grammar.sundry.Lists .sundry := by
  have wellFormed : LanguageTable.sundry.WellFormed "Sundry".toList := by
    constructor <;> decide +kernel
  have compiled : Grammar.compile "Sundry".toList .sundry = .ok .sundry := by decide +kernel
  exact ⟨wellFormed, compiled, (compile_accepts_wellFormed _ _).2 _ compiled⟩

end SourceDocs
