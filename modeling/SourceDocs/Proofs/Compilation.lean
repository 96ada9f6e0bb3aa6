import Mathlib.Data.Option.Basic
import SourceDocs.Grammar.Compile
import SourceDocs.Proofs.StableSort

/-!
What compiling a language table guarantees about the grammar. An entry compiles exactly to what
shows the same entry again, with its defaults filled in.
-/

namespace SourceDocs

def LineMarker.entry (line : LineMarker) : Text × Bool := (line.marker.text, line.documentation)

def BlockStyle.entry (style : BlockStyle) : BlockEntry :=
  ⟨style.start.text, some style.stop.text, style.documentation, style.continuation.map Marker.text⟩

def StringDelimiter.entry (delimiter : StringDelimiter) : StringEntry :=
  ⟨delimiter.opening.text, some delimiter.closing.text, delimiter.escape.map Marker.text,
    delimiter.multiline⟩

def BlockEntry.settled (entry : BlockEntry) : BlockEntry :=
  { entry with continuation := entry.continuation.filter (· ≠ []) }

/-- A missing close stands for the opening one, an empty escape for none. -/
def StringEntry.settled (entry : StringEntry) : StringEntry :=
  { entry with
    closing := some (entry.closing.getD entry.opening)
    escape := entry.escape.filter (· ≠ []) }

def LanguageTable.lines (table : LanguageTable) : List (Text × Bool) :=
  table.lineComments.map (·, false) ++ table.docLineComments.map (·, true)

def BlockStyle.Unshadowed (styles : List BlockStyle) : Prop :=
  styles.Pairwise fun first second => ¬first.start.text <+: second.start.text

/-- A marker that may be missing is read from its text, where an empty text counts as missing. -/
theorem Marker.bind_ofText?_eq_iff {declared : Option Text} {marker : Option Marker} :
    declared.bind Marker.ofText? = marker ↔ marker.map Marker.text = declared.filter (· ≠ []) := by
  have read : (declared.bind Marker.ofText?).map Marker.text = declared.filter (· ≠ []) := by
    cases declared with
    | none => rfl
    | some source => cases source <;> rfl
  rw [← read, eq_comm]
  exact (Option.map_injective fun _ _ => Marker.text_injective).eq_iff.symm

namespace Grammar

private theorem bind_eq_ok {ε α β : Type} {first : Except ε α} {next : α → Except ε β} {result : β}
    (succeeds : first >>= next = .ok result) :
    ∃ value, first = .ok value ∧ next value = .ok result := by
  cases first with
  | error fault => cases succeeds
  | ok value => exact ⟨value, rfl, succeeds⟩

section Entries

variable {ε α β γ : Type} {f : α → Except ε β} {entries : List α} {results : List β}

private theorem mapM_cons_eq_ok {a : α} (compiled : (a :: entries).mapM f = .ok results) :
    ∃ first others, f a = .ok first ∧ entries.mapM f = .ok others ∧ results = first :: others := by
  rw [List.mapM_cons] at compiled
  obtain ⟨first, here, compiled⟩ := bind_eq_ok compiled
  obtain ⟨others, below, compiled⟩ := bind_eq_ok compiled
  exact ⟨first, others, here, below, (Except.ok.inj compiled).symm⟩

theorem filterMap_of_mapM (compiled : entries.mapM f = .ok results) :
    entries.filterMap (fun entry => (f entry).toOption) = results := by
  induction entries generalizing results with
  | nil => exact Except.ok.inj compiled
  | cons a entries ih =>
    obtain ⟨first, others, here, below, rfl⟩ := mapM_cons_eq_ok compiled
    rw [List.filterMap_cons_some (by rw [here]; rfl), ih below]

theorem map_eq_of_mapM {before : α → γ} {after : β → γ}
    (kept : ∀ entry result, f entry = .ok result → before entry = after result)
    (compiled : entries.mapM f = .ok results) : entries.map before = results.map after := by
  induction entries generalizing results with
  | nil =>
    obtain rfl := Except.ok.inj compiled
    rfl
  | cons a entries ih =>
    obtain ⟨first, others, here, below, rfl⟩ := mapM_cons_eq_ok compiled
    rw [List.map_cons, List.map_cons, kept a first here, ih below]

/-- Entries that compile one by one compile to the results that show the same. -/
theorem mapM_eq_ok_iff {before : α → γ} {after : β → γ}
    (compiles : ∀ entry result, f entry = .ok result ↔ after result = before entry) :
    entries.mapM f = .ok results ↔ results.map after = entries.map before := by
  constructor
  · intro compiled
    exact (map_eq_of_mapM (fun entry result here => ((compiles entry result).mp here).symm)
      compiled).symm
  · intro same
    induction entries generalizing results with
    | nil =>
      rw [List.map_nil, List.map_eq_nil_iff] at same
      rw [same]
      rfl
    | cons entry entries ih =>
      obtain ⟨first, others, rfl, here, below⟩ := List.map_eq_cons_iff.mp same
      rw [List.mapM_cons, (compiles entry first).mpr here, ih below]
      rfl

private theorem map_fst_tagged (texts : List α) (tag : β) :
    (texts.map (·, tag)).map Prod.fst = texts := by
  rw [List.map_map]
  exact List.map_id texts

end Entries

variable {id : Text} {table : LanguageTable} {grammar : Grammar}

theorem compileTable_eq_ok (compiled : compileTable id table = .ok grammar) :
    ∃ lineMarkers strings, compileLines table = .ok lineMarkers ∧
      compileBlocks [] table.blockComments = .ok grammar.blockStyles ∧
      table.strings.mapM compileString = .ok strings ∧
      reused? (declaredOpeners table) = none ∧
      grammar.lineMarkers = longestFirst (·.marker.bytes) lineMarkers ∧
      grammar.strings = longestFirst (·.opening.bytes) strings ∧
      grammar.id = Text.lowercase id ∧
      grammar.highlight = table.highlight.getD (Text.lowercase id) := by
  unfold compileTable at compiled
  dsimp only at compiled
  by_cases unnamed : Text.isBlank table.name = true
  · rw [if_pos unnamed] at compiled
    cases compiled
  rw [if_neg unnamed] at compiled
  split at compiled
  next => cases compiled
  next =>
    obtain ⟨lineMarkers, lines, compiled⟩ := bind_eq_ok compiled
    obtain ⟨blockStyles, blocks, compiled⟩ := bind_eq_ok compiled
    obtain ⟨strings, literals, compiled⟩ := bind_eq_ok compiled
    split at compiled
    next => cases compiled
    next unused =>
      obtain rfl := Except.ok.inj compiled
      exact ⟨lineMarkers, strings, lines, blocks, literals, unused, rfl, rfl, rfl, rfl⟩

theorem compileTable_of_compile (compiled : compile id table = .ok grammar) :
    compileTable id table = .ok grammar := by
  unfold compile at compiled
  split at compiled
  next => cases compiled
  next =>
    split at compiled
    next => cases compiled
    next result compiledTable =>
      obtain rfl := Except.ok.inj compiled
      exact compiledTable

theorem compileBlock_eq_ok_iff {earlier : List BlockStyle} {entry : BlockEntry}
    {style : BlockStyle} :
    compileBlock earlier entry = .ok style ↔
      style.entry = entry.settled ∧ ∀ other ∈ earlier, ¬other.start.text <+: entry.start := by
  rw [BlockStyle.entry, BlockEntry.settled, BlockEntry.mk.injEq, ← Marker.bind_ofText?_eq_iff]
  unfold compileBlock
  constructor
  · intro compiled
    split at compiled
    next => cases compiled
    next start begins =>
      split at compiled
      next => cases compiled
      next stop ends =>
        split at compiled
        next => cases compiled
        next unshadowed =>
          obtain rfl := Except.ok.inj compiled
          obtain ⟨text, declared, found⟩ := Option.bind_eq_some_iff.mp ends
          rw [Marker.ofText?_eq_some_iff] at begins found
          refine ⟨⟨begins.symm, by rw [declared, found], rfl, rfl⟩, ?_⟩
          intro other member
          rw [← Marker.isAt_iff]
          exact List.find?_eq_none.mp unshadowed other member
  · rintro ⟨⟨begins, ends, documented, continued⟩, unshadowed⟩
    have start : Marker.ofText? entry.start = some style.start :=
      Marker.ofText?_eq_some_iff.mpr begins.symm
    have stop : entry.stop.bind Marker.ofText? = some style.stop := by
      rw [← ends, Option.bind_some, Marker.ofText?_eq_some_iff]
    have alone : earlier.find? (·.start.isAt entry.start) = none := by
      rw [List.find?_eq_none]
      intro other member
      rw [Marker.isAt_iff]
      exact unshadowed other member
    simp only [start, stop, alone, continued, ← documented]

theorem compileString_eq_ok_iff {entry : StringEntry} {delimiter : StringDelimiter} :
    compileString entry = .ok delimiter ↔ delimiter.entry = entry.settled := by
  rw [StringDelimiter.entry, StringEntry.settled, StringEntry.mk.injEq,
    ← Marker.bind_ofText?_eq_iff, Option.some.injEq]
  unfold compileString
  constructor
  · intro compiled
    split at compiled
    next => cases compiled
    next opening opens =>
      split at compiled
      next => cases compiled
      next c rest closes =>
        obtain rfl := Except.ok.inj compiled
        exact ⟨(Marker.ofText?_eq_some_iff.mp opens).symm, closes.symm, rfl, rfl⟩
  · rintro ⟨opens, closes, escapes, spans⟩
    have opening : Marker.ofText? entry.opening = some delimiter.opening :=
      Marker.ofText?_eq_some_iff.mpr opens.symm
    simp only [opening, ← closes, escapes, ← spans, Marker.text]

theorem compileLines_eq_ok_iff {lineMarkers : List LineMarker} :
    compileLines table = .ok lineMarkers ↔ lineMarkers.map LineMarker.entry = table.lines := by
  rw [← List.map_id table.lines]
  refine mapM_eq_ok_iff ?_
  rintro ⟨text, documentation⟩ line
  rw [LineMarker.entry, id_eq, Prod.mk.injEq]
  dsimp only
  split
  next absent =>
    refine iff_of_false (by simp) fun same => ?_
    rw [← same.1, Marker.ofText?_eq_some_iff.mpr rfl] at absent
    cases absent
  next marker found =>
    obtain rfl := Marker.ofText?_eq_some_iff.mp found
    constructor
    · intro compiled
      obtain rfl := Except.ok.inj compiled
      exact ⟨rfl, rfl⟩
    · rintro ⟨same, rfl⟩
      rw [← Marker.text_injective same]

/-- The styles of a list of entries follow those compiled before, none shadowed by an earlier one. -/
theorem compileBlocks_eq_ok_iff {earlier styles : List BlockStyle} {entries : List BlockEntry} :
    compileBlocks earlier entries = .ok styles ↔
      ∃ further, styles = earlier ++ further ∧
        further.map BlockStyle.entry = entries.map BlockEntry.settled ∧
        (∀ entry ∈ entries, ∀ other ∈ earlier, ¬other.start.text <+: entry.start) ∧
        entries.Pairwise fun first second => ¬first.start <+: second.start := by
  induction entries generalizing earlier with
  | nil =>
    rw [compileBlocks, Except.ok.injEq]
    constructor
    · rintro rfl
      exact ⟨[], (List.append_nil _).symm, rfl, by simp, .nil⟩
    · rintro ⟨further, rfl, empty, _⟩
      rw [List.map_eq_nil_iff.mp empty, List.append_nil]
  | cons entry entries ih =>
    rw [compileBlocks, List.forall_mem_cons, List.pairwise_cons]
    constructor
    · intro compiled
      split at compiled
      next => cases compiled
      next style here =>
        obtain ⟨same, unshadowed⟩ := compileBlock_eq_ok_iff.mp here
        obtain ⟨further, rfl, below, apart, later⟩ := ih.mp compiled
        have start : style.start.text = entry.start := congrArg BlockEntry.start same
        refine ⟨style :: further, by simp, by rw [List.map_cons, same, below, List.map_cons],
          ⟨unshadowed, ?_⟩, ?_, later⟩
        · exact fun next member other inside =>
            apart next member other (List.mem_append_left _ inside)
        · intro next member
          rw [← start]
          exact apart next member style (List.mem_append_right _ (List.mem_singleton_self _))
    · rintro ⟨further, rfl, same, ⟨unshadowed, apart⟩, shadows, later⟩
      obtain ⟨style, further, rfl, here, below⟩ := List.map_eq_cons_iff.mp same
      have start : style.start.text = entry.start := congrArg BlockEntry.start here
      rw [compileBlock_eq_ok_iff.mpr ⟨here, unshadowed⟩]
      refine ih.mpr ⟨further, by simp, below, ?_, later⟩
      intro next member other inside
      rcases List.mem_append.mp inside with declared | last
      · exact apart next member other declared
      · rw [List.mem_singleton.mp last, start]
        exact shadows next member

theorem unshadowed_of_compile (compiled : compile id table = .ok grammar) :
    BlockStyle.Unshadowed grammar.blockStyles := by
  obtain ⟨_, _, _, blocks, _⟩ := compileTable_eq_ok (compileTable_of_compile compiled)
  obtain ⟨further, styles, same, _, unshadowed⟩ := compileBlocks_eq_ok_iff.mp blocks
  have starts : further.map (·.start.text) = table.blockComments.map BlockEntry.start := by
    have shown := congrArg (List.map BlockEntry.start) same
    rwa [List.map_map, List.map_map] at shown
  have listed : (table.blockComments.map BlockEntry.start).Pairwise (¬· <+: ·) :=
    List.pairwise_map.mpr unshadowed
  rw [← starts] at listed
  rw [styles, List.nil_append]
  exact List.pairwise_map.mp listed

theorem compileLines_texts {lineMarkers : List LineMarker}
    (compiled : compileLines table = .ok lineMarkers) :
    table.lineComments ++ table.docLineComments =
      lineMarkers.map fun entry => entry.marker.text := by
  have texts := congrArg (List.map Prod.fst) (compileLines_eq_ok_iff.mp compiled)
  rw [List.map_map, LanguageTable.lines, List.map_append, map_fst_tagged, map_fst_tagged] at texts
  exact texts.symm

theorem compileString_opening {entry : StringEntry} {delimiter : StringDelimiter}
    (compiled : compileString entry = .ok delimiter) : entry.opening = delimiter.opening.text :=
  (congrArg StringEntry.opening (compileString_eq_ok_iff.mp compiled)).symm

theorem map_fst_declaredOpeners (table : LanguageTable) :
    (declaredOpeners table).map Prod.fst = table.lineComments ++ table.docLineComments ++
      table.blockComments.map (·.start) ++ table.strings.map (·.opening) := by
  simp only [declaredOpeners, List.map_append, map_fst_tagged]
  rw [List.map_map, List.map_map]
  rfl

theorem reused?_eq_none_iff {openers : List (Text × Purpose)} :
    reused? openers = none ↔ (openers.map Prod.fst).Nodup := by
  induction openers with
  | nil => exact iff_of_true rfl .nil
  | cons opener openers ih =>
    obtain ⟨marker, purpose⟩ := opener
    rw [reused?, List.map_cons, List.nodup_cons, ← ih]
    split
    next other found =>
      refine iff_of_false (by simp) fun distinct => distinct.1 ?_
      have same := List.find?_some found
      exact List.mem_map.mpr ⟨_, List.mem_of_find?_eq_some found, of_decide_eq_true same⟩
    next absent =>
      refine (and_iff_right ?_).symm
      intro again
      obtain ⟨other, member, same⟩ := List.mem_map.mp again
      exact List.find?_eq_none.mp absent other member (decide_eq_true same)

end Grammar

end SourceDocs
