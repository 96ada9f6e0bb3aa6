import Mathlib.Data.List.Find
import SourceDocs.Proofs.Offsets
import SourceDocs.Proofs.SolidMarkers

/-!
The order of the entries in a compiled grammar. No marker begins with the marker of an earlier entry
of its kind. Markers that stand at one place are prefixes of one another, so of the entries that
stand there the first is the longest, and the table's order decides nothing between them.
-/

namespace SourceDocs

variable {α : Type} {marker : α → Marker} {entries : List α} {rest : Text}

namespace Marker

theorem bytes_le_of_begins {first second : Marker} (begins : first.text <+: second.text) :
    first.bytes ≤ second.bytes := by
  obtain ⟨tail, whole⟩ := begins
  rw [bytes, bytes, ← whole, Text.bytes_append]
  omega

theorem text_eq_of_begins {first second : Marker} (begins : first.text <+: second.text)
    (size : second.bytes ≤ first.bytes) : first.text = second.text := by
  obtain ⟨tail, whole⟩ := begins
  rw [bytes, bytes, ← whole, Text.bytes_append] at size
  have empty : tail = [] := Text.eq_nil_of_bytes (by omega)
  rw [← whole, empty, List.append_nil]

def Ranked (marker : α → Marker) (entries : List α) : Prop :=
  entries.Pairwise fun first second => ¬(marker first).text <+: (marker second).text

def standing (marker : α → Marker) (rest : Text) (entries : List α) : List α :=
  entries.filter fun entry => (marker entry).isAt rest

theorem mem_standing {entry : α} :
    entry ∈ standing marker rest entries ↔ entry ∈ entries ∧ (marker entry).text <+: rest := by
  rw [standing, List.mem_filter, isAt_iff]

theorem ranked_longestFirst (distinct : (entries.map fun entry => (marker entry).text).Nodup) :
    Ranked marker (longestFirst (fun entry => (marker entry).bytes) entries) := by
  have sorted := longestFirst_pairwise (fun entry => (marker entry).bytes) entries
  have order := longestFirst_perm (fun entry => (marker entry).bytes) entries
  have apart := List.pairwise_map.mp ((order.map _).nodup_iff.mpr distinct)
  refine (sorted.and apart).imp ?_
  rintro first second ⟨size, different⟩ begins
  exact different (text_eq_of_begins begins size)

namespace Ranked

theorem standing_eq {others : List α} (ranked : Ranked marker entries)
    (ranked' : Ranked marker others) (same : entries.Perm others) :
    standing marker rest entries = standing marker rest others := by
  refine List.Perm.eq_of_pairwise ?_ (ranked.filter _) (ranked'.filter _) (same.filter _)
  intro first second firstMember secondMember unshadowed unshadowed'
  have firstStands := (mem_standing.mp firstMember).2
  have secondStands := (mem_standing.mp secondMember).2
  rcases List.prefix_or_prefix_of_prefix firstStands secondStands with begins | begins
  · exact absurd begins unshadowed
  · exact absurd begins unshadowed'

theorem bytes_le (ranked : Ranked marker entries) {first other : α}
    (found : (standing marker rest entries).head? = some first) (member : other ∈ entries)
    (stands : (marker other).text <+: rest) : (marker other).bytes ≤ (marker first).bytes := by
  obtain ⟨others, split⟩ := List.head?_eq_some_iff.mp found
  have ordered := List.Pairwise.filter (fun entry => (marker entry).isAt rest) ranked
  have inside := mem_standing.mpr ⟨member, stands⟩
  have firstStands := (mem_standing.mp (List.mem_of_mem_head? found)).2
  rw [standing] at split inside
  rw [split] at ordered inside
  rcases List.mem_cons.mp inside with rfl | later
  · exact Nat.le_refl _
  · rcases List.prefix_or_prefix_of_prefix firstStands stands with begins | begins
    · exact absurd begins (List.rel_of_pairwise_cons ordered later)
    · exact bytes_le_of_begins begins

end Ranked

/-- The first standing entry, found by its position, is the first of those that stand. -/
theorem map_fst_find? (marker : α → Marker) (rest : Text) (entries : List α) :
    (entries.zipIdx.find? fun entry => (marker entry.1).isAt rest).map Prod.fst =
      (standing marker rest entries).head? := by
  have moved := List.find?_map (p := fun entry => (marker entry).isAt rest) (f := Prod.fst)
    (l := entries.zipIdx)
  rw [List.zipIdx_map_fst] at moved
  rw [standing, List.head?_filter, moved]
  rfl

end Marker

namespace Grammar

variable {grammar : Grammar} {id : Text} {table : LanguageTable} {opener : Opener}

structure Ranked (grammar : Grammar) : Prop where
  lines : Marker.Ranked LineMarker.marker grammar.lineMarkers
  blocks : Marker.Ranked BlockStyle.start grammar.blockStyles
  strings : Marker.Ranked StringDelimiter.opening grammar.strings

theorem ranked_of_compile (compiled : compile id table = .ok grammar) : grammar.Ranked := by
  obtain ⟨lineMarkers, strings, lines, _, literals, unused, linesEq, stringsEq, _⟩ :=
    compileTable_eq_ok (compileTable_of_compile compiled)
  have openings := map_eq_of_mapM (fun _ _ => compileString_opening) literals
  have distinct := reused?_eq_none_iff.mp unused
  rw [map_fst_declaredOpeners, List.nodup_append, List.nodup_append] at distinct
  obtain ⟨⟨linesDistinct, _⟩, stringsDistinct, _⟩ := distinct
  constructor
  · rw [linesEq]
    apply Marker.ranked_longestFirst
    rw [← compileLines_texts lines]
    exact linesDistinct
  · exact unshadowed_of_compile compiled
  · rw [stringsEq]
    apply Marker.ranked_longestFirst
    rw [← openings]
    exact stringsDistinct

theorem openerAt_eq_merge (grammar : Grammar) (rest : Text) :
    grammar.openerAt rest = ((grammar.blockAt rest).merge Opener.longer
      (grammar.lineAt rest)).merge Opener.longer (grammar.stringAt rest) := by
  unfold openerAt
  cases grammar.blockAt rest <;> cases grammar.lineAt rest <;> cases grammar.stringAt rest <;> rfl

def startAt (grammar : Grammar) (rest : Text) : Option (BlockStyle × Nat) :=
  grammar.blockStyles.zipIdx.find? fun entry => entry.1.start.isAt rest

def closingAt (grammar : Grammar) (rest : Text) (first : BlockStyle × Nat) :
    Option (BlockStyle × Nat) :=
  (grammar.blockStyles.zipIdx.drop (first.2 + 1)).find? fun entry =>
    entry.1.start.bytes < first.1.start.bytes && entry.1.closesAtOnce rest

def blockOpener (entry : BlockStyle × Nat) : Opener := .block entry.2 entry.1

theorem blockAt_eq_map (grammar : Grammar) (rest : Text) :
    grammar.blockAt rest = (grammar.startAt rest).map fun first =>
      blockOpener ((grammar.closingAt rest first).getD first) := by
  unfold blockAt startAt
  dsimp only
  split
  next absent => rw [absent]; rfl
  next first found => rw [found]; rfl

theorem startAt_spec {first : BlockStyle × Nat} (found : grammar.startAt rest = some first) :
    first.1 ∈ grammar.blockStyles ∧ first.1.start.text <+: rest := by
  have member := List.mem_zipIdx_iff_getElem?.mp (List.mem_of_find?_eq_some found)
  have stands := List.find?_some found
  exact ⟨List.mem_of_getElem? member, Marker.isAt_iff.mp stands⟩

theorem closingAt_spec {first chosen : BlockStyle × Nat}
    (found : grammar.closingAt rest first = some chosen) :
    chosen.1 ∈ grammar.blockStyles ∧ chosen.1.start.bytes < first.1.start.bytes ∧
      chosen.1.closesAtOnce rest = true := by
  have later := List.mem_of_mem_drop (List.mem_of_find?_eq_some found)
  have fits := List.find?_some found
  rw [Bool.and_eq_true, decide_eq_true_eq] at fits
  exact ⟨List.mem_of_getElem? (List.mem_zipIdx_iff_getElem?.mp later), fits⟩

theorem lineAt_head? (found : grammar.lineAt rest = some opener) :
    ∃ index entry, opener = .line index entry ∧
      (Marker.standing LineMarker.marker rest grammar.lineMarkers).head? = some entry := by
  obtain ⟨entry, first, rfl⟩ := Option.map_eq_some_iff.mp found
  refine ⟨entry.2, entry.1, rfl, ?_⟩
  rw [← Marker.map_fst_find?, first]
  rfl

theorem stringAt_head? (found : grammar.stringAt rest = some opener) :
    ∃ index entry, opener = .string index entry ∧
      (Marker.standing StringDelimiter.opening rest grammar.strings).head? = some entry := by
  obtain ⟨entry, first, rfl⟩ := Option.map_eq_some_iff.mp found
  refine ⟨entry.2, entry.1, rfl, ?_⟩
  rw [← Marker.map_fst_find?, first]
  rfl

private theorem find_eq_none :
    (entries.zipIdx.find? fun entry => (marker entry.1).isAt rest) = none ↔
      ∀ entry ∈ entries, ¬(marker entry).text <+: rest := by
  rw [← Option.map_eq_none_iff (f := Prod.fst), Marker.map_fst_find?, List.head?_eq_none_iff,
    Marker.standing, List.filter_eq_nil_iff]
  simp only [Marker.isAt_iff]

theorem lineAt_eq_none_iff : grammar.lineAt rest = none ↔
    ∀ entry ∈ grammar.lineMarkers, ¬entry.marker.text <+: rest := by
  rw [lineAt, Option.map_eq_none_iff]
  exact find_eq_none

theorem stringAt_eq_none_iff : grammar.stringAt rest = none ↔
    ∀ entry ∈ grammar.strings, ¬entry.opening.text <+: rest := by
  rw [stringAt, Option.map_eq_none_iff]
  exact find_eq_none

theorem blockAt_eq_none_iff : grammar.blockAt rest = none ↔
    ∀ entry ∈ grammar.blockStyles, ¬entry.start.text <+: rest := by
  rw [blockAt_eq_map, Option.map_eq_none_iff]
  exact find_eq_none

theorem openerAt_eq_none_iff :
    grammar.openerAt rest = none ↔ ∀ marker ∈ grammar.openings, ¬marker.text <+: rest := by
  have offers : grammar.openerAt rest = none ↔ grammar.blockAt rest = none ∧
      grammar.lineAt rest = none ∧ grammar.stringAt rest = none := by
    rw [openerAt_eq_merge]
    cases grammar.blockAt rest <;> cases grammar.lineAt rest <;> cases grammar.stringAt rest <;>
      simp [Option.merge]
  rw [offers, blockAt_eq_none_iff, lineAt_eq_none_iff, stringAt_eq_none_iff, openings,
    List.forall_mem_append, List.forall_mem_append, List.forall_mem_map, List.forall_mem_map,
    List.forall_mem_map, ← and_assoc]
  exact and_congr_left fun _ => and_comm

/-- Where the same markers stand, the same construct opens. -/
theorem openerAt_congr {other : Text}
    (stands : ∀ marker ∈ grammar.openings, marker.isAt rest = marker.isAt other)
    (closes : ∀ style ∈ grammar.blockStyles, style.closesAtOnce rest = style.closesAtOnce other) :
    grammar.openerAt rest = grammar.openerAt other := by
  rw [openings, List.forall_mem_append, List.forall_mem_append, List.forall_mem_map,
    List.forall_mem_map, List.forall_mem_map] at stands
  obtain ⟨⟨lines, starts⟩, strings⟩ := stands
  have line : grammar.lineAt rest = grammar.lineAt other := by
    refine congrArg (Option.map _) (List.find?_congr ?_)
    intro entry member
    exact lines entry.1 (List.fst_mem_of_mem_zipIdx member)
  have string : grammar.stringAt rest = grammar.stringAt other := by
    refine congrArg (Option.map _) (List.find?_congr ?_)
    intro entry member
    exact strings entry.1 (List.fst_mem_of_mem_zipIdx member)
  have start : grammar.startAt rest = grammar.startAt other := by
    refine List.find?_congr ?_
    intro entry member
    exact starts entry.1 (List.fst_mem_of_mem_zipIdx member)
  have closing : grammar.closingAt rest = grammar.closingAt other := by
    funext first
    refine List.find?_congr ?_
    intro entry member
    rw [closes entry.1 (List.fst_mem_of_mem_zipIdx (List.mem_of_mem_drop member))]
  rw [openerAt_eq_merge, openerAt_eq_merge, line, string, blockAt_eq_map, blockAt_eq_map, start,
    closing]

end Grammar

end SourceDocs
