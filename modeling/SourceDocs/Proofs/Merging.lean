import Mathlib.Data.List.Basic
import SourceDocs.Proofs.Compilation
import SourceDocs.Registry

/-!
Merged configurations and their registries. A merge keeps the tables of both sides by their exact
identifiers, so it is valid when both sides are. The registry then takes the tables in the order of
their identifiers and tells languages apart by their lowercase names: of identifiers that differ in
case only, the last one in byte order wins, whichever side declares it.
-/

namespace SourceDocs

theorem Grammar.id_of_compile {id : Text} {table : LanguageTable} {grammar : Grammar}
    (compiled : compile id table = .ok grammar) : grammar.id = Text.lowercase id := by
  obtain ⟨_, _, _, _, _, _, _, _, identifier, _⟩ :=
    compileTable_eq_ok (compileTable_of_compile compiled)
  exact identifier

/-- In an ordered list, what passes a test stands before the last element that passes it. -/
theorem rel_of_find?_reverse {α : Type} {l : List α} {order : α → α → Prop} {test : α → Bool}
    {last a : α} (ordered : l.Pairwise order) (found : l.reverse.find? test = some last)
    (member : a ∈ l) (passes : test a = true) : a = last ∨ order a last := by
  obtain ⟨_, later, earlier, split, fails⟩ := List.find?_eq_some_iff_append.mp found
  have parts : l = earlier.reverse ++ last :: later.reverse := by
    rw [← List.reverse_reverse l, split, List.reverse_append, List.reverse_cons,
      List.append_assoc, List.singleton_append]
  rw [parts] at member ordered
  rcases List.mem_append.mp member with before | behind
  · exact .inr ((List.pairwise_append.mp ordered).2.2 a before last List.mem_cons_self)
  · rcases List.mem_cons.mp behind with rfl | behind
    · exact .inl rfl
    · have absent := fails a (List.mem_reverse.mp behind)
      rw [passes] at absent
      cases absent

/-- The last entry that passes a test has the greatest key of those that do. -/
theorem Dictionary.not_lt_of_find?_reverse {α : Type} {dictionary : Dictionary α}
    {test : Text × α → Bool} {last entry : Text × α}
    (found : dictionary.entries.reverse.find? test = some last)
    (member : entry ∈ dictionary.entries) (passes : test entry = true) : ¬last.1 < entry.1 := by
  rcases rel_of_find?_reverse dictionary.ascending found member passes with rfl | order
  · exact List.lt_irrefl _
  · exact List.lt_asymm order

namespace Registry

theorem exists_registerTables_iff (registry : Registry) (tables : List (Text × LanguageTable)) :
    (∃ result, registerTables registry tables = .ok result) ↔
      ∀ entry ∈ tables, ∃ grammar, Grammar.compile entry.1 entry.2 = .ok grammar := by
  induction tables generalizing registry with
  | nil => simp [registerTables]
  | cons entry tables ih =>
    obtain ⟨id, table⟩ := entry
    rw [List.forall_mem_cons]
    cases compiled : Grammar.compile id table with
    | error fault => simp [registerTables, compiled]
    | ok grammar => simp [registerTables, compiled, ih]

/-- Under a lowercase name a registry holds the grammar of the last table with that name. -/
theorem get?_registerTables {registry result : Registry} {tables : List (Text × LanguageTable)}
    (registered : registerTables registry tables = .ok result) (name : Text) :
    result.languages.get? name =
      match tables.reverse.find? (Text.lowercase ·.1 = name) with
      | some entry => (Grammar.compile entry.1 entry.2).toOption
      | none => registry.languages.get? name := by
  induction tables generalizing registry with
  | nil =>
    obtain rfl := Except.ok.inj registered
    rfl
  | cons entry tables ih =>
    obtain ⟨id, table⟩ := entry
    unfold registerTables at registered
    split at registered
    next => cases registered
    next grammar compiled =>
      rw [ih registered, List.reverse_cons, List.find?_append]
      cases tables.reverse.find? (Text.lowercase ·.1 = name) with
      | some later => rfl
      | none =>
        have identifier := Grammar.id_of_compile compiled
        rw [Option.none_or, register, Dictionary.get?_insert, identifier]
        by_cases same : Text.lowercase id = name
        · simp [same, compiled, Except.toOption]
        · simp [same, Ne.symm same]

end Registry

namespace Configuration

theorem validate_eq_ok_iff {configuration : Configuration} :
    configuration.validate = .ok () ↔
      ∀ entry ∈ configuration.languages.entries,
        ∃ grammar, Grammar.compile entry.1 entry.2 = .ok grammar := by
  rw [← Registry.exists_registerTables_iff .empty]
  unfold validate Registry.ofConfiguration
  cases Registry.registerTables .empty configuration.languages.entries with
  | error error => simp [Except.map]
  | ok registry => simp [Except.map]

theorem exists_registry {configuration : Configuration} (valid : configuration.validate = .ok ()) :
    ∃ registry, Registry.ofConfiguration configuration = .ok registry :=
  (Registry.exists_registerTables_iff .empty _).mpr (validate_eq_ok_iff.mp valid)

theorem get?_merge (lower upper : Configuration) (id : Text) :
    (lower.merge upper).languages.get? id =
      (upper.languages.get? id).or (lower.languages.get? id) :=
  Dictionary.get?_overlay lower.languages upper.languages id

theorem mem_merge {lower upper : Configuration} {entry : Text × LanguageTable}
    (member : entry ∈ (lower.merge upper).languages.entries) :
    entry ∈ upper.languages.entries ∨ entry ∈ lower.languages.entries := by
  rw [← Dictionary.get?_eq_some_iff, get?_merge, Option.or_eq_some_iff] at member
  rw [← Dictionary.get?_eq_some_iff, ← Dictionary.get?_eq_some_iff]
  exact member.imp_right And.right

theorem exists_mem_merge {lower : Configuration} {id : Text} (upper : Configuration)
    (declared : id ∈ lower.languages.keys) :
    ∃ table, (id, table) ∈ (lower.merge upper).languages.entries := by
  obtain ⟨entry, member, rfl⟩ := List.mem_map.mp declared
  have below := Dictionary.get?_eq_some_iff.mpr member
  cases above : upper.languages.get? entry.1 with
  | none => exact ⟨entry.2, Dictionary.get?_eq_some_iff.mp (by simp [get?_merge, above, below])⟩
  | some table => exact ⟨table, Dictionary.get?_eq_some_iff.mp (by simp [get?_merge, above])⟩

theorem validate_merge {lower upper : Configuration} (lowerValid : lower.validate = .ok ())
    (upperValid : upper.validate = .ok ()) : (lower.merge upper).validate = .ok () := by
  rw [validate_eq_ok_iff] at lowerValid upperValid ⊢
  intro entry member
  rcases mem_merge member with above | below
  · exact upperValid entry above
  · exact lowerValid entry below

end Configuration

namespace Registry

/-- The registry of a valid configuration has a grammar for every language that is declared in it:
that of the greatest identifier with the same lowercase name. -/
theorem exists_grammar {configuration : Configuration} {registry : Registry}
    {entry : Text × LanguageTable} (registered : ofConfiguration configuration = .ok registry)
    (declared : entry ∈ configuration.languages.entries) :
    ∃ last ∈ configuration.languages.entries, ∃ grammar,
      Text.lowercase last.1 = Text.lowercase entry.1 ∧
      (∀ other ∈ configuration.languages.entries,
        Text.lowercase other.1 = Text.lowercase entry.1 → ¬last.1 < other.1) ∧
      Grammar.compile last.1 last.2 = .ok grammar ∧ registry.grammar entry.1 = .ok grammar := by
  have compiles := (exists_registerTables_iff .empty configuration.languages.entries).mp
    ⟨registry, registered⟩
  have held := get?_registerTables registered (Text.lowercase entry.1)
  cases found : configuration.languages.entries.reverse.find?
      (Text.lowercase ·.1 = Text.lowercase entry.1) with
  | none =>
    have absent := List.find?_eq_none.mp found entry (List.mem_reverse.mpr declared)
    exact absurd (decide_eq_true rfl) absent
  | some last =>
    have member : last ∈ configuration.languages.entries :=
      List.mem_reverse.mp (List.mem_of_find?_eq_some found)
    obtain ⟨grammar, compiled⟩ := compiles last member
    have named := List.find?_some found
    refine ⟨last, member, grammar, of_decide_eq_true named, ?_, compiled, ?_⟩
    · intro other otherMember same
      exact Dictionary.not_lt_of_find?_reverse found otherMember (decide_eq_true same)
    · rw [found] at held
      dsimp only at held
      rw [compiled] at held
      unfold Registry.grammar get?
      rw [held]
      rfl

/-- In the registry of a merge, a language that `upper` declares has the grammar declared there,
unless `lower` declares the language by an identifier that differs in case only and comes later in
byte order; then it has a grammar from `lower`. -/
theorem ofConfiguration_merge {lower upper : Configuration} {id : Text} {table : LanguageTable}
    (lowerValid : lower.validate = .ok ()) (upperValid : upper.validate = .ok ())
    (distinct : ∀ first ∈ upper.languages.keys, ∀ second ∈ upper.languages.keys,
      Text.lowercase first = Text.lowercase second → first = second)
    (declared : upper.languages.get? id = some table) :
    ∃ registry grammar, ofConfiguration (lower.merge upper) = .ok registry ∧
      Grammar.compile id table = .ok grammar ∧
      ((∀ other ∈ lower.languages.keys, Text.lowercase other = Text.lowercase id → ¬id < other) →
        registry.grammar id = .ok grammar) ∧
      ((∃ other ∈ lower.languages.keys, Text.lowercase other = Text.lowercase id ∧ id < other) →
        ∃ other otherTable otherGrammar, lower.languages.get? other = some otherTable ∧
          Text.lowercase other = Text.lowercase id ∧ id < other ∧
          Grammar.compile other otherTable = .ok otherGrammar ∧
          registry.grammar id = .ok otherGrammar) := by
  have declaredMember := Dictionary.get?_eq_some_iff.mp declared
  obtain ⟨grammar, compiled⟩ := Configuration.validate_eq_ok_iff.mp upperValid _ declaredMember
  obtain ⟨registry, registered⟩ :=
    Configuration.exists_registry (Configuration.validate_merge lowerValid upperValid)
  have merged : (lower.merge upper).languages.get? id = some table := by
    rw [Configuration.get?_merge, declared, Option.some_or]
  obtain ⟨⟨last, lastTable⟩, member, lastGrammar, same, greatest, lastCompiled, result⟩ :=
    exists_grammar registered (Dictionary.get?_eq_some_iff.mp merged)
  dsimp only at same greatest lastCompiled result
  have fromUpper : (last, lastTable) ∈ upper.languages.entries → last = id := by
    intro above
    exact distinct last (List.mem_map_of_mem above) id (List.mem_map_of_mem declaredMember) same
  refine ⟨registry, grammar, registered, compiled, ?_, ?_⟩
  · intro earlier
    have reached : ¬last < id := greatest _ (Dictionary.get?_eq_some_iff.mp merged) rfl
    have sameId : last = id := by
      rcases Configuration.mem_merge member with above | below
      · exact fromUpper above
      · by_contra different
        have later : id < last := Text.lt_of_not_lt reached (Ne.symm different)
        exact earlier last (List.mem_map_of_mem below) same later
    subst sameId
    have sameTable := Dictionary.get?_eq_some_iff.mpr member
    rw [merged, Option.some.injEq] at sameTable
    subst sameTable
    rw [result, Except.ok.inj (lastCompiled.symm.trans compiled)]
  · rintro ⟨other, otherMember, otherSame, later⟩
    obtain ⟨otherTable, otherMerged⟩ := Configuration.exists_mem_merge upper otherMember
    have reached : ¬last < other := greatest _ otherMerged otherSame
    have behind : id < last := by
      by_cases reaches : other = last
      · exact reaches ▸ later
      · exact List.lt_trans later (Text.lt_of_not_lt reached reaches)
    rcases Configuration.mem_merge member with above | below
    · rw [fromUpper above] at behind
      exact absurd behind (List.lt_irrefl id)
    · exact ⟨last, lastTable, lastGrammar, Dictionary.get?_eq_some_iff.mpr below, same, behind,
        lastCompiled, result⟩

def lineTable (name marker : String) : LanguageTable :=
  (LanguageTable.named name.toList).addLineComment marker.toList

def declaring (id : String) (table : LanguageTable) : Configuration :=
  ⟨.ofList [(id.toList, table)]⟩

def lineGrammar (id name : String) (marker : Marker) : Grammar where
  id := id.toList
  name := name.toList
  highlight := id.toList
  extensions := []
  lineMarkers := [⟨marker, false⟩]
  blockStyles := []
  strings := []

theorem ofConfiguration_merge_lowercase :
    (declaring "C" (lineTable "Outer" "//")).validate = .ok () ∧
      (declaring "c" (lineTable "Nearer" "#")).validate = .ok () ∧
      ∃ registry, ofConfiguration ((declaring "C" (lineTable "Outer" "//")).merge
          (declaring "c" (lineTable "Nearer" "#"))) = .ok registry ∧
        registry.grammar "c".toList = .ok (lineGrammar "c" "Nearer" ⟨'#', []⟩) := by
  have lowerValid : (declaring "C" (lineTable "Outer" "//")).validate = .ok () := by decide +kernel
  have upperValid : (declaring "c" (lineTable "Nearer" "#")).validate = .ok () := by decide +kernel
  have declared : (declaring "c" (lineTable "Nearer" "#")).languages.get? "c".toList =
      some (lineTable "Nearer" "#") := by decide +kernel
  have expected : Grammar.compile "c".toList (lineTable "Nearer" "#") =
      .ok (lineGrammar "c" "Nearer" ⟨'#', []⟩) := by decide +kernel
  obtain ⟨registry, grammar, registered, compiled, overrides, _⟩ :=
    ofConfiguration_merge lowerValid upperValid (by decide +kernel) declared
  rw [expected, Except.ok.injEq] at compiled
  rw [compiled]
  exact ⟨lowerValid, upperValid, registry, registered, overrides (by decide +kernel)⟩

/-- With the capital letter on the other side the merge is the same, but the table that is merged
over the other one is lost. -/
theorem ofConfiguration_merge_capital :
    (declaring "c" (lineTable "Outer" "//")).validate = .ok () ∧
      (declaring "C" (lineTable "Nearer" "#")).validate = .ok () ∧
      (declaring "C" (lineTable "Nearer" "#")).languages.keys = ["C".toList] ∧
      Grammar.compile "C".toList (lineTable "Nearer" "#") =
        .ok (lineGrammar "c" "Nearer" ⟨'#', []⟩) ∧
      (ofConfiguration ((declaring "c" (lineTable "Outer" "//")).merge
          (declaring "C" (lineTable "Nearer" "#")))).bind (·.grammar "C".toList) =
        .ok (lineGrammar "c" "Outer" ⟨'/', ['/']⟩) ∧
      lineGrammar "c" "Outer" ⟨'/', ['/']⟩ ≠ lineGrammar "c" "Nearer" ⟨'#', []⟩ := by
  decide +kernel

end Registry

end SourceDocs
