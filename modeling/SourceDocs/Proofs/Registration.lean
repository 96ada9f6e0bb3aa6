import Mathlib.Data.List.Dedup
import Mathlib.Data.List.TakeWhile
import SourceDocs.Processing
import SourceDocs.Proofs.ByteOrder
import SourceDocs.Proofs.Detection
import SourceDocs.Proofs.Lowering

/-!
A registry as a function of the grammars that were registered. Every look-up gives the last grammar
that fits, for a language by its identifier and for a path by the language that claimed its extension
last. The two dictionaries agree: an extension never leads to a language without a grammar.
-/

namespace SourceDocs

section Last

variable {α : Type} {test : α → Prop} {l : List α} {a : α}

def IsLast (test : α → Prop) (l : List α) (a : α) : Prop :=
  ∃ before behind, l = before ++ a :: behind ∧ test a ∧ ∀ b ∈ behind, ¬test b

theorem find?_reverse_eq_some_iff [DecidablePred test] :
    l.reverse.find? (fun a => decide (test a)) = some a ↔ IsLast test l a := by
  rw [List.find?_eq_some_iff_append]
  constructor
  · rintro ⟨passes, behind, before, split, fail⟩
    refine ⟨before.reverse, behind.reverse, ?_, of_decide_eq_true passes, ?_⟩
    · rw [← List.reverse_reverse l, split, List.reverse_append, List.reverse_cons,
        List.append_assoc, List.singleton_append]
    · intro b member
      simpa using fail b (List.mem_reverse.mp member)
  · rintro ⟨before, behind, rfl, passes, fail⟩
    refine ⟨decide_eq_true passes, behind.reverse, before.reverse, ?_, ?_⟩
    · rw [List.reverse_append, List.reverse_cons, List.append_assoc, List.singleton_append]
    · intro b member
      simpa using fail b (List.mem_reverse.mp member)

theorem IsLast.mem (last : IsLast test l a) : a ∈ l := by
  obtain ⟨before, behind, rfl, _⟩ := last
  exact List.mem_append_right before List.mem_cons_self

theorem IsLast.passes (last : IsLast test l a) : test a := by
  obtain ⟨_, _, _, passes, _⟩ := last
  exact passes

/-- If some element passes the test, then one is the last that does. -/
theorem exists_isLast (test : α → Prop) [DecidablePred test] (member : a ∈ l) (passes : test a) :
    ∃ b, IsLast test l b := by
  have found : (l.reverse.find? fun a => decide (test a)).isSome = true := by
    rw [List.find?_isSome]
    exact ⟨a, List.mem_reverse.mpr member, decide_eq_true passes⟩
  obtain ⟨b, here⟩ := Option.isSome_iff_exists.mp found
  exact ⟨b, find?_reverse_eq_some_iff.mp here⟩

end Last

namespace Dictionary

variable {α : Type} {dictionary : Dictionary α} {key : Text}

theorem mem_keys_iff : key ∈ dictionary.keys ↔ ∃ value, dictionary.get? key = some value := by
  simp only [get?_eq_some_iff]
  constructor
  · intro member
    obtain ⟨entry, listed, rfl⟩ := List.mem_map.mp member
    exact ⟨entry.2, listed⟩
  · rintro ⟨value, listed⟩
    exact List.mem_map_of_mem listed

theorem keys_pairwise (dictionary : Dictionary α) : dictionary.keys.Pairwise (· < ·) :=
  List.pairwise_map.mpr dictionary.ascending

theorem length_keys (dictionary : Dictionary α) : dictionary.keys.length = dictionary.size :=
  List.length_map _

end Dictionary

/-- The extension of a path is what follows the last dot of its name. -/
theorem Path.not_mem_of_extension? {path extension : Text}
    (ends : Path.extension? path = some extension) : '.' ∉ extension := by
  obtain ⟨name, _, cut⟩ := Option.bind_eq_some_iff.mp ends
  unfold splitExtension at cut
  dsimp only at cut
  split at cut
  next => cases cut
  next =>
    obtain rfl := Option.some.inj cut
    intro member
    have ordinary := List.mem_takeWhile_imp (List.mem_reverse.mp member)
    simp at ordinary

namespace Registry

variable {grammars : List Grammar} {registry : Registry} {name path extension : Text}
  {grammar : Grammar}

theorem languages_registerAll (id : Text) :
    (registerAll grammars).languages.get? id = some grammar ↔
      IsLast (·.id = id) grammars grammar := by
  rw [← find?_reverse_eq_some_iff, registerAll, get?_foldl_register]
  exact iff_of_eq (congrArg (· = some grammar) Option.or_none)

theorem detect?_registerAll_eq_some_iff :
    (registerAll grammars).detect? path = some grammar ↔
      ∃ extension claimant, Path.extension? path = some extension ∧
        IsLast (Text.lowercase extension ∈ ·.extensions) grammars claimant ∧
        IsLast (·.id = claimant.id) grammars grammar := by
  simp only [detect?_registerAll, Option.bind_eq_some_iff, ← find?_reverse_eq_some_iff,
    exists_and_left]

theorem mem_identifiers_registerAll {id : Text} :
    id ∈ (registerAll grammars).identifiers ↔ ∃ grammar ∈ grammars, grammar.id = id := by
  rw [identifiers, Dictionary.mem_keys_iff]
  simp only [languages_registerAll]
  constructor
  · rintro ⟨grammar, last⟩
    exact ⟨grammar, last.mem, last.passes⟩
  · rintro ⟨grammar, member, same⟩
    exact exists_isLast (·.id = id) member same

theorem size_registerAll (grammars : List Grammar) :
    (registerAll grammars).size = (grammars.map (·.id)).dedup.length := by
  have distinct : (registerAll grammars).identifiers.Nodup :=
    (Dictionary.keys_pairwise _).imp fun order => Std.ne_of_lt order
  have same : (registerAll grammars).identifiers.Perm (grammars.map (·.id)).dedup := by
    rw [List.perm_ext_iff_of_nodup distinct (List.nodup_dedup _)]
    intro id
    rw [mem_identifiers_registerAll, List.mem_dedup, List.mem_map]
  rw [← same.length_eq]
  exact (Dictionary.length_keys _).symm

/-- An extension that is claimed leads to a grammar: that of its claimant, if no other. -/
theorem isSome_detect?_registerAll (ends : Path.extension? path = some extension) :
    ((registerAll grammars).detect? path).isSome =
      (registerAll grammars).supportsExtension extension := by
  have undotted : extension.dropWhile (· = '.') = extension := by
    have undotted := Path.not_mem_of_extension? ends
    cases extension with
    | nil => rfl
    | cons c rest =>
      have other : c ≠ '.' := fun dot => undotted (dot ▸ List.mem_cons_self)
      exact List.dropWhile_cons_of_neg (by simpa using other)
  rw [supportsExtension, undotted, Dictionary.contains, registerAll,
    get?_extensions_foldl_register, ← registerAll, detect?_registerAll, ends, Option.bind_some]
  cases found : grammars.reverse.find? (Text.lowercase extension ∈ ·.extensions) with
  | none => rfl
  | some claimant =>
    have member := List.mem_reverse.mp (List.mem_of_find?_eq_some found)
    obtain ⟨last, isLast⟩ := exists_isLast (·.id = claimant.id) member rfl
    rw [Option.bind_some, find?_reverse_eq_some_iff.mpr isLast]
    rfl

theorem grammar_eq_ok_iff :
    registry.grammar name = .ok grammar ↔ registry.get? name = some grammar := by
  unfold Registry.grammar
  cases registry.get? name <;> simp

theorem grammarFor_eq_ok_iff :
    registry.grammarFor none path = .ok grammar ↔ registry.detect? path = some grammar := by
  unfold grammarFor
  cases registry.detect? path <;> simp

/-- The look-ups of a registry, said of the grammars in the order in which they were registered. -/
structure LastWins (grammars : List Grammar) (registry : Registry) : Prop where
  found : ∀ name grammar, registry.get? name = some grammar ↔
    IsLast (·.id = Text.lowercase name) grammars grammar
  given : ∀ name grammar, registry.grammar name = .ok grammar ↔ registry.get? name = some grammar
  missing : ∀ name, registry.grammar name = .error (.unknownLanguage name) ↔
    registry.get? name = none
  supported : ∀ name, registry.supportsLanguage name = (registry.get? name).isSome
  detected : ∀ path grammar, registry.detect? path = some grammar ↔
    ∃ extension claimant, Path.extension? path = some extension ∧
      IsLast (Text.lowercase extension ∈ ·.extensions) grammars claimant ∧
      IsLast (·.id = claimant.id) grammars grammar
  processed : ∀ path grammar, registry.grammarFor none path = .ok grammar ↔
    registry.detect? path = some grammar
  claimed : ∀ path extension, Path.extension? path = some extension →
    (registry.detect? path).isSome = registry.supportsExtension extension
  counted : registry.size = (grammars.map (·.id)).dedup.length
  listed : ∀ id, id ∈ registry.identifiers ↔ ∃ grammar ∈ grammars, grammar.id = id
  ascending : registry.identifiers.Pairwise fun first second => Text.utf8 first < Text.utf8 second
  resolved : ∀ id ∈ registry.identifiers, ∃ grammar, registry.get? id = some grammar ∧
    IsLast (·.id = id) grammars grammar

/-- After any registrations of compiled grammars every look-up gives the last grammar that fits, and
the identifiers are those of the grammars, each once and in the order of their bytes. -/
theorem registerAll_lastWins
    (compiled : ∀ grammar ∈ grammars, ∃ id table, Grammar.compile id table = .ok grammar) :
    LastWins grammars (registerAll grammars) where
  found name grammar := languages_registerAll (Text.lowercase name)
  given name grammar := grammar_eq_ok_iff
  missing name := by
    unfold Registry.grammar
    cases (registerAll grammars).get? name <;> simp
  supported name := rfl
  detected path grammar := detect?_registerAll_eq_some_iff
  processed path grammar := grammarFor_eq_ok_iff
  claimed path extension := isSome_detect?_registerAll
  counted := size_registerAll grammars
  listed id := mem_identifiers_registerAll
  ascending := (Dictionary.keys_pairwise _).imp Text.utf8_lt_utf8
  resolved := by
    intro id member
    obtain ⟨grammar, registered, rfl⟩ := mem_identifiers_registerAll.mp member
    obtain ⟨id, table, compiles⟩ := compiled grammar registered
    have lowered : Text.lowercase grammar.id = grammar.id := by
      rw [Grammar.id_of_compile compiles, Text.lowercase_lowercase]
    obtain ⟨last, isLast⟩ := exists_isLast (·.id = grammar.id) registered rfl
    refine ⟨last, ?_, isLast⟩
    rw [get?, lowered]
    exact (languages_registerAll _).mpr isLast

def reregistered : List Grammar :=
  [suffixGrammar "ß" "First" ["ß", "h"], suffixGrammar "cpp" "Other" ["h"],
    suffixGrammar "ß" "Again" ["ß"]]

theorem registerAll_lastWins_reregistered :
    (∀ grammar ∈ reregistered, ∃ id table, Grammar.compile id table = .ok grammar) ∧
      LastWins reregistered (registerAll reregistered) ∧
      (registerAll reregistered).get? "ẞ".toList = some (suffixGrammar "ß" "Again" ["ß"]) ∧
      (registerAll reregistered).detect? "a/b.H".toList =
        some (suffixGrammar "cpp" "Other" ["h"]) ∧
      (registerAll reregistered).identifiers = ["cpp".toList, "ß".toList] := by
  have compiled : ∀ grammar ∈ reregistered, ∃ id table, Grammar.compile id table = .ok grammar := by
    simp only [reregistered, List.forall_mem_cons]
    exact ⟨⟨"ẞ".toList, suffixTable "First" [".ß", "H"], by decide +kernel⟩,
      ⟨"Cpp".toList, suffixTable "Other" ["h"], by decide +kernel⟩,
      ⟨"ß".toList, suffixTable "Again" ["ß"], by decide +kernel⟩, nofun⟩
  exact ⟨compiled, registerAll_lastWins compiled, by decide +kernel, by decide +kernel,
    by decide +kernel⟩

end Registry

end SourceDocs
