import SourceDocs.Proofs.Merging

/-!
Which language a path is taken for. A registry remembers for each extension the language that claimed
it last, and for each language the grammar that was registered last. A grammar that takes the place of
an earlier one does not take back the extensions of that one, so the language keeps them: what is
detected lists the extension only if no language is registered again without one that it had.
-/

namespace SourceDocs.Registry

def registerAll (grammars : List Grammar) : Registry := grammars.foldl register empty

theorem get?_foldl_insert (id key : Text) (listed : List Text) (extensions : Dictionary Text) :
    (listed.foldl (fun extensions extension => Dictionary.insert extension id extensions)
        extensions).get? key =
      if key ∈ listed then some id else extensions.get? key := by
  induction listed generalizing extensions with
  | nil => rfl
  | cons extension listed ih =>
    rw [List.foldl_cons, ih, Dictionary.get?_insert]
    by_cases here : key = extension <;> simp [here]

/-- A language has the grammar that was registered last under its identifier. -/
theorem get?_foldl_register (registry : Registry) (grammars : List Grammar) (id : Text) :
    (grammars.foldl register registry).languages.get? id =
      (grammars.reverse.find? (·.id = id)).or (registry.languages.get? id) := by
  induction grammars generalizing registry with
  | nil => rfl
  | cons grammar grammars ih =>
    rw [List.foldl_cons, ih, List.reverse_cons, List.find?_append, Option.or_assoc, register,
      Dictionary.get?_insert]
    by_cases same : id = grammar.id
    · simp [same]
    · simp [same, Ne.symm same]

/-- An extension belongs to the language of the last grammar that lists it. -/
theorem get?_extensions_foldl_register (registry : Registry) (grammars : List Grammar)
    (extension : Text) :
    (grammars.foldl register registry).extensions.get? extension =
      ((grammars.reverse.find? (extension ∈ ·.extensions)).map (·.id)).or
        (registry.extensions.get? extension) := by
  induction grammars generalizing registry with
  | nil => rfl
  | cons grammar grammars ih =>
    rw [List.foldl_cons, ih, List.reverse_cons, List.find?_append, Option.map_or,
      Option.or_assoc, register, get?_foldl_insert]
    by_cases listed : extension ∈ grammar.extensions <;> simp [listed]

theorem detect?_registerAll (grammars : List Grammar) (path : Text) :
    (registerAll grammars).detect? path = (Path.extension? path).bind fun extension =>
      (grammars.reverse.find? (Text.lowercase extension ∈ ·.extensions)).bind fun claimant =>
        grammars.reverse.find? (·.id = claimant.id) := by
  unfold detect? languageOf? registerAll
  cases Path.extension? path with
  | none => rfl
  | some extension =>
    rw [Option.bind_some, Option.bind_some, get?_extensions_foldl_register]
    cases grammars.reverse.find? (Text.lowercase extension ∈ ·.extensions) with
    | none => rfl
    | some claimant => exact (get?_foldl_register empty grammars claimant.id).trans Option.or_none

/-- The registry of tables is that of their grammars, which come in the order of the tables. -/
theorem exists_grammars_of_registerTables {registry result : Registry}
    {tables : List (Text × LanguageTable)}
    (registered : registerTables registry tables = .ok result) :
    ∃ grammars : List Grammar, result = grammars.foldl register registry ∧
      grammars.map (·.id) = tables.map (Text.lowercase ·.1) := by
  induction tables generalizing registry with
  | nil => exact ⟨[], (Except.ok.inj registered).symm, rfl⟩
  | cons entry tables ih =>
    obtain ⟨id, table⟩ := entry
    unfold registerTables at registered
    split at registered
    next => cases registered
    next grammar compiled =>
      obtain ⟨grammars, same, identifiers⟩ := ih registered
      refine ⟨grammar :: grammars, same, ?_⟩
      rw [List.map_cons, List.map_cons, identifiers, Grammar.id_of_compile compiled]

/-- No language is registered again without an extension that it had. -/
def KeepsExtensions (grammars : List Grammar) : Prop :=
  grammars.Pairwise fun earlier later =>
    earlier.id = later.id → earlier.extensions ⊆ later.extensions

theorem keepsExtensions_of_nodup {grammars : List Grammar}
    (distinct : (grammars.map (·.id)).Nodup) : KeepsExtensions grammars := by
  have apart := List.pairwise_map.mp distinct
  exact apart.imp fun different same => absurd same different

def ListsExtension (grammar : Grammar) (path : Text) : Prop :=
  ∃ extension, Path.extension? path = some extension ∧
    Text.lowercase extension ∈ grammar.extensions

/-- What is detected has the language of a grammar that lists the extension, and no grammar of that
language was registered after it. -/
theorem exists_claimant {grammars : List Grammar} {path : Text} {grammar : Grammar}
    (detected : (registerAll grammars).detect? path = some grammar) :
    ∃ claimant ∈ grammars, claimant.id = grammar.id ∧ ListsExtension claimant path ∧
      grammars.reverse.find? (·.id = claimant.id) = some grammar := by
  rw [detect?_registerAll, Option.bind_eq_some_iff] at detected
  obtain ⟨extension, ends, claimed⟩ := detected
  obtain ⟨claimant, found, last⟩ := Option.bind_eq_some_iff.mp claimed
  have member := List.mem_reverse.mp (List.mem_of_find?_eq_some found)
  have listed := List.find?_some found
  have sameId := List.find?_some last
  exact ⟨claimant, member, (of_decide_eq_true sameId).symm,
    ⟨extension, ends, of_decide_eq_true listed⟩, last⟩

theorem ListsExtension.of_subset {earlier later : Grammar} {path : Text}
    (lists : ListsExtension earlier path) (kept : earlier.extensions ⊆ later.extensions) :
    ListsExtension later path := by
  obtain ⟨extension, ends, member⟩ := lists
  exact ⟨extension, ends, kept member⟩

theorem listsExtension_of_detect? {grammars : List Grammar} {path : Text} {grammar : Grammar}
    (kept : KeepsExtensions grammars)
    (detected : (registerAll grammars).detect? path = some grammar) :
    ListsExtension grammar path := by
  obtain ⟨claimant, member, sameId, lists, last⟩ := exists_claimant detected
  rcases rel_of_find?_reverse kept last member (decide_eq_true rfl) with rfl | keeps
  · exact lists
  · exact lists.of_subset (keeps sameId)

/-- A path is detected as a language that some registered grammar claims its extension for. The
grammar that is given lists the extension itself if no language is registered again without an
extension that it had, and so does every grammar that is detected in the registry of a configuration
whose languages differ in more than case. -/
theorem detect?_lists_extension (grammars : List Grammar) (configuration : Configuration)
    (path : Text) (grammar : Grammar) :
    ((registerAll grammars).detect? path = some grammar →
      (∃ claimant ∈ grammars, claimant.id = grammar.id ∧ ListsExtension claimant path) ∧
      (KeepsExtensions grammars → ListsExtension grammar path)) ∧
    ∀ registry, ofConfiguration configuration = .ok registry →
      (∃ registered, registry = registerAll registered ∧
        registered.map (·.id) = configuration.languages.keys.map Text.lowercase) ∧
      ((configuration.languages.keys.map Text.lowercase).Nodup →
        registry.detect? path = some grammar → ListsExtension grammar path) := by
  refine ⟨?_, ?_⟩
  · intro detected
    refine ⟨?_, fun kept => listsExtension_of_detect? kept detected⟩
    obtain ⟨claimant, member, sameId, lists, _⟩ := exists_claimant detected
    exact ⟨claimant, member, sameId, lists⟩
  · intro registry loaded
    obtain ⟨registered, rfl, identifiers⟩ := exists_grammars_of_registerTables loaded
    have keys : registered.map (·.id) = configuration.languages.keys.map Text.lowercase := by
      rw [identifiers, Dictionary.keys, Dictionary.map, List.map_map]
      rfl
    refine ⟨⟨registered, rfl, keys⟩, ?_⟩
    intro distinct detected
    rw [← keys] at distinct
    exact listsExtension_of_detect? (keepsExtensions_of_nodup distinct) detected

def suffixTable (name : String) (extensions : List String) : LanguageTable :=
  { lineTable name "//" with extensions := extensions.map String.toList }

def suffixGrammar (id name : String) (extensions : List String) : Grammar :=
  { lineGrammar id name ⟨'/', ['/']⟩ with extensions := extensions.map String.toList }

/-- Sources first, then sources and headers under the same identifier, and another language that
claims the headers in between. -/
theorem detect?_lists_extension_widened :
    let grammars := [suffixGrammar "c" "C" ["c"], suffixGrammar "cpp" "C++" ["hpp", "h"],
      suffixGrammar "c" "C with headers" ["h", "c"]]
    KeepsExtensions grammars ∧
      (registerAll grammars).detect? "src/Main.H".toList =
        some (suffixGrammar "c" "C with headers" ["h", "c"]) ∧
      ListsExtension (suffixGrammar "c" "C with headers" ["h", "c"]) "src/Main.H".toList := by
  intro grammars
  have kept : KeepsExtensions grammars := by
    unfold KeepsExtensions
    decide
  have detected : (registerAll grammars).detect? "src/Main.H".toList =
      some (suffixGrammar "c" "C with headers" ["h", "c"]) := by decide +kernel
  exact ⟨kept, detected, ((detect?_lists_extension _ ⟨.ofList []⟩ _ _).1 detected).2 kept⟩

/-- Two languages whose identifiers differ in case only are one language in the registry. It has the
grammar of the second and the extensions of both, so a header is given a grammar that does not list
the extension of headers. -/
theorem detect?_replaced_extension :
    ∃ registry, ofConfiguration ⟨.ofList [("C".toList, suffixTable "Headers" ["h"]),
        ("c".toList, suffixTable "Sources" ["c"])]⟩ = .ok registry ∧
      registry.detect? "main.h".toList = some (suffixGrammar "c" "Sources" ["c"]) ∧
      ¬ListsExtension (suffixGrammar "c" "Sources" ["c"]) "main.h".toList := by
  refine ⟨registerAll [suffixGrammar "c" "Headers" ["h"], suffixGrammar "c" "Sources" ["c"]],
    ?_, by decide +kernel, ?_⟩
  · have headers : Grammar.compile "C".toList (suffixTable "Headers" ["h"]) =
        .ok (suffixGrammar "c" "Headers" ["h"]) := by decide +kernel
    have sources : Grammar.compile "c".toList (suffixTable "Sources" ["c"]) =
        .ok (suffixGrammar "c" "Sources" ["c"]) := by decide +kernel
    have entries : (Dictionary.ofList [("C".toList, suffixTable "Headers" ["h"]),
        ("c".toList, suffixTable "Sources" ["c"])]).entries =
        [("C".toList, suffixTable "Headers" ["h"]), ("c".toList, suffixTable "Sources" ["c"])] := by
      decide +kernel
    simp only [ofConfiguration, entries, registerTables, headers, sources]
    rfl
  · rintro ⟨extension, ends, listed⟩
    have suffix : Path.extension? "main.h".toList = some "h".toList := by decide +kernel
    rw [suffix, Option.some.injEq] at ends
    subst ends
    revert listed
    decide +kernel

end SourceDocs.Registry
