import SourceDocs.Configuration.Discovery
import SourceDocs.Proofs.Ancestors
import SourceDocs.Proofs.Merging

/-!
Which configuration holds in a directory. The files that are there are loaded from the user's own
file inwards; the first one that cannot be loaded ends the search, and otherwise each language has the
table of the last file that declares it. Every file is valid by itself, so what is found is valid.
-/

namespace SourceDocs.Configuration

def content? (fs : FileSystem) (path : Text) : Option ByteArray :=
  match fs.get path with
  | .ok (.file content) => some content
  | _ => none

/-- Where to look for configuration files around a directory, given the directories from it outwards:
first `literate/config.toml` in the user's configuration directory, then from the outermost directory
inwards the hidden file and behind it the plain one. -/
def searchOrder (fs : FileSystem) (outwards : List Text) : List Text :=
  let own := fs.configurationHome.map fun home =>
    Path.join (Path.join home "literate".toList) "config.toml".toList
  own.toList ++ outwards.reverse.flatMap fun directory =>
    [Path.join directory ".literaterc.toml".toList, Path.join directory "literate.toml".toList]

/-- What loading a file gives. Its bytes have to be a text, the text has to have the form of a
configuration, and every table has to compile; the first of these to fail is the error. -/
inductive Loads (fs : FileSystem) (file : Text) : Except ConfigurationError Configuration → Prop
  | notText {content : ByteArray} (there : content? fs file = some content)
      (garbled : Text.decode? content = none) : Loads fs file (.error (.unreadable file .notText))
  | malformed {content : ByteArray} {source : Text} {fault : Toml.Fault}
      (there : content? fs file = some content) (text : Text.decode? content = some source)
      (undecodable : decode source = .error fault) : Loads fs file (.error (.malformed file fault))
  | badTable {content : ByteArray} {source : Text} {configuration : Configuration}
      {fault : TableFault} (there : content? fs file = some content)
      (text : Text.decode? content = some source) (decoded : decode source = .ok configuration)
      (invalid : configuration.validate = .error (.badTable fault none)) :
      Loads fs file (.error (.badTable fault (some file)))
  | loaded {content : ByteArray} {source : Text} {configuration : Configuration}
      (there : content? fs file = some content) (text : Text.decode? content = some source)
      (decoded : decode source = .ok configuration) (valid : configuration.validate = .ok ()) :
      Loads fs file (.ok configuration)

def LastDeclares (fs : FileSystem) (files : List Text) (id : Text) (table : LanguageTable) : Prop :=
  ∃ before file after configuration, files = before ++ file :: after ∧
    Loads fs file (.ok configuration) ∧ configuration.languages.get? id = some table ∧
    ∀ later ∈ after, ∀ other, Loads fs later (.ok other) → other.languages.get? id = none

structure Discovery (fs : FileSystem) (files : List Text)
    (result : Except ConfigurationError (Option Discovered)) : Prop where
  failed_iff : ∀ error, result = .error error ↔ ∃ before file after,
    files = before ++ file :: after ∧
      (∀ earlier ∈ before, ∃ configuration, Loads fs earlier (.ok configuration)) ∧
      Loads fs file (.error error)
  none_iff : result = .ok none ↔ files = []
  found_iff : (∃ found, result = .ok (some found)) ↔
    files ≠ [] ∧ ∀ file ∈ files, ∃ configuration, Loads fs file (.ok configuration)
  merged : ∀ found, result = .ok (some found) → found.files = files ∧
    (∀ id table, found.configuration.languages.get? id = some table ↔
      LastDeclares fs files id table) ∧
    found.configuration.validate = .ok () ∧
    ∃ registry, Registry.ofConfiguration found.configuration = .ok registry

theorem candidates_eq (fs : FileSystem) (start : Text) :
    candidates fs start = searchOrder fs (Path.ancestors start) := by
  rw [candidates, searchOrder, List.reverse_flatMap]
  rfl

variable {fs : FileSystem} {files paths : List Text} {file : Text} {found : Option Discovered}
  {configuration : Configuration}

section Loading

theorem isFile_eq (fs : FileSystem) (path : Text) :
    fs.isFile path = (content? fs path).isSome := by
  unfold FileSystem.isFile content?
  split <;> simp_all

theorem readText_eq {content : ByteArray} (there : content? fs file = some content) :
    fs.readText file = match Text.decode? content with
      | some source => .ok source
      | none => .error .notText := by
  unfold content? at there
  split at there
  next held got =>
    obtain rfl := Option.some.inj there
    have bytes : fs.readBytes file = .ok held := by rw [FileSystem.readBytes, got]
    unfold FileSystem.readText
    rw [bytes]
    rfl
  next => cases there

theorem badTable_of_registerTables {tables : List (Text × LanguageTable)} {registry : Registry}
    {error : ConfigurationError} (refused : registry.registerTables tables = .error error) :
    ∃ fault, error = .badTable fault none := by
  induction tables generalizing registry with
  | nil => cases refused
  | cons entry tables ih =>
    unfold Registry.registerTables at refused
    split at refused
    next fault _ => exact ⟨fault, (Except.error.inj refused).symm⟩
    next => exact ih refused

/-- A configuration is refused for a table that does not compile. -/
theorem badTable_of_validate {error : ConfigurationError}
    (invalid : configuration.validate = .error error) :
    ∃ fault, error = .badTable fault none := by
  unfold validate at invalid
  cases registered : Registry.ofConfiguration configuration with
  | ok registry =>
    rw [registered] at invalid
    cases invalid
  | error fault =>
    rw [registered] at invalid
    obtain rfl := Except.error.inj invalid
    exact badTable_of_registerTables registered

/-- Loading gives the one result that it may give. -/
theorem Loads.ofFile_eq {result : Except ConfigurationError Configuration}
    (loads : Loads fs file result) : ofFile fs file = result := by
  unfold ofFile
  cases loads with
  | notText there garbled => rw [readText_eq there, garbled]
  | malformed there text undecodable =>
    rw [readText_eq there, text]
    simp [loadFile, loadAs, undecodable, Except.mapError, ConfigurationError.inFile]
  | badTable there text decoded invalid =>
    rw [readText_eq there, text]
    simp [loadFile, loadAs, decoded, invalid, Except.map, Except.mapError,
      ConfigurationError.inFile]
  | loaded there text decoded valid =>
    rw [readText_eq there, text]
    simp [loadFile, loadAs, decoded, valid, Except.map, Except.mapError]

/-- A file that is there is loaded or gives one of the errors. -/
theorem loads_or_fails (present : (content? fs file).isSome = true) :
    (∃ configuration, Loads fs file (.ok configuration)) ∨
      ∃ error, Loads fs file (.error error) := by
  obtain ⟨content, there⟩ := Option.isSome_iff_exists.mp present
  cases text : Text.decode? content with
  | none => exact .inr ⟨_, .notText there text⟩
  | some source =>
    cases decoded : decode source with
    | error fault => exact .inr ⟨_, .malformed there text decoded⟩
    | ok configuration =>
      cases checked : configuration.validate with
      | ok => exact .inl ⟨_, .loaded there text decoded checked⟩
      | error error =>
        obtain ⟨fault, rfl⟩ := badTable_of_validate checked
        exact .inr ⟨_, .badTable there text decoded checked⟩

theorem Loads.unique {first second : Except ConfigurationError Configuration}
    (loads : Loads fs file first) (loadsToo : Loads fs file second) : first = second :=
  loads.ofFile_eq.symm.trans loadsToo.ofFile_eq

theorem Loads.validate (loads : Loads fs file (.ok configuration)) :
    configuration.validate = .ok () := by
  cases loads with
  | loaded _ _ _ valid => exact valid

end Loading

def Discovered.over (found : Option Discovered) (file : Text) (configuration : Configuration) :
    Discovered :=
  match found with
  | none => ⟨configuration, [file]⟩
  | some earlier => ⟨earlier.configuration.merge configuration, earlier.files ++ [file]⟩

theorem loadAll_cons (loads : Loads fs file (.ok configuration)) :
    (loadAll fs found (file :: paths)).value =
      (loadAll fs (some (.over found file configuration)) paths).value := by
  cases found <;> simp [loadAll, loads.ofFile_eq, Discovered.over]

theorem loadAll_cons_error {error : ConfigurationError} (fails : Loads fs file (.error error)) :
    (loadAll fs found (file :: paths)).value = .error error := by
  simp [loadAll, fails.ofFile_eq]

/-- One more file declares a language for good, or leaves it to the files before. -/
theorem lastDeclares_concat (loads : Loads fs file (.ok configuration)) (id : Text)
    (table : LanguageTable) :
    LastDeclares fs (files ++ [file]) id table ↔ configuration.languages.get? id = some table ∨
      configuration.languages.get? id = none ∧ LastDeclares fs files id table := by
  constructor
  · rintro ⟨before, declarer, after, declared, split, declarerLoads, holds, silent⟩
    rcases List.eq_nil_or_concat after with rfl | ⟨between, last, rfl⟩
    · obtain ⟨_, same⟩ := List.append_inj' split rfl
      obtain rfl := List.singleton_inj.mp same
      obtain rfl := Except.ok.inj (loads.unique declarerLoads)
      exact .inl holds
    · rw [List.concat_eq_append] at split silent
      rw [← List.cons_append, ← List.append_assoc] at split
      obtain ⟨rfl, same⟩ := List.append_inj' split rfl
      obtain rfl := List.singleton_inj.mp same
      obtain ⟨silentBetween, silentLast⟩ := List.forall_mem_append.mp silent
      exact .inr ⟨silentLast _ List.mem_cons_self _ loads,
        before, declarer, between, declared, rfl, declarerLoads, holds, silentBetween⟩
  · rintro (declared | ⟨leaves, before, declarer, after, declared, rfl, declarerLoads, holds, silent⟩)
    · exact ⟨files, file, [], configuration, rfl, loads, declared, List.forall_mem_nil _⟩
    · refine ⟨before, declarer, after ++ [file], declared, by simp, declarerLoads, holds, ?_⟩
      rw [List.forall_mem_append, List.forall_mem_singleton]
      refine ⟨silent, ?_⟩
      intro other otherLoads
      obtain rfl := Except.ok.inj (loads.unique otherLoads)
      exact leaves

theorem not_lastDeclares_nil (id : Text) (table : LanguageTable) :
    ¬LastDeclares fs [] id table := by
  rintro ⟨before, declarer, after, _, split, _⟩
  exact List.append_ne_nil_of_right_ne_nil before (List.cons_ne_nil _ _) split.symm

def Holds (fs : FileSystem) (files : List Text) : Option Discovered → Prop
  | none => files = []
  | some found => found.files = files ∧ files ≠ [] ∧
    (∀ id table, found.configuration.languages.get? id = some table ↔
      LastDeclares fs files id table) ∧
    found.configuration.validate = .ok ()

theorem Holds.over (holds : Holds fs files found) (loads : Loads fs file (.ok configuration)) :
    Holds fs (files ++ [file]) (some (.over found file configuration)) := by
  cases found with
  | none =>
    obtain rfl : files = [] := holds
    refine ⟨rfl, List.cons_ne_nil _ _, ?_, loads.validate⟩
    intro id table
    rw [lastDeclares_concat loads]
    simp [not_lastDeclares_nil, Discovered.over]
  | some earlier =>
    obtain ⟨rfl, _, tables, earlierValid⟩ := holds
    refine ⟨rfl, by simp, ?_, validate_merge earlierValid loads.validate⟩
    intro id table
    rw [lastDeclares_concat loads, ← tables id table]
    exact (congrArg (· = some table) (get?_merge earlier.configuration configuration id)).to_iff.trans
      Option.or_eq_some_iff

theorem Holds.loadAll {result : Option Discovered} (holds : Holds fs files found)
    (present : ∀ file ∈ paths, (content? fs file).isSome = true)
    (loaded : (loadAll fs found paths).value = .ok result) : Holds fs (files ++ paths) result := by
  induction paths generalizing files found with
  | nil =>
    obtain rfl := Except.ok.inj loaded
    rwa [List.append_nil]
  | cons file paths ih =>
    obtain ⟨here, others⟩ := List.forall_mem_cons.mp present
    rcases loads_or_fails here with ⟨configuration, loads⟩ | ⟨error, fails⟩
    · rw [loadAll_cons loads] at loaded
      have below := ih (holds.over loads) others loaded
      rwa [List.append_assoc, List.singleton_append] at below
    · rw [loadAll_cons_error fails] at loaded
      cases loaded

section Outcome

variable (present : ∀ file ∈ paths, (content? fs file).isSome = true)

include present

theorem exists_loadAll_iff (found : Option Discovered) :
    (∃ result, (loadAll fs found paths).value = .ok result) ↔
      ∀ file ∈ paths, ∃ configuration, Loads fs file (.ok configuration) := by
  induction paths generalizing found with
  | nil => simp [loadAll]
  | cons file paths ih =>
    obtain ⟨here, others⟩ := List.forall_mem_cons.mp present
    rw [List.forall_mem_cons]
    rcases loads_or_fails here with ⟨configuration, loads⟩ | ⟨error, fails⟩
    · have loaded : ∃ configuration, Loads fs file (.ok configuration) := ⟨configuration, loads⟩
      simp [loadAll_cons loads, ih others, loaded]
    · have unloaded : ¬∃ configuration, Loads fs file (.ok configuration) := by
        rintro ⟨configuration, loaded⟩
        cases fails.unique loaded
      simp [loadAll_cons_error fails, unloaded]

theorem loadAll_eq_error_iff (found : Option Discovered) (error : ConfigurationError) :
    (loadAll fs found paths).value = .error error ↔ ∃ before file after,
      paths = before ++ file :: after ∧
        (∀ earlier ∈ before, ∃ configuration, Loads fs earlier (.ok configuration)) ∧
        Loads fs file (.error error) := by
  induction paths generalizing found with
  | nil => simp [loadAll]
  | cons file paths ih =>
    obtain ⟨here, others⟩ := List.forall_mem_cons.mp present
    rcases loads_or_fails here with ⟨configuration, loads⟩ | ⟨fault, failsHere⟩
    · rw [loadAll_cons loads, ih others]
      constructor
      · rintro ⟨before, failing, after, rfl, earlier, fails⟩
        exact ⟨file :: before, failing, after, rfl,
          List.forall_mem_cons.mpr ⟨⟨configuration, loads⟩, earlier⟩, fails⟩
      · rintro ⟨before, failing, after, split, earlier, fails⟩
        cases before with
        | nil =>
          obtain ⟨rfl, rfl⟩ := List.cons.inj split
          cases loads.unique fails
        | cons first before =>
          obtain ⟨rfl, rfl⟩ := List.cons.inj split
          exact ⟨before, failing, after, rfl, (List.forall_mem_cons.mp earlier).2, fails⟩
    · rw [loadAll_cons_error failsHere]
      constructor
      · intro same
        obtain rfl := Except.error.inj same
        exact ⟨[], file, paths, rfl, List.forall_mem_nil _, failsHere⟩
      · rintro ⟨before, failing, after, split, earlier, fails⟩
        cases before with
        | nil =>
          obtain ⟨rfl, rfl⟩ := List.cons.inj split
          rw [Except.error.inj (failsHere.unique fails)]
        | cons first before =>
          obtain ⟨rfl, rfl⟩ := List.cons.inj split
          obtain ⟨_, loaded⟩ := earlier _ List.mem_cons_self
          cases failsHere.unique loaded

end Outcome

/-- The search for configuration files gives the tables of the files around a directory, those of
nearer files over those of files further out. -/
theorem discover_discovery (fs : FileSystem) (start : Text) :
    Path.Ascent start (Path.ancestors start) ∧
      Discovery fs ((searchOrder fs (Path.ancestors start)).filter (content? fs · |>.isSome))
        (discover fs start).value := by
  refine ⟨Path.ascent_ancestors start, ?_⟩
  have files_eq : (candidates fs start).filter fs.isFile =
      (searchOrder fs (Path.ancestors start)).filter (content? fs · |>.isSome) := by
    rw [candidates_eq, funext (isFile_eq fs)]
  rw [discover, files_eq]
  have present : ∀ file ∈ (searchOrder fs (Path.ancestors start)).filter (content? fs · |>.isSome),
      (content? fs file).isSome = true := fun file member => (List.mem_filter.mp member).2
  generalize (searchOrder fs (Path.ancestors start)).filter (content? fs · |>.isSome) = files at *
  have holds : ∀ {result}, (loadAll fs none files).value = .ok result → Holds fs files result :=
    fun loaded => Holds.loadAll (show Holds fs [] none from rfl) present loaded
  refine ⟨loadAll_eq_error_iff present none, ?_, ?_, ?_⟩
  · constructor
    · intro nothing
      exact holds nothing
    · intro empty
      rw [empty]
      rfl
  · rw [← exists_loadAll_iff present none]
    constructor
    · rintro ⟨found, loaded⟩
      obtain ⟨_, nonempty, _⟩ := holds loaded
      exact ⟨nonempty, some found, loaded⟩
    · rintro ⟨nonempty, result, loaded⟩
      cases result with
      | none => exact absurd (holds loaded) nonempty
      | some found => exact ⟨found, loaded⟩
  · intro found loaded
    obtain ⟨listed, _, tables, valid⟩ := holds loaded
    exact ⟨listed, tables, valid, exists_registry valid⟩

end SourceDocs.Configuration
