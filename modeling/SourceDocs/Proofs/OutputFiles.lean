import SourceDocs.CommandLine.Run
import SourceDocs.Proofs.Joining
import SourceDocs.Proofs.PathOrder

/-!
Where the renderings of a run are afterwards. A rendering goes to the names of its source below the
output directory, so the steps back and the start of a source path are lost: of the sources with the
same names, the one that is given out last is found. When the source paths start alike and never step
back, every source has a file of its own.
-/

namespace SourceDocs.CommandLine

variable {fs : FileSystem} {arguments : ProcessArguments} {session : Session}
  {directory path : Text} {document : Document} {tally : Tally}

namespace Session

theorem fs_foldl_complain (lines : List String) (session : Session) :
    (lines.foldl (fun session line => session.complain line) session).fs = session.fs := by
  induction lines generalizing session with
  | nil => rfl
  | cons line lines ih => exact ih _

@[simp] theorem fs_report (lines : List LogLine) (session : Session) :
    (session.report lines).fs = session.fs := fs_foldl_complain _ _

@[simp] theorem fs_inform (message : String) (session : Session) :
    (session.inform message).fs = session.fs := fs_report _ _

end Session

theorem isName_extension (format : Format) : Path.IsName ('.' :: format.extension) := by
  cases format <;> decide

/-- The target of a source has the components of the output directory and then names only: those of the
source, the last one with the extension of the format behind it. Two sources have the same target, as a
text and as a path, if they have the same names and only then. -/
theorem output_stays_below (directory source other : Text) (format : Format) :
    Path.components (Path.output directory source format.extension) =
        Path.components directory ++ ((Path.names source).dropLast ++
          [(Path.names source).getLastD [] ++ '.' :: format.extension]).map .normal ∧
      (Path.output directory source format.extension =
          Path.output directory other format.extension ↔
        Path.names source = Path.names other) ∧
      (Path.same (Path.output directory source format.extension)
          (Path.output directory other format.extension) = true ↔
        Path.names source = Path.names other) := by
  have suffix := isName_extension format
  refine ⟨?_, Path.output_eq_iff suffix, ?_⟩
  · rw [Path.components_output suffix, Path.targetNames_eq]
  · rw [Path.same_iff]
    exact Path.components_output_eq_iff suffix

example : Path.output "/out/".toList "/./a//../b.c/.".toList Format.json.extension =
      "/out/a/b.c.json".toList ∧
    Path.output "out".toList "../..".toList Format.markdown.extension = "out/.md".toList := by
  decide

theorem mapError_eq_ok {α ε δ : Type} {report : ε → δ} {result : Except ε α} {a : α}
    (success : result.mapError report = .ok a) : result = .ok a := by
  cases result with
  | error error => cases success
  | ok value => exact congrArg Except.ok (Except.ok.inj success)

/-- What is written to a file is found there, and every other file is left as it was. -/
theorem writeFile_eq_ok {written : FileSystem} {content : ByteArray} {writing : String}
    (success : writeFile fs path content writing = .ok written) :
    ∃ place, written.locate path = .ok place ∧
      written.root.find? place = some (.file content) ∧ fs.Keeps (· ≠ place) written := by
  -- the parents are made first, which changes no file
  have split : ∃ prepared, fs.Keeps (fun _ => True) prepared ∧
      prepared.write path content = .ok written := by
    unfold writeFile at success
    cases above : Path.parent? path with
    | none =>
      rw [above] at success
      exact ⟨fs, .refl _ fs, mapError_eq_ok success⟩
    | some parent =>
      rw [above] at success
      dsimp only at success
      cases makes : fs.makeDirAll parent with
      | error error =>
        rw [makes] at success
        cases success
      | ok prepared =>
        rw [makes] at success
        exact ⟨prepared, FileSystem.makeDirs_keeps makes, mapError_eq_ok success⟩
  obtain ⟨prepared, keeps, wrote⟩ := split
  obtain ⟨place, leads, found, others⟩ := FileSystem.write_eq_ok wrote
  exact ⟨place, leads, found, (keeps.weaken fun _ _ => trivial).trans others⟩

def target (arguments : ProcessArguments) (directory path : Text) : Text :=
  Path.output directory path arguments.format.extension

theorem target_congr {first second : Text} (same : Path.names first = Path.names second) :
    target arguments directory first = target arguments directory second :=
  Path.output_congr same directory arguments.format.extension

section Emit

variable {after : Session} (into : arguments.outputDirectory = some directory)
  (emitted : emit arguments path document session = .ok after)

include into emitted

theorem emit_eq_ok :
    ∃ place, after.fs.locate (target arguments directory path) = .ok place ∧
      after.fs.root.find? place = some (.file (rendering arguments path document).toUTF8) ∧
      session.fs.Keeps (· ≠ place) after.fs := by
  unfold emit at emitted
  rw [into] at emitted
  dsimp only at emitted
  cases wrote : writeFile session.fs (target arguments directory path)
      (rendering arguments path document).toUTF8 "Failed to write" with
  | error message =>
    rw [← target, wrote] at emitted
    cases emitted
  | ok written =>
    rw [← target, wrote] at emitted
    obtain rfl := Except.ok.inj emitted
    rw [Session.fs_inform]
    exact writeFile_eq_ok wrote

theorem readBytes_emit :
    after.fs.readBytes (target arguments directory path) =
      .ok (rendering arguments path document).toUTF8 := by
  obtain ⟨place, leads, found, _⟩ := emit_eq_ok into emitted
  exact FileSystem.readBytes_eq_ok_iff.mpr ⟨place, leads, found⟩

/-- A rendering that was given out stays, unless its source has the same names. -/
theorem readBytes_emit_other {other : Text} {content : ByteArray}
    (different : Path.names path ≠ Path.names other)
    (held : session.fs.readBytes (target arguments directory other) = .ok content) :
    after.fs.readBytes (target arguments directory other) = .ok content := by
  obtain ⟨place, leads, _, keeps⟩ := emit_eq_ok into emitted
  refine keeps.readBytes ?_ held
  rintro _ otherLeads rfl
  exact different (FileSystem.names_eq_of_locate_output (isName_extension arguments.format) leads
    (keeps.locate otherLeads))

end Emit

namespace Tally

def addAll (arguments : ProcessArguments) (tally : Tally)
    (results : List (Text × Logged (Except FileFailure Document))) : Tally :=
  results.foldl (fun (tally : Tally) (path, result) => tally.add arguments path result.value) tally

theorem failures_le_add (arguments : ProcessArguments) (tally : Tally) (path : Text)
    (result : Except FileFailure Document) :
    tally.failures ≤ (tally.add arguments path result).failures := by
  unfold add
  split
  · exact Nat.le_succ _
  · dsimp only
    split
    · exact Nat.le_refl _
    · exact Nat.le_succ _

theorem failures_le_addAll (arguments : ProcessArguments) (tally : Tally)
    (results : List (Text × Logged (Except FileFailure Document))) :
    tally.failures ≤ (tally.addAll arguments results).failures := by
  induction results generalizing tally with
  | nil => exact Nat.le_refl _
  | cons entry results ih => exact Nat.le_trans (failures_le_add _ _ _ _) (ih _)

/-- Without a new failure the file was segmented and its rendering given out. -/
theorem add_of_failures_le {result : Except FileFailure Document}
    (clean : (tally.add arguments path result).failures ≤ tally.failures) :
    ∃ document, result = .ok document ∧
      emit arguments path document tally.session =
        .ok (tally.add arguments path result).session := by
  unfold add at clean ⊢
  split at clean
  next => exact absurd clean (Nat.not_succ_le_self _)
  next document =>
    dsimp only at clean ⊢
    split at clean
    next after emitted => exact ⟨document, rfl, by simp [emitted]⟩
    next => exact absurd clean (Nat.not_succ_le_self _)

/-- After giving out results without a failure, the target of a path holds the rendering of the last
source with the names of the path, or what it held before if there is none. -/
theorem readBytes_addAll {results : List (Text × Logged (Except FileFailure Document))}
    (into : arguments.outputDirectory = some directory)
    (clean : (tally.addAll arguments results).failures ≤ tally.failures) :
    (∀ entry ∈ results, ∃ document, entry.2.value = .ok document) ∧
    ∀ path, match results.reverse.find? (Path.names ·.1 = Path.names path) with
      | some entry => ∀ document, entry.2.value = .ok document →
        (tally.addAll arguments results).session.fs.readBytes (target arguments directory path) =
          .ok (rendering arguments entry.1 document).toUTF8
      | none => ∀ content,
        tally.session.fs.readBytes (target arguments directory path) = .ok content →
        (tally.addAll arguments results).session.fs.readBytes (target arguments directory path) =
          .ok content := by
  induction results generalizing tally with
  | nil => exact ⟨nofun, fun path content held => held⟩
  | cons entry results ih =>
    obtain ⟨source, result⟩ := entry
    -- a failure on the way would be counted at the end
    have here : (tally.add arguments source result.value).failures ≤ tally.failures :=
      Nat.le_trans (failures_le_addAll arguments _ results) clean
    have behind : ((tally.add arguments source result.value).addAll arguments results).failures ≤
        (tally.add arguments source result.value).failures :=
      Nat.le_trans clean (failures_le_add arguments tally source result.value)
    obtain ⟨document, segmented, emitted⟩ := add_of_failures_le here
    obtain ⟨others, held⟩ := ih behind
    refine ⟨List.forall_mem_cons.mpr ⟨⟨document, segmented⟩, others⟩, ?_⟩
    intro path
    have later := held path
    rw [List.reverse_cons, List.find?_append]
    cases found : results.reverse.find? (Path.names ·.1 = Path.names path) with
    | some entry =>
      rw [found] at later
      exact later
    | none =>
      rw [found] at later
      by_cases same : Path.names source = Path.names path
      · simp only [Option.none_or, List.find?_singleton, same, decide_true, if_true]
        intro other equal
        obtain rfl := Except.ok.inj (segmented.symm.trans equal)
        apply later
        rw [← target_congr same]
        exact readBytes_emit into emitted
      · simp only [Option.none_or, List.find?_singleton, same, decide_false]
        intro content before
        exact later content (readBytes_emit_other into emitted same before)

end Tally

def processed (registry : Registry) (arguments : ProcessArguments) (fs : FileSystem) : List Text :=
  (Expansion.expand fs (!arguments.noGitignore) arguments.paths).value.filter
    (supported registry arguments)

def results (registry : Registry) (arguments : ProcessArguments) (fs : FileSystem) :
    List (Text × Logged (Except FileFailure Document)) :=
  (processed registry arguments fs).map fun path =>
    (path, registry.segmentFile fs arguments.language path)

/-- A run over files that succeeds has given out all results without a failure. -/
theorem runFiles_eq_addAll {registry : Registry} {threads : Nat}
    (succeeds : (runFiles registry arguments threads session).exitCode = 0) :
    ∃ tally : Tally, tally.session.fs = session.fs ∧
      (tally.addAll arguments (results registry arguments session.fs)).failures ≤ tally.failures ∧
      (runFiles registry arguments threads session).session.fs =
        (tally.addAll arguments (results registry arguments session.fs)).session.fs := by
  unfold runFiles at succeeds ⊢
  simp only [Session.fs_report, Session.fs_inform] at succeeds ⊢
  split at succeeds
  next nothing =>
    rw [if_pos nothing]
    have empty : results registry arguments session.fs = [] :=
      List.map_eq_nil_iff.mpr (List.isEmpty_iff.mp nothing)
    refine ⟨⟨session, 0, 0⟩, rfl, ?_, ?_⟩
    · rw [empty]
      exact Nat.le_refl 0
    · rw [empty]
      simp only [Session.complain, Session.fs_report, Tally.addAll, List.foldl_nil]
  next some =>
    rw [if_neg some]
    dsimp only at succeeds ⊢
    split at succeeds
    next clean =>
      refine ⟨⟨_, 0, 0⟩, ?_, Nat.le_of_eq clean, ?_⟩
      · simp only [Session.fs_report, Session.fs_inform]
      · split <;> rfl
    next => cases succeeds

/-- A run that succeeds has a registry and has worked on files with it. -/
theorem runProcess_eq_runFiles {processors : Nat}
    (succeeds : (runProcess fs processors arguments).exitCode = 0) :
    ∃ registry, (loadRegistry fs arguments.configuration).value = .ok registry ∧
      ∃ threads session, session.fs = fs ∧
        runProcess fs processors arguments = runFiles registry arguments threads session := by
  unfold runProcess at succeeds ⊢
  dsimp only at succeeds ⊢
  split at succeeds
  next => cases succeeds
  next given =>
    rw [if_neg given]
    cases loaded : (loadRegistry fs arguments.configuration).value with
    | error message =>
      rw [loaded] at succeeds
      cases succeeds
    | ok registry =>
      rw [loaded] at succeeds
      dsimp only at succeeds ⊢
      split at succeeds
      next => cases succeeds
      next known => exact ⟨registry, rfl, _, _, Session.fs_report _ _, rfl⟩

def Holds (registry : Registry) (arguments : ProcessArguments) (fs : FileSystem) (directory : Text)
    (after : FileSystem) (path source : Text) : Prop :=
  ∃ document, (registry.segmentFile fs arguments.language source).value = .ok document ∧
    after.readBytes (target arguments directory path) =
      .ok (rendering arguments source document).toUTF8

instance {registry : Registry} {after : FileSystem} {source : Text} :
    Decidable (Holds registry arguments fs directory after path source) :=
  -- named, because a second one may be in scope
  letI : DecidableEq ByteArray := ByteArray.instDecidableEq
  match segmented : (registry.segmentFile fs arguments.language source).value with
  | .error _ => isFalse fun ⟨_, value, _⟩ => nomatch segmented.symm.trans value
  | .ok document =>
    decidable_of_iff (after.readBytes (target arguments directory path) =
        .ok (rendering arguments source document).toUTF8)
      ⟨fun held => ⟨document, segmented, held⟩,
        fun ⟨_, value, held⟩ => Except.ok.inj (segmented.symm.trans value) ▸ held⟩

/-- Of the sources of a run with the names of a path, the last one is found at the target. -/
theorem runFiles_holds {registry : Registry} {threads : Nat}
    (into : arguments.outputDirectory = some directory)
    (succeeds : (runFiles registry arguments threads session).exitCode = 0)
    (member : path ∈ processed registry arguments session.fs) :
    ∃ source, (processed registry arguments session.fs).reverse.find?
        (Path.names · = Path.names path) = some source ∧
      Holds registry arguments session.fs directory
        (runFiles registry arguments threads session).session.fs path source := by
  obtain ⟨tally, _, clean, after⟩ := runFiles_eq_addAll succeeds
  obtain ⟨segmented, held⟩ := Tally.readBytes_addAll into clean
  have listed : ((processed registry arguments session.fs).reverse.find?
      (Path.names · = Path.names path)).isSome := by
    rw [List.find?_isSome]
    exact ⟨path, List.mem_reverse.mpr member, decide_eq_true rfl⟩
  obtain ⟨source, found⟩ := Option.isSome_iff_exists.mp listed
  have sourceMember := List.mem_reverse.mp (List.mem_of_find?_eq_some found)
  obtain ⟨document, value⟩ := segmented _ (List.mem_map_of_mem sourceMember)
  have last := held path
  rw [results, ← List.map_reverse, List.find?_map, Function.comp_def, found] at last
  refine ⟨source, found, document, value, ?_⟩
  rw [after]
  exact last document value

theorem eq_of_straight {registry : Registry} {first second : Text}
    (straight : Path.Straight (processed registry arguments fs))
    (firstMember : first ∈ processed registry arguments fs)
    (secondMember : second ∈ processed registry arguments fs)
    (same : target arguments directory first = target arguments directory second) :
    first = second := by
  have named := (Path.output_eq_iff (isName_extension arguments.format)).mp same
  exact Expansion.eq_of_mem_expand (List.mem_of_mem_filter firstMember)
    (List.mem_of_mem_filter secondMember)
    (straight.components_eq firstMember secondMember named)

theorem processed_nodup (registry : Registry) (arguments : ProcessArguments) (fs : FileSystem) :
    (processed registry arguments fs).Nodup := by
  have ascending := Expansion.expand_pairwise fs (!arguments.noGitignore) arguments.paths
  have distinct := ascending.imp fun before => mt (congrArg Path.components) before.2
  exact distinct.filter _

/-- After a run that succeeds, the target of every source holds the rendering of the last source with
the same names. So every source that shares its target with no other source is found there. These are
all of them when the source paths start alike and never step back. -/
theorem runProcess_holds {processors : Nat}
    (into : arguments.outputDirectory = some directory)
    (succeeds : (runProcess fs processors arguments).exitCode = 0) :
    ∃ registry, (loadRegistry fs arguments.configuration).value = .ok registry ∧
      (∀ path ∈ processed registry arguments fs,
        (∃ source, (processed registry arguments fs).reverse.find?
            (Path.names · = Path.names path) = some source ∧
          Holds registry arguments fs directory
            (runProcess fs processors arguments).session.fs path source) ∧
        ((∀ other ∈ processed registry arguments fs,
            target arguments directory other = target arguments directory path → other = path) →
          Holds registry arguments fs directory
            (runProcess fs processors arguments).session.fs path path)) ∧
      (Path.Straight (processed registry arguments fs) →
        ((processed registry arguments fs).map (target arguments directory)).Nodup ∧
        ∀ path ∈ processed registry arguments fs,
          Holds registry arguments fs directory
            (runProcess fs processors arguments).session.fs path path) := by
  obtain ⟨registry, loaded, threads, session, rfl, files⟩ := runProcess_eq_runFiles succeeds
  rw [files] at succeeds ⊢
  have last : ∀ path ∈ processed registry arguments session.fs, _ :=
    fun path member => runFiles_holds into succeeds member
  have alone : ∀ path ∈ processed registry arguments session.fs,
      (∀ other ∈ processed registry arguments session.fs,
        target arguments directory other = target arguments directory path → other = path) →
      Holds registry arguments session.fs directory
        (runFiles registry arguments threads session).session.fs path path := by
    intro path member unique
    obtain ⟨source, found, holds⟩ := last path member
    have sourceMember := List.mem_reverse.mp (List.mem_of_find?_eq_some found)
    have same := List.find?_some found
    have equal := unique source sourceMember (target_congr (of_decide_eq_true same))
    exact equal ▸ holds
  refine ⟨registry, loaded, fun path member => ⟨last path member, alone path member⟩, ?_⟩
  intro straight
  refine ⟨(processed_nodup registry arguments session.fs).map_on ?_, ?_⟩
  · intro first firstMember second secondMember same
    exact eq_of_straight straight firstMember secondMember same
  · intro path member
    exact alone path member fun other otherMember same =>
      eq_of_straight straight otherMember member same

def namesakes : FileSystem :=
  ⟨.dir [("a.c".toList, .file "int a;\n".toUTF8),
    ("c.toml".toList, .file ("[languages.c]\nname = \"C\"\nextensions = [\"c\"]\n" ++
      "line_comments = [\"//\"]\n").toUTF8),
    ("src".toList, .dir [("a.c".toList, .file "int b;\n".toUTF8)])], [], none⟩

def intoDirectory (paths : List String) : ProcessArguments :=
  ⟨paths.map String.toList, none, some "c.toml".toList, .markdown, some "out".toList, false, none,
    false⟩

theorem runProcess_holds_namesakes :
    (intoDirectory ["src", "a.c"]).outputDirectory = some "out".toList ∧
    (runProcess namesakes 1 (intoDirectory ["src", "a.c"])).exitCode = 0 ∧
    ∃ registry, (loadRegistry namesakes (some "c.toml".toList)).value = .ok registry ∧
      processed registry (intoDirectory ["src", "a.c"]) namesakes =
        ["a.c".toList, "src/a.c".toList] ∧
      Path.Straight (processed registry (intoDirectory ["src", "a.c"]) namesakes) ∧
      ∀ path ∈ processed registry (intoDirectory ["src", "a.c"]) namesakes,
        Holds registry (intoDirectory ["src", "a.c"]) namesakes "out".toList
          (runProcess namesakes 1 (intoDirectory ["src", "a.c"])).session.fs path path := by
  have into : (intoDirectory ["src", "a.c"]).outputDirectory = some "out".toList := rfl
  have succeeds : (runProcess namesakes 1 (intoDirectory ["src", "a.c"])).exitCode = 0 := by
    decide +kernel
  have expanded : ∀ registry ∈ (loadRegistry namesakes (some "c.toml".toList)).value.toOption,
      processed registry (intoDirectory ["src", "a.c"]) namesakes =
        ["a.c".toList, "src/a.c".toList] := by
    decide +kernel
  obtain ⟨registry, loaded, _, found⟩ := runProcess_holds into succeeds
  have paths := expanded registry (congrArg Except.toOption loaded)
  have straight : Path.Straight (processed registry (intoDirectory ["src", "a.c"]) namesakes) := by
    rw [paths]
    decide +kernel
  exact ⟨into, succeeds, registry, loaded, paths, straight, (found straight).2⟩

/-- A step back is not kept in the target: of two sources that differ by it alone, only one is found
after a run that succeeds. -/
theorem runProcess_overwrites :
    (runProcess namesakes 1 (intoDirectory ["src/../a.c", "src/a.c"])).exitCode = 0 ∧
    ∃ registry ∈ (loadRegistry namesakes (some "c.toml".toList)).value.toOption,
      processed registry (intoDirectory ["src/../a.c", "src/a.c"]) namesakes =
        ["src/../a.c".toList, "src/a.c".toList] ∧
      target (intoDirectory ["src/../a.c", "src/a.c"]) "out".toList "src/../a.c".toList =
        target (intoDirectory ["src/../a.c", "src/a.c"]) "out".toList "src/a.c".toList ∧
      ¬ Holds registry (intoDirectory ["src/../a.c", "src/a.c"]) namesakes "out".toList
        (runProcess namesakes 1 (intoDirectory ["src/../a.c", "src/a.c"])).session.fs
        "src/../a.c".toList "src/../a.c".toList := by
  decide +kernel

end SourceDocs.CommandLine
