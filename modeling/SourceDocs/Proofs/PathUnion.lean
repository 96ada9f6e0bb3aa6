import Mathlib.Data.List.Sort
import SourceDocs.Proofs.PathOrder
import SourceDocs.Proofs.WalkedFiles

/-!
The files that a list of patterns stands for are those of its patterns taken together, each path once
and in ascending order; so neither the order of the patterns nor repeating them matters. Paths are
compared by their components: which spelling of a path is listed may depend on the order of the
patterns, the path itself does not.
-/

namespace SourceDocs

def Path.ComponentsBefore (first second : List Component) : Prop :=
  Path.componentsLe first second = true ∧ first ≠ second

instance : Std.Irrefl Path.ComponentsBefore := ⟨fun _ order => order.2 rfl⟩

instance : Std.Antisymm Path.ComponentsBefore :=
  ⟨fun _ _ order back => absurd (Path.componentsLe_antisymm order.1 back.1) order.2⟩

namespace Ignore.Matcher

theorem verdictWithParents_empty (path : Text) (isDir : Bool) :
    empty.verdictWithParents path isDir = .none := by
  have silent : ∀ path isDir, empty.verdictOn path isDir = .none := fun _ _ => rfl
  simp [verdictWithParents, silent]

end Ignore.Matcher

namespace Expansion

open SourceDocs.Path

variable {fs : FileSystem} {respectIgnore : Bool} {patterns others paths : List Text}
  {pattern path directory : Text}

def Lists (paths : List Text) (path : Text) : Prop :=
  ∃ kept ∈ paths, components kept = components path

theorem lists_iff_mem_map : Lists paths path ↔ components path ∈ paths.map components := by
  rw [Lists, List.mem_map]

/-- Sorting and dropping repeats keeps every path. -/
theorem lists_dropRepeats : Lists (dropRepeats (sortBy le paths)) path ↔ Lists paths path := by
  constructor
  · rintro ⟨kept, member, same⟩
    exact ⟨kept, (sortBy_perm le paths).mem_iff.mp ((dropRepeats_sublist _).subset member), same⟩
  · rintro ⟨kept, member, same⟩
    obtain ⟨spelled, listed, equal⟩ :=
      exists_mem_dropRepeats ((sortBy_perm le paths).mem_iff.mpr member)
    exact ⟨spelled, listed, equal.trans same⟩

/-- The files of a list of patterns are those of its patterns. -/
theorem lists_expand_iff :
    Lists (expand fs respectIgnore patterns).value path ↔
      ∃ pattern ∈ patterns, Lists (ofPattern fs respectIgnore pattern).value path := by
  rw [expand, lists_dropRepeats, List.flatMap_map]
  constructor
  · rintro ⟨kept, member, same⟩
    obtain ⟨pattern, given, listed⟩ := List.mem_flatMap.mp member
    exact ⟨pattern, given, kept, listed, same⟩
  · rintro ⟨pattern, given, kept, listed, same⟩
    exact ⟨kept, List.mem_flatMap.mpr ⟨pattern, given, listed⟩, same⟩

theorem lists_expand_append :
    Lists (expand fs respectIgnore (patterns ++ others)).value path ↔
      Lists (expand fs respectIgnore patterns).value path ∨
        Lists (expand fs respectIgnore others).value path := by
  simp only [lists_expand_iff, List.mem_append, or_and_right, exists_or]

/-- Ascending lists that name the same paths name them in the same order. -/
theorem map_components_eq {first second : List Text} (ascending : first.Pairwise Before)
    (ascendingToo : second.Pairwise Before) (same : ∀ path, Lists first path ↔ Lists second path) :
    first.map components = second.map components := by
  have ordered : ∀ {paths : List Text}, paths.Pairwise Before →
      (paths.map components).Pairwise ComponentsBefore := fun order => List.pairwise_map.mpr order
  apply List.Pairwise.eq_of_mem_iff (ordered ascending) (ordered ascendingToo)
  intro listed
  constructor
  · intro member
    obtain ⟨path, _, rfl⟩ := List.mem_map.mp member
    exact lists_iff_mem_map.mp ((same path).mp (lists_iff_mem_map.mpr member))
  · intro member
    obtain ⟨path, _, rfl⟩ := List.mem_map.mp member
    exact lists_iff_mem_map.mp ((same path).mpr (lists_iff_mem_map.mpr member))

theorem expand_congr (same : ∀ pattern, pattern ∈ patterns ↔ pattern ∈ others) :
    (expand fs respectIgnore patterns).value.map components =
      (expand fs respectIgnore others).value.map components := by
  apply map_components_eq (expand_pairwise _ _ _) (expand_pairwise _ _ _)
  intro path
  simp only [lists_expand_iff, same]

/-- What is kept in spite of some rules is kept without rules. -/
theorem keeps_empty {matcher : Ignore.Matcher} {visit : Node.Visit}
    (kept : keeps matcher visit = true) : keeps .empty visit = true := by
  unfold keeps at kept ⊢
  rw [Bool.and_eq_true] at kept ⊢
  rw [Ignore.Matcher.verdictWithParents_empty]
  exact ⟨kept.1, rfl⟩

theorem filesBelow_subset (fs : FileSystem) (matcher : Ignore.Matcher) (directory : Text) :
    filesBelow fs matcher directory ⊆ filesBelow fs .empty directory := by
  unfold filesBelow
  cases fs.get directory with
  | error error => exact List.Subset.refl _
  | ok node =>
    exact List.map_subset _ (List.filter_subset _ (Node.walk_subset node fun _ => keeps_empty))

/-- Regard for ignore files takes files away and adds none. -/
theorem ofPattern_subset (fs : FileSystem) (pattern : Text) :
    (ofPattern fs true pattern).value ⊆ (ofPattern fs false pattern).value := by
  unfold ofPattern
  split
  next => exact List.Subset.refl _
  next =>
    split
    next => exact filesBelow_subset fs _ pattern
    next => exact List.Subset.refl _

theorem lists_expand_mono (listed : Lists (expand fs true patterns).value path) :
    Lists (expand fs false patterns).value path := by
  rw [lists_expand_iff] at listed ⊢
  obtain ⟨pattern, given, kept, member, same⟩ := listed
  exact ⟨pattern, given, kept, ofPattern_subset fs pattern member, same⟩

section Files

variable (proper : fs.root.Proper)

include proper

theorem hasFile_of_mem_filesBelow {matcher : Ignore.Matcher}
    (member : path ∈ filesBelow fs matcher directory) : fs.HasFile path := by
  unfold filesBelow at member
  cases got : fs.get directory with
  | error error =>
    rw [got] at member
    cases member
  | ok node =>
    rw [got] at member
    obtain ⟨visit, listed, rfl⟩ := List.mem_map.mp member
    obtain ⟨met, plain⟩ := List.mem_filter.mp listed
    have file : visit.isDir = false := by
      simpa using (Bool.and_eq_true_iff.mp plain).1
    exact FileSystem.hasFile_of_mem_walk (FileSystem.proper_of_get proper got) got met file

theorem hasFile_of_mem_ofPattern (member : path ∈ (ofPattern fs respectIgnore pattern).value) :
    fs.HasFile path := by
  unfold ofPattern at member
  split at member
  next =>
    split at member
    next => exact FileSystem.hasFile_of_isFile (List.mem_filter.mp member).2
    next => cases member
  next =>
    split at member
    next => exact hasFile_of_mem_filesBelow proper member
    next =>
      split at member
      next file =>
        obtain rfl := List.mem_singleton.mp member
        exact FileSystem.hasFile_of_isFile file
      next => cases member

theorem hasFile_of_mem_expand (member : path ∈ (expand fs respectIgnore patterns).value) :
    fs.HasFile path := by
  have sorted := (dropRepeats_sublist _).subset member
  rw [(sortBy_perm _ _).mem_iff, List.flatMap_map] at sorted
  obtain ⟨pattern, _, listed⟩ := List.mem_flatMap.mp sorted
  exact hasFile_of_mem_ofPattern proper listed

end Files

/-- Expanding patterns gives the paths of all of them together, each once, in ascending order; in
which order and how often a pattern is given does not matter. Regard for ignore files only takes paths
away, and every path of a proper file system is that of a file. -/
theorem expand_union (fs : FileSystem) (respectIgnore : Bool) (patterns others : List Text) :
    (expand fs respectIgnore (patterns ++ others)).value.Pairwise Before ∧
    (∀ path, Lists (expand fs respectIgnore (patterns ++ others)).value path ↔
      Lists (expand fs respectIgnore patterns).value path ∨
        Lists (expand fs respectIgnore others).value path) ∧
    ((∀ pattern, pattern ∈ patterns ↔ pattern ∈ others) →
      (expand fs respectIgnore patterns).value.map components =
        (expand fs respectIgnore others).value.map components) ∧
    (∀ path, Lists (expand fs true patterns).value path →
      Lists (expand fs false patterns).value path) ∧
    (fs.root.Proper → ∀ path ∈ (expand fs respectIgnore patterns).value, fs.HasFile path) :=
  ⟨expand_pairwise fs respectIgnore _, fun _ => lists_expand_append, expand_congr,
    fun _ => lists_expand_mono, fun proper _ => hasFile_of_mem_expand proper⟩

def halfHidden : FileSystem :=
  ⟨.dir [("a.c".toList, .file "int a;\n".toUTF8),
    ("d".toList, .dir [(Ignore.fileName, .file "b.c\n".toUTF8),
      ("b.c".toList, .file "int b;\n".toUTF8), ("c.c".toList, .file "int c;\n".toUTF8)])],
    [], none⟩

/-- Two spellings of a directory, a file by its name and by a wildcard. -/
theorem expand_union_halfHidden :
    halfHidden.root.Proper ∧
      (expand halfHidden true (["d".toList, "a.c".toList] ++ ["?.c".toList, "d/.".toList])).value =
        ["a.c".toList, "d/c.c".toList] ∧
      (expand halfHidden false ["d".toList, "a.c".toList]).value =
        ["a.c".toList, "d/b.c".toList, "d/c.c".toList] ∧
      (expand halfHidden false ["d".toList, "a.c".toList]).value.map components =
        (expand halfHidden false ["a.c".toList, "d".toList, "a.c".toList]).value.map components ∧
      halfHidden.HasFile "d/c.c".toList := by
  have proper : halfHidden.root.Proper := by
    refine .dir (by decide) (by decide) ?_
    simp only [List.forall_mem_cons]
    refine ⟨.file _, .dir (by decide) (by decide) ?_, nofun⟩
    simp only [List.forall_mem_cons]
    exact ⟨.file _, .file _, .file _, nofun⟩
  have listed : (expand halfHidden true (["d".toList, "a.c".toList] ++
      ["?.c".toList, "d/.".toList])).value = ["a.c".toList, "d/c.c".toList] := by decide +kernel
  obtain ⟨_, _, _, _, files⟩ :=
    expand_union halfHidden true (["d".toList, "a.c".toList] ++ ["?.c".toList, "d/.".toList]) []
  obtain ⟨_, _, unordered, _⟩ :=
    expand_union halfHidden false ["d".toList, "a.c".toList] ["a.c".toList, "d".toList, "a.c".toList]
  refine ⟨proper, listed, by decide +kernel, unordered ?_, files proper _ ?_⟩
  · intro pattern
    grind
  · rw [listed]
    decide

end Expansion

end SourceDocs
