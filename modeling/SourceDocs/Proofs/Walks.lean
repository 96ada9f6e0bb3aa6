import Mathlib.Data.List.Basic
import SourceDocs.Proofs.Variants

/-!
Walks through trees. Every entry that a walk meets has a path that goes on from the start by names,
so entries with different names have different paths. When two trees differ in one file, and two walks
agree on what is not below some directory that holds it, then they meet the same outside of it.
-/

namespace SourceDocs

def Path.Within (directory path : Text) : Prop :=
  Path.components directory <+: Path.components path

instance (directory path : Text) : Decidable (Path.Within directory path) :=
  inferInstanceAs (Decidable (_ <+: _))

namespace Node

variable {keep other : Visit → Bool} {path name : Text} {node : Node}
  {entries : List (Text × Node)} {visit : Visit}

theorem walkEntries_eq (keep : Visit → Bool) (path : Text) (entries : List (Text × Node)) :
    walkEntries keep path entries =
      entries.flatMap fun entry => walk keep (Path.join path entry.1) entry.1 entry.2 := by
  induction entries with
  | nil => rfl
  | cons entry entries ih => rw [walkEntries, ih, List.flatMap_cons]

theorem walkEntries_append (keep : Visit → Bool) (path : Text) (front back : List (Text × Node)) :
    walkEntries keep path (front ++ back) =
      walkEntries keep path front ++ walkEntries keep path back := by
  simp only [walkEntries_eq, List.flatMap_append]

theorem walkEntries_singleton (keep : Visit → Bool) (path name : Text) (node : Node) :
    walkEntries keep path [(name, node)] = node.walk keep (Path.join path name) name := by
  simp [walkEntries_eq]

/-- The entries that a walk goes on to from a directory: none if the path of the directory is refused. -/
def opened (path : Text) (entries : List (Text × Node)) : List (Text × Node) :=
  if (FileSystem.checkPath path).isOk then entries else []

theorem mem_of_mem_opened {entry : Text × Node} (member : entry ∈ opened path entries) :
    entry ∈ entries := by
  unfold opened at member
  split at member
  · exact member
  · cases member

theorem walk_dir (keep : Visit → Bool) (path name : Text) (entries : List (Text × Node)) :
    (dir entries).walk keep path name =
      if keep ⟨path, name, true⟩ then
        ⟨path, name, true⟩ :: walkEntries keep path (opened path entries)
      else [] := by
  rw [walk, opened, apply_ite (walkEntries keep path)]
  rfl

theorem walk_refused (refused : ¬(FileSystem.checkPath path).isOk = true) (name : Text)
    (entries : List (Text × Node)) :
    (dir entries).walk (fun _ => true) path name = [⟨path, name, true⟩] := by
  rw [walk_dir, opened, if_neg refused]
  rfl

/-- A walk goes on from its start by names. -/
theorem mem_walk (named : node.Named) (member : visit ∈ node.walk keep path name) :
    ∃ names : List Text, (∀ name ∈ names, Path.IsName name) ∧
      visit.path = names.foldl Path.join path := by
  induction named generalizing path name with
  | file content =>
    rw [walk] at member
    split at member
    · obtain rfl := List.mem_singleton.mp member
      exact ⟨[], nofun, rfl⟩
    · cases member
  | dir names _ ih =>
    rw [walk_dir] at member
    split at member
    · rcases List.mem_cons.mp member with rfl | member
      · exact ⟨[], nofun, rfl⟩
      · rw [walkEntries_eq, List.mem_flatMap] at member
        obtain ⟨entry, there, below⟩ := member
        have listed := mem_of_mem_opened there
        obtain ⟨further, proper, leads⟩ := ih entry listed below
        exact ⟨entry.1 :: further, List.forall_mem_cons.mpr ⟨names entry listed, proper⟩, leads⟩
    · cases member

theorem components_of_mem_walk (named : node.Named) (member : visit ∈ node.walk keep path name) :
    ∃ names : List Text,
      Path.components visit.path = Path.components path ++ names.map .normal := by
  obtain ⟨names, proper, leads⟩ := mem_walk named member
  exact ⟨names, by rw [leads, Path.components_foldl_join proper]⟩

/-- Below a directory, a walk goes through the name of an entry. -/
theorem components_of_mem_walkEntries
    (named : ∀ entry ∈ entries, Path.IsName entry.1 ∧ entry.2.Named)
    (member : visit ∈ walkEntries keep path entries) :
    ∃ entry ∈ entries, ∃ names : List Text, Path.components visit.path =
      Path.components path ++ (entry.1 :: names).map .normal := by
  rw [walkEntries_eq, List.mem_flatMap] at member
  obtain ⟨entry, listed, below⟩ := member
  obtain ⟨proper, inner⟩ := named entry listed
  obtain ⟨names, further⟩ := components_of_mem_walk inner below
  refine ⟨entry, listed, names, ?_⟩
  rw [further, Path.components_join_name path proper, List.append_assoc]
  rfl

theorem walkEntries_congr
    (each : ∀ entry ∈ entries, ∀ {path name},
      (∀ visit ∈ entry.2.walk (fun _ => true) path name, keep visit = other visit) →
        entry.2.walk keep path name = entry.2.walk other path name)
    (agree : ∀ visit ∈ walkEntries (fun _ => true) path entries, keep visit = other visit) :
    walkEntries keep path entries = walkEntries other path entries := by
  rw [walkEntries_eq] at agree
  rw [walkEntries_eq, walkEntries_eq]
  apply List.flatMap_congr
  intro entry listed
  apply each entry listed
  intro visit member
  exact agree visit (List.mem_flatMap.mpr ⟨entry, listed, member⟩)

/-- Walks that agree on all entries of a tree are the same. -/
theorem walk_congr (named : node.Named)
    (agree : ∀ visit ∈ node.walk (fun _ => true) path name, keep visit = other visit) :
    node.walk keep path name = node.walk other path name := by
  induction named generalizing path name with
  | file content => rw [walk, walk, agree _ (by simp [walk])]
  | dir _ _ ih =>
    rw [walk_dir, if_pos rfl] at agree
    obtain ⟨here, below⟩ := List.forall_mem_cons.mp agree
    rw [walk_dir, walk_dir, here,
      walkEntries_congr (fun entry there => ih entry (mem_of_mem_opened there)) below]

section Variants

variable {first second : Option ByteArray} {variant : Node} {next last : Text} {sub : List Text}

theorem within_of_mem_walk (named : node.Named) (member : visit ∈ node.walk keep path name) :
    Path.Within path visit.path := by
  obtain ⟨names, further⟩ := components_of_mem_walk named member
  exact ⟨names.map .normal, further.symm⟩

theorem not_within_start (proper : ∀ name ∈ next :: sub, Path.IsName name) (path : Text) :
    ¬Path.Within ((next :: sub).foldl Path.join path) path := by
  rw [Path.Within, Path.components_foldl_join proper]
  intro begins
  have shorter := begins.length_le
  rw [List.length_append, List.length_map, List.length_cons] at shorter
  omega

/-- Entries with another name are outside. -/
theorem not_within_of_mem_walkEntries
    (named : ∀ entry ∈ entries, Path.IsName entry.1 ∧ entry.2.Named)
    (proper : ∀ name ∈ next :: sub, Path.IsName name) (fresh : ∀ entry ∈ entries, entry.1 ≠ next)
    (member : visit ∈ walkEntries keep path entries) :
    ¬Path.Within ((next :: sub).foldl Path.join path) visit.path := by
  obtain ⟨entry, listed, names, further⟩ := components_of_mem_walkEntries named member
  rw [Path.Within, Path.components_foldl_join proper, further, List.prefix_append_right_inj]
  intro begins
  have same := (List.cons_prefix_cons.mp begins).1
  exact fresh entry listed (Component.normal.inj same).symm

theorem walkEntries_eq_of_agree (named : ∀ entry ∈ entries, Path.IsName entry.1 ∧ entry.2.Named)
    (proper : ∀ name ∈ next :: sub, Path.IsName name) (fresh : ∀ entry ∈ entries, entry.1 ≠ next)
    (agree : ∀ visit ∈ walkEntries (fun _ => true) path entries,
      ¬Path.Within ((next :: sub).foldl Path.join path) visit.path → keep visit = other visit) :
    walkEntries keep path entries = walkEntries other path entries := by
  refine walkEntries_congr (fun entry listed => walk_congr (named entry listed).2) ?_
  intro visit member
  exact agree visit member (not_within_of_mem_walkEntries named proper fresh member)

/-- Two walks through trees that differ in one file meet the same outside of a directory that holds
it, if they agree there. -/
theorem filter_walk (differ : DifferAt first second (sub ++ [last]) node variant)
    (named : node.Named) (proper : Path.IsName last)
    (agree : ∀ visit ∈ node.walk (fun _ => true) path name,
      ¬Path.Within (sub.foldl Path.join path) visit.path → keep visit = other visit) :
    (node.walk keep path name).filter (¬Path.Within (sub.foldl Path.join path) ·.path) =
      (variant.walk other path name).filter (¬Path.Within (sub.foldl Path.join path) ·.path) := by
  induction sub generalizing node variant path name with
  | nil =>
    -- everything is inside
    have namedToo := differ.named (List.forall_mem_singleton.mpr proper) named
    have inside : ∀ {node : Node} {keep}, node.Named →
        (node.walk keep path name).filter (¬Path.Within path ·.path) = [] := by
      intro node keep named
      rw [List.filter_eq_nil_iff]
      intro visit member
      simpa using within_of_mem_walk named member
    exact (inside named).trans (inside namedToo).symm
  | cons next sub ih =>
    have ways := differ.isName named
    obtain ⟨front, back, child, inner, fresh, rfl, rfl, below⟩ :=
      differ.exists_within (List.concat_ne_nil _ _)
    simp only [named_dir_iff, List.forall_mem_append, List.forall_mem_singleton] at named
    obtain ⟨namedFront, ⟨_, namedChild⟩, namedBack⟩ := named
    obtain ⟨freshFront, freshBack⟩ := List.forall_mem_append.mp fresh
    rw [walk_dir, if_pos rfl, List.forall_mem_cons] at agree
    obtain ⟨agreeHere, agree⟩ := agree
    rw [walk_dir, walk_dir, agreeHere (not_within_start ways path)]
    by_cases opens : (FileSystem.checkPath path).isOk = true
    · simp only [opened, opens, if_true, walkEntries_append, walkEntries_singleton,
        List.forall_mem_append] at agree ⊢
      obtain ⟨agreeFront, agreeChild, agreeBack⟩ := agree
      split
      · simp only [List.filter_cons, List.filter_append,
          walkEntries_eq_of_agree namedFront ways freshFront agreeFront,
          walkEntries_eq_of_agree namedBack ways freshBack agreeBack]
        rw [List.foldl_cons, ih below namedChild agreeChild]
      · rfl
    · simp only [opened, opens, Bool.false_eq_true, if_false]
      rfl

def fileVisit (path name : Text) (content : Option ByteArray) : List Visit :=
  (content.map fun _ => ⟨path, name, false⟩).toList

theorem walkEntries_fileEntry (path name : Text) (content : Option ByteArray) :
    walkEntries (fun _ => true) path (fileEntry name content) =
      fileVisit (Path.join path name) name content := by
  cases content <;> simp [fileEntry, fileVisit, walkEntries_eq, walk]

/-- Walks through all of two trees that differ in one file differ in the visit of that file, if they
reach it. -/
theorem exists_walk_eq (differ : DifferAt first second (sub ++ [last]) node variant)
    (named : node.Named) (proper : Path.IsName last) (path name : Text) :
    ∃ front back, ∃ reached : Bool,
      (∀ visit ∈ front ++ back,
        ¬Path.Within ((sub ++ [last]).foldl Path.join path) visit.path) ∧
      node.walk (fun _ => true) path name = front ++ ((if reached then
        fileVisit ((sub ++ [last]).foldl Path.join path) last first else []) ++ back) ∧
      variant.walk (fun _ => true) path name = front ++ ((if reached then
        fileVisit ((sub ++ [last]).foldl Path.join path) last second else []) ++ back) := by
  induction sub generalizing node variant path name with
  | nil =>
    have ways : ∀ name ∈ [last], Path.IsName name := List.forall_mem_singleton.mpr proper
    cases differ with
    | within _ inner => cases inner
    | @file _ front back fresh =>
      by_cases opens : (FileSystem.checkPath path).isOk = true
      · simp only [named_dir_iff, List.forall_mem_append] at named
        obtain ⟨namedFront, _, namedBack⟩ := named
        obtain ⟨freshFront, freshBack⟩ := List.forall_mem_append.mp fresh
        refine ⟨⟨path, name, true⟩ :: walkEntries (fun _ => true) path front,
          walkEntries (fun _ => true) path back, true, ?_, ?_, ?_⟩
        · rw [List.cons_append, List.forall_mem_cons, List.forall_mem_append]
          exact ⟨not_within_start ways path,
            fun _ => not_within_of_mem_walkEntries namedFront ways freshFront,
            fun _ => not_within_of_mem_walkEntries namedBack ways freshBack⟩
        · simp [walk_dir, opened, opens, walkEntries_append, walkEntries_fileEntry]
        · simp [walk_dir, opened, opens, walkEntries_append, walkEntries_fileEntry]
      · refine ⟨[⟨path, name, true⟩], [], false, ?_, ?_, ?_⟩
        · exact List.forall_mem_singleton.mpr (not_within_start ways path)
        · exact walk_refused opens name _
        · exact walk_refused opens name _
  | cons next sub ih =>
    have ways := differ.isName named
    have all : ∀ name ∈ next :: (sub ++ [last]), Path.IsName name := by
      rw [← List.cons_append, List.forall_mem_append]
      exact ⟨ways, List.forall_mem_singleton.mpr proper⟩
    obtain ⟨front, back, child, inner, fresh, rfl, rfl, below⟩ :=
      differ.exists_within (List.concat_ne_nil _ _)
    by_cases opens : (FileSystem.checkPath path).isOk = true
    · simp only [named_dir_iff, List.forall_mem_append, List.forall_mem_singleton] at named
      obtain ⟨namedFront, ⟨_, namedChild⟩, namedBack⟩ := named
      obtain ⟨freshFront, freshBack⟩ := List.forall_mem_append.mp fresh
      obtain ⟨before, behind, reached, outside, walked, walkedToo⟩ :=
        ih below namedChild (Path.join path next) next
      obtain ⟨outsideBefore, outsideBehind⟩ := List.forall_mem_append.mp outside
      refine ⟨⟨path, name, true⟩ :: (walkEntries (fun _ => true) path front ++ before),
        behind ++ walkEntries (fun _ => true) path back, reached, ?_, ?_, ?_⟩
      · rw [List.cons_append, List.forall_mem_cons, List.forall_mem_append,
          List.forall_mem_append, List.forall_mem_append]
        exact ⟨not_within_start all path,
          ⟨fun _ => not_within_of_mem_walkEntries namedFront all freshFront, outsideBefore⟩,
          outsideBehind, fun _ => not_within_of_mem_walkEntries namedBack all freshBack⟩
      · simp [walk_dir, opened, opens, walkEntries_append, walkEntries, walked]
      · simp [walk_dir, opened, opens, walkEntries_append, walkEntries, walkedToo]
    · refine ⟨[⟨path, name, true⟩], [], false, ?_, ?_, ?_⟩
      · exact List.forall_mem_singleton.mpr (not_within_start all path)
      · exact walk_refused opens name _
      · exact walk_refused opens name _

end Variants

end Node

end SourceDocs
