import SourceDocs.Proofs.Walks

/-!
What a walk meets is there: the path of every entry leads to it. This is where the shape of a file
system comes in. Names are proper and not too long, and a name stands for one entry of a directory, so
following the path goes through the same directories as the walk.

The system refuses to follow a path of too many bytes. A walk can make one, since it joins names to
the directory that it starts from; so what a path leads to is said apart from this limit.
-/

namespace SourceDocs

namespace Path

def nul : Char := Char.ofNat 0

theorem mem_join {c : Char} {first second : Text} (member : c ∈ join first second) :
    c ∈ first ∨ c = separator ∨ c ∈ second := by
  unfold join at member
  split at member
  next => exact .inr (.inr member)
  next =>
    split at member
    next => exact (List.mem_append.mp member).imp_right .inr
    next => exact (List.mem_append.mp member).imp_right List.mem_cons.mp

theorem join_ne_nil {first second : Text} (nonempty : second ≠ []) :
    join first second ≠ [] := by
  unfold join
  split
  next => exact nonempty
  next => split <;> simp [nonempty]

end Path

def FileSystem.IsEntryName (name : Text) : Prop :=
  Path.IsName name ∧ Path.nul ∉ name ∧ Text.bytes name ≤ FileSystem.nameLimit

instance (name : Text) : Decidable (FileSystem.IsEntryName name) :=
  inferInstanceAs (Decidable (_ ∧ _))

namespace Node

open SourceDocs.FileSystem (IsEntryName)

/-- A tree as a file system holds it: every name can stand for an entry, and for one only. -/
inductive Proper : Node → Prop where
  | file (content : ByteArray) : Proper (.file content)
  | dir {entries : List (Text × Node)} (names : ∀ entry ∈ entries, IsEntryName entry.1)
      (distinct : entries.Pairwise fun first second => first.1 ≠ second.1)
      (nodes : ∀ entry ∈ entries, Proper entry.2) : Proper (.dir entries)

variable {keep other : Visit → Bool} {path name : Text} {node : Node} {visit : Visit}
  {place : List Text}

theorem Proper.find? {root : Node} (proper : root.Proper) (found : root.find? place = some node) :
    node.Proper := by
  induction place generalizing root with
  | nil => exact Option.some.inj found ▸ proper
  | cons name place ih =>
    rw [find?_cons, Option.bind_eq_some_iff] at found
    obtain ⟨child, here, further⟩ := found
    cases proper with
    | file content => cases here
    | dir _ distinct nodes =>
      have member := (Dictionary.lookup_eq_some_iff distinct).mp here
      exact ih (nodes _ member) further

/-- What a walk meets is found by the names that the walk goes through. -/
theorem exists_of_mem_walk (proper : node.Proper) (member : visit ∈ node.walk keep path name) :
    ∃ names found, (∀ name ∈ names, IsEntryName name) ∧ visit.path = names.foldl Path.join path ∧
      node.find? names = some found ∧ found.isDir = visit.isDir := by
  induction proper generalizing path name with
  | file content =>
    rw [walk] at member
    split at member
    · obtain rfl := List.mem_singleton.mp member
      exact ⟨[], .file content, List.forall_mem_nil _, rfl, rfl, rfl⟩
    · cases member
  | @dir entries names distinct _ ih =>
    rw [walk_dir] at member
    split at member
    · rcases List.mem_cons.mp member with rfl | member
      · exact ⟨[], .dir entries, List.forall_mem_nil _, rfl, rfl, rfl⟩
      · rw [walkEntries_eq, List.mem_flatMap] at member
        obtain ⟨entry, there, below⟩ := member
        have listed := mem_of_mem_opened there
        obtain ⟨further, found, entryNames, leads, ends, kind⟩ := ih entry listed below
        have child : (dir entries).child? entry.1 = some entry.2 :=
          (Dictionary.lookup_eq_some_iff distinct).mpr listed
        refine ⟨entry.1 :: further, found,
          List.forall_mem_cons.mpr ⟨names entry listed, entryNames⟩, leads, ?_, kind⟩
        rw [find?_cons, child]
        exact ends
    · cases member

/-- What holds of files, and of directories if it holds of their entries, holds of all trees. -/
@[elab_as_elim]
theorem inductionOnEntries {motive : Node → Prop} (file : ∀ content, motive (.file content))
    (dir : ∀ entries, (∀ entry ∈ entries, motive entry.2) → motive (.dir entries)) :
    ∀ node, motive node
  | .file content => file content
  | .dir entries => dir entries fun entry _ => inductionOnEntries file dir entry.2
termination_by node => sizeOf node
decreasing_by
  rename_i listed
  have smaller := List.sizeOf_lt_of_mem listed
  obtain ⟨name, node⟩ := entry
  simp only [Prod.mk.sizeOf_spec, Node.dir.sizeOf_spec] at smaller ⊢
  omega

/-- A walk that turns away less meets more. -/
theorem walk_subset (node : Node) (keeps : ∀ visit, keep visit = true → other visit = true) :
    node.walk keep path name ⊆ node.walk other path name := by
  induction node using inductionOnEntries generalizing path name with
  | file content =>
    rw [walk, walk]
    split
    next kept =>
      rw [if_pos (keeps _ kept)]
      exact List.Subset.refl _
    next => exact List.nil_subset _
  | dir entries ih =>
    rw [walk_dir, walk_dir, walkEntries_eq, walkEntries_eq]
    split
    next kept =>
      rw [if_pos (keeps _ kept)]
      refine List.cons_subset_cons _ ?_
      intro visit member
      obtain ⟨entry, there, below⟩ := List.mem_flatMap.mp member
      exact List.mem_flatMap.mpr ⟨entry, there, ih entry (mem_of_mem_opened there) below⟩
    next => exact List.nil_subset _

end Node

namespace FileSystem

variable {fs : FileSystem} {directory path : Text} {names here place : List Text} {node target : Node}

def Leads (fs : FileSystem) (path : Text) (node : Node) : Prop :=
  ∃ here, follow fs.root (fs.origin path) (path.splitOn '/') = .ok here ∧
    fs.root.find? here.reverse = some node

theorem get_eq_ok_iff :
    fs.get path = .ok node ↔ checkPath path = .ok () ∧ fs.Leads path node := by
  unfold get
  constructor
  · intro got
    cases located : fs.locate path with
    | error error =>
      rw [located] at got
      cases got
    | ok place =>
      obtain ⟨checked, followed⟩ := locate_eq_ok_iff.mp located
      refine ⟨checked, place.reverse, followed, ?_⟩
      rw [located] at got
      rw [List.reverse_reverse]
      cases found : fs.root.find? place <;> simp_all [Except.bind]
  · rintro ⟨checked, here, followed, found⟩
    have located : fs.locate path = .ok here.reverse :=
      locate_eq_ok_iff.mpr ⟨checked, by rwa [List.reverse_reverse]⟩
    simp [located, Except.bind, found]

theorem isFile_iff : fs.isFile path = true ↔ ∃ content, fs.get path = .ok (.file content) := by
  unfold isFile
  split <;> simp_all

theorem checkPath_eq_ok_iff :
    checkPath path = .ok () ↔
      Path.nul ∉ path ∧ path ≠ [] ∧ Text.bytes path ≤ pathLimit := by
  unfold checkPath Path.nul
  split
  next held => simp_all
  next free =>
    split
    next => simp_all
    next =>
      split
      next => simp_all
      next => simp_all

/-- Names are followed through the directories that they name. -/
theorem follow_of_find? {root : Node} (entryNames : ∀ name ∈ names, IsEntryName name)
    (found : root.find? (here.reverse ++ names) = some target) :
    follow root here names = .ok (names.reverse ++ here) := by
  induction names generalizing here with
  | nil => rfl
  | cons name names ih =>
    obtain ⟨⟨⟨nonempty, notHere, notBack, _⟩, _, short⟩, others⟩ := List.forall_mem_cons.mp entryNames
    obtain ⟨entries, directory⟩ := Node.isDirAt_of_below (List.cons_ne_nil name names) found
    have further : root.find? ((name :: here).reverse ++ names) = some target := by
      rw [List.reverse_cons, List.append_assoc]
      exact found
    rw [follow, directory]
    dsimp only
    rw [if_neg (by simp [nonempty, notHere]), if_neg notBack, if_neg (Nat.not_lt.mpr short),
      ih others further, List.reverse_cons, List.append_assoc, List.singleton_append]

/-- Names lead on from a directory to what is found through them. -/
theorem leads_foldl_join (got : fs.get directory = .ok node)
    (entryNames : ∀ name ∈ names, IsEntryName name) (found : node.find? names = some target) :
    fs.Leads (names.foldl Path.join directory) target := by
  obtain ⟨checked, here, followed, there⟩ := get_eq_ok_iff.mp got
  by_cases last : names = []
  · subst last
    obtain rfl := Option.some.inj found
    exact ⟨here, followed, there⟩
  · have proper : ∀ name ∈ names, Path.IsName name := fun name member => (entryNames name member).1
    have located : fs.locate directory = .ok here.reverse :=
      locate_eq_ok_iff.mpr ⟨checked, by rwa [List.reverse_reverse]⟩
    have through : fs.root.find? (here.reverse ++ names) = some target := by
      rw [Node.find?_append, there]
      exact found
    refine ⟨names.reverse ++ here, ?_, ?_⟩
    · rw [Path.foldl_join proper last, origin, Path.isAbsolute_join proper, ← origin,
        show '/' = Path.separator from rfl, Path.splitOn_join proper last, follow_append,
        follow_partsBefore located, List.reverse_reverse]
      exact follow_of_find? entryNames through
    · rw [List.reverse_append, List.reverse_reverse]
      exact through

theorem foldl_join_clean (entryNames : ∀ name ∈ names, IsEntryName name)
    (clean : Path.nul ∉ directory) (nonempty : directory ≠ []) :
    Path.nul ∉ names.foldl Path.join directory ∧ names.foldl Path.join directory ≠ [] := by
  induction names generalizing directory with
  | nil => exact ⟨clean, nonempty⟩
  | cons name names ih =>
    obtain ⟨⟨proper, unbroken, _⟩, others⟩ := List.forall_mem_cons.mp entryNames
    refine ih others ?_ (Path.join_ne_nil proper.1)
    intro member
    rcases Path.mem_join member with before | separator | inside
    · exact clean before
    · exact absurd separator (by decide)
    · exact unbroken inside

/-- Only its size can make a path unusable that goes on from a directory by names. -/
theorem get_foldl_join (got : fs.get directory = .ok node)
    (entryNames : ∀ name ∈ names, IsEntryName name) (found : node.find? names = some target)
    (short : Text.bytes (names.foldl Path.join directory) ≤ pathLimit) :
    fs.get (names.foldl Path.join directory) = .ok target := by
  obtain ⟨clean, nonempty, _⟩ := checkPath_eq_ok_iff.mp (get_eq_ok_iff.mp got).1
  obtain ⟨cleanToo, nonemptyToo⟩ := foldl_join_clean entryNames clean nonempty
  exact get_eq_ok_iff.mpr ⟨checkPath_eq_ok_iff.mpr ⟨cleanToo, nonemptyToo, short⟩,
    leads_foldl_join got entryNames found⟩

theorem proper_of_get (proper : fs.root.Proper) (got : fs.get path = .ok node) : node.Proper := by
  obtain ⟨_, here, _, found⟩ := get_eq_ok_iff.mp got
  exact proper.find? found

/-- A path names a file: it leads there, and the system follows it if it is not too long. -/
structure HasFile (fs : FileSystem) (path : Text) : Prop where
  leads : ∃ content, fs.Leads path (.file content)
  opens : Text.bytes path ≤ pathLimit → fs.isFile path = true

theorem hasFile_of_isFile (file : fs.isFile path = true) : fs.HasFile path := by
  obtain ⟨content, got⟩ := isFile_iff.mp file
  exact ⟨⟨content, (get_eq_ok_iff.mp got).2⟩, fun _ => file⟩

/-- The files that a walk meets are named by their paths. -/
theorem hasFile_of_mem_walk {keep : Node.Visit → Bool} {name : Text} {visit : Node.Visit}
    (proper : node.Proper) (got : fs.get directory = .ok node)
    (member : visit ∈ node.walk keep directory name) (file : visit.isDir = false) :
    fs.HasFile visit.path := by
  obtain ⟨names, found, entryNames, path_eq, there, kind⟩ := Node.exists_of_mem_walk proper member
  rw [file] at kind
  cases found with
  | dir entries => cases kind
  | file content =>
    rw [path_eq]
    exact ⟨⟨content, leads_foldl_join got entryNames there⟩, fun short =>
      isFile_iff.mpr ⟨content, get_foldl_join got entryNames there short⟩⟩

end FileSystem

end SourceDocs
