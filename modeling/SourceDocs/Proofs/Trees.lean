import SourceDocs.Dictionary
import SourceDocs.FileSystem.Node

/-!
What putting a node into a tree changes. The node is found at its place and below; directories on the
way stay directories, and everything else is found as before.
-/

namespace SourceDocs.Node

def IsDirAt (root : Node) (place : List Text) : Prop :=
  ∃ entries, root.find? place = some (.dir entries)

variable {root node : Node} {parent place : List Text} {name : Text}

theorem setEntry_eq (name : Text) (node : Node) (entries : List (Text × Node)) :
    setEntry name node entries = Dictionary.setEntry name node entries := by
  induction entries with
  | nil => rfl
  | cons entry rest ih => rw [setEntry, Dictionary.setEntry, ih]

theorem lookup_setEntry (name : Text) (node : Node) (entries : List (Text × Node))
    (wanted : Text) :
    (setEntry name node entries).lookup wanted =
      if wanted = name then some node else entries.lookup wanted := by
  rw [setEntry_eq, Dictionary.lookup_setEntry]

theorem find?_cons (node : Node) (name : Text) (names : List Text) :
    node.find? (name :: names) = (node.child? name).bind (·.find? names) := by
  rw [find?]
  cases node.child? name <;> rfl

theorem find?_append (node : Node) (front back : List Text) :
    node.find? (front ++ back) = (node.find? front).bind (·.find? back) := by
  induction front generalizing node with
  | nil => rfl
  | cons name front ih =>
    rw [List.cons_append, find?_cons, find?_cons]
    cases node.child? name with
    | none => rfl
    | some child => exact ih child

theorem child?_dir (entries : List (Text × Node)) (name : Text) :
    (dir entries).child? name = entries.lookup name := rfl

/-- What has something below it is a directory. -/
theorem isDirAt_of_below {below : List Text} (nonempty : below ≠ [])
    (found : root.find? (place ++ below) = some node) : root.IsDirAt place := by
  rw [find?_append, Option.bind_eq_some_iff] at found
  obtain ⟨there, here, further⟩ := found
  obtain ⟨first, names, rfl⟩ := List.exists_cons_of_ne_nil nonempty
  cases there with
  | file content => cases further
  | dir entries => exact ⟨entries, here⟩

theorem isDirAt_nil : root.IsDirAt [] ↔ ∃ entries, root = .dir entries := by
  simp [IsDirAt, find?]

theorem isDirAt_cons {first : Text} :
    root.IsDirAt (first :: place) ↔
      ∃ entries child, root = .dir entries ∧ entries.lookup first = some child ∧
        child.IsDirAt place := by
  cases root with
  | file content => simp [IsDirAt, find?, child?]
  | dir entries =>
    simp only [IsDirAt, find?_cons, child?_dir, Option.bind_eq_some_iff]
    constructor
    · rintro ⟨inner, child, found, further⟩
      exact ⟨entries, child, rfl, found, inner, further⟩
    · rintro ⟨_, child, same, found, inner, further⟩
      obtain rfl := Node.dir.inj same
      exact ⟨inner, child, found, further⟩

theorem put_cons_dir (node : Node) (first : Text) (names : List Text)
    (entries : List (Text × Node)) :
    put node (first :: names) (dir entries) =
      dir (setEntry first (put node names ((entries.lookup first).getD emptyDir)) entries) := rfl

/-- The node is found where it was put, if there is a directory to put it in. -/
theorem find?_put_self (node : Node) (name : Text) (directory : root.IsDirAt parent) :
    (put node (parent ++ [name]) root).find? (parent ++ [name]) = some node := by
  induction parent generalizing root with
  | nil =>
    obtain ⟨entries, rfl⟩ := isDirAt_nil.mp directory
    rw [List.nil_append, put_cons_dir, find?_cons, child?_dir, lookup_setEntry]
    simp [put, find?]
  | cons first parent ih =>
    obtain ⟨entries, child, rfl, found, below⟩ := isDirAt_cons.mp directory
    rw [List.cons_append, put_cons_dir, find?_cons, child?_dir, lookup_setEntry, found]
    simp [ih below]

/-- Elsewhere everything is found as before, but for the directories on the way. -/
theorem find?_put_other (node : Node) (directory : root.IsDirAt parent)
    (apart : ¬parent ++ [name] <+: place) :
    (put node (parent ++ [name]) root).find? place = root.find? place ∨
      root.IsDirAt place ∧ (put node (parent ++ [name]) root).IsDirAt place := by
  induction parent generalizing root place with
  | nil =>
    obtain ⟨entries, rfl⟩ := isDirAt_nil.mp directory
    cases place with
    | nil => exact .inr ⟨⟨_, rfl⟩, ⟨_, rfl⟩⟩
    | cons other place =>
      have different : other ≠ name := by
        rintro rfl
        exact apart ⟨place, rfl⟩
      left
      rw [List.nil_append, put_cons_dir, find?_cons, find?_cons, child?_dir, child?_dir,
        lookup_setEntry, if_neg different]
  | cons first parent ih =>
    obtain ⟨entries, child, rfl, found, below⟩ := isDirAt_cons.mp directory
    cases place with
    | nil => exact .inr ⟨⟨_, rfl⟩, ⟨_, rfl⟩⟩
    | cons other place =>
      rw [List.cons_append, put_cons_dir, found, Option.getD_some]
      by_cases same : other = first
      · subst same
        have inside : ¬parent ++ [name] <+: place := fun begins =>
          apart (List.cons_prefix_cons.mpr ⟨rfl, begins⟩)
        rw [find?_cons, find?_cons, child?_dir, child?_dir, lookup_setEntry, if_pos rfl, found]
        refine (ih below inside).imp id ?_
        rintro ⟨before, after⟩
        refine ⟨isDirAt_cons.mpr ⟨entries, child, rfl, found, before⟩,
          isDirAt_cons.mpr ⟨_, _, rfl, ?_, after⟩⟩
        rw [lookup_setEntry, if_pos rfl]
      · left
        rw [find?_cons, find?_cons, child?_dir, child?_dir, lookup_setEntry, if_neg same]

end SourceDocs.Node
