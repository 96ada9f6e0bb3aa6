import SourceDocs.Proofs.Joining

/-!
Trees that differ in one file, which each of them may have or lack. Everything else is found in
both, so a path leads to the same place in both, and only what is read at the place of the file
differs.
-/

namespace SourceDocs

namespace Node

def fileEntry (name : Text) (content : Option ByteArray) : List (Text × Node) :=
  (content.map fun bytes => (name, file bytes)).toList

/-- Two trees are the same but for the file at the end of a list of names. Each name on the way, and
that of the file, stands for one entry only. -/
inductive DifferAt (first second : Option ByteArray) : List Text → Node → Node → Prop where
  | file {name : Text} {front back : List (Text × Node)}
      (fresh : ∀ entry ∈ front ++ back, entry.1 ≠ name) :
      DifferAt first second [name] (.dir (front ++ (fileEntry name first ++ back)))
        (.dir (front ++ (fileEntry name second ++ back)))
  | within {name : Text} {names : List Text} {front back : List (Text × Node)} {child other : Node}
      (fresh : ∀ entry ∈ front ++ back, entry.1 ≠ name)
      (inner : DifferAt first second names child other) :
      DifferAt first second (name :: names) (.dir (front ++ ([(name, child)] ++ back)))
        (.dir (front ++ ([(name, other)] ++ back)))

inductive Named : Node → Prop where
  | file (content : ByteArray) : Named (.file content)
  | dir {entries : List (Text × Node)} (names : ∀ entry ∈ entries, Path.IsName entry.1)
      (nodes : ∀ entry ∈ entries, Named entry.2) : Named (.dir entries)

variable {first second : Option ByteArray} {names place : List Text} {root other : Node}

theorem DifferAt.symm (differ : DifferAt first second names root other) :
    DifferAt second first names other root := by
  induction differ with
  | file fresh => exact .file fresh
  | within fresh _ ih => exact .within fresh ih

theorem lookup_eq_none {name : Text} {entries : List (Text × Node)}
    (absent : ∀ entry ∈ entries, entry.1 ≠ name) : entries.lookup name = none := by
  rw [List.lookup_eq_none_iff]
  intro entry member
  simpa using (absent entry member).symm

/-- A name that stands for one entry is looked up there. -/
theorem lookup_middle {name : Text} {front middle back : List (Text × Node)}
    (fresh : ∀ entry ∈ front ++ back, entry.1 ≠ name) :
    (front ++ (middle ++ back)).lookup name = middle.lookup name := by
  obtain ⟨before, behind⟩ := List.forall_mem_append.mp fresh
  rw [List.lookup_append, List.lookup_append, lookup_eq_none before, lookup_eq_none behind]
  simp

/-- Any other name is looked up beside it. -/
theorem lookup_beside {name : Text} {front middle back : List (Text × Node)}
    (absent : ∀ entry ∈ middle, entry.1 ≠ name) :
    (front ++ (middle ++ back)).lookup name = (front ++ back).lookup name := by
  simp only [List.lookup_append, lookup_eq_none absent, Option.none_or]

theorem fst_of_mem_fileEntry {name : Text} {content : Option ByteArray} {entry : Text × Node}
    (member : entry ∈ fileEntry name content) : entry.1 = name := by
  obtain ⟨bytes, _, rfl⟩ := by simpa [fileEntry] using member
  rfl

theorem lookup_fileEntry (name : Text) (content : Option ByteArray) :
    (fileEntry name content).lookup name = content.map .file := by
  cases content <;> simp [fileEntry]

/-- The file is found at its place. -/
theorem DifferAt.find?_self (differ : DifferAt first second names root other) :
    root.find? names = first.map .file := by
  induction differ with
  | file fresh =>
    rw [find?_cons, child?_dir, lookup_middle fresh, lookup_fileEntry]
    cases first <;> rfl
  | @within name names front back child other fresh _ ih =>
    rw [find?_cons, child?_dir, lookup_middle fresh, List.lookup_cons_self]
    exact ih

/-- Everywhere else the same is found, or a directory in both trees. -/
theorem DifferAt.find?_other (differ : DifferAt first second names root other)
    (apart : place ≠ names) :
    root.find? place = other.find? place ∨ root.IsDirAt place ∧ other.IsDirAt place := by
  induction differ generalizing place with
  | @file name front back fresh =>
    cases place with
    | nil => exact .inr ⟨⟨_, rfl⟩, ⟨_, rfl⟩⟩
    | cons wanted place =>
      left
      simp only [find?_cons, child?_dir]
      by_cases same : wanted = name
      · subst same
        rw [lookup_middle fresh, lookup_middle fresh, lookup_fileEntry, lookup_fileEntry]
        -- a file has nothing below it
        cases place with
        | nil => exact absurd rfl apart
        | cons => cases first <;> cases second <;> rfl
      · have absent : ∀ content, ∀ entry ∈ fileEntry name content, entry.1 ≠ wanted :=
          fun _ _ member equal => same (equal.symm.trans (fst_of_mem_fileEntry member))
        rw [lookup_beside (absent first), lookup_beside (absent second)]
  | @within name names front back child other fresh _ ih =>
    cases place with
    | nil => exact .inr ⟨⟨_, rfl⟩, ⟨_, rfl⟩⟩
    | cons wanted place =>
      by_cases same : wanted = name
      · subst same
        have inside : place ≠ names := fun equal => apart (by rw [equal])
        have found : ∀ node, (front ++ ([(wanted, node)] ++ back)).lookup wanted = some node :=
          fun node => (lookup_middle fresh).trans List.lookup_cons_self
        rw [find?_cons, find?_cons, child?_dir, child?_dir, found, found]
        refine (ih inside).imp id ?_
        rintro ⟨left, right⟩
        exact ⟨isDirAt_cons.mpr ⟨_, child, rfl, found child, left⟩,
          isDirAt_cons.mpr ⟨_, other, rfl, found other, right⟩⟩
      · left
        have absent : ∀ node : Node, ∀ entry ∈ [(name, node)], entry.1 ≠ wanted :=
          fun _ => List.forall_mem_singleton.mpr (Ne.symm same)
        rw [find?_cons, find?_cons, child?_dir, child?_dir, lookup_beside (absent child),
          lookup_beside (absent other)]

theorem DifferAt.isDirAt (differ : DifferAt first second names root other)
    (directory : root.IsDirAt place) : other.IsDirAt place := by
  obtain ⟨entries, there⟩ := directory
  have apart : place ≠ names := by
    rintro rfl
    rw [differ.find?_self] at there
    cases first <;> cases there
  rcases differ.find?_other apart with same | both
  · exact ⟨entries, same ▸ there⟩
  · exact both.2

theorem DifferAt.find?_file {content : ByteArray} (differ : DifferAt first second names root other)
    (apart : place ≠ names) (there : root.find? place = some (.file content)) :
    other.find? place = some (.file content) := by
  rcases differ.find?_other apart with same | ⟨⟨entries, directory⟩, _⟩
  · exact same ▸ there
  · rw [there] at directory
    cases directory

theorem DifferAt.exists_dir (differ : DifferAt first second names root other) :
    ∃ entries, root = .dir entries := by
  cases differ <;> exact ⟨_, rfl⟩

/-- Before the last name the trees differ within one entry. -/
theorem DifferAt.exists_within {name : Text} (nonempty : names ≠ [])
    (differ : DifferAt first second (name :: names) root other) :
    ∃ front back child variant, (∀ entry ∈ front ++ back, entry.1 ≠ name) ∧
      root = .dir (front ++ ([(name, child)] ++ back)) ∧
      other = .dir (front ++ ([(name, variant)] ++ back)) ∧
      DifferAt first second names child variant := by
  cases differ with
  | file => exact absurd rfl nonempty
  | within fresh inner => exact ⟨_, _, _, _, fresh, rfl, rfl, inner⟩

/-- Two trees that differ below a place differ in what is found at that place. -/
theorem DifferAt.find?_above {below : List Text} (nonempty : below ≠ [])
    (differ : DifferAt first second (place ++ below) root other) :
    ∃ node variant, root.find? place = some node ∧ other.find? place = some variant ∧
      DifferAt first second below node variant := by
  induction place generalizing root other with
  | nil => exact ⟨root, other, rfl, rfl, differ⟩
  | cons name place ih =>
    obtain ⟨front, back, child, variant, fresh, rfl, rfl, inner⟩ :=
      differ.exists_within (List.append_ne_nil_of_right_ne_nil place nonempty)
    simp only [find?_cons, child?_dir, lookup_middle fresh, List.lookup_cons_self]
    exact ih inner

theorem Named.find? {node : Node} (named : root.Named) (found : root.find? place = some node) :
    node.Named := by
  induction place generalizing root with
  | nil => exact Option.some.inj found ▸ named
  | cons name place ih =>
    rw [find?_cons, Option.bind_eq_some_iff] at found
    obtain ⟨child, here, further⟩ := found
    cases named with
    | file content => cases here
    | dir _ nodes =>
      obtain ⟨front, back, rfl, _⟩ := List.lookup_eq_some_iff.mp here
      exact ih (nodes (name, child) (List.mem_append_right front List.mem_cons_self)) further

theorem named_dir_iff {entries : List (Text × Node)} :
    (dir entries).Named ↔ ∀ entry ∈ entries, Path.IsName entry.1 ∧ entry.2.Named := by
  constructor
  · intro named entry member
    cases named with
    | dir names nodes => exact ⟨names entry member, nodes entry member⟩
  · intro proper
    exact .dir (fun entry member => (proper entry member).1)
      fun entry member => (proper entry member).2

theorem DifferAt.named (differ : DifferAt first second names root other)
    (proper : ∀ name ∈ names, Path.IsName name) (named : root.Named) : other.Named := by
  induction differ with
  | @file name front back fresh =>
    simp only [named_dir_iff, List.forall_mem_append] at named ⊢
    refine ⟨named.1, ?_, named.2.2⟩
    intro entry member
    obtain ⟨content, _, rfl⟩ := by simpa [fileEntry] using member
    exact ⟨proper name List.mem_cons_self, .file content⟩
  | within fresh _ ih =>
    simp only [named_dir_iff, List.forall_mem_append, List.forall_mem_singleton] at named ⊢
    obtain ⟨before, ⟨here, child⟩, behind⟩ := named
    exact ⟨before, ⟨here, ih (List.forall_mem_cons.mp proper).2 child⟩, behind⟩

/-- The names on the way to the file are those of entries. -/
theorem DifferAt.isName {last : Text} (differ : DifferAt first second (place ++ [last]) root other)
    (named : root.Named) : ∀ name ∈ place, Path.IsName name := by
  induction place generalizing root other with
  | nil => nofun
  | cons name place ih =>
    obtain ⟨front, back, child, variant, _, rfl, _, inner⟩ :=
      differ.exists_within (List.concat_ne_nil _ _)
    simp only [named_dir_iff, List.forall_mem_append, List.forall_mem_singleton] at named
    obtain ⟨_, ⟨here, named⟩, _⟩ := named
    exact List.forall_mem_cons.mpr ⟨here, ih inner named⟩

end Node

namespace FileSystem

structure DifferAt (first second : Option ByteArray) (names : List Text)
    (before after : FileSystem) : Prop where
  working : after.working = before.working
  tree : Node.DifferAt first second names before.root after.root

namespace DifferAt

variable {first second : Option ByteArray} {names : List Text} {before after : FileSystem}
  {path : Text} {content : ByteArray}

theorem symm (differ : DifferAt first second names before after) :
    DifferAt second first names after before := ⟨differ.working.symm, differ.tree.symm⟩

theorem keeps (differ : DifferAt first second names before after) :
    before.Keeps (· ≠ names) after where
  working := differ.working
  directories _ directory := differ.tree.isDirAt directory
  files _ _ apart there := differ.tree.find?_file apart there

theorem locate_eq_ok_iff {place : List Text} (differ : DifferAt first second names before after) :
    before.locate path = .ok place ↔ after.locate path = .ok place :=
  ⟨differ.keeps.locate, differ.symm.keeps.locate⟩

/-- What a path leads to differs in the same file. -/
theorem get_eq {place below : List Text}
    (differ : DifferAt first second (place ++ below) before after) (nonempty : below ≠ [])
    (leads : before.locate path = .ok place) (named : before.root.Named) :
    ∃ node variant, before.get path = .ok node ∧ after.get path = .ok variant ∧ node.Named ∧
      Node.DifferAt first second below node variant := by
  obtain ⟨node, variant, found, foundToo, inner⟩ := differ.tree.find?_above nonempty
  have leadsToo := differ.locate_eq_ok_iff.mp leads
  refine ⟨node, variant, ?_, ?_, named.find? found, inner⟩
  · simp [get, leads, Except.bind, found]
  · simp [get, leadsToo, Except.bind, foundToo]

/-- A path that does not lead to the file is read alike. -/
theorem readBytes_eq_ok_iff (differ : DifferAt first second names before after)
    (apart : before.locate path ≠ .ok names) :
    before.readBytes path = .ok content ↔ after.readBytes path = .ok content := by
  constructor
  · apply differ.keeps.readBytes
    rintro _ leads rfl
    exact apart leads
  · apply differ.symm.keeps.readBytes
    rintro _ leads rfl
    exact apart (differ.locate_eq_ok_iff.mpr leads)

theorem eq_some_of_readBytes (differ : DifferAt first second names before after)
    (leads : before.locate path = .ok names) (held : before.readBytes path = .ok content) :
    first = some content := by
  obtain ⟨place, there, found⟩ := FileSystem.readBytes_eq_ok_iff.mp held
  obtain rfl := Except.ok.inj (leads.symm.trans there)
  rw [differ.tree.find?_self] at found
  cases first <;> simp_all

end DifferAt

end FileSystem

end SourceDocs
