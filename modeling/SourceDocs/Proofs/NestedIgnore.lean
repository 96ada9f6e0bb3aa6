import Mathlib.Data.List.Sort
import SourceDocs.Proofs.PathOrder
import SourceDocs.Proofs.Walks

/-!
What an ignore file in a subdirectory does outside of it. The rules of all ignore files below a
directory are one list that is relative to that directory, so a rule acts wherever it fits. An ignore
file leaves the files outside of its directory alone if its rules fit nothing there.
-/

namespace SourceDocs

namespace Ignore

variable {directory root path : Text} {visit : Node.Visit} {visits : List Node.Visit}
  {front middle back : List Rule}

def Rule.reaches (rule : Rule) (path : Text) (isDir : Bool) : Bool :=
  (!rule.directoriesOnly || isDir) && fits rule.pattern path

/-- What the rules are compared with for an entry: its path relative to the directory of the rules,
and the parents of that path. -/
def lookups (directory : Text) (visit : Node.Visit) : List (Text × Bool) :=
  let relative := Matcher.relative ⟨withoutDot directory, []⟩ visit.path
  (relative, visit.isDir) :: (Path.ancestors relative).tail.map (·, true)

def rulesOf (content : ByteArray) : List Rule := (readLines 1 (byteLines content.toList)).rules

structure Confined (directory : Text) (visits : List Node.Visit) (rules : List Rule) : Prop where
  usable : listFault? (rules.map (·.pattern)) = none
  apart : ∀ rule ∈ rules, ∀ visit ∈ visits, ∀ lookup ∈ lookups directory visit,
    rule.reaches lookup.1 lookup.2 = false

instance {rules : List Rule} : Decidable (Confined directory visits rules) :=
  decidable_of_iff (_ ∧ _) ⟨fun both => ⟨both.1, both.2⟩, fun both => ⟨both.usable, both.apart⟩⟩

theorem listFault?_eq_none_iff {patterns : List (List Token)} :
    listFault? patterns = none ↔
      ∀ pattern ∈ patterns, comparison pattern = .extension ∨ comparison pattern = .expression →
        isTooDeep pattern = false := by
  unfold listFault?
  dsimp only
  cases extensions : (patterns.filter (comparison · = .extension)).find? isTooDeep with
  | some pattern =>
    have deep := List.find?_some extensions
    have listed := List.mem_filter.mp (List.mem_of_find?_eq_some extensions)
    simp only [reduceCtorEq, false_iff, not_forall]
    exact ⟨pattern, listed.1, .inl (of_decide_eq_true listed.2), by simp [deep]⟩
  | none =>
    simp only [List.find?_eq_none, List.mem_filter, decide_eq_true_eq] at extensions
    simp only [Option.map_eq_none_iff, List.findIdx?_eq_none_iff, List.mem_filter,
      decide_eq_true_eq]
    grind

theorem listFault?_append {front back : List (List Token)} :
    listFault? (front ++ back) = none ↔ listFault? front = none ∧ listFault? back = none := by
  simp only [listFault?_eq_none_iff, List.forall_mem_append]

theorem verdictOn_eq (matcher : Matcher) (path : Text) (isDir : Bool) :
    matcher.verdictOn path isDir = match matcher.rules.reverse.find? (·.reaches path isDir) with
      | none => .none
      | some rule => if rule.whitelists then .whitelisted else .ignored := rfl

/-- A rule that does not fit a path says nothing about it. -/
theorem verdictOn_append {isDir : Bool} (apart : ∀ rule ∈ middle, rule.reaches path isDir = false) :
    Matcher.verdictOn ⟨root, front ++ (middle ++ back)⟩ path isDir =
      Matcher.verdictOn ⟨root, front ++ back⟩ path isDir := by
  have silent : middle.reverse.find? (·.reaches path isDir) = none := by
    rw [List.find?_eq_none]
    intro rule member
    simp [apart rule (List.mem_reverse.mp member)]
  have same : (front ++ (middle ++ back)).reverse.find? (·.reaches path isDir) =
      (front ++ back).reverse.find? (·.reaches path isDir) := by
    simp only [List.reverse_append, List.find?_append, silent, Option.or_none]
  rw [verdictOn_eq, verdictOn_eq, same]

theorem verdictWithParents_eq (directory : Text) (rules : List Rule) (visit : Node.Visit) :
    Matcher.verdictWithParents ⟨withoutDot directory, rules⟩ visit.path visit.isDir =
      (((lookups directory visit).map fun lookup =>
        Matcher.verdictOn ⟨withoutDot directory, rules⟩ lookup.1 lookup.2).find?
          (· ≠ .none)).getD .none := by
  unfold lookups
  rw [List.map_cons, List.map_map]
  rfl

theorem ofRules_value (directory : Text) (rules : List Rule) :
    (Matcher.ofRules directory rules).value =
      if listFault? (rules.map (·.pattern)) = none then ⟨withoutDot directory, rules⟩
      else .empty := by
  unfold Matcher.ofRules
  cases listFault? (rules.map (·.pattern)) <;> rfl

/-- Rules that fit none of some entries make no difference to whether a walk goes on there. -/
theorem Confined.keeps_eq (confined : Confined directory visits middle) (member : visit ∈ visits)
    (front back : List Rule) :
    Expansion.keeps (Matcher.ofRules directory (front ++ (middle ++ back))).value visit =
      Expansion.keeps (Matcher.ofRules directory (front ++ back)).value visit := by
  simp only [ofRules_value, List.map_append, listFault?_append, confined.usable, true_and]
  split
  · have verdicts : ∀ lookup ∈ lookups directory visit,
        Matcher.verdictOn ⟨withoutDot directory, front ++ (middle ++ back)⟩ lookup.1 lookup.2 =
          Matcher.verdictOn ⟨withoutDot directory, front ++ back⟩ lookup.1 lookup.2 :=
      fun lookup listed => verdictOn_append fun rule within =>
        confined.apart rule within visit member lookup listed
    unfold Expansion.keeps
    rw [verdictWithParents_eq, verdictWithParents_eq, List.map_congr_left verdicts]
  · rfl

theorem confined_nil (directory : Text) (visits : List Node.Visit) :
    Confined directory visits [] := ⟨rfl, nofun⟩

def rulesAmong (fs : FileSystem) (visits : List Node.Visit) : List Rule :=
  (visits.filter (·.name = fileName)).flatMap fun visit => (readFile fs visit.path).rules

theorem below_value (fs : FileSystem) (directory : Text) :
    (Matcher.below fs directory).value =
      (Matcher.ofRules directory (rulesAmong fs (everythingIn fs directory))).value := by
  simp [Matcher.below, rulesAmong, List.flatMap_map]

theorem rulesAmong_append (fs : FileSystem) (front back : List Node.Visit) :
    rulesAmong fs (front ++ back) = rulesAmong fs front ++ rulesAmong fs back := by
  simp [rulesAmong]

section Variants

variable {first second : Option ByteArray} {place sub : List Text} {before after : FileSystem}

theorem rules_readFile_eq {names : List Text}
    (differ : FileSystem.DifferAt first second names before after)
    (apart : before.locate path ≠ .ok names) :
    (readFile before path).rules = (readFile after path).rules := by
  have alike : ∀ content,
      before.readBytes path = .ok content ↔ after.readBytes path = .ok content :=
    fun _ => differ.readBytes_eq_ok_iff apart
  unfold readFile
  cases here : before.readBytes path with
  | ok content => rw [(alike content).mp here]
  | error error =>
    cases there : after.readBytes path with
    | ok content =>
      rw [(alike content).mpr there] at here
      cases here
    | error other => rfl

theorem rulesAmong_congr {names : List Text}
    (differ : FileSystem.DifferAt first second names before after)
    (apart : ∀ visit ∈ visits, before.locate visit.path ≠ .ok names) :
    rulesAmong before visits = rulesAmong after visits := by
  unfold rulesAmong
  apply List.flatMap_congr
  intro visit member
  exact rules_readFile_eq differ (apart visit (List.mem_of_mem_filter member))

/-- An entry that is not at or below a path does not lead to the place of that path. -/
theorem locate_ne {fs : FileSystem} {node : Node} {keep : Node.Visit → Bool} {name : Text}
    {names : List Text} (leads : fs.locate directory = .ok place) (named : node.Named)
    (listed : visit ∈ node.walk keep directory name)
    (outside : ¬Path.Within (names.foldl Path.join directory) visit.path) :
    fs.locate visit.path ≠ .ok (place ++ names) := by
  intro located
  obtain ⟨ways, proper, path_eq⟩ := Node.mem_walk named listed
  rw [path_eq] at located
  have same := List.append_cancel_left (FileSystem.locate_foldl_join leads proper located)
  rw [path_eq, same] at outside
  exact outside List.prefix_rfl

theorem everythingIn_eq {fs : FileSystem} {node : Node} (found : fs.get directory = .ok node) :
    everythingIn fs directory =
      node.walk (fun _ => true) directory ((Path.fileName? directory).getD directory) := by
  rw [everythingIn, found]

variable (differ : FileSystem.DifferAt first second (place ++ (sub ++ [fileName])) before after)
  (leads : before.locate directory = .ok place) (named : before.root.Named)

theorem isName_fileName : Path.IsName fileName := by decide

theorem isName_of_differAt {node variant : Node} (named : node.Named)
    (differ : Node.DifferAt first second (sub ++ [fileName]) node variant) :
    ∀ name ∈ sub ++ [fileName], Path.IsName name :=
  List.forall_mem_append.mpr
    ⟨differ.isName named, List.forall_mem_singleton.mpr isName_fileName⟩

include differ leads

/-- What is read of the file that differs are its rules, if it is reached and anything is read. -/
theorem confined_rulesAmong_fileVisit (reached : Bool)
    (proper : ∀ name ∈ sub ++ [fileName], Path.IsName name)
    (confined : ∀ content ∈ first, Confined directory visits (rulesOf content)) :
    Confined directory visits (rulesAmong before (if reached then
      Node.fileVisit ((sub ++ [fileName]).foldl Path.join directory) fileName first else [])) := by
  cases reached with
  | false => exact confined_nil directory visits
  | true =>
    rw [if_pos rfl]
    cases first with
    | none => exact confined_nil directory visits
    | some content =>
      have read : rulesAmong before
          (Node.fileVisit ((sub ++ [fileName]).foldl Path.join directory) fileName (some content)) =
          (readFile before ((sub ++ [fileName]).foldl Path.join directory)).rules := by
        simp [rulesAmong, Node.fileVisit]
      rw [read, readFile]
      cases held : before.readBytes ((sub ++ [fileName]).foldl Path.join directory) with
      | error error => exact confined_nil directory visits
      | ok bytes =>
        obtain ⟨there, located, _⟩ := FileSystem.readBytes_eq_ok_iff.mp held
        obtain rfl := FileSystem.locate_foldl_join leads proper located
        obtain rfl := Option.some.inj (differ.eq_some_of_readBytes located held)
        exact confined content rfl

include named

/-- Ignore files whose rules fit none of some entries make no difference there. -/
theorem keeps_below_eq
    (confined : ∀ content, first = some content ∨ second = some content →
      Confined directory visits (rulesOf content)) (member : visit ∈ visits) :
    Expansion.keeps (Matcher.below before directory).value visit =
      Expansion.keeps (Matcher.below after directory).value visit := by
  obtain ⟨node, variant, here, there, namedNode, inner⟩ :=
    differ.get_eq (List.concat_ne_nil _ _) leads named
  have proper := isName_of_differAt namedNode inner
  obtain ⟨front, back, reached, outside, walked, walkedToo⟩ := Node.exists_walk_eq inner namedNode
    isName_fileName directory ((Path.fileName? directory).getD directory)
  -- no other entry leads to the file that differs
  have apart : ∀ visit ∈ front ++ back,
      before.locate visit.path ≠ .ok (place ++ (sub ++ [fileName])) := by
    intro visit member
    have listed : visit ∈ node.walk (fun _ => true) directory
        ((Path.fileName? directory).getD directory) := by
      rw [walked]
      exact List.mem_append.mpr ((List.mem_append.mp member).imp id (List.mem_append_right _))
    exact locate_ne leads namedNode listed (outside visit member)
  obtain ⟨apartFront, apartBack⟩ := List.forall_mem_append.mp apart
  have confinedFirst := confined_rulesAmong_fileVisit differ leads reached proper
    fun content held => confined content (.inl held)
  have confinedSecond := confined_rulesAmong_fileVisit differ.symm
    (differ.locate_eq_ok_iff.mp leads) reached proper
    fun content held => confined content (.inr held)
  rw [below_value, below_value, everythingIn_eq here, everythingIn_eq there, walked, walkedToo]
  simp only [rulesAmong_append, ← rulesAmong_congr differ apartFront,
    ← rulesAmong_congr differ apartBack]
  exact (confinedFirst.keeps_eq member _ _).trans (confinedSecond.keeps_eq member _ _).symm

end Variants

end Ignore

namespace Expansion

open Ignore

variable {first second : Option ByteArray} {place sub : List Text} {before after : FileSystem}
  {directory path : Text}

/-- The files that are found by walking a directory. -/
theorem expand_directory {fs : FileSystem} {entries : List (Text × Node)}
    (plain : isGlob directory = false) (found : fs.get directory = .ok (.dir entries)) :
    (expand fs true [directory]).value = dropRepeats (sortBy Path.le
      ((((Node.dir entries).walk (keeps (Matcher.below fs directory).value) directory
        ((Path.fileName? directory).getD directory)).filter fun visit =>
          !visit.isDir && visit.name ≠ fileName).map (·.path))) := by
  have isDir : fs.isDir directory = true := by rw [FileSystem.isDir, found]
  simp [expand, ofPattern, plain, isDir, walkDirectory, filesBelow, found]

/-- Entries of a tree with the same components have the same path. -/
theorem path_eq_of_mem_walk {node : Node} {keep : Node.Visit → Bool} {name : Text}
    {visit other : Node.Visit} (named : node.Named) (member : visit ∈ node.walk keep directory name)
    (otherMember : other ∈ node.walk keep directory name)
    (same : Path.components visit.path = Path.components other.path) : visit.path = other.path := by
  obtain ⟨names, proper, path_eq⟩ := Node.mem_walk named member
  obtain ⟨otherNames, otherProper, otherPath_eq⟩ := Node.mem_walk named otherMember
  rw [path_eq, otherPath_eq, Path.components_foldl_join proper,
    Path.components_foldl_join otherProper] at same
  have equal := List.map_injective_iff.mpr (fun _ _ => Component.normal.inj)
    (List.append_cancel_left same)
  rw [path_eq, otherPath_eq, equal]

theorem mem_expand_directory {fs : FileSystem} {node : Node}
    (plain : isGlob directory = false) (found : fs.get directory = .ok node)
    (directory_eq : ∃ entries, node = .dir entries) (named : node.Named) :
    path ∈ (expand fs true [directory]).value ↔
      ∃ visit ∈ node.walk (keeps (Matcher.below fs directory).value) directory
          ((Path.fileName? directory).getD directory),
        visit.isDir = false ∧ visit.name ≠ fileName ∧ visit.path = path := by
  obtain ⟨entries, rfl⟩ := directory_eq
  rw [expand_directory plain found, mem_dropRepeats_iff, (sortBy_perm _ _).mem_iff]
  · simp [and_assoc]
  · simp only [(sortBy_perm _ _).mem_iff, List.mem_map, List.mem_filter]
    rintro _ ⟨visit, ⟨member, _⟩, rfl⟩ _ ⟨other, ⟨otherMember, _⟩, rfl⟩ same
    exact path_eq_of_mem_walk named member otherMember same

def outside (fs : FileSystem) (directory : Text) (sub : List Text) : List Node.Visit :=
  (everythingIn fs directory).filter (¬Path.Within (sub.foldl Path.join directory) ·.path)

/-- Two file systems that differ in the ignore file of a directory below a walked one, which each of
them may lack, give the same files outside of that directory, if the rules of these ignore files can
be used and fit no entry there. -/
theorem expand_outside (plain : isGlob directory = false)
    (leads : before.locate directory = .ok place) (named : before.root.Named)
    (differ : FileSystem.DifferAt first second (place ++ (sub ++ [fileName])) before after)
    (confined : ∀ content, first = some content ∨ second = some content →
      Confined directory (outside before directory sub) (rulesOf content)) :
    (expand before true [directory]).value.filter
        (¬Path.Within (sub.foldl Path.join directory) ·) =
      (expand after true [directory]).value.filter
        (¬Path.Within (sub.foldl Path.join directory) ·) := by
  obtain ⟨node, variant, here, there, namedNode, inner⟩ :=
    differ.get_eq (List.concat_ne_nil _ _) leads named
  have namedVariant := inner.named (isName_of_differAt namedNode inner) namedNode
  have agree : ∀ visit ∈ node.walk (fun _ => true) directory
      ((Path.fileName? directory).getD directory),
      ¬Path.Within (sub.foldl Path.join directory) visit.path →
      keeps (Matcher.below before directory).value visit =
        keeps (Matcher.below after directory).value visit := by
    intro visit member apart
    refine keeps_below_eq differ leads named confined (List.mem_filter.mpr ⟨?_, ?_⟩)
    · rw [everythingIn_eq here]
      exact member
    · exact decide_eq_true apart
  have walks := Node.filter_walk inner namedNode isName_fileName agree
  have alike : ∀ visit : Node.Visit, ¬Path.Within (sub.foldl Path.join directory) visit.path →
      (visit ∈ node.walk (keeps (Matcher.below before directory).value) directory
          ((Path.fileName? directory).getD directory) ↔
        visit ∈ variant.walk (keeps (Matcher.below after directory).value) directory
          ((Path.fileName? directory).getD directory)) := by
    intro visit apart
    have listed := congrArg (visit ∈ ·) walks
    simpa [apart] using listed
  apply List.Pairwise.eq_of_mem_iff ((expand_pairwise before true [directory]).filter _)
    ((expand_pairwise after true [directory]).filter _)
  intro path
  simp only [List.mem_filter, mem_expand_directory plain here inner.exists_dir namedNode,
    mem_expand_directory plain there inner.symm.exists_dir namedVariant, decide_eq_true_eq]
  constructor
  · rintro ⟨⟨visit, member, rest, other, rfl⟩, apart⟩
    exact ⟨⟨visit, (alike visit apart).mp member, rest, other, rfl⟩, apart⟩
  · rintro ⟨⟨visit, member, rest, other, rfl⟩, apart⟩
    exact ⟨⟨visit, (alike visit apart).mpr member, rest, other, rfl⟩, apart⟩

def besideIgnore (content : Option ByteArray) : FileSystem :=
  ⟨.dir [("a.c".toList, .file "int a;\n".toUTF8),
    ("d".toList, .dir (Node.fileEntry fileName content ++
      [("b.c".toList, .file "int b;\n".toUTF8), ("c.c".toList, .file "int c;\n".toUTF8)]))],
    [], none⟩

theorem besideIgnore_differAt (first second : Option ByteArray) :
    FileSystem.DifferAt first second ([] ++ (["d".toList] ++ [fileName])) (besideIgnore first)
      (besideIgnore second) := by
  refine ⟨rfl, ?_⟩
  apply @Node.DifferAt.within _ _ "d".toList [fileName] [("a.c".toList, .file "int a;\n".toUTF8)] []
  · decide
  · apply @Node.DifferAt.file _ _ fileName []
    decide

theorem expand_outside_besideIgnore :
    (expand (besideIgnore none) true [".".toList]).value =
      ["./a.c".toList, "./d/b.c".toList, "./d/c.c".toList] ∧
    (expand (besideIgnore (some "c.c\n".toUTF8)) true [".".toList]).value =
      ["./a.c".toList, "./d/b.c".toList] ∧
    (expand (besideIgnore none) true [".".toList]).value.filter
        (¬Path.Within "./d".toList ·) =
      (expand (besideIgnore (some "c.c\n".toUTF8)) true [".".toList]).value.filter
        (¬Path.Within "./d".toList ·) := by
  have named : (besideIgnore none).root.Named := by
    simp only [besideIgnore, Node.named_dir_iff, Node.fileEntry, Option.map_none,
      Option.toList_none, List.nil_append, List.forall_mem_cons]
    exact ⟨⟨by decide, .file _⟩,
      ⟨by decide, ⟨by decide, .file _⟩, ⟨by decide, .file _⟩, List.forall_mem_nil _⟩,
      List.forall_mem_nil _⟩
  have confined : ∀ content, none = some content ∨ some "c.c\n".toUTF8 = some content →
      Confined ".".toList (outside (besideIgnore none) ".".toList ["d".toList])
        (rulesOf content) := by
    rintro content (missing | held)
    · cases missing
    · obtain rfl := Option.some.inj held
      decide +kernel
  exact ⟨by decide +kernel, by decide +kernel, expand_outside (by decide) (by decide) named
    (besideIgnore_differAt _ _) confined⟩

/-- A rule acts where it fits, also outside of the directory of its ignore file. -/
theorem expand_outside_reached :
    FileSystem.DifferAt none (some "a.c\n".toUTF8) ([] ++ (["d".toList] ++ [fileName]))
      (besideIgnore none) (besideIgnore (some "a.c\n".toUTF8)) ∧
    (expand (besideIgnore none) true [".".toList]).value.filter (¬Path.Within "./d".toList ·) =
      ["./a.c".toList] ∧
    (expand (besideIgnore (some "a.c\n".toUTF8)) true [".".toList]).value.filter
      (¬Path.Within "./d".toList ·) = [] :=
  ⟨besideIgnore_differAt _ _, by decide +kernel, by decide +kernel⟩

end Expansion

end SourceDocs
