import SourceDocs.FileSystem.Basic
import SourceDocs.Proofs.Trees

/-!
What making directories and writing files leaves as it was. Directories stay directories, so a path
that led to a place still leads there; and every file but the one that is written keeps its content.
-/

namespace SourceDocs.FileSystem

/-- What a change leaves as it was: where relative paths start, every directory, and the files at the
places that count. -/
structure Keeps (counts : List Text → Prop) (before after : FileSystem) : Prop where
  working : after.working = before.working
  directories : ∀ place, before.root.IsDirAt place → after.root.IsDirAt place
  files : ∀ place content, counts place → before.root.find? place = some (.file content) →
    after.root.find? place = some (.file content)

variable {fs before after made written : FileSystem} {counts : List Text → Prop}
  {path name : Text} {place parent here there parts : List Text} {content : ByteArray}

theorem Keeps.refl (counts : List Text → Prop) (fs : FileSystem) : fs.Keeps counts fs :=
  ⟨rfl, fun _ directory => directory, fun _ _ _ found => found⟩

theorem Keeps.trans {middle : FileSystem} (first : before.Keeps counts middle)
    (second : middle.Keeps counts after) : before.Keeps counts after where
  working := second.working.trans first.working
  directories place directory := second.directories place (first.directories place directory)
  files place content counted found :=
    second.files place content counted (first.files place content counted found)

theorem Keeps.weaken {fewer : List Text → Prop} (keeps : before.Keeps counts after)
    (counted : ∀ place, fewer place → counts place) : before.Keeps fewer after :=
  { keeps with files := fun place content few => keeps.files place content (counted place few) }

theorem Keeps.origin (keeps : before.Keeps counts after) (path : Text) :
    after.origin path = before.origin path := by
  rw [FileSystem.origin, FileSystem.origin, keeps.working]

theorem follow_append (root : Node) (here front back : List Text) :
    follow root here (front ++ back) =
      (follow root here front).bind fun there => follow root there back := by
  fun_induction follow root here front with
  | case1 here => rfl
  | case2 here part parts missing => simp [follow, missing, Except.bind]
  | case3 here part parts content file => simp [follow, file, Except.bind]
  | case4 here part parts entries directory skipped ih =>
    rw [List.cons_append, follow]
    simp [directory, skipped, ih]
  | case5 here parts entries directory _ ih =>
    rw [List.cons_append, follow]
    simp [directory, ih]
  | case6 here part parts entries directory ordinary named long =>
    rw [List.cons_append, follow]
    simp [directory, ordinary, named, long, Except.bind]
  | case7 here part parts entries directory ordinary named short ih =>
    rw [List.cons_append, follow]
    simp [directory, ordinary, named, short, ih]

/-- A path that leads somewhere leads there also when more is there. -/
theorem follow_mono {root other : Node}
    (directories : ∀ place, root.IsDirAt place → other.IsDirAt place)
    (leads : follow root here parts = .ok there) : follow other here parts = .ok there := by
  fun_induction follow root here parts with
  | case1 here => exact leads
  | case2 here part parts missing => cases leads
  | case3 here part parts content file => cases leads
  | case4 here part parts entries directory skipped ih =>
    obtain ⟨others, kept⟩ := directories _ ⟨entries, directory⟩
    simp [follow, kept, skipped, ih leads]
  | case5 here parts entries directory _ ih =>
    obtain ⟨others, kept⟩ := directories _ ⟨entries, directory⟩
    simp [follow, kept, ih leads]
  | case6 here part parts entries directory ordinary named long => cases leads
  | case7 here part parts entries directory ordinary named short ih =>
    obtain ⟨others, kept⟩ := directories _ ⟨entries, directory⟩
    simp [follow, kept, ordinary, named, short, ih leads]

theorem Keeps.follow (keeps : before.Keeps counts after)
    (leads : follow before.root here parts = .ok there) :
    FileSystem.follow after.root here parts = .ok there :=
  follow_mono keeps.directories leads

theorem locate_eq_ok_iff :
    fs.locate path = .ok place ↔
      checkPath path = .ok () ∧
        follow fs.root (fs.origin path) (path.splitOn '/') = .ok place.reverse := by
  unfold locate
  cases checkPath path with
  | error error => simp [Except.bind]
  | ok checked =>
    cases follow fs.root (fs.origin path) (path.splitOn '/') with
    | error error => simp [Except.bind, Except.map]
    | ok there => simp [Except.bind, Except.map, List.reverse_eq_iff]

theorem Keeps.locate (keeps : before.Keeps counts after) (leads : before.locate path = .ok place) :
    after.locate path = .ok place := by
  rw [locate_eq_ok_iff] at leads ⊢
  rw [keeps.origin]
  exact ⟨leads.1, keeps.follow leads.2⟩

theorem readBytes_eq_ok_iff :
    fs.readBytes path = .ok content ↔
      ∃ place, fs.locate path = .ok place ∧ fs.root.find? place = some (.file content) := by
  unfold readBytes get
  cases fs.locate path with
  | error error => simp [Except.bind]
  | ok place =>
    cases found : fs.root.find? place with
    | none => simp [Except.bind, found]
    | some node => cases node <;> simp [Except.bind, found]

theorem Keeps.readBytes (keeps : before.Keeps counts after)
    (counted : ∀ place, before.locate path = .ok place → counts place)
    (held : before.readBytes path = .ok content) : after.readBytes path = .ok content := by
  obtain ⟨place, leads, found⟩ := readBytes_eq_ok_iff.mp held
  exact readBytes_eq_ok_iff.mpr
    ⟨place, keeps.locate leads, keeps.files place content (counted place leads) found⟩

/-- Putting a node where no directory is leaves everything else as it was. -/
theorem keeps_putAt (node : Node) (directory : fs.root.IsDirAt parent)
    (free : ¬fs.root.IsDirAt (parent ++ [name])) :
    fs.Keeps (· ≠ parent ++ [name]) (fs.putAt (parent ++ [name]) node) := by
  -- whatever is found at the place itself or below it makes the place a directory
  have apart : ∀ {place found}, place ≠ parent ++ [name] → fs.root.find? place = some found →
      ¬parent ++ [name] <+: place := by
    rintro place found different there ⟨below, rfl⟩
    refine free (Node.isDirAt_of_below ?_ there)
    rintro rfl
    exact different (List.append_nil _)
  refine ⟨rfl, ?_, ?_⟩
  · rintro place ⟨entries, there⟩
    have different : place ≠ parent ++ [name] := fun same => free (same ▸ ⟨entries, there⟩)
    rcases Node.find?_put_other node directory (apart different there) with same | stays
    · exact ⟨entries, same.trans there⟩
    · exact stays.2
  · intro place content different there
    rcases Node.find?_put_other node directory (apart different there) with same | ⟨both, _⟩
    · exact same.trans there
    · obtain ⟨entries, directoryThere⟩ := both
      rw [there] at directoryThere
      cases directoryThere

theorem locateParent_eq_ok (located : fs.locateParent path = .ok (parent, name)) :
    checkPath path = .ok () ∧ fs.root.IsDirAt parent ∧
      name = ((withoutEndSlashes path).splitOn '/').getLastD [] ∧
      follow fs.root (fs.origin path) ((withoutEndSlashes path).splitOn '/').dropLast =
        .ok parent.reverse := by
  unfold locateParent at located
  cases checked : checkPath path with
  | error error =>
    rw [checked] at located
    cases located
  | ok _ =>
    rw [checked] at located
    dsimp only [Except.bind] at located
    split at located
    next => cases located
    next here leads =>
      split at located
      next => cases located
      next => cases located
      next entries directory =>
        obtain ⟨rfl, rfl⟩ := Prod.mk.inj (Except.ok.inj located)
        exact ⟨rfl, ⟨entries, directory⟩, rfl, by rw [leads, List.reverse_reverse]⟩

theorem makeDir_keeps (success : fs.makeDir path = .ok made) : fs.Keeps (fun _ => True) made := by
  unfold makeDir at success
  split at success
  next => cases success
  next parent name located =>
    obtain ⟨_, directory, _, _⟩ := locateParent_eq_ok located
    split at success
    next => cases success
    next fresh =>
      split at success
      next => cases success
      next =>
        obtain rfl := Except.ok.inj success
        have absent : fs.root.find? (parent ++ [name]) = none := by
          simpa using (Bool.or_eq_false_iff.mp (Bool.eq_false_iff.mpr fresh)).2
        have free : ¬fs.root.IsDirAt (parent ++ [name]) := by
          rintro ⟨entries, there⟩
          rw [absent] at there
          cases there
        have keeps := keeps_putAt .emptyDir directory free
        refine { keeps with files := ?_ }
        intro place content _ there
        apply keeps.files place content _ there
        rintro rfl
        rw [absent] at there
        cases there

theorem makeDirs_keeps {paths : List Text} (success : fs.makeDirs paths = .ok made) :
    fs.Keeps (fun _ => True) made := by
  induction paths generalizing made with
  | nil =>
    obtain rfl := Except.ok.inj success
    exact .refl _ fs
  | cons path parents ih =>
    unfold makeDirs at success
    split at success
    next =>
      obtain rfl := Except.ok.inj success
      exact .refl _ fs
    next =>
      split at success
      next one single =>
        obtain rfl := Except.ok.inj success
        exact makeDir_keeps single
      next =>
        split at success
        next => cases success
        next above outer =>
          have outerKeeps := ih outer
          split at success
          next one inner =>
            obtain rfl := Except.ok.inj success
            exact outerKeeps.trans (makeDir_keeps inner)
          next =>
            split at success
            next =>
              obtain rfl := Except.ok.inj success
              exact outerKeeps
            next => cases success
      next =>
        split at success
        next =>
          obtain rfl := Except.ok.inj success
          exact .refl _ fs
        next => cases success

theorem withoutEndSlashes_eq (plain : path.getLast? ≠ some '/') :
    withoutEndSlashes path = path := by
  have kept : path.reverse.dropWhile (· = '/') = path.reverse := by
    cases reversed : path.reverse with
    | nil => rfl
    | cons last before =>
      rw [List.getLast?_eq_head?_reverse, reversed] at plain
      apply List.dropWhile_cons_of_neg
      simpa using plain
  rw [withoutEndSlashes, kept, List.reverse_reverse]

theorem follow_singleton {root : Node} (directory : root.IsDirAt here.reverse)
    (named : isSelfReference name = false) (short : ¬nameLimit < Text.bytes name) :
    follow root here [name] = .ok (name :: here) := by
  obtain ⟨entries, there⟩ := directory
  simp only [isSelfReference, Bool.or_eq_false_iff, beq_eq_false_iff_ne] at named
  simp [follow, there, named, short]

/-- What is written is at the place that its path leads to, and nothing else has changed. -/
theorem write_eq_ok (success : fs.write path content = .ok written) :
    ∃ place, written.locate path = .ok place ∧
      written.root.find? place = some (.file content) ∧ fs.Keeps (· ≠ place) written := by
  unfold write at success
  split at success
  next => cases success
  next parent name located =>
    obtain ⟨checked, directory, last, leads⟩ := locateParent_eq_ok located
    split at success
    next => cases success
    next allowed =>
      split at success
      next => cases success
      next short =>
        obtain ⟨named, plain⟩ := Bool.or_eq_false_iff.mp (Bool.eq_false_iff.mpr allowed)
        rw [beq_eq_false_iff_ne] at plain
        rw [withoutEndSlashes_eq plain] at last leads
        split at success
        next => cases success
        next free =>
          obtain rfl := Except.ok.inj success
          have keeps := keeps_putAt (.file content) directory
            (fun ⟨entries, there⟩ => free entries there)
          refine ⟨parent ++ [name], ?_, Node.find?_put_self _ name directory, keeps⟩
          have parts : path.splitOn '/' = (path.splitOn '/').dropLast ++ [name] := by
            have nonempty : path.splitOn '/' ≠ [] := List.splitOn_ne_nil '/' path
            rw [last, List.getLastD_eq_getLast?, List.getLast?_eq_some_getLast nonempty,
              Option.getD_some, List.dropLast_concat_getLast]
          have stays : (fs.putAt (parent ++ [name]) (.file content)).root.IsDirAt
              parent.reverse.reverse := by
            rw [List.reverse_reverse]
            exact keeps.directories parent directory
          rw [locate_eq_ok_iff, keeps.origin, parts, follow_append, keeps.follow leads,
            List.reverse_append, List.reverse_singleton]
          exact ⟨checked, follow_singleton stays named short⟩

end SourceDocs.FileSystem
