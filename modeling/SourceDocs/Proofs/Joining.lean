import SourceDocs.Proofs.Ancestors
import SourceDocs.Proofs.Writing

/-!
Paths that go on from a directory by names. Such a path has the components of the directory and then
the names, and it leads from the place of the directory through exactly these names. Where renderings
go is a path of this kind, so below one directory the names tell the places apart.
-/

namespace SourceDocs

namespace Path

/-- Whether a text names an entry of a directory: it is not empty, has no separator in it and is not
the dots that lead to the directory itself or back. -/
def IsName (name : Text) : Prop :=
  name ≠ [] ∧ name ≠ ['.'] ∧ name ≠ ['.', '.'] ∧ separator ∉ name

instance (name : Text) : Decidable (IsName name) := inferInstanceAs (Decidable (_ ∧ _))

variable {directory path part name extension : Text} {parts kept : List Text} {leading : Bool}

theorem component?_of_isName (named : IsName name) (leading : Bool) :
    component? leading name = some (.normal name) := by
  obtain ⟨nonempty, notHere, notBack, _⟩ := named
  unfold component?
  split <;> simp_all

theorem isName_of_component? (stands : component? leading part = some (.normal name))
    (whole : separator ∉ part) : IsName name := by
  unfold component? at stands
  split at stands
  next => cases stands
  next => split at stands <;> cases stands
  next => cases stands
  next nonempty notHere notBack =>
    cases stands
    exact ⟨nonempty, notHere, notBack, whole⟩

def componentsOf (leading : Bool) : List Text → List Component
  | [] => []
  | part :: parts => (component? leading part).toList ++ componentsOf false parts

theorem map_fst_prefixesFrom (leading : Bool) (before : Text) (parts : List Text) :
    (prefixesFrom leading before parts).map Prod.fst = componentsOf leading parts := by
  induction parts generalizing leading before with
  | nil => rfl
  | cons part parts ih =>
    rw [prefixesFrom, componentsOf]
    cases component? leading part with
    | none => exact ih _ _
    | some component => simp [ih]

theorem components_eq (path : Text) :
    components path = if isAbsolute path then .root :: componentsOf false (path.splitOn separator)
      else componentsOf true (path.splitOn separator) := by
  unfold components prefixes
  split <;> simp [map_fst_prefixesFrom]

theorem componentsOf_append_names (leading : Bool) (parts : List Text)
    (named : ∀ name ∈ kept, IsName name) :
    componentsOf leading (parts ++ kept) = componentsOf leading parts ++ kept.map .normal := by
  induction parts generalizing leading with
  | nil =>
    rw [List.nil_append, componentsOf, List.nil_append]
    induction kept generalizing leading with
    | nil => rfl
    | cons name kept ih =>
      obtain ⟨first, others⟩ := List.forall_mem_cons.mp named
      rw [componentsOf, component?_of_isName first, ih others]
      rfl
  | cons part parts ih => rw [List.cons_append, componentsOf, componentsOf, ih, List.append_assoc]

theorem isName_of_mem_names (member : name ∈ names path) : IsName name := by
  obtain ⟨component, inside, same⟩ := List.mem_filterMap.mp member
  have normal : component = .normal name := by
    cases component <;> simp_all
  subst normal
  -- the name comes from a part of the path, which has no separator in it
  have further : ∀ {leading} {parts : List Text}, (∀ part ∈ parts, separator ∉ part) →
      .normal name ∈ componentsOf leading parts → IsName name := by
    intro leading parts whole found
    induction parts generalizing leading with
    | nil => cases found
    | cons part parts ih =>
      obtain ⟨first, others⟩ := List.forall_mem_cons.mp whole
      rcases List.mem_append.mp found with here | later
      · exact isName_of_component? (Option.mem_toList.mp here) first
      · exact ih others later
  have whole : ∀ part ∈ path.splitOn separator, separator ∉ part := fun part within =>
    Text.not_mem_of_mem_splitOn within
  rw [components_eq] at inside
  split at inside
  · exact further whole ((List.mem_cons.mp inside).resolve_left nofun)
  · exact further whole inside

/-- The parts of a directory that come in front of what is joined to it: an end slash is no part. -/
def partsBefore (directory : Text) : List Text :=
  if directory.isEmpty then []
  else if directory.getLast? == some separator then (directory.splitOn separator).dropLast
  else directory.splitOn separator

theorem isAbsolute_intercalate (named : ∀ name ∈ kept, IsName name) :
    isAbsolute ([separator].intercalate kept) = false := by
  cases kept with
  | nil => rfl
  | cons name kept =>
    obtain ⟨nonempty, _, _, whole⟩ := named name List.mem_cons_self
    obtain ⟨c, rest, rfl⟩ := List.exists_cons_of_ne_nil nonempty
    have other : c ≠ separator := fun same => whole (same ▸ List.mem_cons_self)
    cases kept <;> simp [isAbsolute, other]

theorem splitOn_of_endSlash (ends : directory.getLast? = some separator) :
    directory.splitOn separator = (directory.splitOn separator).dropLast ++ [[]] ∧
      directory = directory.dropLast ++ [separator] ∧
      directory.dropLast.splitOn separator = (directory.splitOn separator).dropLast := by
  have split : directory = directory.dropLast ++ [separator] := by
    obtain ⟨front, rfl⟩ := List.getLast?_eq_some_iff.mp ends
    rw [List.dropLast_concat]
  have parts : directory.splitOn separator = directory.dropLast.splitOn separator ++ [[]] := by
    conv => lhs; rw [split]
    rw [List.splitOn_append_cons_self, List.splitOn_nil]
  refine ⟨?_, split, ?_⟩ <;> rw [parts, List.dropLast_concat]

/-- A joined path has the parts of the directory and then the names. -/
theorem splitOn_join (named : ∀ name ∈ kept, IsName name) (nonempty : kept ≠ []) :
    (join directory ([separator].intercalate kept)).splitOn separator =
      partsBefore directory ++ kept := by
  have whole : ∀ name ∈ kept, separator ∉ name := fun name member => (named name member).2.2.2
  have split := List.splitOn_intercalate separator whole nonempty
  unfold join partsBefore
  rw [isAbsolute_intercalate named, if_neg Bool.false_ne_true]
  by_cases empty : directory.isEmpty = true
  · rw [if_pos (by simp [empty]), if_pos empty, List.isEmpty_iff.mp empty]
    exact split
  · rw [if_neg empty]
    by_cases ends : directory.getLast? = some separator
    · obtain ⟨_, directory_eq, before⟩ := splitOn_of_endSlash ends
      rw [if_pos (by simp [ends]), if_pos (by simp [ends]), ← before]
      conv => lhs; rw [directory_eq]
      rw [List.append_assoc, List.singleton_append, List.splitOn_append_cons_self, split]
    · rw [if_neg (by simp [empty, ends]), if_neg (by simp [ends]),
        List.splitOn_append_cons_self, split]

theorem isAbsolute_join (named : ∀ name ∈ kept, IsName name) :
    isAbsolute (join directory ([separator].intercalate kept)) = isAbsolute directory := by
  have relative := isAbsolute_intercalate named
  unfold join
  rw [relative, if_neg Bool.false_ne_true]
  cases directory with
  | nil => exact relative
  | cons c rest => split <;> rfl

theorem componentsOf_partsBefore (leading : Bool) (directory : Text) :
    componentsOf leading (partsBefore directory) =
      componentsOf leading (directory.splitOn separator) := by
  unfold partsBefore
  split
  next empty =>
    rw [List.isEmpty_iff.mp empty]
    rfl
  next =>
    split
    next ends =>
      have trailing : ∀ {leading} (parts : List Text),
          componentsOf leading (parts ++ [[]]) = componentsOf leading parts := by
        intro leading parts
        induction parts generalizing leading with
        | nil => rfl
        | cons part parts ih => rw [List.cons_append, componentsOf, componentsOf, ih]
      rw [(splitOn_of_endSlash (by simpa using ends)).1, List.dropLast_concat, trailing]
    next => rfl

/-- A joined path has the components of the directory and then the names. -/
theorem components_join (named : ∀ name ∈ kept, IsName name) (nonempty : kept ≠ []) :
    components (join directory ([separator].intercalate kept)) =
      components directory ++ kept.map .normal := by
  rw [components_eq, components_eq, isAbsolute_join named, splitOn_join named nonempty,
    componentsOf_append_names _ _ named, componentsOf_append_names _ _ named,
    componentsOf_partsBefore, componentsOf_partsBefore]
  split <;> rfl

theorem join_join (named : IsName name) (others : ∀ name ∈ kept, IsName name) :
    join (join directory name) ([separator].intercalate kept) =
      join directory (name ++ separator :: [separator].intercalate kept) := by
  obtain ⟨front, last, rfl⟩ : ∃ front last, name = front ++ [last] :=
    ⟨_, _, (List.dropLast_concat_getLast named.1).symm⟩
  have inside : last ≠ separator := fun same => named.2.2.2 (by simp [same])
  have relative : isAbsolute (front ++ [last]) = false := by
    simpa using isAbsolute_intercalate (List.forall_mem_singleton.mpr named)
  have longer :
      isAbsolute (front ++ [last] ++ separator :: [separator].intercalate kept) = false := by
    cases front <;> simpa [isAbsolute] using relative
  have further := isAbsolute_intercalate others
  unfold join
  simp only [relative, longer, further, Bool.false_eq_true, if_false]
  split <;> simp [inside, List.getLast?_cons]

/-- Going on name by name is joining all names at once. -/
theorem foldl_join (named : ∀ name ∈ kept, IsName name) (nonempty : kept ≠ []) :
    kept.foldl join directory = join directory ([separator].intercalate kept) := by
  induction kept generalizing directory with
  | nil => exact absurd rfl nonempty
  | cons name kept ih =>
    obtain ⟨first, others⟩ := List.forall_mem_cons.mp named
    cases kept with
    | nil => simp
    | cons next kept =>
      rw [List.foldl_cons, ih others (List.cons_ne_nil _ _), join_join first others]
      simp

theorem components_foldl_join (named : ∀ name ∈ kept, IsName name) :
    components (kept.foldl join directory) = components directory ++ kept.map .normal := by
  by_cases nonempty : kept = []
  · subst nonempty
    exact (List.append_nil _).symm
  · rw [foldl_join named nonempty, components_join named nonempty]

theorem components_join_name (directory : Text) (named : IsName name) :
    components (join directory name) = components directory ++ [.normal name] :=
  components_foldl_join (List.forall_mem_singleton.mpr named)

theorem join_nil (path : Text) : join [] path = path := by
  unfold join
  split <;> rfl

theorem ofNames_eq (named : ∀ name ∈ kept, IsName name) :
    ofNames kept = [separator].intercalate kept := by
  by_cases empty : kept = []
  · rw [empty]
    rfl
  · rw [ofNames, foldl_join named empty, join_nil]

theorem ofNames_concat (kept : List Text) (name : Text) :
    ofNames (kept ++ [name]) = join (ofNames kept) name := List.foldl_append

theorem components_ofNames (named : ∀ name ∈ kept, IsName name) :
    components (ofNames kept) = kept.map .normal := components_foldl_join named

theorem fileName?_ofNames (named : ∀ name ∈ kept, IsName name) :
    fileName? (ofNames kept) = kept.getLast? := by
  rw [fileName?, components_ofNames named, List.getLast?_map]
  cases kept.getLast? <;> rfl

/-- A name behind parts is the last component, and it ends where the joined parts end. -/
theorem prefixesFrom_concat (leading : Bool) (before : Text) (parts : List Text)
    (named : IsName name) :
    prefixesFrom leading before (parts ++ [name]) = prefixesFrom leading before parts ++
      [(.normal name, before ++ [separator].intercalate (parts ++ [name]))] := by
  induction parts generalizing leading before with
  | nil => simp [prefixesFrom, component?_of_isName named]
  | cons part parts ih =>
    have nonempty : parts ++ [name] ≠ [] := by simp
    have whole : before ++ [separator].intercalate (part :: (parts ++ [name])) =
        before ++ part ++ [separator] ++ [separator].intercalate (parts ++ [name]) := by
      rw [List.intercalate_cons_of_ne_nil nonempty]
      simp only [List.append_assoc]
    rw [List.cons_append, whole, prefixesFrom, prefixesFrom, ih]
    cases component? leading part <;> rfl

/-- The parent of a path made of names is made of all but the last of them. -/
theorem parent?_ofNames (named : ∀ part ∈ kept ++ [name], IsName part) :
    parent? (ofNames (kept ++ [name])) = some (ofNames kept) := by
  have inner : ∀ part ∈ kept, IsName part := fun _ member =>
    named _ (List.mem_append_left _ member)
  have last : IsName name := named name (by simp)
  have split := List.splitOn_intercalate separator (fun _ member => (named _ member).2.2.2)
    (List.append_ne_nil_of_right_ne_nil kept (List.cons_ne_nil name []))
  have listed : prefixes (ofNames (kept ++ [name])) = prefixesFrom true [] kept ++
      [(.normal name, [separator].intercalate (kept ++ [name]))] := by
    rw [ofNames_eq named, prefixes, isAbsolute_intercalate named, if_neg Bool.false_ne_true, split,
      prefixesFrom_concat _ _ _ last, List.nil_append]
  have reversed := congrArg List.reverse listed
  rw [List.reverse_concat] at reversed
  rw [parent?_of_reverse (by simp) reversed, List.head?_reverse, ofNames_eq inner]
  -- the parent is the beginning that ends with the name before, if there is one
  rcases List.eq_nil_or_concat kept with rfl | ⟨above, next, rfl⟩
  · rfl
  · rw [List.concat_eq_append] at inner ⊢
    rw [prefixesFrom_concat _ _ _ (inner next (by simp)), List.getLast?_concat]
    rfl

/-- Putting a name in the place of the last one. -/
theorem withFileName_ofNames {other : Text} (named : ∀ part ∈ kept ++ [name], IsName part) :
    withFileName (ofNames (kept ++ [name])) other = join (ofNames kept) other := by
  rw [withFileName, fileName?_ofNames named, List.getLast?_concat, parent?_ofNames named]
  rfl

def targetNames (source extension : Text) : List Text :=
  match (names source).reverse with
  | [] => ['.' :: extension]
  | last :: above => above.reverse ++ [last ++ '.' :: extension]

theorem targetNames_eq (source extension : Text) :
    targetNames source extension =
      (names source).dropLast ++ [(names source).getLastD [] ++ '.' :: extension] := by
  unfold targetNames
  split
  next bare =>
    rw [List.reverse_eq_nil_iff.mp bare]
    rfl
  next last above reversed =>
    have split : names source = above.reverse ++ [last] := by
      rw [← List.reverse_cons, ← reversed, List.reverse_reverse]
    rw [split, List.dropLast_concat, List.getLastD_concat]

theorem output_congr {first second : Text} (same : names first = names second)
    (directory extension : Text) :
    output directory first extension = output directory second extension := by
  unfold output
  rw [same]

theorem targetNames_ne_nil (source extension : Text) : targetNames source extension ≠ [] := by
  unfold targetNames
  split <;> simp

theorem isName_append (first : IsName name) (second : IsName ('.' :: extension)) :
    IsName (name ++ '.' :: extension) := by
  obtain ⟨nonempty, _, _, whole⟩ := first
  obtain ⟨c, rest, rfl⟩ := List.exists_cons_of_ne_nil nonempty
  obtain ⟨_, extended, _, wholeExtension⟩ := second
  refine ⟨by simp, by simp, ?_, ?_⟩
  · intro dots
    rw [List.cons_append, List.cons.injEq] at dots
    cases rest <;> simp_all
  · rw [List.mem_append, not_or]
    exact ⟨whole, wholeExtension⟩

theorem isName_of_mem_targetNames {source : Text} (suffix : IsName ('.' :: extension))
    (member : name ∈ targetNames source extension) : IsName name := by
  unfold targetNames at member
  split at member
  next =>
    obtain rfl := List.mem_singleton.mp member
    exact suffix
  next last above reversed =>
    have kept : ∀ other, other ∈ last :: above → IsName other := by
      intro other inside
      rw [← reversed, List.mem_reverse] at inside
      exact isName_of_mem_names inside
    rcases List.mem_append.mp member with outer | final
    · exact kept name (List.mem_cons_of_mem last (List.mem_reverse.mp outer))
    · obtain rfl := List.mem_singleton.mp final
      exact isName_append (kept last List.mem_cons_self) suffix

/-- The target of a source is the directory joined with the target names. -/
theorem output_eq {source : Text} (suffix : IsName ('.' :: extension)) :
    output directory source extension =
      join directory ([separator].intercalate (targetNames source extension)) := by
  have named : ∀ name ∈ names source, IsName name := fun _ member => isName_of_mem_names member
  have targets : ∀ name ∈ targetNames source extension, IsName name := fun _ member =>
    isName_of_mem_targetNames suffix member
  rw [← ofNames_eq targets, output, fileName?_ofNames named]
  unfold targetNames
  rcases List.eq_nil_or_concat (names source) with bare | ⟨above, last, split⟩
  · rw [bare]
    rfl
  · rw [List.concat_eq_append] at split
    rw [split] at named ⊢
    rw [withFileName_ofNames named, List.getLast?_concat, List.reverse_concat]
    dsimp only
    rw [List.reverse_reverse, ofNames_concat]
    rfl

/-- Sources with the same target names have the same names. -/
theorem names_eq_of_targetNames {first second : Text}
    (same : targetNames first extension = targetNames second extension) :
    names first = names second := by
  -- the last name is not empty, so no target is the bare suffix by accident
  have visible : ∀ {source last above}, (names source).reverse = last :: above → last ≠ [] := by
    intro source last above reversed
    have member : last ∈ names source := by
      rw [← List.mem_reverse, reversed]
      exact List.mem_cons_self
    exact (isName_of_mem_names member).1
  have suffixed : ∀ {last : Text} {above : List Text}, last ≠ [] →
      ['.' :: extension] ≠ above.reverse ++ [last ++ '.' :: extension] := by
    intro last above nonempty bare
    have ends := congrArg List.getLast? bare
    rw [List.getLast?_singleton, List.getLast?_concat, Option.some.injEq] at ends
    exact nonempty (List.self_eq_append_left.mp ends)
  unfold targetNames at same
  apply List.reverse_inj.mp
  cases firstNames : (names first).reverse with
  | nil =>
    cases secondNames : (names second).reverse with
    | nil => rfl
    | cons last above =>
      rw [firstNames, secondNames] at same
      exact absurd same (suffixed (visible secondNames))
  | cons last above =>
    cases secondNames : (names second).reverse with
    | nil =>
      rw [firstNames, secondNames] at same
      exact absurd same.symm (suffixed (visible firstNames))
    | cons otherLast otherAbove =>
      rw [firstNames, secondNames] at same
      obtain ⟨outer, final⟩ := List.append_inj' same rfl
      rw [List.reverse_inj.mp outer, List.append_cancel_right (List.cons.inj final).1]

theorem components_output {source : Text} (suffix : IsName ('.' :: extension)) :
    components (output directory source extension) =
      components directory ++ (targetNames source extension).map .normal := by
  rw [output_eq suffix, components_join (fun _ => isName_of_mem_targetNames suffix)
    (targetNames_ne_nil source extension)]

/-- For one directory and extension, targets are told apart by the names of their sources. -/
theorem components_output_eq_iff {first second : Text} (suffix : IsName ('.' :: extension)) :
    components (output directory first extension) =
      components (output directory second extension) ↔ names first = names second := by
  constructor
  · intro same
    rw [components_output suffix, components_output suffix] at same
    have targets := List.append_cancel_left same
    exact names_eq_of_targetNames
      ((List.map_inj_right fun _ _ => Component.normal.inj).mp targets)
  · intro same
    rw [output_congr same]

theorem output_eq_iff {first second : Text} (suffix : IsName ('.' :: extension)) :
    output directory first extension = output directory second extension ↔
      names first = names second :=
  ⟨fun same => (components_output_eq_iff suffix).mp (congrArg components same),
    fun same => output_congr same directory extension⟩

def name? : Component → Option Text
  | .normal name => some name
  | _ => none

theorem names_eq (path : Text) : names path = (components path).filterMap name? := rfl

def turns (path : Text) : List Component := (components path).filter (name? · |>.isNone)

/-- Past its start a path has names and steps back only. -/
theorem exists_start (path : Text) :
    ∃ start parts, components path = start ++ componentsOf false parts ∧
      ∀ component ∈ start, name? component = none := by
  rw [components_eq]
  split
  · exact ⟨[.root], path.splitOn separator, rfl, by simp [name?]⟩
  · cases path.splitOn separator with
    | nil => exact ⟨[], [], rfl, nofun⟩
    | cons part parts =>
      by_cases dot : part = ['.']
      · subst dot
        exact ⟨[.current], parts, rfl, by simp [name?]⟩
      · have alike : component? true part = component? false part := by
          unfold component?
          split <;> simp_all
        exact ⟨[], part :: parts, by rw [componentsOf, componentsOf, alike]; rfl, nofun⟩

theorem componentsOf_eq_names {parts : List Text}
    (forwards : .parent ∉ componentsOf false parts) :
    ∃ kept : List Text, componentsOf false parts = kept.map .normal := by
  induction parts with
  | nil => exact ⟨[], rfl⟩
  | cons part parts ih =>
    rw [componentsOf, List.mem_append, not_or] at forwards
    obtain ⟨kept, further⟩ := ih forwards.2
    rw [componentsOf, further]
    cases stands : component? false part with
    | none => exact ⟨kept, rfl⟩
    | some component =>
      rw [stands] at forwards
      cases component with
      | normal name => exact ⟨name :: kept, rfl⟩
      | parent => exact absurd (List.mem_singleton.mpr rfl) forwards.1
      | root => exact absurd rfl (of_component? stands).1
      | current =>
        unfold component? at stands
        split at stands <;> simp_all

/-- A path without steps back is its start and then its names. -/
theorem components_of_forwards (forwards : .parent ∉ components path) :
    components path = turns path ++ (names path).map .normal := by
  obtain ⟨start, parts, split, silent⟩ := exists_start path
  rw [split, List.mem_append, not_or] at forwards
  obtain ⟨kept, below⟩ := componentsOf_eq_names forwards.2
  rw [below] at split
  have turned : turns path = start := by
    have unnamed : start.filter (name? · |>.isNone) = start := by
      rw [List.filter_eq_self]
      intro component member
      rw [silent component member, Option.isNone_none]
    rw [turns, split, List.filter_append, unnamed, List.filter_map]
    simp [Function.comp_def, name?]
  have called : names path = kept := by
    rw [names_eq, split, List.filterMap_append, List.filterMap_eq_nil_iff.mpr silent,
      List.filterMap_map]
    simp [Function.comp_def, name?]
  rw [turned, called, split]

def Straight (paths : List Text) : Prop :=
  ∀ first ∈ paths, .parent ∉ components first ∧ ∀ second ∈ paths, turns first = turns second

instance {paths : List Text} : Decidable (Straight paths) :=
  inferInstanceAs (Decidable (∀ first ∈ paths, _ ∧ ∀ second ∈ paths, _))

theorem Straight.components_eq {paths : List Text} {first second : Text}
    (straight : Straight paths) (firstMember : first ∈ paths) (secondMember : second ∈ paths)
    (same : names first = names second) : components first = components second := by
  obtain ⟨forwards, alike⟩ := straight first firstMember
  rw [components_of_forwards forwards, components_of_forwards (straight second secondMember).1,
    alike second secondMember, same]

end Path

namespace FileSystem

variable {fs : FileSystem} {directory : Text} {kept here there place : List Text}

/-- Names are followed one after another. -/
theorem follow_names {root : Node} (named : ∀ name ∈ kept, Path.IsName name)
    (leads : follow root here kept = .ok there) : there = kept.reverse ++ here := by
  induction kept generalizing here with
  | nil => exact (Except.ok.inj leads).symm
  | cons name kept ih =>
    obtain ⟨⟨nonempty, notHere, notBack, _⟩, others⟩ := List.forall_mem_cons.mp named
    unfold follow at leads
    split at leads
    next => cases leads
    next => cases leads
    next =>
      rw [if_neg (by simp [nonempty, notHere]), if_neg notBack] at leads
      split at leads
      next => cases leads
      next => rw [ih others leads, List.reverse_cons, List.append_assoc, List.singleton_append]

/-- A joined path leads from the place of the directory through the names. -/
theorem locate_join (named : ∀ name ∈ kept, Path.IsName name) (nonempty : kept ≠ [])
    (leads : fs.locate (Path.join directory ([Path.separator].intercalate kept)) = .ok place) :
    ∃ base, follow fs.root (fs.origin directory) (Path.partsBefore directory) = .ok base ∧
      place = base.reverse ++ kept := by
  obtain ⟨_, followed⟩ := locate_eq_ok_iff.mp leads
  have start : fs.origin (Path.join directory ([Path.separator].intercalate kept)) =
      fs.origin directory := by
    rw [origin, origin, Path.isAbsolute_join named]
  rw [start, show '/' = Path.separator from rfl, Path.splitOn_join named nonempty,
    follow_append] at followed
  cases outer : follow fs.root (fs.origin directory) (Path.partsBefore directory) with
  | error error =>
    rw [outer] at followed
    cases followed
  | ok base =>
    rw [outer] at followed
    have through := follow_names named followed
    exact ⟨base, rfl, by rw [← List.reverse_reverse place, through]; simp⟩

theorem follow_partsBefore (leads : fs.locate directory = .ok place) :
    follow fs.root (fs.origin directory) (Path.partsBefore directory) = .ok place.reverse := by
  obtain ⟨checked, followed⟩ := locate_eq_ok_iff.mp leads
  unfold Path.partsBefore
  split
  next empty =>
    rw [List.isEmpty_iff.mp empty] at checked
    cases checked
  next =>
    split
    next ends =>
      -- the empty part behind the end slash stays where it is
      rw [show '/' = Path.separator from rfl,
        (Path.splitOn_of_endSlash (by simpa using ends)).1, follow_append] at followed
      cases outer : follow fs.root (fs.origin directory)
          (directory.splitOn Path.separator).dropLast with
      | error error =>
        rw [outer] at followed
        cases followed
      | ok base =>
        rw [outer] at followed
        dsimp only [Except.bind] at followed
        unfold follow at followed
        split at followed
        next => cases followed
        next => cases followed
        next => simpa [follow] using followed
    next => exact followed

/-- Names lead on from the place of a directory. -/
theorem locate_foldl_join (leads : fs.locate directory = .ok place)
    (named : ∀ name ∈ kept, Path.IsName name)
    (found : fs.locate (kept.foldl Path.join directory) = .ok there) : there = place ++ kept := by
  by_cases nonempty : kept = []
  · subst nonempty
    rw [List.append_nil]
    exact (Except.ok.inj (leads.symm.trans found)).symm
  · rw [Path.foldl_join named nonempty] at found
    obtain ⟨base, followed, rfl⟩ := locate_join named nonempty found
    rw [follow_partsBefore leads] at followed
    rw [← Except.ok.inj followed, List.reverse_reverse]

/-- Below one directory, sources whose renderings go to the same place have the same names. -/
theorem names_eq_of_locate_output {first second extension : Text}
    (suffix : Path.IsName ('.' :: extension))
    (firstLeads : fs.locate (Path.output directory first extension) = .ok place)
    (secondLeads : fs.locate (Path.output directory second extension) = .ok place) :
    Path.names first = Path.names second := by
  have named : ∀ source, ∀ name ∈ Path.targetNames source extension, Path.IsName name :=
    fun _ _ member => Path.isName_of_mem_targetNames suffix member
  rw [Path.output_eq suffix] at firstLeads secondLeads
  obtain ⟨base, leads, rfl⟩ :=
    locate_join (named first) (Path.targetNames_ne_nil first extension) firstLeads
  obtain ⟨otherBase, otherLeads, same⟩ :=
    locate_join (named second) (Path.targetNames_ne_nil second extension) secondLeads
  obtain rfl := Except.ok.inj (leads.symm.trans otherLeads)
  exact Path.names_eq_of_targetNames (List.append_cancel_left same)

end FileSystem

end SourceDocs
