import SourceDocs.Path.Basic

/-!
The directories around a path. Each beginning of a path that ends with one of its components has the
components up to there and no others, so going from a path to its parent again and again passes
through these beginnings.
-/

namespace SourceDocs

theorem Text.not_mem_of_mem_splitOn {separator : Char} {source piece : Text}
    (member : piece ∈ source.splitOn separator) : separator ∉ piece := by
  induction source generalizing piece with
  | nil =>
    rw [List.splitOn_nil, List.mem_singleton] at member
    rw [member]
    exact List.not_mem_nil
  | cons c source ih =>
    rw [List.splitOn_cons_eq_if_modifyHead] at member
    split at member
    next =>
      rcases List.mem_cons.mp member with rfl | later
      · exact List.not_mem_nil
      · exact ih later
    next ordinary =>
      obtain ⟨first, others, pieces⟩ :=
        List.exists_cons_of_ne_nil (List.splitOn_ne_nil separator source)
      rw [pieces] at ih member
      rcases List.mem_cons.mp member with rfl | later
      · rw [List.mem_cons, not_or]
        exact ⟨fun same => ordinary (beq_iff_eq.mpr same.symm), ih List.mem_cons_self⟩
      · exact ih (List.mem_cons_of_mem first later)

namespace Path

/-- A path and the directories around it, the nearest first, up to one that has no parent. -/
inductive Ascent : Text → List Text → Prop
  | top {path : Text} (parentless : parent? path = none) : Ascent path [path]
  | up {path parent : Text} {outer : List Text} (above : parent? path = some parent)
      (further : Ascent parent outer) : Ascent path (path :: outer)

variable {path before upTo part : Text} {parts : List Text} {leading : Bool}
  {component : Component} {front back : List (Component × Text)}

theorem of_component? (stands : component? leading part = some component) :
    component ≠ .root ∧ part ≠ [] := by
  unfold component? at stands
  split at stands
  next => cases stands
  next =>
    split at stands
    next =>
      cases stands
      simp
    next => cases stands
  next =>
    cases stands
    simp
  next visible _ _ =>
    cases stands
    exact ⟨by simp, visible⟩

theorem of_mem_prefixesFrom (member : (component, upTo) ∈ prefixesFrom leading before parts) :
    component ≠ .root ∧ upTo ≠ [] := by
  induction parts generalizing leading before with
  | nil => cases member
  | cons part parts ih =>
    unfold prefixesFrom at member
    dsimp only at member
    split at member
    next => exact ih member
    next here stands =>
      rcases List.mem_cons.mp member with first | later
      · obtain ⟨rfl, rfl⟩ := Prod.mk.inj first
        obtain ⟨named, visible⟩ := of_component? stands
        exact ⟨named, List.append_ne_nil_of_right_ne_nil before visible⟩
      · exact ih later

theorem of_prefixesFrom_eq
    (found : prefixesFrom leading before parts = front ++ (component, upTo) :: back) :
    component ≠ .root ∧ upTo ≠ [] := by
  apply of_mem_prefixesFrom
  rw [found]
  exact List.mem_append_right front List.mem_cons_self

theorem intercalate_isPrefix {outer : List Text} (begins : outer <+: parts) :
    [separator].intercalate outer <+: [separator].intercalate parts := by
  induction outer generalizing parts with
  | nil => exact List.nil_prefix
  | cons part outer ih =>
    obtain ⟨inner, rfl⟩ := begins
    cases outer with
    | nil =>
      cases inner with
      | nil => exact List.prefix_rfl
      | cons next inner =>
        rw [List.intercalate_singleton, List.cons_append, List.nil_append,
          List.intercalate_cons_cons, List.append_assoc]
        exact List.prefix_append _ _
    | cons next outer =>
      rw [List.cons_append, List.cons_append, List.intercalate_cons_cons,
        List.intercalate_cons_cons, List.prefix_append_right_inj]
      exact ih ⟨inner, rfl⟩

/-- A beginning of a path that ends with a component is made of the parts up to there. -/
theorem prefixesFrom_split
    (found : prefixesFrom leading before parts = front ++ (component, upTo) :: back) :
    ∃ outer, outer <+: parts ∧ upTo = before ++ [separator].intercalate outer ∧
      prefixesFrom leading before outer = front ++ [(component, upTo)] := by
  induction parts generalizing leading before front with
  | nil => simp [prefixesFrom] at found
  | cons part parts ih =>
    -- a component further on: this part is passed, whether it is a component itself or not
    have further : ∀ {later}, prefixesFrom false (before ++ part ++ [separator]) parts =
          later ++ (component, upTo) :: back →
        ∃ outer, part :: outer <+: part :: parts ∧
          upTo = before ++ [separator].intercalate (part :: outer) ∧
          prefixesFrom false (before ++ part ++ [separator]) outer =
            later ++ [(component, upTo)] := by
      intro later below
      obtain ⟨outer, begins, same, rest⟩ := ih below
      have nonempty : outer ≠ [] := by
        rintro rfl
        simp [prefixesFrom] at rest
      refine ⟨outer, List.cons_prefix_cons.mpr ⟨rfl, begins⟩, ?_, rest⟩
      rw [same, List.intercalate_cons_of_ne_nil nonempty]
      simp only [List.append_assoc]
    unfold prefixesFrom at found
    dsimp only at found
    split at found
    next skipped =>
      obtain ⟨outer, begins, same, rest⟩ := further found
      refine ⟨part :: outer, begins, same, ?_⟩
      simp only [prefixesFrom, skipped]
      exact rest
    next here stands =>
      cases front with
      | nil =>
        obtain ⟨first, _⟩ := List.cons.inj found
        obtain ⟨rfl, rfl⟩ := Prod.mk.inj first
        refine ⟨[part], List.cons_prefix_cons.mpr ⟨rfl, List.nil_prefix⟩, ?_, ?_⟩
        · rw [List.intercalate_singleton]
        · simp only [prefixesFrom, stands]
          rfl
      | cons first front =>
        rw [List.cons_append, List.cons.injEq] at found
        obtain ⟨rfl, below⟩ := found
        obtain ⟨outer, begins, same, rest⟩ := further below
        refine ⟨part :: outer, begins, same, ?_⟩
        simp only [prefixesFrom, stands, rest]
        rfl

theorem isAbsolute_of_isPrefix (begins : upTo <+: path) (nonempty : upTo ≠ []) :
    isAbsolute upTo = isAbsolute path := by
  obtain ⟨rest, rfl⟩ := begins
  obtain ⟨c, tail, rfl⟩ := List.exists_cons_of_ne_nil nonempty
  rfl

theorem prefixesFrom_splitOn
    (found : prefixesFrom leading [] (path.splitOn separator) =
      front ++ (component, upTo) :: back) :
    isAbsolute upTo = isAbsolute path ∧
      prefixesFrom leading [] (upTo.splitOn separator) = front ++ [(component, upTo)] := by
  have visible := (of_prefixesFrom_eq found).2
  obtain ⟨outer, begins, rfl, rest⟩ := prefixesFrom_split found
  rw [List.nil_append] at visible rest ⊢
  have nonempty : outer ≠ [] := by
    rintro rfl
    exact visible rfl
  have unparted : ∀ piece ∈ outer, separator ∉ piece := fun piece member =>
    Text.not_mem_of_mem_splitOn (begins.subset member)
  have within := intercalate_isPrefix begins
  rw [List.intercalate_splitOn] at within
  rw [List.splitOn_intercalate separator unparted nonempty]
  exact ⟨isAbsolute_of_isPrefix within visible, rest⟩

/-- The components of a beginning of a path are those of the path up to its end. -/
theorem prefixes_split (found : prefixes path = front ++ (component, upTo) :: back) :
    isAbsolute upTo = isAbsolute path ∧ prefixes upTo = front ++ [(component, upTo)] := by
  unfold prefixes at found
  dsimp only at found
  by_cases absolute : isAbsolute path = true
  · rw [if_pos absolute] at found
    cases front with
    | nil =>
      obtain ⟨first, _⟩ := List.cons.inj found
      obtain ⟨rfl, rfl⟩ := Prod.mk.inj first
      exact ⟨absolute.symm, by decide⟩
    | cons first front =>
      rw [List.cons_append, List.cons.injEq] at found
      obtain ⟨rfl, below⟩ := found
      obtain ⟨same, rest⟩ := prefixesFrom_splitOn below
      refine ⟨same, ?_⟩
      rw [prefixes, if_pos (same.trans absolute), rest]
      rfl
  · rw [if_neg absolute] at found
    obtain ⟨same, rest⟩ := prefixesFrom_splitOn found
    refine ⟨same, ?_⟩
    rw [prefixes, if_neg (by rwa [same]), rest]

/-- The root is the first component of an absolute path and no other one. -/
theorem eq_nil_of_root (found : prefixes path = front ++ (.root, upTo) :: back) :
    front = [] ∧ isAbsolute path = true := by
  unfold prefixes at found
  dsimp only at found
  by_cases absolute : isAbsolute path = true
  · refine ⟨?_, absolute⟩
    rw [if_pos absolute] at found
    cases front with
    | nil => rfl
    | cons first front =>
      rw [List.cons_append, List.cons.injEq] at found
      exact absurd rfl (of_prefixesFrom_eq found.2).1
  · rw [if_neg absolute] at found
    exact absurd rfl (of_prefixesFrom_eq found).1

theorem parent?_of_reverse {outer : List (Component × Text)} (below : component ≠ .root)
    (reversed : (prefixes path).reverse = (component, upTo) :: outer) :
    parent? path = some ((outer.head?.map Prod.snd).getD []) := by
  unfold parent?
  rw [reversed]
  cases component with
  | root => exact absurd rfl below
  | current => cases outer <;> rfl
  | parent => cases outer <;> rfl
  | normal name => cases outer <;> rfl

theorem ancestors_eq (path : Text) :
    ancestors path = path :: match parent? path with
      | none => []
      | some parent => ancestors parent := by
  cases reversed : (prefixes path).reverse with
  | nil => simp [ancestors, parent?, reversed]
  | cons last outer =>
    obtain ⟨component, upTo⟩ := last
    have listed := congrArg List.reverse reversed
    rw [List.reverse_reverse, List.reverse_cons] at listed
    by_cases root : component = .root
    · subst root
      obtain ⟨alone, absolute⟩ := eq_nil_of_root listed
      obtain rfl := List.reverse_eq_nil_iff.mp alone
      simp [ancestors, parent?, reversed, absolute]
    · rw [parent?_of_reverse root reversed]
      cases outer with
      | nil =>
        have relative : isAbsolute path = false := by
          rw [Bool.eq_false_iff]
          intro absolute
          rw [prefixes, if_pos absolute] at listed
          exact root (congrArg Prod.fst (List.cons.inj listed).1).symm
        have here : ancestors path = [path, []] := by simp [ancestors, reversed, relative]
        rw [here]
        rfl
      | cons next outer =>
        obtain ⟨above, start⟩ := next
        rw [List.reverse_cons, List.append_assoc, List.singleton_append] at listed
        obtain ⟨same, listedThere⟩ := prefixes_split listed
        simp [ancestors, reversed, same, listedThere]

theorem ascent_ancestors (path : Text) : Ascent path (ancestors path) := by
  induction size : (ancestors path).length using Nat.strongRecOn generalizing path with
  | ind size ih =>
    subst size
    rw [ancestors_eq]
    cases above : parent? path with
    | none => exact .top above
    | some parent =>
      refine .up above (ih _ ?_ parent rfl)
      rw [ancestors_eq path, above]
      exact Nat.lt_succ_self _

end Path

end SourceDocs
