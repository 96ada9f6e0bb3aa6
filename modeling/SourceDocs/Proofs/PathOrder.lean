import Mathlib.Data.List.Nodup
import SourceDocs.Dictionary
import SourceDocs.Expansion
import SourceDocs.Proofs.StableSort

/-!
The order of expanded paths. Paths are ordered by their components, and two texts are the same path
when neither comes before the other; so in a sorted list the spellings of one path stand together, and
dropping repeats leaves each path once.
-/

namespace SourceDocs

namespace Component

variable {first second third : Component}

theorem lt_irrefl (component : Component) : component.lt component = false := by
  cases component <;> simp [lt]

theorem lt_trans (left : first.lt second = true) (right : second.lt third = true) :
    first.lt third = true := by
  cases first with
  | normal a =>
    cases second with
    | normal b =>
      cases third with
      | normal c =>
        exact decide_eq_true (List.lt_trans (of_decide_eq_true left) (of_decide_eq_true right))
      | _ => simp [lt, rank] at right
    | _ => simp [lt, rank] at left
  | _ => cases second <;> cases third <;> simp_all [lt, rank]

theorem lt_of_not_lt (behind : ¬second.lt first = true) (different : first ≠ second) :
    first.lt second = true := by
  cases first with
  | normal a =>
    cases second with
    | normal b =>
      have distinct : a ≠ b := fun same => different (congrArg normal same)
      have order : ¬b < a := fun before => behind (decide_eq_true before)
      exact decide_eq_true (Text.lt_of_not_lt order distinct)
    | _ => simp [lt, rank] at behind
  | _ => cases second <;> simp_all [lt, rank]

end Component

namespace Path

variable {first second third : List Component}

theorem componentsLe_total (first second : List Component) :
    componentsLe first second = true ∨ componentsLe second first = true := by
  induction first generalizing second with
  | nil => exact .inl rfl
  | cons a first ih =>
    cases second with
    | nil => exact .inr rfl
    | cons b second =>
      by_cases same : a = b
      · subst same
        simpa [componentsLe] using ih second
      · simp only [componentsLe, if_neg same, if_neg (Ne.symm same)]
        by_cases order : b.lt a = true
        · exact .inr order
        · exact .inl (Component.lt_of_not_lt order same)

theorem componentsLe_trans (left : componentsLe first second = true)
    (right : componentsLe second third = true) : componentsLe first third = true := by
  induction first generalizing second third with
  | nil => rfl
  | cons a first ih =>
    cases second with
    | nil => cases left
    | cons b second =>
      cases third with
      | nil => cases right
      | cons c third =>
        unfold componentsLe at left right ⊢
        by_cases ab : a = b
        · subst ab
          rw [if_pos rfl] at left
          by_cases ac : a = c
          · rw [if_pos ac] at right ⊢
            exact ih left right
          · rw [if_neg ac] at right ⊢
            exact right
        · rw [if_neg ab] at left
          by_cases bc : b = c
          · subst bc
            rwa [if_neg ab]
          · rw [if_neg bc] at right
            have order := Component.lt_trans left right
            have ac : a ≠ c := by
              rintro rfl
              rw [Component.lt_irrefl] at order
              cases order
            rwa [if_neg ac]

theorem componentsLe_antisymm (left : componentsLe first second = true)
    (right : componentsLe second first = true) : first = second := by
  induction first generalizing second with
  | nil =>
    cases second with
    | nil => rfl
    | cons b second => cases right
  | cons a first ih =>
    cases second with
    | nil => cases left
    | cons b second =>
      unfold componentsLe at left right
      by_cases same : a = b
      · subst same
        rw [if_pos rfl] at left right
        rw [ih left right]
      · rw [if_neg same] at left
        rw [if_neg (Ne.symm same)] at right
        have order := Component.lt_trans left right
        rw [Component.lt_irrefl] at order
        cases order

theorem same_iff {first second : Text} :
    same first second = true ↔ components first = components second := by
  rw [same, beq_iff_eq]

def Before (first second : Text) : Prop :=
  le first second = true ∧ components first ≠ components second

instance : Std.Irrefl Before := ⟨fun _ order => order.2 rfl⟩

instance : Std.Antisymm Before :=
  ⟨fun _ _ order back => absurd (componentsLe_antisymm order.1 back.1) order.2⟩

end Path

namespace Expansion

open SourceDocs.Path

/-- The first path stays; it takes the place of the next one if that is the same path. -/
theorem dropRepeats_cons (path next : Text) (paths : List Text) :
    ∃ others, dropRepeats (next :: paths) = next :: others ∧
      dropRepeats (path :: next :: paths) =
        if same path next then path :: others else path :: next :: others := by
  induction paths generalizing path next with
  | nil => exact ⟨[], rfl, rfl⟩
  | cons further paths ih =>
    obtain ⟨others, inner, outer⟩ := ih next further
    by_cases repeated : same next further = true
    · rw [if_pos repeated] at outer
      exact ⟨others, outer, by rw [dropRepeats, outer]⟩
    · rw [if_neg repeated] at outer
      exact ⟨further :: others, outer, by rw [dropRepeats, outer]⟩

theorem dropRepeats_sublist (paths : List Text) : (dropRepeats paths).Sublist paths := by
  induction paths with
  | nil => exact .refl _
  | cons path paths ih =>
    cases paths with
    | nil => exact .refl _
    | cons next paths =>
      obtain ⟨others, inner, outer⟩ := dropRepeats_cons path next paths
      rw [inner] at ih
      rw [outer]
      split
      · exact ((List.sublist_cons_self next others).trans ih).cons_cons path
      · exact ih.cons_cons path

theorem exists_mem_dropRepeats {path : Text} {paths : List Text} (member : path ∈ paths) :
    ∃ kept ∈ dropRepeats paths, components kept = components path := by
  induction paths with
  | nil => cases member
  | cons first paths ih =>
    cases paths with
    | nil => exact ⟨path, member, rfl⟩
    | cons next paths =>
      obtain ⟨others, inner, outer⟩ := dropRepeats_cons first next paths
      rw [inner] at ih
      rw [outer]
      rcases List.mem_cons.mp member with rfl | later
      · exact ⟨path, by split <;> exact List.mem_cons_self, rfl⟩
      · obtain ⟨kept, listed, equal⟩ := ih later
        split
        next repeated =>
          rcases List.mem_cons.mp listed with rfl | further
          · exact ⟨first, List.mem_cons_self, (same_iff.mp repeated).trans equal⟩
          · exact ⟨kept, List.mem_cons_of_mem first further, equal⟩
        next => exact ⟨kept, List.mem_cons_of_mem first listed, equal⟩

/-- Where each path has one spelling, dropping repeats loses nothing. -/
theorem mem_dropRepeats_iff {path : Text} {paths : List Text}
    (spelled : ∀ first ∈ paths, ∀ second ∈ paths, components first = components second →
      first = second) :
    path ∈ dropRepeats paths ↔ path ∈ paths := by
  refine ⟨fun member => (dropRepeats_sublist paths).subset member, fun member => ?_⟩
  obtain ⟨kept, listed, equal⟩ := exists_mem_dropRepeats member
  exact spelled kept ((dropRepeats_sublist paths).subset listed) path member equal ▸ listed

/-- What comes first in a sorted list is not the same path as something behind a path that is not. -/
theorem different_of_sorted {path next later : Text} (first : le path next = true)
    (second : le next later = true) (different : components path ≠ components next) :
    components path ≠ components later := by
  intro same
  refine different (componentsLe_antisymm first ?_)
  rw [le, ← same] at second
  exact second

theorem dropRepeats_pairwise {paths : List Text} (sorted : paths.Pairwise (le · · = true)) :
    (dropRepeats paths).Pairwise Before := by
  induction paths with
  | nil => exact .nil
  | cons path paths ih =>
    obtain ⟨below, others⟩ := List.pairwise_cons.mp sorted
    cases paths with
    | nil => exact List.pairwise_singleton _ path
    | cons next paths =>
      obtain ⟨kept, inner, outer⟩ := dropRepeats_cons path next paths
      have strict := ih others
      have listed := dropRepeats_sublist (next :: paths)
      rw [inner] at strict listed
      obtain ⟨behind, further⟩ := List.pairwise_cons.mp strict
      rw [outer]
      split
      next repeated =>
        refine List.pairwise_cons.mpr ⟨?_, further⟩
        intro later member
        rw [same_iff] at repeated
        refine ⟨below later (listed.subset (List.mem_cons_of_mem next member)), ?_⟩
        rw [repeated]
        exact (behind later member).2
      next fresh =>
        rw [same_iff] at fresh
        refine List.pairwise_cons.mpr ⟨?_, strict⟩
        intro later member
        have order := below later (listed.subset member)
        rcases List.mem_cons.mp member with rfl | member
        · exact ⟨order, fresh⟩
        · have first := below next List.mem_cons_self
          exact ⟨order, different_of_sorted first (behind later member).1 fresh⟩

theorem le_total (first second : Text) : le first second = true ∨ le second first = true :=
  componentsLe_total _ _

theorem le_trans (first second third : Text) (left : le first second = true)
    (right : le second third = true) : le first third = true :=
  componentsLe_trans left right

theorem sorted_sortBy (paths : List Text) : (sortBy le paths).Pairwise (le · · = true) :=
  sortBy_pairwise le_total le_trans paths

/-- Expanded paths are in strictly ascending order. -/
theorem expand_pairwise (fs : FileSystem) (respectIgnore : Bool) (patterns : List Text) :
    (expand fs respectIgnore patterns).value.Pairwise Before :=
  dropRepeats_pairwise (sorted_sortBy _)

theorem eq_of_mem_expand {fs : FileSystem} {respectIgnore : Bool} {patterns : List Text}
    {first second : Text} (firstMember : first ∈ (expand fs respectIgnore patterns).value)
    (secondMember : second ∈ (expand fs respectIgnore patterns).value)
    (same : components first = components second) : first = second := by
  have distinct : ((expand fs respectIgnore patterns).value.map components).Nodup :=
    List.pairwise_map.mpr ((expand_pairwise fs respectIgnore patterns).imp And.right)
  exact List.inj_on_of_nodup_map distinct firstMember secondMember same

end Expansion

end SourceDocs
