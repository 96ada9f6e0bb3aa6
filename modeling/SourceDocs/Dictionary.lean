import SourceDocs.Text.Basic

/-!
Dictionaries from texts to values, kept in the byte order of their keys. For texts this is the order
of their characters. A later entry for a key replaces the earlier one.
-/

namespace SourceDocs

theorem Text.lt_of_not_lt {first second : Text} (behind : ¬second < first)
    (different : first ≠ second) : first < second := by
  apply Decidable.byContradiction
  intro notBefore
  exact different (List.le_antisymm (List.not_lt.mp behind) (List.not_lt.mp notBefore))

/-- Entries with ascending keys, so no key has two of them. -/
structure Dictionary (α : Type) where
  entries : List (Text × α)
  ascending : entries.Pairwise fun first second => first.1 < second.1
deriving Repr

namespace Dictionary

variable {α β : Type}

def setEntry (key : Text) (value : α) : List (Text × α) → List (Text × α)
  | [] => [(key, value)]
  | (other, kept) :: rest =>
    if key = other then (key, value) :: rest
    else if key < other then (key, value) :: (other, kept) :: rest
    else (other, kept) :: setEntry key value rest

theorem mem_setEntry {key : Text} {value : α} {entries : List (Text × α)} {entry : Text × α}
    (member : entry ∈ setEntry key value entries) : entry = (key, value) ∨ entry ∈ entries := by
  induction entries with
  | nil => exact .inl (List.mem_singleton.mp member)
  | cons first rest ih =>
    unfold setEntry at member
    split at member
    · exact (List.mem_cons.mp member).imp_right (List.mem_cons_of_mem first)
    · split at member
      · exact List.mem_cons.mp member
      · rcases List.mem_cons.mp member with rfl | later
        · exact .inr List.mem_cons_self
        · exact (ih later).imp_right (List.mem_cons_of_mem first)

theorem setEntry_ascending {key : Text} {value : α} {entries : List (Text × α)}
    (ascending : entries.Pairwise fun first second => first.1 < second.1) :
    (setEntry key value entries).Pairwise fun first second => first.1 < second.1 := by
  induction entries with
  | nil => exact List.pairwise_singleton _ _
  | cons first rest ih =>
    obtain ⟨below, others⟩ := List.pairwise_cons.mp ascending
    unfold setEntry
    split
    next same =>
      subst same
      exact List.pairwise_cons.mpr ⟨below, others⟩
    next different =>
      split
      next before =>
        refine List.pairwise_cons.mpr ⟨?_, ascending⟩
        intro entry member
        rcases List.mem_cons.mp member with rfl | later
        · exact before
        · exact List.lt_trans before (below entry later)
      next behind =>
        have order : first.1 < key := Text.lt_of_not_lt behind (Ne.symm different)
        refine List.pairwise_cons.mpr ⟨?_, ih others⟩
        intro entry member
        rcases mem_setEntry member with rfl | later
        · exact order
        · exact below entry later

def empty : Dictionary α := ⟨[], .nil⟩

def get? (dictionary : Dictionary α) (key : Text) : Option α := dictionary.entries.lookup key

def contains (dictionary : Dictionary α) (key : Text) : Bool := (dictionary.get? key).isSome

def insert (key : Text) (value : α) (dictionary : Dictionary α) : Dictionary α :=
  ⟨setEntry key value dictionary.entries, setEntry_ascending dictionary.ascending⟩

def map (f : Text × α → β) (dictionary : Dictionary α) : List β := dictionary.entries.map f

def keys (dictionary : Dictionary α) : List Text := dictionary.map Prod.fst

def size (dictionary : Dictionary α) : Nat := dictionary.entries.length

/-- A dictionary with the further entries of a list, the last one for each key. -/
def insertAll (dictionary : Dictionary α) (entries : List (Text × α)) : Dictionary α :=
  entries.foldl (fun dictionary entry => insert entry.1 entry.2 dictionary) dictionary

def ofList (entries : List (Text × α)) : Dictionary α := empty.insertAll entries

def overlay (lower upper : Dictionary α) : Dictionary α := lower.insertAll upper.entries

theorem lookup_cons (key : Text) (value : α) (rest : List (Text × α)) (wanted : Text) :
    List.lookup wanted ((key, value) :: rest) =
      if wanted = key then some value else List.lookup wanted rest := by
  by_cases found : wanted = key
  · rw [if_pos found, found, List.lookup_cons_self]
  · rw [if_neg found, List.lookup_cons, beq_false_of_ne found]

theorem lookup_setEntry (key : Text) (value : α) (entries : List (Text × α)) (wanted : Text) :
    (setEntry key value entries).lookup wanted =
      if wanted = key then some value else entries.lookup wanted := by
  induction entries with
  | nil => exact lookup_cons key value [] wanted
  | cons entry rest ih =>
    obtain ⟨other, kept⟩ := entry
    unfold setEntry
    split
    next same =>
      subst same
      by_cases found : wanted = key <;> simp [lookup_cons, found]
    next different =>
      split
      · exact lookup_cons key value _ wanted
      · by_cases found : wanted = other
        · subst found
          simp [Ne.symm different]
        · simp [lookup_cons, found, ih]

theorem get?_insert (key : Text) (value : α) (dictionary : Dictionary α) (wanted : Text) :
    (insert key value dictionary).get? wanted =
      if wanted = key then some value else dictionary.get? wanted :=
  lookup_setEntry key value dictionary.entries wanted

theorem lookup_eq_some_iff {entries : List (Text × α)} {key : Text} {value : α}
    (unique : entries.Pairwise fun first second => first.1 ≠ second.1) :
    entries.lookup key = some value ↔ (key, value) ∈ entries := by
  induction entries with
  | nil => simp
  | cons entry rest ih =>
    obtain ⟨other, kept⟩ := entry
    obtain ⟨apart, others⟩ := List.pairwise_cons.mp unique
    rw [lookup_cons, List.mem_cons, ← ih others, Prod.mk.injEq]
    by_cases found : key = other
    · -- the key does not come again further on
      have absent : rest.lookup other ≠ some value := by
        intro again
        exact apart _ ((ih others).mp (found ▸ again)) found.symm
      simp [found, absent, eq_comm]
    · simp [found]

theorem unique_keys (dictionary : Dictionary α) :
    dictionary.entries.Pairwise fun first second => first.1 ≠ second.1 :=
  dictionary.ascending.imp fun order => Std.ne_of_lt order

theorem get?_eq_some_iff {dictionary : Dictionary α} {key : Text} {value : α} :
    dictionary.get? key = some value ↔ (key, value) ∈ dictionary.entries :=
  lookup_eq_some_iff dictionary.unique_keys

theorem get?_insertAll (dictionary : Dictionary α) (entries : List (Text × α)) (key : Text) :
    (dictionary.insertAll entries).get? key =
      (entries.reverse.lookup key).or (dictionary.get? key) := by
  induction entries generalizing dictionary with
  | nil => rfl
  | cons entry rest ih =>
    rw [insertAll, List.foldl_cons, ← insertAll, ih, get?_insert, List.reverse_cons,
      List.lookup_append, Option.or_assoc, lookup_cons]
    by_cases found : key = entry.1 <;> simp [found]

theorem get?_overlay (lower upper : Dictionary α) (key : Text) :
    (overlay lower upper).get? key = (upper.get? key).or (lower.get? key) := by
  have reversed : upper.entries.reverse.lookup key = upper.get? key := by
    apply Option.ext
    intro value
    rw [get?_eq_some_iff, lookup_eq_some_iff, List.mem_reverse]
    exact List.pairwise_reverse.mpr (upper.unique_keys.imp Ne.symm)
  rw [overlay, get?_insertAll, reversed]

end Dictionary

end SourceDocs
