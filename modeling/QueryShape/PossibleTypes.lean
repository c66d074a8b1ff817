/-!
# Sets of possible types

The object types that a selection set may resolve against are a list of type names, in the order of
the schema. This module holds the two operations on such lists: narrowing one list by another, and
asking whether one is contained in another. Membership in a narrowed list is membership in both.
-/

set_option autoImplicit false

namespace QueryShape.PossibleTypes

/-- The names in both lists, in the order of the first one. -/
def intersect (types others : List String) : List String :=
  types.filter (· ∈ others)

def contained (types container : List String) : Bool :=
  types.all (· ∈ container)

@[simp] theorem mem_intersect {name : String} {types others : List String} :
    name ∈ intersect types others ↔ name ∈ types ∧ name ∈ others := by
  simp [intersect]

@[simp] theorem contained_eq_true {types container : List String} :
    contained types container = true ↔ ∀ name ∈ types, name ∈ container := by
  simp [contained]

theorem intersect_self (types : List String) : intersect types types = types :=
  List.filter_eq_self.mpr (by simp)

theorem length_eq_iff {types narrowed : List String} (h : intersect types narrowed = narrowed) :
    narrowed.length = types.length ↔ ∀ type ∈ types, type ∈ narrowed := by
  constructor
  · intro hlength type htype
    rw [← h] at hlength
    have hall := List.length_filter_eq_length_iff.mp hlength type htype
    simpa using hall
  · intro hall
    rw [← h, intersect, List.filter_eq_self.mpr (by simpa using hall)]

theorem intersect_filter {types narrowed : List String} (p : String → Bool)
    (h : intersect types narrowed = narrowed) :
    intersect types (narrowed.filter p) = narrowed.filter p := by
  calc
    intersect types (narrowed.filter p) = types.filter fun type => p type && type ∈ narrowed := by
      apply List.filter_congr
      intro type _
      simp [Bool.and_comm]
    _ = (intersect types narrowed).filter p := by rw [intersect, List.filter_filter]
    _ = narrowed.filter p := by rw [h]

theorem intersect_intersect {types narrowed : List String} (others : List String)
    (h : intersect types narrowed = narrowed) :
    intersect types (intersect narrowed others) = intersect narrowed others :=
  intersect_filter _ h

end QueryShape.PossibleTypes
