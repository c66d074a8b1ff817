import Mathlib.Data.List.Basic
import QueryShape.Proofs.Typed.Selections
import QueryShape.Typed.Spreads

/-!
# Spreads by their places

The spreads in a selection set that are reached through type conditions and checks, each at the
place given by the numbers of the selections on the way to it. Those collected for some types are,
in the order of their places, the ones for which all type conditions on the way contain all of the
types: the more types, the fewer spreads.
-/

set_option autoImplicit false

namespace QueryShape.Typed

/-- A spread at a place, with the possible types of the type conditions around it, the outermost
first. -/
structure PlacedSpread where
  place : List Nat
  name : String
  conditions : List (List String)
  deriving Repr

namespace PlacedSpread

/-- All type conditions around the spread contain all of the types. -/
def AppliesTo (types : List String) (spread : PlacedSpread) : Prop :=
  ∀ narrowed ∈ spread.conditions, ∀ type ∈ types, type ∈ narrowed

instance (types : List String) : DecidablePred (AppliesTo types) :=
  fun spread => inferInstanceAs (Decidable (∀ narrowed ∈ spread.conditions, _))

def Precedes (spread other : PlacedSpread) : Prop :=
  List.Lex (· < ·) spread.place other.place

def inSelection (number : Nat) (spread : PlacedSpread) : PlacedSpread :=
  { spread with place := number :: spread.place }

def underCondition (narrowed : List String) (spread : PlacedSpread) : PlacedSpread :=
  { spread with conditions := narrowed :: spread.conditions }

end PlacedSpread

namespace Selection

/-- The fragment spread at a place inside of a selection, which is reached through type conditions
and checks, and the possible types of the type conditions. -/
def spreadWithin? : List Nat → Selection → Option (String × List (List String))
  | [], .fragmentSpread name => some (name, [])
  | number :: place, .typeCondition _ narrowed inner =>
    (inner[number]?.bind (spreadWithin? place)).map fun (name, conditions) =>
      (name, narrowed :: conditions)
  | number :: place, .booleanCondition _ _ inner => inner[number]?.bind (spreadWithin? place)
  | _, _ => none

mutual

def placedSpreads : Selection → List PlacedSpread
  | .leaf _ => []
  | .composite _ _ _ => []
  | .typeCondition _ narrowed inner =>
    (allPlacedSpreads 0 inner).map (PlacedSpread.underCondition narrowed)
  | .booleanCondition _ _ inner => allPlacedSpreads 0 inner
  | .fragmentSpread name => [⟨[], name, []⟩]

def allPlacedSpreads (number : Nat) : List Selection → List PlacedSpread
  | [] => []
  | selection :: rest =>
    (placedSpreads selection).map (PlacedSpread.inSelection number) ++
      allPlacedSpreads (number + 1) rest

end

theorem exists_place_of_mem {number : Nat} {selections : List Selection} {spread : PlacedSpread}
    (h : spread ∈ allPlacedSpreads number selections) :
    ∃ first place, spread.place = first :: place ∧ number ≤ first := by
  induction selections generalizing number with
  | nil => cases h
  | cons selection rest ih =>
    rcases List.mem_append.mp h with h | h
    · obtain ⟨inner, -, rfl⟩ := List.mem_map.mp h
      exact ⟨number, inner.place, rfl, Nat.le_refl _⟩
    · obtain ⟨first, place, hplace, hle⟩ := ih h
      exact ⟨first, place, hplace, by omega⟩

theorem pairwise_allPlacedSpreads_cons {number : Nat} {selection : Selection}
    {rest : List Selection} (hfirst : (placedSpreads selection).Pairwise PlacedSpread.Precedes)
    (hrest : (allPlacedSpreads (number + 1) rest).Pairwise PlacedSpread.Precedes) :
    (allPlacedSpreads number (selection :: rest)).Pairwise PlacedSpread.Precedes := by
  rw [allPlacedSpreads, List.pairwise_append, List.pairwise_map]
  refine ⟨hfirst.imp fun hprecedes => .cons hprecedes, hrest, fun spread hspread other hother => ?_⟩
  obtain ⟨inner, -, rfl⟩ := List.mem_map.mp hspread
  obtain ⟨first, place, hplace, hle⟩ := exists_place_of_mem hother
  rw [PlacedSpread.Precedes, hplace]
  exact .rel hle

theorem pairwise_allPlacedSpreads (number : Nat) (selections : List Selection) :
    (allPlacedSpreads number selections).Pairwise PlacedSpread.Precedes := by
  induction selections using listInduction generalizing number with
  | nil => exact .nil
  | leaf head rest ih => exact pairwise_allPlacedSpreads_cons .nil (ih _)
  | composite head types nested rest _ ih => exact pairwise_allPlacedSpreads_cons .nil (ih _)
  | typeCondition condition narrowed inner rest ihInner ih =>
    exact pairwise_allPlacedSpreads_cons (List.pairwise_map.mpr (ihInner 0)) (ih _)
  | booleanCondition check types inner rest ihInner ih =>
    exact pairwise_allPlacedSpreads_cons (ihInner 0) (ih _)
  | fragmentSpread name rest ih =>
    exact pairwise_allPlacedSpreads_cons (List.pairwise_singleton _ _) (ih _)

def ListsPlaced (selection : Selection) : Prop :=
  ∀ spread : PlacedSpread, spread ∈ placedSpreads selection ↔
    spreadWithin? spread.place selection = some (spread.name, spread.conditions)

theorem mem_allPlacedSpreads {number : Nat} {selections : List Selection}
    (h : ∀ selection ∈ selections, selection.ListsPlaced) {spread : PlacedSpread} :
    spread ∈ allPlacedSpreads number selections ↔
      ∃ after place, spread.place = (number + after) :: place ∧
        selections[after]?.bind (spreadWithin? place) = some (spread.name, spread.conditions) := by
  induction selections generalizing number with
  | nil => simp [allPlacedSpreads]
  | cons selection rest ih =>
    have hfirst : spread ∈ (placedSpreads selection).map (PlacedSpread.inSelection number) ↔
        ∃ place, spread.place = number :: place ∧
          spreadWithin? place selection = some (spread.name, spread.conditions) := by
      simp only [List.mem_map, h selection List.mem_cons_self _]
      constructor
      · rintro ⟨inner, hinner, rfl⟩
        exact ⟨inner.place, rfl, hinner⟩
      · rintro ⟨place, hplace, hspread⟩
        refine ⟨⟨place, spread.name, spread.conditions⟩, hspread, ?_⟩
        rw [PlacedSpread.inSelection, ← hplace]
    rw [allPlacedSpreads, List.mem_append, hfirst,
      ih fun selection hselection => h selection (List.mem_cons_of_mem _ hselection)]
    constructor
    · rintro (⟨place, hplace, hspread⟩ | ⟨after, place, hplace, hspread⟩)
      · exact ⟨0, place, hplace, hspread⟩
      · exact ⟨after + 1, place, by rw [hplace]; congr 1; omega, hspread⟩
    · rintro ⟨_ | after, place, hplace, hspread⟩
      · exact .inl ⟨place, hplace, hspread⟩
      · exact .inr ⟨after, place, by rw [hplace]; congr 1; omega, hspread⟩

theorem listsPlaced_of_mem {selections : List Selection} :
    ∀ selection ∈ selections, selection.ListsPlaced := by
  induction selections using listInduction with
  | nil => simp
  | leaf head rest ih =>
    refine List.forall_mem_cons.mpr ⟨fun spread => ?_, ih⟩
    cases hplace : spread.place <;> simp [placedSpreads, spreadWithin?]
  | composite head types nested rest _ ih =>
    refine List.forall_mem_cons.mpr ⟨fun spread => ?_, ih⟩
    cases hplace : spread.place <;> simp [placedSpreads, spreadWithin?]
  | typeCondition condition narrowed inner rest ihInner ih =>
    refine List.forall_mem_cons.mpr ⟨?_, ih⟩
    rintro ⟨place, name, conditions⟩
    rw [placedSpreads, List.mem_map]
    constructor
    · rintro ⟨other, hother, ⟨⟩⟩
      obtain ⟨number, rest, hplace, hspread⟩ := (mem_allPlacedSpreads ihInner).mp hother
      simp [hplace, spreadWithin?, hspread]
    · intro hspread
      cases place with
      | nil => cases hspread
      | cons number place =>
        obtain ⟨⟨other, others⟩, hother, ⟨⟩⟩ := Option.map_eq_some_iff.mp hspread
        exact ⟨⟨number :: place, name, others⟩,
          (mem_allPlacedSpreads ihInner).mpr ⟨number, place, by simp, hother⟩, rfl⟩
  | booleanCondition check types inner rest ihInner ih =>
    refine List.forall_mem_cons.mpr ⟨?_, ih⟩
    rintro ⟨place, name, conditions⟩
    rw [placedSpreads, mem_allPlacedSpreads ihInner]
    cases place <;> simp [spreadWithin?, and_assoc]
  | fragmentSpread other rest ih =>
    refine List.forall_mem_cons.mpr ⟨?_, ih⟩
    rintro ⟨place, name, conditions⟩
    cases place <;> simp [placedSpreads, spreadWithin?, eq_comm]

theorem filter_map_inSelection (types : List String) (number : Nat)
    (spreads : List PlacedSpread) :
    ((spreads.map (PlacedSpread.inSelection number)).filter (·.AppliesTo types)).map (·.name) =
      (spreads.filter (·.AppliesTo types)).map (·.name) := by
  rw [List.filter_map, List.map_map]
  rfl

theorem filter_map_underCondition (types narrowed : List String) (spreads : List PlacedSpread) :
    ((spreads.map (PlacedSpread.underCondition narrowed)).filter (·.AppliesTo types)).map (·.name) =
      if PossibleTypes.contained types narrowed then
        (spreads.filter (·.AppliesTo types)).map (·.name)
      else [] := by
  have happlies : ∀ spread : PlacedSpread, (spread.underCondition narrowed).AppliesTo types ↔
      PossibleTypes.contained types narrowed = true ∧ spread.AppliesTo types := by
    simp [PlacedSpread.AppliesTo, PlacedSpread.underCondition]
  rw [List.filter_map, List.map_map]
  by_cases hcontained : PossibleTypes.contained types narrowed = true
  · have hfilter : spreads.filter (fun spread => (spread.underCondition narrowed).AppliesTo types) =
        spreads.filter (·.AppliesTo types) := by
      simp [happlies, hcontained]
    rw [if_pos hcontained, ← hfilter]
    rfl
  · have hfilter : spreads.filter (fun spread => (spread.underCondition narrowed).AppliesTo types) =
        [] := by
      simp [happlies, hcontained]
    rw [if_neg hcontained, List.map_eq_nil_iff]
    exact hfilter

theorem allSpreadsFor_eq_map (types : List String) (number : Nat) (selections : List Selection) :
    allSpreadsFor types selections =
      ((allPlacedSpreads number selections).filter (·.AppliesTo types)).map (·.name) := by
  induction selections using listInduction generalizing number with
  | nil => rfl
  | leaf head rest ih | composite head nestedTypes nested rest _ ih =>
    simpa [allSpreadsFor, spreadsFor, allPlacedSpreads, placedSpreads] using ih (number + 1)
  | typeCondition condition narrowed inner rest ihInner ih =>
    rw [allSpreadsFor, spreadsFor, allPlacedSpreads, List.filter_append, List.map_append,
      filter_map_inSelection, placedSpreads, filter_map_underCondition, ← ihInner, ← ih]
  | booleanCondition check innerTypes inner rest ihInner ih =>
    rw [allSpreadsFor, spreadsFor, allPlacedSpreads, List.filter_append, List.map_append,
      filter_map_inSelection, placedSpreads, ← ihInner, ← ih]
  | fragmentSpread name rest ih =>
    rw [allSpreadsFor, spreadsFor, allPlacedSpreads, List.filter_append, List.map_append,
      filter_map_inSelection, placedSpreads, ← ih]
    simp [PlacedSpread.AppliesTo]

end Selection

namespace SelectionSet

variable (set : SelectionSet)

def spreadAt? : List Nat → Option (String × List (List String))
  | [] => none
  | number :: place => set.selections[number]?.bind (Selection.spreadWithin? place)

def placedSpreads : List PlacedSpread :=
  Selection.allPlacedSpreads 0 set.selections

def collectedFor (types : List String) : List PlacedSpread :=
  set.placedSpreads.filter (·.AppliesTo types)

theorem mem_placedSpreads (spread : PlacedSpread) :
    spread ∈ set.placedSpreads ↔
      set.spreadAt? spread.place = some (spread.name, spread.conditions) := by
  obtain ⟨place, name, conditions⟩ := spread
  rw [placedSpreads, Selection.mem_allPlacedSpreads Selection.listsPlaced_of_mem]
  cases place <;> simp [spreadAt?, and_assoc]

theorem mem_collectedFor {types : List String} {spread : PlacedSpread} :
    spread ∈ set.collectedFor types ↔
      spread ∈ set.placedSpreads ∧ spread.AppliesTo types := by
  simp [collectedFor]

theorem mem_collectedFor_iff_forall {types : List String} (h : types ≠ [])
    (spread : PlacedSpread) :
    spread ∈ set.collectedFor types ↔ ∀ type ∈ types, spread ∈ set.collectedFor [type] := by
  obtain ⟨first, hfirst⟩ := List.exists_mem_of_ne_nil types h
  simp only [mem_collectedFor, PlacedSpread.AppliesTo, List.forall_mem_singleton]
  constructor
  · rintro ⟨hplaced, happlies⟩ type htype
    exact ⟨hplaced, fun narrowed hnarrowed => happlies narrowed hnarrowed type htype⟩
  · intro hall
    exact ⟨(hall first hfirst).1,
      fun narrowed hnarrowed type htype => (hall type htype).2 narrowed hnarrowed⟩

theorem collectedFor_sublist {types others : List String} (h : ∀ type ∈ types, type ∈ others) :
    (set.collectedFor others).Sublist (set.collectedFor types) := by
  apply List.monotone_filter_right
  intro spread
  simp only [decide_eq_true_eq]
  exact fun happlies narrowed hnarrowed type htype =>
    happlies narrowed hnarrowed type (h type htype)

theorem spreadsFor_eq_map (types : List String) :
    set.spreadsFor types = (set.collectedFor types).map (·.name) :=
  Selection.allSpreadsFor_eq_map types 0 set.selections

/-- The names collected for types are, in order and with repetitions, those of the spreads in the
set for which every type condition on the way contains all of the types. For one type or more these
are the spreads collected for each of them, and more types leave fewer of them. -/
theorem spreadsFor_collects :
    set.placedSpreads.Pairwise PlacedSpread.Precedes ∧
      (∀ spread, spread ∈ set.placedSpreads ↔
        set.spreadAt? spread.place = some (spread.name, spread.conditions)) ∧
      (∀ types, set.spreadsFor types = (set.collectedFor types).map (·.name)) ∧
      (∀ types ≠ [], ∀ spread, spread ∈ set.collectedFor types ↔
        ∀ type ∈ types, spread ∈ set.collectedFor [type]) ∧
      ∀ types others, (∀ type ∈ types, type ∈ others) →
        (set.collectedFor others).Sublist (set.collectedFor types) ∧
          (set.spreadsFor others).Sublist (set.spreadsFor types) := by
  refine ⟨Selection.pairwise_allPlacedSpreads 0 set.selections, set.mem_placedSpreads,
    set.spreadsFor_eq_map, fun types h spread => set.mem_collectedFor_iff_forall h spread,
    fun types others h => ?_⟩
  have hcollected := set.collectedFor_sublist h
  refine ⟨hcollected, ?_⟩
  rw [spreadsFor_eq_map, spreadsFor_eq_map]
  exact hcollected.map _

def petSpreads : SelectionSet :=
  ⟨["Dog", "Cat", "Bird"],
    [.typeCondition "Pet" ["Dog", "Cat"]
        [.booleanCondition ⟨"c", false⟩ ["Bird"] [.fragmentSpread "Names"]],
      .typeCondition "Dog" ["Dog"] [.fragmentSpread "Names"], .fragmentSpread "All"]⟩

theorem spreadsFor_collects_petSpreads :
    ["Dog", "Cat"] ≠ [] ∧ (∀ type ∈ ["Dog"], type ∈ ["Dog", "Cat"]) ∧
      petSpreads.spreadsFor ["Dog", "Cat"] = ["Names", "All"] ∧
      (∀ spread, spread ∈ petSpreads.collectedFor ["Dog", "Cat"] ↔
        ∀ type ∈ ["Dog", "Cat"], spread ∈ petSpreads.collectedFor [type]) ∧
      (petSpreads.spreadsFor ["Dog", "Cat"]).Sublist (petSpreads.spreadsFor ["Dog"]) := by
  obtain ⟨-, -, hcollected, heach, hmore⟩ := spreadsFor_collects petSpreads
  have hne : ["Dog", "Cat"] ≠ [] := nofun
  have hdog : ∀ type ∈ ["Dog"], type ∈ ["Dog", "Cat"] := by simp
  exact ⟨hne, hdog, hcollected _, heach _ hne, (hmore _ _ hdog).2⟩

end SelectionSet

end QueryShape.Typed
