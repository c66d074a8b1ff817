import Mathlib.Data.List.Pairwise
import QueryShape.Typed.TypeCase

/-!
# Records that divide types among themselves

The records of a type case are a partition of its possible types: none is empty, no two have a type
in common, and each type is in one. Splitting every record by a list of types, changing fields and
putting the records in the order of their first types keep this.
-/

set_option autoImplicit false

namespace QueryShape.Typed

namespace Record

def inside (types : List String) (record : Record) : Record :=
  { record with possibleTypes := record.possibleTypes.filter (· ∈ types) }

def outside (types : List String) (record : Record) : Record :=
  { record with possibleTypes := record.possibleTypes.filter (· ∉ types) }

variable {types : List String} {record : Record} {type : String}

@[simp] theorem mem_inside :
    type ∈ (record.inside types).possibleTypes ↔ type ∈ record.possibleTypes ∧ type ∈ types := by
  simp [inside]

@[simp] theorem mem_outside :
    type ∈ (record.outside types).possibleTypes ↔ type ∈ record.possibleTypes ∧ type ∉ types := by
  simp [outside]

theorem inside_eq_self (h : (record.outside types).possibleTypes = []) :
    record.inside types = record := by
  have hall : ∀ type ∈ record.possibleTypes, type ∈ types := by
    simpa [outside, List.filter_eq_nil_iff] using h
  rw [inside, List.filter_eq_self.mpr (by simpa using hall)]

theorem outside_eq_self (h : (record.inside types).possibleTypes = []) :
    record.outside types = record := by
  have hnone : ∀ type ∈ record.possibleTypes, type ∉ types := by
    simpa [inside, List.filter_eq_nil_iff] using h
  rw [outside, List.filter_eq_self.mpr (by simpa using hnone)]

end Record

/-- Records that divide the given types among themselves. -/
structure Partition (types : List String) (records : List Record) : Prop where
  nonempty : ∀ record ∈ records, record.possibleTypes ≠ []
  within : ∀ record ∈ records, ∀ type ∈ record.possibleTypes, type ∈ types
  covered : ∀ type ∈ types, ∃ record ∈ records, type ∈ record.possibleTypes
  disjoint : records.Pairwise fun first second =>
    ∀ type ∈ first.possibleTypes, type ∉ second.possibleTypes

namespace TypeCase

theorem splitRecord_eq {types : List String} {change : Record → Record} {record : Record}
    (h : record.possibleTypes ≠ []) :
    splitRecord types change record =
      (if (record.inside types).possibleTypes = [] then [] else [change (record.inside types)]) ++
      (if (record.outside types).possibleTypes = [] then [] else [record.outside types]) := by
  by_cases hinside : (record.inside types).possibleTypes = []
  · have hself := Record.outside_eq_self hinside
    have houtside : (record.outside types).possibleTypes ≠ [] := by rwa [hself]
    have hempty : (record.possibleTypes.filter (· ∈ types)).isEmpty = true := by
      simpa [Record.inside] using hinside
    rw [if_pos hinside, if_neg houtside, hself, splitRecord, if_pos hempty]
    rfl
  · have hempty : ¬(record.possibleTypes.filter (· ∈ types)).isEmpty = true := by
      simpa [Record.inside] using hinside
    rw [if_neg hinside, splitRecord, if_neg hempty]
    by_cases houtside : (record.outside types).possibleTypes = []
    · have hempty : (record.possibleTypes.filter (· ∉ types)).isEmpty = true := by
        simpa [Record.outside] using houtside
      rw [if_pos houtside, if_pos hempty, Record.inside_eq_self houtside]
      rfl
    · have hempty : ¬(record.possibleTypes.filter (· ∉ types)).isEmpty = true := by
        simpa [Record.outside] using houtside
      rw [if_neg houtside, if_neg hempty]
      rfl

theorem mem_splitRecord {types : List String} {change : Record → Record} {record part : Record}
    (h : record.possibleTypes ≠ []) :
    part ∈ splitRecord types change record ↔
      ((record.inside types).possibleTypes ≠ [] ∧ part = change (record.inside types)) ∨
      ((record.outside types).possibleTypes ≠ [] ∧ part = record.outside types) := by
  rw [splitRecord_eq h, List.mem_append]
  apply or_congr <;> split <;> simp_all

end TypeCase

namespace Partition

variable {types : List String} {records : List Record}

theorem eq_of_mem (h : Partition types records) {first second : Record} (hfirst : first ∈ records)
    (hsecond : second ∈ records) {type : String} (hin : type ∈ first.possibleTypes)
    (hin' : type ∈ second.possibleTypes) : first = second := by
  by_contra hne
  have hsymm : Std.Symm fun first second : Record =>
      ∀ type ∈ first.possibleTypes, type ∉ second.possibleTypes :=
    ⟨fun _ _ hdisjoint type hsecond hfirst => hdisjoint type hfirst hsecond⟩
  exact h.disjoint.forall hfirst hsecond hne type hin hin'

theorem initial (types : List String) : Partition types (TypeCase.initial types).records := by
  cases types with
  | nil => exact ⟨by simp [TypeCase.initial], by simp [TypeCase.initial], by simp,
      by simp [TypeCase.initial]⟩
  | cons type rest => exact ⟨by simp [TypeCase.initial], by simp [TypeCase.initial],
      by simp [TypeCase.initial], by simp [TypeCase.initial]⟩

theorem map (h : Partition types records) {change : Record → Record}
    (hchange : ∀ record, (change record).possibleTypes = record.possibleTypes) :
    Partition types (records.map change) where
  nonempty := by
    simpa [hchange] using h.nonempty
  within := by
    simpa [hchange] using h.within
  covered := by
    simpa [hchange] using h.covered
  disjoint := by
    simpa [List.pairwise_map, hchange] using h.disjoint

theorem split (h : Partition types records) (selected : List String) {change : Record → Record}
    (hchange : ∀ record, (change record).possibleTypes = record.possibleTypes) :
    Partition types (records.flatMap (TypeCase.splitRecord selected change)) := by
  have hpart : ∀ record ∈ records, ∀ part ∈ TypeCase.splitRecord selected change record,
      part.possibleTypes ≠ [] ∧ ∀ type ∈ part.possibleTypes, type ∈ record.possibleTypes := by
    intro record hrecord part hmem
    rcases (TypeCase.mem_splitRecord (h.nonempty record hrecord)).mp hmem with
      ⟨hne, rfl⟩ | ⟨hne, rfl⟩
    · rw [hchange]
      exact ⟨hne, fun type htype => (Record.mem_inside.mp htype).1⟩
    · exact ⟨hne, fun type htype => (Record.mem_outside.mp htype).1⟩
  constructor
  · intro part hmem
    obtain ⟨record, hrecord, hmem⟩ := List.mem_flatMap.mp hmem
    exact (hpart record hrecord part hmem).1
  · intro part hmem type htype
    obtain ⟨record, hrecord, hmem⟩ := List.mem_flatMap.mp hmem
    exact h.within record hrecord type ((hpart record hrecord part hmem).2 type htype)
  · intro type htype
    obtain ⟨record, hrecord, htype⟩ := h.covered type htype
    have hne := h.nonempty record hrecord
    by_cases hselected : type ∈ selected
    · have hin : type ∈ (record.inside selected).possibleTypes :=
        Record.mem_inside.mpr ⟨htype, hselected⟩
      refine ⟨change (record.inside selected), List.mem_flatMap.mpr ⟨record, hrecord, ?_⟩, ?_⟩
      · exact (TypeCase.mem_splitRecord hne).mpr (Or.inl ⟨List.ne_nil_of_mem hin, rfl⟩)
      · rwa [hchange]
    · have hout : type ∈ (record.outside selected).possibleTypes :=
        Record.mem_outside.mpr ⟨htype, hselected⟩
      refine ⟨record.outside selected, List.mem_flatMap.mpr ⟨record, hrecord, ?_⟩, hout⟩
      exact (TypeCase.mem_splitRecord hne).mpr (Or.inr ⟨List.ne_nil_of_mem hout, rfl⟩)
  · rw [List.pairwise_flatMap]
    constructor
    · intro record hrecord
      rw [TypeCase.splitRecord_eq (h.nonempty record hrecord)]
      split <;> split <;> simp_all
    · apply h.disjoint.imp_of_mem
      intro first second hfirst hsecond hdisjoint part hmem part' hmem' type htype htype'
      exact hdisjoint type ((hpart first hfirst part hmem).2 type htype)
        ((hpart second hsecond part' hmem').2 type htype')

theorem mem_ordered (h : Partition types records) {record : Record} :
    record ∈ TypeCase.ordered types records ↔ record ∈ records := by
  rw [TypeCase.ordered, List.mem_filterMap]
  constructor
  · rintro ⟨type, _, hfound⟩
    exact List.mem_of_find?_eq_some hfound
  · intro hrecord
    obtain ⟨first, hfirst⟩ : ∃ first, record.possibleTypes.head? = some first :=
      Option.isSome_iff_exists.mp (by simp [List.isSome_head?, h.nonempty record hrecord])
    have hin : first ∈ record.possibleTypes := List.mem_of_mem_head? hfirst
    refine ⟨first, mem_distinct.mpr (h.within record hrecord first hin), ?_⟩
    cases hfound : records.find? (·.possibleTypes.head? == some first) with
    | none =>
      have := List.find?_eq_none.mp hfound record hrecord
      simp [hfirst] at this
    | some other =>
      have hother : other.possibleTypes.head? = some first := by
        simpa using List.find?_some hfound
      rw [h.eq_of_mem (List.mem_of_find?_eq_some hfound) hrecord (List.mem_of_mem_head? hother) hin]

theorem ordered (h : Partition types records) :
    Partition types (TypeCase.ordered types records) where
  nonempty record hrecord := h.nonempty record (h.mem_ordered.mp hrecord)
  within record hrecord := h.within record (h.mem_ordered.mp hrecord)
  covered type htype := by
    obtain ⟨record, hrecord, htype⟩ := h.covered type htype
    exact ⟨record, h.mem_ordered.mpr hrecord, htype⟩
  disjoint := by
    rw [TypeCase.ordered, List.pairwise_filterMap]
    apply (nodup_distinct types).imp
    intro first second hne record hrecord record' hrecord' type htype htype'
    have heq := h.eq_of_mem (List.mem_of_find?_eq_some hrecord)
      (List.mem_of_find?_eq_some hrecord') htype htype'
    have hhead := List.find?_some hrecord
    have hhead' := List.find?_some hrecord'
    simp only [beq_iff_eq] at hhead hhead'
    rw [heq, hhead'] at hhead
    exact hne (Option.some.inj hhead).symm

end Partition

end QueryShape.Typed
