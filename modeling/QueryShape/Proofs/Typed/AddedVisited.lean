import QueryShape.Proofs.Typed.Added
import QueryShape.Proofs.Typed.Coarsest
import QueryShape.Proofs.Typed.Folding
import QueryShape.Proofs.Typed.Inlining

/-!
# Visiting what has `__typename` fields added

What is visited in a selection set is visited in it with `__typename` fields added as well. What is
visited beyond that are these fields, which stand under no type condition; where fragments are
inlined first, those of a fragment apply to the types that the fragment applies to. So the records
of the type case are split further only by inlined fragments, and only these fields are new in them.
-/

set_option autoImplicit false

namespace QueryShape.Typed

namespace Visited

def key? : Visited → Option String
  | field selected _ => some selected.field.responseKey
  | spread _ _ => none

theorem key?_eq (member : Visited) : member.key? = member.field?.map (·.responseKey) := by
  cases member <;> simp [key?, field?]

/-- Both are spreads or are fields under one key, inside of the same type conditions. -/
structure Matches (member other : Visited) : Prop where
  conditions : other.conditions = member.conditions
  key? : other.key? = member.key?

theorem Matches.refl (member : Visited) : member.Matches member :=
  ⟨rfl, rfl⟩

theorem Matches.composite (conditions : List (List String)) (checks : List Check)
    (head : FieldHead) (types : List String) (nested otherNested : List Selection) :
    (field ⟨⟨head, some ⟨types, nested⟩⟩, checks⟩ conditions).Matches
      (field ⟨⟨head, some ⟨types, otherNested⟩⟩, checks⟩ conditions) :=
  ⟨rfl, rfl⟩

theorem Matches.appliesTo_iff {member other : Visited} (h : member.Matches other) (type : String) :
    other.AppliesTo type ↔ member.AppliesTo type := by
  rw [AppliesTo, AppliesTo, h.conditions]

/-- The other list has what the list has, and beyond that only what may be added. -/
structure Gains (mayAdd : Visited → Prop) (visited others : List Visited) : Prop where
  kept : ∀ member ∈ visited, ∃ other ∈ others, member.Matches other
  gained : ∀ other ∈ others, mayAdd other ∨ ∃ member ∈ visited, member.Matches other

namespace Gains

variable {mayAdd : Visited → Prop} {visited others : List Visited}

theorem nil : Gains mayAdd [] [] :=
  ⟨List.forall_mem_nil _, List.forall_mem_nil _⟩

theorem singleton {member other : Visited} (h : member.Matches other) :
    Gains mayAdd [member] [other] where
  kept := List.forall_mem_singleton.mpr ⟨other, List.mem_singleton_self other, h⟩
  gained := List.forall_mem_singleton.mpr (Or.inr ⟨member, List.mem_singleton_self member, h⟩)

theorem added {other : Visited} (h : mayAdd other) : Gains mayAdd [] [other] where
  kept := List.forall_mem_nil _
  gained := List.forall_mem_singleton.mpr (Or.inl h)

theorem mono {mayAddToo : Visited → Prop} (himp : ∀ other, mayAdd other → mayAddToo other)
    (h : Gains mayAdd visited others) : Gains mayAddToo visited others where
  kept := h.kept
  gained other hother := (h.gained other hother).imp_left (himp other)

theorem append {further furtherOthers : List Visited} (h : Gains mayAdd visited others)
    (hfurther : Gains mayAdd further furtherOthers) :
    Gains mayAdd (visited ++ further) (others ++ furtherOthers) where
  kept := by
    rw [List.forall_mem_append]
    constructor
    · intro member hmember
      obtain ⟨other, hother, hmatches⟩ := h.kept member hmember
      exact ⟨other, List.mem_append_left _ hother, hmatches⟩
    · intro member hmember
      obtain ⟨other, hother, hmatches⟩ := hfurther.kept member hmember
      exact ⟨other, List.mem_append_right _ hother, hmatches⟩
  gained := by
    rw [List.forall_mem_append]
    constructor
    · intro other hother
      refine (h.gained other hother).imp_right ?_
      rintro ⟨member, hmember, hmatches⟩
      exact ⟨member, List.mem_append_left _ hmember, hmatches⟩
    · intro other hother
      refine (hfurther.gained other hother).imp_right ?_
      rintro ⟨member, hmember, hmatches⟩
      exact ⟨member, List.mem_append_right _ hmember, hmatches⟩

theorem filter_applying (h : Gains mayAdd visited others) (types : List String) :
    Gains mayAdd (visited.filter fun member => ∃ type ∈ types, member.AppliesTo type)
      (others.filter fun member => ∃ type ∈ types, member.AppliesTo type) where
  kept member hmember := by
    obtain ⟨hmember, happlies⟩ := List.mem_filter.mp hmember
    obtain ⟨other, hother, hmatches⟩ := h.kept member hmember
    refine ⟨other, List.mem_filter.mpr ⟨hother, ?_⟩, hmatches⟩
    simpa only [hmatches.appliesTo_iff] using happlies
  gained other hother := by
    obtain ⟨hother, happlies⟩ := List.mem_filter.mp hother
    refine (h.gained other hother).imp_right ?_
    rintro ⟨member, hmember, hmatches⟩
    refine ⟨member, List.mem_filter.mpr ⟨hmember, ?_⟩, hmatches⟩
    simpa only [hmatches.appliesTo_iff] using happlies

end Gains

def IsTypename (member : Visited) : Prop :=
  member.key? = some "__typename"

end Visited

namespace Selection.Gains

open Visited (IsTypename)

theorem allVisited {inside : Bool} {selections others : List Selection}
    (h : Gains inside selections others) (conditions : List (List String)) (checks : List Check) :
    Visited.Gains (fun member => inside = true ∧ member.IsTypename ∧ member.conditions = conditions)
      (Selection.allVisited conditions checks selections)
      (Selection.allVisited conditions checks others) := by
  induction h generalizing conditions checks with
  | nil => exact .nil
  | added hhead _ ih =>
    exact (Visited.Gains.added ⟨rfl, congrArg some hhead.responseKey, rfl⟩).append
      (ih conditions checks)
  | addedComposite hhead _ _ ih =>
    exact (Visited.Gains.added ⟨rfl, congrArg some hhead.responseKey, rfl⟩).append
      (ih conditions checks)
  | leaf head _ ih => exact (Visited.Gains.singleton (.refl _)).append (ih conditions checks)
  | composite head types _ _ _ ih =>
    exact (Visited.Gains.singleton (.composite conditions checks head types _ _)).append
      (ih conditions checks)
  | typeCondition condition narrowed _ _ ihInner ih =>
    refine .append (.mono ?_ (ihInner (conditions ++ [narrowed]) checks)) (ih conditions checks)
    simp
  | booleanCondition check types _ _ ihInner ih =>
    refine .append (.mono ?_ (ihInner conditions (checks ++ [check]))) (ih conditions checks)
    simp
  | fragmentSpread name _ ih =>
    exact (Visited.Gains.singleton (.refl _)).append (ih conditions checks)

section

variable {expand otherExpand : List String → String → Except FragmentError Selection}
  (hexpand : ∀ types name expanded other, expand types name = .ok expanded →
    otherExpand types name = .ok other → ∀ conditions checks,
      Visited.Gains IsTypename (expanded.visited conditions checks)
        (other.visited conditions checks))
include hexpand

theorem allVisited_inlined {inside : Bool} {selections others : List Selection}
    (h : Gains inside selections others) {types : List String}
    {inlinedAll otherInlined : List Selection}
    (hinlined : allInlined expand types selections = .ok inlinedAll)
    (hother : allInlined otherExpand types others = .ok otherInlined)
    (conditions : List (List String)) (checks : List Check) :
    Visited.Gains IsTypename (Selection.allVisited conditions checks inlinedAll)
      (Selection.allVisited conditions checks otherInlined) := by
  induction h generalizing types inlinedAll otherInlined conditions checks with
  | nil =>
    cases hinlined
    cases hother
    exact .nil
  | added hhead _ ih | addedComposite hhead _ _ ih =>
    obtain ⟨_, hadded, rest, hrest, rfl⟩ := allInlined_cons_eq_ok.mp hother
    cases hadded
    exact (Visited.Gains.added (congrArg some hhead.responseKey)).append
      (ih hinlined hrest conditions checks)
  | leaf head _ ih =>
    obtain ⟨_, hfirst, rest, hrest, rfl⟩ := allInlined_cons_eq_ok.mp hinlined
    obtain ⟨_, hotherFirst, otherRest, hotherRest, rfl⟩ := allInlined_cons_eq_ok.mp hother
    cases hfirst
    cases hotherFirst
    exact (Visited.Gains.singleton (.refl _)).append (ih hrest hotherRest conditions checks)
  | composite head nestedTypes _ _ _ ih =>
    obtain ⟨_, hfirst, rest, hrest, rfl⟩ := allInlined_cons_eq_ok.mp hinlined
    obtain ⟨_, hotherFirst, otherRest, hotherRest, rfl⟩ := allInlined_cons_eq_ok.mp hother
    cases hfirst
    cases hotherFirst
    exact (Visited.Gains.singleton (.composite conditions checks head nestedTypes _ _)).append
      (ih hrest hotherRest conditions checks)
  | typeCondition condition narrowed _ _ ihInner ih =>
    obtain ⟨_, hfirst, rest, hrest, rfl⟩ := allInlined_cons_eq_ok.mp hinlined
    obtain ⟨_, hotherFirst, otherRest, hotherRest, rfl⟩ := allInlined_cons_eq_ok.mp hother
    simp only [inlined, Outcome.bind_eq_ok, Outcome.pure_eq_ok] at hfirst hotherFirst
    obtain ⟨inner, hinner, rfl⟩ := hfirst
    obtain ⟨otherInner, hotherInner, rfl⟩ := hotherFirst
    exact .append (ihInner hinner hotherInner (conditions ++ [narrowed]) checks)
      (ih hrest hotherRest conditions checks)
  | booleanCondition check innerTypes _ _ ihInner ih =>
    obtain ⟨_, hfirst, rest, hrest, rfl⟩ := allInlined_cons_eq_ok.mp hinlined
    obtain ⟨_, hotherFirst, otherRest, hotherRest, rfl⟩ := allInlined_cons_eq_ok.mp hother
    simp only [inlined, Outcome.bind_eq_ok, Outcome.pure_eq_ok] at hfirst hotherFirst
    obtain ⟨inner, hinner, rfl⟩ := hfirst
    obtain ⟨otherInner, hotherInner, rfl⟩ := hotherFirst
    exact .append (ihInner hinner hotherInner conditions (checks ++ [check]))
      (ih hrest hotherRest conditions checks)
  | fragmentSpread name _ ih =>
    obtain ⟨first, hfirst, rest, hrest, rfl⟩ := allInlined_cons_eq_ok.mp hinlined
    obtain ⟨otherFirst, hotherFirst, otherRest, hotherRest, rfl⟩ := allInlined_cons_eq_ok.mp hother
    exact .append (hexpand _ name first otherFirst hfirst hotherFirst conditions checks)
      (ih hrest hotherRest conditions checks)

end

end Selection.Gains

namespace Document.Gains

open Visited (IsTypename)

variable {document extended : Document} (h : document.Gains extended)
include h

theorem visited_expansion (bound : Nat) (types : List String) (name : String)
    (expanded other : Selection) (hexpanded : document.expansion bound types name = .ok expanded)
    (hother : extended.expansion bound types name = .ok other) (conditions : List (List String))
    (checks : List Check) :
    Visited.Gains IsTypename (expanded.visited conditions checks)
      (other.visited conditions checks) := by
  induction bound generalizing types name expanded other conditions checks with
  | zero =>
    simp only [expansion, Outcome.bind_eq_ok] at hexpanded
    obtain ⟨_, _, hexpanded⟩ := hexpanded
    cases hexpanded
  | succ bound ih =>
    simp only [expansion, Outcome.bind_eq_ok, Outcome.pure_eq_ok] at hexpanded hother
    obtain ⟨fragment, hfragment, inner, hinner, rfl⟩ := hexpanded
    obtain ⟨otherFragment, hotherFragment, otherInner, hotherInner, rfl⟩ := hother
    obtain ⟨original, horiginal, hgains⟩ :=
      h.exists_fragment (requireFragment_eq_ok.mp hotherFragment)
    obtain rfl := Option.some.inj (horiginal.symm.trans (requireFragment_eq_ok.mp hfragment))
    rw [hgains.selectionSet.possibleTypes] at hotherInner ⊢
    exact hgains.selectionSet.selections.allVisited_inlined ih hinner hotherInner _ checks

theorem visited_inlined {inside : Bool} {set other merged otherMerged : SelectionSet}
    (hset : set.Gains inside other) (hmerged : document.inlined set = .ok merged)
    (hother : extended.inlined other = .ok otherMerged) :
    Visited.Gains IsTypename merged.visited otherMerged.visited := by
  simp only [inlined, Outcome.bind_eq_ok, Outcome.pure_eq_ok] at hmerged hother
  obtain ⟨selections, hselections, rfl⟩ := hmerged
  obtain ⟨others, hothers, rfl⟩ := hother
  rw [← h.fragments.length_eq, hset.possibleTypes] at hothers
  have hall := hset.selections.allVisited_inlined (h.visited_expansion _) hselections hothers [] []
  rw [SelectionSet.visited, SelectionSet.visited, hset.possibleTypes]
  exact hall.filter_applying set.possibleTypes

end Document.Gains

theorem SelectionSet.Gains.visited {inside : Bool} {set other : SelectionSet}
    (h : set.Gains inside other) :
    Visited.Gains (fun member => member.IsTypename ∧ member.conditions = []) set.visited
      other.visited := by
  have hall := (h.selections.allVisited [] []).mono fun _ => And.right
  rw [SelectionSet.visited, SelectionSet.visited, h.possibleTypes]
  exact hall.filter_applying set.possibleTypes

theorem Record.fields_eq_nil {record : Record} :
    record.fields = [] ↔ ∀ key, key ∉ record.keys := by
  rw [← List.eq_nil_iff_forall_not_mem, keys, List.map_eq_nil_iff]

namespace SelectionSet

theorem mem_keys_typeCase (set : SelectionSet) {record : Record}
    (hrecord : record ∈ set.typeCase.records) {type : String} (htype : type ∈ record.possibleTypes)
    (key : String) :
    key ∈ record.keys ↔ ∃ member ∈ set.visited, member.key? = some key ∧ member.AppliesTo type ∧
      ¬∀ other ∈ set.possibleTypes, member.AppliesTo other := by
  rw [typeCase_eq] at hrecord
  have hkeys := (TypeCase.folds_ofOccurrences set.possibleTypes set.visited).keys record hrecord
    type htype
  rw [hkeys, mem_distinct, Visited.keys, List.map_filterMap, List.mem_filterMap]
  simp only [List.mem_filter, decide_eq_true_eq, Visited.key?_eq]
  constructor
  · rintro ⟨member, ⟨hmember, happlies⟩, hkey⟩
    exact ⟨member, hmember, hkey, happlies⟩
  · rintro ⟨member, hmember, hkey, happlies⟩
    exact ⟨member, ⟨hmember, happlies⟩, hkey⟩

section

variable {set other : SelectionSet} {mayAdd : Visited → Prop} {record otherRecord : Record}
  {type : String} (hgains : Visited.Gains mayAdd set.visited other.visited)
  (htypes : other.possibleTypes = set.possibleTypes)
  (hrecord : record ∈ set.typeCase.records) (hin : type ∈ record.possibleTypes)
  (hother : otherRecord ∈ other.typeCase.records) (hotherIn : type ∈ otherRecord.possibleTypes)
include hgains htypes hrecord hin hother hotherIn

/-- Types that are together with more visited are together with less. -/
theorem mem_record_of_gained {shared : String} (hshared : shared ∈ otherRecord.possibleTypes) :
    shared ∈ record.possibleTypes := by
  have hpartition := set.isCoarsestPartition_typeCase
  have hotherPartition := other.isCoarsestPartition_typeCase
  have hwithin := hotherPartition.partition.within otherRecord hother
  have halike := (hotherPartition.together type (hwithin type hotherIn) shared
    (hwithin shared hshared)).mp ⟨otherRecord, hother, hotherIn, hshared⟩
  rw [htypes] at hwithin
  obtain ⟨both, hboth, hfirst, hsecond⟩ := (hpartition.together type (hwithin type hotherIn) shared
    (hwithin shared hshared)).mpr fun member hmember => by
      obtain ⟨gained, hgained, hmatches⟩ := hgains.kept member hmember
      rw [← hmatches.appliesTo_iff, ← hmatches.appliesTo_iff]
      exact halike gained hgained
  rwa [hpartition.partition.eq_of_mem hrecord hboth hin hfirst]

/-- If what is added applies to all types, it sets none of them apart. -/
theorem mem_record_of_kept
    (hadded : ∀ member, mayAdd member → ∀ other ∈ set.possibleTypes, member.AppliesTo other)
    {shared : String} (hshared : shared ∈ record.possibleTypes) :
    shared ∈ otherRecord.possibleTypes := by
  have hpartition := set.isCoarsestPartition_typeCase
  have hotherPartition := other.isCoarsestPartition_typeCase
  have hwithin := hpartition.partition.within record hrecord
  have halike := (hpartition.together type (hwithin type hin) shared
    (hwithin shared hshared)).mp ⟨record, hrecord, hin, hshared⟩
  have htogether := hotherPartition.together type (htypes ▸ hwithin type hin) shared
    (htypes ▸ hwithin shared hshared)
  obtain ⟨both, hboth, hfirst, hsecond⟩ := htogether.mpr fun gained hgained => by
    rcases hgains.gained gained hgained with hadds | ⟨member, hmember, hmatches⟩
    · exact iff_of_true (hadded gained hadds type (hwithin type hin))
        (hadded gained hadds shared (hwithin shared hshared))
    · rw [hmatches.appliesTo_iff, hmatches.appliesTo_iff]
      exact halike member hmember
  rwa [hotherPartition.partition.eq_of_mem hother hboth hotherIn hfirst]

theorem mem_keys_of_kept {key : String} (hkey : key ∈ record.keys) : key ∈ otherRecord.keys := by
  obtain ⟨member, hmember, hmemberKey, happlies, hpartial⟩ :=
    (set.mem_keys_typeCase hrecord hin key).mp hkey
  obtain ⟨gained, hgained, hmatches⟩ := hgains.kept member hmember
  refine (other.mem_keys_typeCase hother hotherIn key).mpr ⟨gained, hgained, ?_, ?_, ?_⟩
  · rw [hmatches.key?, hmemberKey]
  · exact (hmatches.appliesTo_iff type).mpr happlies
  · simpa only [hmatches.appliesTo_iff, htypes] using hpartial

/-- A further key of the record is one of a field that was added for some types only. -/
theorem mem_keys_of_gained {key : String} (hkey : key ∈ otherRecord.keys) :
    key ∈ record.keys ∨ ∃ member, mayAdd member ∧ member.key? = some key ∧
      ¬∀ other ∈ set.possibleTypes, member.AppliesTo other := by
  obtain ⟨gained, hgained, hgainedKey, happlies, hpartial⟩ :=
    (other.mem_keys_typeCase hother hotherIn key).mp hkey
  rw [htypes] at hpartial
  rcases hgains.gained gained hgained with hadds | ⟨member, hmember, hmatches⟩
  · exact Or.inr ⟨gained, hadds, hgainedKey, hpartial⟩
  · refine Or.inl ((set.mem_keys_typeCase hrecord hin key).mpr ⟨member, hmember, ?_, ?_, ?_⟩)
    · rw [← hmatches.key?, hgainedKey]
    · exact (hmatches.appliesTo_iff type).mp happlies
    · simpa only [hmatches.appliesTo_iff] using hpartial

end

end SelectionSet

end QueryShape.Typed
