import QueryShape.Proofs.Typed.Folding

/-!
# Merging does not depend on grouping

Fields under one response key of which all or none have nested selections are merged to the same
field however they are grouped, as long as their order is kept. Merged from the left, two or more of
them make a field that can be read off the list. Different response keys are the only reason not to
merge two fields.
-/

set_option autoImplicit false

namespace QueryShape.Typed

theorem SelectionSet.merge_assoc {first second third : Option SelectionSet}
    (hfirst : first.isSome = second.isSome) (hsecond : second.isSome = third.isSome) :
    merge (merge first second) third = merge first (merge second third) := by
  cases first <;> cases second <;> cases third <;> simp_all [merge]

namespace Field

structure IsUnder (key : String) (nests : Bool) (field : Field) : Prop where
  responseKey : field.responseKey = key
  isSome : field.selectionSet.isSome = nests

theorem merge?_eq_none {first second : Field} :
    first.merge? second = none ↔ first.responseKey ≠ second.responseKey := by
  simp [merge?]

theorem merge_assoc {first second third : Field}
    (hfirst : first.selectionSet.isSome = second.selectionSet.isSome)
    (hsecond : second.selectionSet.isSome = third.selectionSet.isSome) :
    (first.merge second).merge third = first.merge (second.merge third) := by
  simp only [merge, SelectionSet.merge_assoc hfirst hsecond, Bool.and_assoc]
  congr 2
  refine ite_congr rfl (fun hall => ?_) fun _ => rfl
  obtain ⟨hone, htwo, hthree⟩ : first.head.isConditional = true ∧
      second.head.isConditional = true ∧ third.head.isConditional = true := by
    simpa using hall
  simp only [hone, htwo, hthree, Bool.and_self, if_true, distinct_distinct_append,
    distinct_append_distinct, List.append_assoc]

section

variable {key : String} {nests : Bool}

theorem IsUnder.merge {first second : Field} (h : first.IsUnder key nests) :
    (first.merge second).IsUnder key nests where
  responseKey := h.responseKey
  isSome := by
    rw [← h.isSome, Field.merge]
    cases first.selectionSet <;> cases second.selectionSet <;> rfl

theorem IsUnder.merge?_eq {first second : Field} (hfirst : first.IsUnder key nests)
    (hsecond : second.IsUnder key nests) : first.merge? second = some (first.merge second) :=
  if_pos (hfirst.responseKey.trans hsecond.responseKey.symm)

theorem IsUnder.merge_assoc {first second third : Field} (hfirst : first.IsUnder key nests)
    (hsecond : second.IsUnder key nests) (hthird : third.IsUnder key nests) :
    (first.merge second).merge third = first.merge (second.merge third) :=
  Field.merge_assoc (hfirst.isSome.trans hsecond.isSome.symm)
    (hsecond.isSome.trans hthird.isSome.symm)

theorem isUnder_mergeAll {fields : List Field} (h : ∀ field ∈ fields, field.IsUnder key nests)
    {merged : Field} (hmerged : mergeAll fields = some merged) : merged.IsUnder key nests := by
  induction fields using List.reverseRecOn generalizing merged with
  | nil => cases hmerged
  | append_singleton fields field ih =>
    obtain ⟨hfields, hfield⟩ := List.forall_mem_append.mp h
    rw [mergeAll_append_singleton] at hmerged
    obtain rfl := Option.some.inj hmerged
    cases hearlier : mergeAll fields with
    | none => exact hfield field List.mem_cons_self
    | some earlier => exact (ih hfields hearlier).merge

theorem mergeAll_append {fields others : List Field}
    (hfields : ∀ field ∈ fields, field.IsUnder key nests)
    (hothers : ∀ field ∈ others, field.IsUnder key nests) {merged other : Field}
    (hmerged : mergeAll fields = some merged) (hother : mergeAll others = some other) :
    mergeAll (fields ++ others) = some (merged.merge other) := by
  induction others using List.reverseRecOn generalizing other with
  | nil => cases hother
  | append_singleton others last ih =>
    obtain ⟨hbefore, hlast⟩ := List.forall_mem_append.mp hothers
    rw [mergeAll_append_singleton] at hother
    obtain rfl := Option.some.inj hother
    rw [← List.append_assoc, mergeAll_append_singleton]
    cases hearlier : mergeAll others with
    | none =>
      rw [mergeAll_eq_none.mp hearlier, List.append_nil, hmerged]
      rfl
    | some earlier =>
      rw [ih hbefore hearlier]
      exact congrArg some ((isUnder_mergeAll hfields hmerged).merge_assoc
        (isUnder_mergeAll hbefore hearlier) (hlast last List.mem_cons_self))

end

/-- The field takes everything from the first field but conditions and nested selections. It is
conditional if all fields are, and then under their checks without those that come again, and its
nested selections are those of all fields in order, over the possible types of the first. -/
structure Joins (merged first : Field) (rest : List Field) : Prop where
  isConditional : merged.head.isConditional = true ↔
    ∀ field ∈ first :: rest, field.head.isConditional = true
  conditions : merged.head.isConditional = true →
    merged.head.conditions = distinct ((first :: rest).flatMap (·.head.conditions))
  eq_nil : merged.head.isConditional = false → merged.head.conditions = []
  selectionSet : merged.selectionSet = first.selectionSet.map fun set =>
    ⟨set.possibleTypes, (first :: rest).flatMap nested⟩
  head : { merged.head with
      isConditional := first.head.isConditional
      conditions := first.head.conditions } = first.head

theorem joins_mergeAll {first second merged : Field} {rest : List Field}
    (h : mergeAll (first :: second :: rest) = some merged) :
    Joins merged first (second :: rest) := by
  have hhead := head_mergeAll_cons_cons first second rest
  rw [h, Option.map_some, joinedHead?] at hhead
  have hhead := Option.some.inj hhead
  have hconditional : merged.head.isConditional = allConditional (first :: second :: rest) := by
    rw [hhead]
  have hconditions : merged.head.conditions = joinedConditions (first :: second :: rest) := by
    rw [hhead]
  constructor
  · rw [hconditional, allConditional, List.all_eq_true]
  · intro hall
    rw [hconditions, joinedConditions, if_pos (hconditional ▸ hall)]
  · intro hnot
    rw [hconditions, joinedConditions, if_neg (by simp [← hconditional, hnot])]
  · rw [← Option.bind_some merged (·.selectionSet), ← h, selectionSet_mergeAll]
    rfl
  · rw [hhead]

end Field

/-- Fields in order, put together two at a time. -/
inductive Grouping where
  | one (field : Field)
  | two (first second : Grouping)

namespace Grouping

def fields : Grouping → List Field
  | one field => [field]
  | two first second => first.fields ++ second.fields

def merged? : Grouping → Option Field
  | one field => some field
  | two first second => first.merged?.bind fun merged => second.merged?.bind merged.merge?

theorem fields_ne_nil (grouping : Grouping) : grouping.fields ≠ [] := by
  induction grouping with
  | one field => exact List.cons_ne_nil field []
  | two first second ihFirst _ => exact List.append_ne_nil_of_left_ne_nil ihFirst second.fields

theorem merged?_eq {key : String} {nests : Bool} {grouping : Grouping}
    (h : ∀ field ∈ grouping.fields, field.IsUnder key nests) :
    grouping.merged? = Field.mergeAll grouping.fields := by
  induction grouping with
  | one field => rfl
  | two first second ihFirst ihSecond =>
    obtain ⟨hfirst, hsecond⟩ := List.forall_mem_append.mp h
    obtain ⟨merged, hmerged⟩ : ∃ merged, Field.mergeAll first.fields = some merged :=
      Option.ne_none_iff_exists'.mp (mt Field.mergeAll_eq_none.mp first.fields_ne_nil)
    obtain ⟨other, hother⟩ : ∃ other, Field.mergeAll second.fields = some other :=
      Option.ne_none_iff_exists'.mp (mt Field.mergeAll_eq_none.mp second.fields_ne_nil)
    rw [merged?, ihFirst hfirst, hmerged, ihSecond hsecond, hother, Option.bind_some,
      Option.bind_some, fields, Field.mergeAll_append hfirst hsecond hmerged hother]
    exact (Field.isUnder_mergeAll hfirst hmerged).merge?_eq (Field.isUnder_mergeAll hsecond hother)

end Grouping

namespace Field

/-- Merging is refused for different response keys only. Of fields under one response key, all of
which or none have nested selections, it makes no difference which are merged first, for three or
for any number of them, and what two or more are merged to from the left joins them. -/
theorem merge?_associative :
    (∀ first second : Field, first.merge? second = none ↔
      first.responseKey ≠ second.responseKey) ∧
    ∀ (key : String) (nests : Bool),
      (∀ first second third : Field, first.IsUnder key nests → second.IsUnder key nests →
        third.IsUnder key nests → ∃ merged,
          (first.merge? second).bind (·.merge? third) = some merged ∧
          (second.merge? third).bind first.merge? = some merged) ∧
      (∀ grouping : Grouping, (∀ field ∈ grouping.fields, field.IsUnder key nests) →
        grouping.merged? = mergeAll? grouping.fields) ∧
      ∀ (first second : Field) (rest : List Field),
        (∀ field ∈ first :: second :: rest, field.IsUnder key nests) →
          ∃ merged, mergeAll? (first :: second :: rest) = some merged ∧
            merged.Joins first (second :: rest) := by
  refine ⟨fun _ _ => merge?_eq_none, fun key nests => ⟨?_, ?_, ?_⟩⟩
  · intro first second third hfirst hsecond hthird
    refine ⟨(first.merge second).merge third, ?_, ?_⟩
    · rw [hfirst.merge?_eq hsecond, Option.bind_some, hfirst.merge.merge?_eq hthird]
    · rw [hsecond.merge?_eq hthird, Option.bind_some, hfirst.merge?_eq hsecond.merge,
        hfirst.merge_assoc hsecond hthird]
  · intro grouping h
    rw [Grouping.merged?_eq h, mergeAll?_eq fun field hfield => (h field hfield).responseKey]
  · intro first second rest h
    obtain ⟨merged, hmerged⟩ : ∃ merged, mergeAll (first :: second :: rest) = some merged :=
      Option.ne_none_iff_exists'.mp (by simp)
    rw [mergeAll?_eq fun field hfield => (h field hfield).responseKey]
    exact ⟨merged, hmerged, joins_mergeAll hmerged⟩

def friendWhen (checks : List Check) : Field where
  head := { petName with
    responseKey := "friend"
    name := "friend"
    isConditional := true
    conditions := checks }
  selectionSet := some ⟨["Dog", "Cat"], [.leaf petName]⟩

theorem isUnder_friendWhen (checks : List Check) : (friendWhen checks).IsUnder "friend" true :=
  ⟨rfl, rfl⟩

theorem merge?_associative_friends :
    let first := friendWhen [⟨"c", false⟩]
    let second := friendWhen [⟨"d", false⟩, ⟨"c", false⟩]
    let third := friendWhen [⟨"c", true⟩]
    (∀ field ∈ [first, second, third], field.IsUnder "friend" true) ∧
      (∃ merged, (first.merge? second).bind (·.merge? third) = some merged ∧
        (second.merge? third).bind first.merge? = some merged) ∧
      (Grouping.two (.one first) (.two (.one second) (.one third))).merged? =
        mergeAll? [first, second, third] ∧
      ∃ merged, mergeAll? [first, second, third] = some merged ∧
        merged.Joins first [second, third] ∧
        merged.head.conditions = [⟨"c", false⟩, ⟨"d", false⟩, ⟨"c", true⟩] := by
  intro first second third
  have hunder : ∀ field ∈ [first, second, third], field.IsUnder "friend" true := by
    simp [first, second, third, isUnder_friendWhen]
  obtain ⟨-, hunderKey⟩ := merge?_associative
  obtain ⟨hassoc, hgrouping, hjoins⟩ := hunderKey "friend" true
  obtain ⟨merged, hmerged, hjoined⟩ := hjoins first second [third] hunder
  refine ⟨hunder, ?_, hgrouping (.two (.one first) (.two (.one second) (.one third))) hunder,
    merged, hmerged, hjoined, ?_⟩
  · exact hassoc first second third (isUnder_friendWhen _) (isUnder_friendWhen _)
      (isUnder_friendWhen _)
  · rw [hjoined.conditions (hjoined.isConditional.mpr (by decide))]
    decide

end Field

end QueryShape.Typed
