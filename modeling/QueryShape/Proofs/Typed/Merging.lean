import Mathlib.Data.List.Induction
import QueryShape.Typed.TypeCase

/-!
# Fields merged in order

All selections under one response key make up one field, the left fold of merging. Its response key
is that of the first, and its nested selections are those of all of them in order, over the possible
types of the first. A list of fields with distinct response keys that a field is inserted into holds
under each key the fold of what was inserted under it.
-/

set_option autoImplicit false

namespace QueryShape.Typed

/-- The conditions are distinct, and there are none without the mark that there are some. -/
structure FieldHead.IsRegular (head : FieldHead) : Prop where
  nodup : head.conditions.Nodup
  eq_nil : head.isConditional = false → head.conditions = []

namespace Field

def nested (field : Field) : List Selection :=
  (field.selectionSet.map (·.selections)).getD []

def mergeOnto (existing : Option Field) (field : Field) : Field :=
  existing.elim field (·.merge field)

def mergeAll (fields : List Field) : Option Field :=
  fields.foldl (fun merged field => some (mergeOnto merged field)) none

/-- The nested selections of all fields, as those of the first. -/
def joined? : List Field → Option SelectionSet
  | [] => none
  | first :: rest =>
    first.selectionSet.map fun set => ⟨set.possibleTypes, (first :: rest).flatMap nested⟩

@[simp] theorem mergeAll_nil : mergeAll [] = none :=
  rfl

@[simp] theorem mergeAll_append_singleton (fields : List Field) (field : Field) :
    mergeAll (fields ++ [field]) = some (mergeOnto (mergeAll fields) field) := by
  simp [mergeAll]

@[simp] theorem mergeAll_eq_none {fields : List Field} : mergeAll fields = none ↔ fields = [] := by
  induction fields using List.reverseRecOn with
  | nil => simp
  | append_singleton fields field _ => simp

@[simp] theorem responseKey_merge (first second : Field) :
    (first.merge second).responseKey = first.responseKey :=
  rfl

theorem responseKey_mergeOnto {existing : Option Field} {field : Field}
    (h : ∀ other ∈ existing, other.responseKey = field.responseKey) :
    (mergeOnto existing field).responseKey = field.responseKey := by
  cases existing with
  | none => rfl
  | some other => exact h other rfl

theorem selectionSet_mergeAll (fields : List Field) :
    (mergeAll fields).bind (·.selectionSet) = joined? fields := by
  induction fields using List.reverseRecOn with
  | nil => rfl
  | append_singleton fields field ih =>
    rw [mergeAll_append_singleton, Option.bind_some]
    cases fields with
    | nil =>
      cases hset : field.selectionSet with
      | none => simp [mergeOnto, joined?, hset]
      | some set => simp [mergeOnto, joined?, nested, hset]
    | cons first rest =>
      cases hmerged : mergeAll (first :: rest) with
      | none => simp at hmerged
      | some merged =>
        rw [hmerged, Option.bind_some] at ih
        simp only [mergeOnto, Option.elim_some, merge, ih, joined?, List.cons_append]
        cases hset : first.selectionSet with
        | none => cases field.selectionSet <;> rfl
        | some set =>
          cases hfield : field.selectionSet with
          | none => simp [SelectionSet.merge, nested, hfield]
          | some inner => simp [SelectionSet.merge, nested, hfield]

def allConditional (fields : List Field) : Bool :=
  fields.all (·.head.isConditional)

def joinedConditions (fields : List Field) : List Check :=
  if allConditional fields then distinct (fields.flatMap (·.head.conditions)) else []

def joinedHead? : List Field → Option FieldHead
  | [] => none
  | first :: rest =>
    some { first.head with
      isConditional := allConditional (first :: rest)
      conditions := joinedConditions (first :: rest) }

theorem allConditional_append_singleton (fields : List Field) (field : Field) :
    allConditional (fields ++ [field]) =
      (allConditional fields && field.head.isConditional) := by
  simp [allConditional]

theorem joinedConditions_append_singleton (fields : List Field) (field : Field) :
    joinedConditions (fields ++ [field]) =
      if allConditional fields && field.head.isConditional then
        distinct (joinedConditions fields ++ field.head.conditions)
      else [] := by
  rw [joinedConditions, allConditional_append_singleton]
  by_cases hall : allConditional fields = true
  · simp [joinedConditions, hall, distinct_distinct_append]
  · simp [hall]

theorem joinedConditions_singleton {field : Field} (h : field.head.IsRegular) :
    joinedConditions [field] = field.head.conditions := by
  rw [joinedConditions, allConditional]
  cases hconditional : field.head.isConditional with
  | false => simp [hconditional, h.eq_nil]
  | true => simp [hconditional, distinct_eq_self h.nodup]

theorem head_mergeAll_cons_cons (first second : Field) (rest : List Field) :
    (mergeAll (first :: second :: rest)).map (·.head) = joinedHead? (first :: second :: rest) := by
  induction rest using List.reverseRecOn with
  | nil => simp [mergeAll, mergeOnto, merge, joinedHead?, joinedConditions, allConditional]
  | append_singleton rest field ih =>
    obtain ⟨merged, hmerged⟩ : ∃ merged, mergeAll (first :: second :: rest) = some merged :=
      Option.ne_none_iff_exists'.mp (by simp)
    rw [hmerged, Option.map_some, joinedHead?] at ih
    have hhead := Option.some.inj ih
    rw [← List.cons_append, ← List.cons_append, mergeAll_append_singleton, Option.map_some,
      List.cons_append, joinedHead?, ← List.cons_append, allConditional_append_singleton,
      joinedConditions_append_singleton]
    simp only [hmerged, mergeOnto, Option.elim_some, merge, hhead]

theorem head_mergeAll {fields : List Field} (h : ∀ field ∈ fields, field.head.IsRegular) :
    (mergeAll fields).map (·.head) = joinedHead? fields := by
  match fields with
  | [] => rfl
  | [field] =>
    have hconditions := joinedConditions_singleton (h field (by simp))
    simp [mergeAll, mergeOnto, joinedHead?, hconditions, allConditional]
  | first :: second :: rest => exact head_mergeAll_cons_cons first second rest

theorem exists_head_mergeAll {first : Field} {rest : List Field} {merged : Field}
    (h : mergeAll (first :: rest) = some merged) :
    ∃ isConditional conditions, merged.head = { first.head with isConditional, conditions } := by
  induction rest using List.reverseRecOn generalizing merged with
  | nil =>
    obtain rfl := Option.some.inj h
    exact ⟨_, _, rfl⟩
  | append_singleton rest field ih =>
    rw [← List.cons_append, mergeAll_append_singleton] at h
    obtain rfl := Option.some.inj h
    cases hbefore : mergeAll (first :: rest) with
    | none => cases mergeAll_eq_none.mp hbefore
    | some before =>
      obtain ⟨_, _, hhead⟩ := ih hbefore
      simp only [mergeOnto, Option.elim_some, merge, hhead]
      exact ⟨_, _, rfl⟩

theorem exists_selectionSet_of_joined? {fields : List Field} {set : SelectionSet}
    (h : joined? fields = some set) :
    ∃ field ∈ fields, ∃ inner, field.selectionSet = some inner := by
  cases fields with
  | nil => cases h
  | cons first rest =>
    obtain ⟨inner, hinner, _⟩ := Option.map_eq_some_iff.mp h
    exact ⟨first, List.mem_cons_self, inner, hinner⟩

theorem exists_of_mem_joined? {fields : List Field} {set : SelectionSet}
    (h : joined? fields = some set) {selection : Selection} (hmem : selection ∈ set.selections) :
    ∃ field ∈ fields, ∃ inner, field.selectionSet = some inner ∧ selection ∈ inner.selections := by
  cases fields with
  | nil => cases h
  | cons first rest =>
    obtain ⟨inner, hinner, rfl⟩ := Option.map_eq_some_iff.mp h
    obtain ⟨field, hfield, hmem⟩ := List.mem_flatMap.mp hmem
    refine ⟨field, hfield, ?_⟩
    cases hset : field.selectionSet with
    | none =>
      rw [nested, hset] at hmem
      cases hmem
    | some set =>
      rw [nested, hset] at hmem
      exact ⟨set, rfl, hmem⟩

end Field

section

variable {field : Field} {base : Option Field}

theorem find?_insertField (hbase : ∀ other ∈ base, other.responseKey = field.responseKey)
    (fields : List Field) (key : String) :
    (insertField field base fields).find? (·.responseKey == key) =
      if field.responseKey = key then
        some (Field.mergeOnto ((fields.find? (·.responseKey == key)).or base) field)
      else fields.find? (·.responseKey == key) := by
  induction fields with
  | nil =>
    have hinserted : insertField field base [] = [Field.mergeOnto base field] := by
      cases base <;> rfl
    rw [hinserted, List.find?_singleton, Field.responseKey_mergeOnto hbase]
    by_cases hkey : field.responseKey = key <;> simp [hkey]
  | cons first rest ih =>
    rw [insertField]
    by_cases hfirst : first.responseKey = field.responseKey
    · rw [if_pos hfirst]
      by_cases hkey : field.responseKey = key
      · simp [hfirst, hkey, Field.mergeOnto]
      · simp [hfirst, hkey]
    · rw [if_neg hfirst, List.find?_cons, List.find?_cons, ih]
      by_cases hkey : field.responseKey = key
      · subst hkey
        simp [beq_eq_false_iff_ne.mpr hfirst]
      · simp [hkey]

end

end QueryShape.Typed
