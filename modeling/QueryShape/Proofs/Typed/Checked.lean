import QueryShape.Proofs.Typed.Occurrences

/-!
# Only fields under one response key are merged

Adding a field to a record is refused if the record lacks its key and the base field has another
one. A type case that is given up as soon as an addition is refused is never given up: the base
fields are those that the default record has under the key of the field that is added.
-/

set_option autoImplicit false

namespace QueryShape.Typed

section

variable {record : Record} {field : Field}

theorem Record.add?_none : record.add? field none = some (record.add field none) := by
  rw [add?]
  simp

theorem Record.add?_field? (other : Record) :
    record.add? field (other.field? field.responseKey) =
      some (record.add field (other.field? field.responseKey)) := by
  cases hbase : other.field? field.responseKey with
  | none => exact add?_none
  | some base =>
    have hkey : base.responseKey = field.responseKey := responseKey_of_field? hbase
    cases hexisting : record.field? field.responseKey <;> simp [add?, hexisting, hkey]

end

namespace TypeCase

def splitRecord? (types : List String) (change : Record → Option Record) (record : Record) :
    Option (List Record) :=
  let inside := record.possibleTypes.filter (· ∈ types)
  let outside := record.possibleTypes.filter (· ∉ types)
  if inside.isEmpty then some [record]
  else if outside.isEmpty then return [← change record]
  else return [← change { record with possibleTypes := inside },
    { record with possibleTypes := outside }]

/-- Splits the records as `split` does, unless a change is refused. -/
def split? (typeCase : TypeCase) (types : List String) (change : Record → Option Record) :
    Option TypeCase := do
  let parts ← typeCase.records.mapM (splitRecord? types change)
  return { typeCase with records := ordered typeCase.possibleTypes parts.flatten }

def addToAll? (typeCase : TypeCase) (field : Field) : Option TypeCase := do
  let defaultRecord ← typeCase.defaultRecord.add? field none
  let records ← typeCase.records.mapM fun record =>
    if (record.field? field.responseKey).isSome then record.add? field none else some record
  return { typeCase with defaultRecord, records }

def add? (typeCase : TypeCase) : Occurrence → Option TypeCase
  | .field field types =>
    if types.length = typeCase.possibleTypes.length then typeCase.addToAll? field
    else typeCase.split? types fun record =>
      record.add? field (typeCase.defaultRecord.field? field.responseKey)
  | .spread _ types =>
    if types.length < typeCase.possibleTypes.length then typeCase.split? types some
    else some typeCase

def ofOccurrences? (types : List String) (occurrences : List Occurrence) : Option TypeCase :=
  occurrences.foldlM add? (initial types)

variable {typeCase : TypeCase}

theorem split?_some (types : List String) {change : Record → Option Record}
    {others : Record → Record} (h : ∀ record, change record = some (others record)) :
    typeCase.split? types change = some (typeCase.split types others) := by
  have hparts : splitRecord? types change = fun record =>
      pure (splitRecord types others record) := by
    funext record
    rw [splitRecord?, splitRecord, h, h]
    split
    · rfl
    · split <;> rfl
  rw [split?, hparts, List.mapM_pure, split, List.flatMap_def]
  rfl

theorem addToAll?_eq (field : Field) :
    typeCase.addToAll? field = some (typeCase.addToAll field) := by
  have hrecords : (fun record : Record =>
        if (record.field? field.responseKey).isSome then record.add? field none
        else some record) =
      fun record => pure (if (record.field? field.responseKey).isSome then record.add field none
        else record) := by
    funext record
    split
    · exact Record.add?_none
    · rfl
  rw [addToAll?, Record.add?_none, hrecords, List.mapM_pure]
  rfl

theorem add?_eq (occurrence : Occurrence) :
    typeCase.add? occurrence = some (typeCase.add occurrence) := by
  cases occurrence with
  | field field types =>
    rw [add?, add, addToSome]
    split
    · exact addToAll?_eq field
    · exact split?_some types fun record => record.add?_field? typeCase.defaultRecord
  | spread name types =>
    rw [add?, add]
    split
    · exact split?_some types fun _ => rfl
    · rfl

/-- No field of a type case is refused. -/
theorem ofOccurrences?_eq (types : List String) (occurrences : List Occurrence) :
    ofOccurrences? types occurrences = some (ofOccurrences types occurrences) := by
  rw [ofOccurrences?, ofOccurrences]
  generalize initial types = typeCase
  induction occurrences generalizing typeCase with
  | nil => rfl
  | cons first rest ih =>
    rw [List.foldlM_cons, add?_eq, List.foldl_cons]
    exact ih _

end TypeCase

def SelectionSet.typeCase? (set : SelectionSet) : Option TypeCase :=
  TypeCase.ofOccurrences? set.possibleTypes set.occurrences

theorem SelectionSet.typeCase?_eq (set : SelectionSet) : set.typeCase? = some set.typeCase :=
  TypeCase.ofOccurrences?_eq set.possibleTypes set.occurrences

end QueryShape.Typed
