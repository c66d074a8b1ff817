import QueryShape.Typed.Merging

/-!
# Type cases

The fields of a selection set, sorted by the possible types they apply to. The default record has
the fields that apply to every possible type. The other records partition the possible types; each
has the fields that its types select beyond the default ones or in their place. A spread of a
fragment adds no field, but types that it sets apart are in records of their own.

A type case is computed from the occurrences of fields and spreads in the selection set, in order,
each with the types it applies to.
-/

set_option autoImplicit false

namespace QueryShape.Typed

/-- The fields selected for a group of types, with distinct response keys. -/
structure Record where
  possibleTypes : List String
  fields : List Field
  deriving Repr, Inhabited

/-- Adds a field to others with distinct response keys. A field under the same key is merged with it
at its place. If there is none, the field goes to the end, merged into the base field if one is
given. -/
def insertField (field : Field) (base : Option Field) : List Field → List Field
  | [] =>
    match base with
    | none => [field]
    | some base => [base.merge field]
  | first :: rest =>
    if first.responseKey = field.responseKey then first.merge field :: rest
    else first :: insertField field base rest

namespace Record

def field? (record : Record) (key : String) : Option Field :=
  record.fields.find? (·.responseKey == key)

def keys (record : Record) : List String :=
  record.fields.map (·.responseKey)

def add (record : Record) (field : Field) (base : Option Field) : Record :=
  { record with fields := insertField field base record.fields }

/-- Adds a field, provided that it is merged only with a field under the same response key. -/
def add? (record : Record) (field : Field) (base : Option Field) : Option Record :=
  match record.field? field.responseKey, base with
  | none, some base =>
    if base.responseKey = field.responseKey then some (record.add field (some base)) else none
  | _, _ => some (record.add field base)

/-- The record of the given fields, of which the last one under a response key counts. -/
def ofFields (types : List String) (fields : List Field) : Record where
  possibleTypes := types
  fields := (Data.distinctEntries (fields.map fun field => (field.responseKey, field))).map (·.2)

def text (record : Record) : String :=
  "TypeCaseRecord(possible_types=" ++ Text.quotedList record.possibleTypes ++
    ", fields=" ++ Text.quotedList record.keys ++ ")"

end Record

/-- A field or a spread in a selection set, with the possible types that it applies to. -/
inductive Occurrence where
  | field (field : Field) (types : List String)
  | spread (name : String) (types : List String)
  deriving Repr, Inhabited

def Occurrence.types : Occurrence → List String
  | field _ types => types
  | spread _ types => types

def FieldHead.under (head : FieldHead) (checks : List Check) : FieldHead :=
  if checks.isEmpty then head
  else { head with isConditional := true, conditions := distinct (head.conditions ++ checks) }

mutual

def Selection.occurrences (types : List String) (checks : List Check) :
    Selection → List Occurrence
  | .leaf head => [.field ⟨head.under checks, none⟩ types]
  | .composite head nestedTypes nested =>
    [.field ⟨head.under checks, some ⟨nestedTypes, nested⟩⟩ types]
  | .typeCondition _ narrowed selections =>
    Selection.allOccurrences (PossibleTypes.intersect types narrowed) checks selections
  | .booleanCondition check _ selections =>
    Selection.allOccurrences types (checks ++ [check]) selections
  | .fragmentSpread name => [.spread name types]

def Selection.allOccurrences (types : List String) (checks : List Check) :
    List Selection → List Occurrence
  | [] => []
  | selection :: rest =>
    Selection.occurrences types checks selection ++ Selection.allOccurrences types checks rest

end

def SelectionSet.occurrences (set : SelectionSet) : List Occurrence :=
  (Selection.allOccurrences set.possibleTypes [] set.selections).filter (!·.types.isEmpty)

structure TypeCase where
  possibleTypes : List String
  /-- The fields that apply to every possible type. -/
  defaultRecord : Record
  /-- A partition of the possible types, ordered by the first type of each record. -/
  records : List Record
  deriving Repr, Inhabited

namespace TypeCase

def initial (types : List String) : TypeCase where
  possibleTypes := types
  defaultRecord := ⟨types, []⟩
  records := if types.isEmpty then [] else [⟨types, []⟩]

/-- The parts of a record inside and outside of the given types; the part inside is changed. -/
def splitRecord (types : List String) (change : Record → Record) (record : Record) : List Record :=
  let inside := record.possibleTypes.filter (· ∈ types)
  let outside := record.possibleTypes.filter (· ∉ types)
  if inside.isEmpty then [record]
  else if outside.isEmpty then [change record]
  else [change { record with possibleTypes := inside }, { record with possibleTypes := outside }]

def ordered (types : List String) (records : List Record) : List Record :=
  (distinct types).filterMap fun type => records.find? (·.possibleTypes.head? == some type)

/-- Splits the records so that the given types make up whole records, and changes those. -/
def split (typeCase : TypeCase) (types : List String) (change : Record → Record) : TypeCase :=
  { typeCase with
    records :=
      ordered typeCase.possibleTypes (typeCase.records.flatMap (splitRecord types change)) }

/-- Adds a field that applies to every possible type. Records that replace the default field get the
new selection too. -/
def addToAll (typeCase : TypeCase) (field : Field) : TypeCase :=
  { typeCase with
    defaultRecord := typeCase.defaultRecord.add field none
    records := typeCase.records.map fun record =>
      if (record.field? field.responseKey).isSome then record.add field none else record }

/-- Adds a field that applies to the given types only. Where their records lack its key, it extends
the default field, which it replaces for these types. -/
def addToSome (typeCase : TypeCase) (field : Field) (types : List String) : TypeCase :=
  typeCase.split types fun record =>
    record.add field (typeCase.defaultRecord.field? field.responseKey)

def add (typeCase : TypeCase) : Occurrence → TypeCase
  | .field field types =>
    if types.length = typeCase.possibleTypes.length then typeCase.addToAll field
    else typeCase.addToSome field types
  | .spread _ types =>
    if types.length < typeCase.possibleTypes.length then typeCase.split types id else typeCase

def ofOccurrences (types : List String) (occurrences : List Occurrence) : TypeCase :=
  occurrences.foldl add (initial types)

end TypeCase

def SelectionSet.typeCase (set : SelectionSet) : TypeCase :=
  TypeCase.ofOccurrences set.possibleTypes set.occurrences

/-- The type cases over the first selections of the set, for each number of them. -/
def SelectionSet.typeCases (set : SelectionSet) : List TypeCase :=
  (List.range (set.selections.length + 1)).map fun count =>
    { set with selections := set.selections.take count : SelectionSet }.typeCase

end QueryShape.Typed
