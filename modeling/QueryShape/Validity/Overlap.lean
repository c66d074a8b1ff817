import QueryShape.Source.Printer
import QueryShape.Validity.Site
import QueryShape.Walk
import Std.Data.HashSet

/-!
# Overlapping fields

Fields under one response key can be merged if they have shapes of one kind and, unless their
parents are different object types, select the same field with the same arguments. Below them, the
same holds of every two fields of one key. The fields of a selection set are compared with those of
all fragments that it spreads. Fields are numbered by their places in the document, and every two of
them are compared once on each level of nesting, however often fragments lead to them.
-/

set_option autoImplicit false

namespace QueryShape.Validity

open Source (Selection Argument Value Document)

mutual

/-- The literal with the fields of its objects sorted by name, since their order does not matter. -/
def sortedLiteral : Value → Value
  | .list items => .list (sortedItems items)
  | .object fields =>
    .object ((sortedFields fields).mergeSort fun a b => decide (a.1 ≤ b.1))
  | other => other

def sortedItems : List Value → List Value
  | [] => []
  | item :: rest => sortedLiteral item :: sortedItems rest

def sortedFields : List (String × Value) → List (String × Value)
  | [] => []
  | (name, value) :: rest => (name, sortedLiteral value) :: sortedFields rest

end

structure WrittenArgument where
  name : String
  value : String

def writtenArgument (argument : Argument) : WrittenArgument :=
  ⟨argument.name, (sortedLiteral argument.value).print⟩

def sameArguments (first second : List WrittenArgument) : Bool :=
  first.length == second.length &&
    first.all fun argument =>
      match second.find? (·.name == argument.name) with
      | some other => argument.value == other.value
      | none => false

/-- A field of a selection set as the comparison sees it. Introspection fields count as not defined
here. -/
structure Candidate where
  place : Nat
  parent : Option String
  responseKey : String
  name : String
  arguments : List WrittenArgument
  type : Option TypeRef
  /-- The type on which the selections of the field are made. -/
  innerParent : Option String
  selections : List Selection

mutual

def fieldCount : Selection → Nat
  | .field _ _ _ _ selections => fieldCounts selections + 1
  | .fragmentSpread _ _ => 0
  | .inlineFragment _ _ selections => fieldCounts selections

def fieldCounts : List Selection → Nat
  | [] => 0
  | selection :: rest => fieldCount selection + fieldCounts rest

end

mutual

def directSpreads : Selection → List String
  | .field _ _ _ _ _ => []
  | .fragmentSpread name _ => [name]
  | .inlineFragment _ _ selections => allDirectSpreads selections

def allDirectSpreads : List Selection → List String
  | [] => []
  | selection :: rest => directSpreads selection ++ allDirectSpreads rest

end

section

variable (schema : Schema) (document : Document)

def candidate (place : Nat) (parent aliasName : Option String) (name : String)
    (arguments : List Argument) (selections : List Selection) : Candidate where
  place := place
  parent := parent
  responseKey := aliasName.getD name
  name := name
  arguments := arguments.map writtenArgument
  type := (parent.bind fun type => schema.ownField? type name).map (·.type)
  innerParent :=
    (fieldSite schema parent aliasName name arguments [] selections).innerParent schema
  selections := selections

mutual

def directCandidates (place : Nat) (parent : Option String) : Selection → List Candidate
  | .field aliasName name arguments _ selections =>
    [candidate schema place parent aliasName name arguments selections]
  | .fragmentSpread _ _ => []
  | .inlineFragment condition _ selections =>
    allDirectCandidates place (conditionParent schema parent condition) selections

def allDirectCandidates (place : Nat) (parent : Option String) :
    List Selection → List Candidate
  | [] => []
  | selection :: rest =>
    directCandidates place parent selection ++
      allDirectCandidates (place + fieldCount selection) parent rest

end

mutual

/-- All fields in a selection, each before those below it; their places count on from the given one.
-/
def placedCandidates (place : Nat) (parent : Option String) : Selection → List Candidate
  | .field aliasName name arguments _ selections =>
    let field := candidate schema place parent aliasName name arguments selections
    field :: allPlacedCandidates (place + 1) field.innerParent selections
  | .fragmentSpread _ _ => []
  | .inlineFragment condition _ selections =>
    allPlacedCandidates place (conditionParent schema parent condition) selections

def allPlacedCandidates (place : Nat) (parent : Option String) :
    List Selection → List Candidate
  | [] => []
  | selection :: rest =>
    placedCandidates place parent selection ++
      allPlacedCandidates (place + fieldCount selection) parent rest

end

/-- A selection set with the place of its first field and the type on which it is made. -/
structure PlacedSet where
  place : Nat
  parent : Option String
  selections : List Selection

def placedSets (place : Nat) : List (Option String × List Selection) → List PlacedSet
  | [] => []
  | (parent, selections) :: rest =>
    ⟨place, parent, selections⟩ :: placedSets (place + fieldCounts selections) rest

def fragmentSets : List (String × PlacedSet) :=
  (document.fragments.map (·.name)).zip <| placedSets 0 <|
    document.fragments.map fun fragment => (fragmentParent schema fragment, fragment.selections)

def operationSets : List PlacedSet :=
  placedSets (document.fragments.foldr (fun fragment n => fieldCounts fragment.selections + n) 0)
    (document.operations.map fun operation =>
      (operationParent schema operation, operation.selections))

def levelFragments (selections : List Selection) : List String :=
  Walk.fromAll
    (fun name => ((document.fragment? name).map (allDirectSpreads ·.selections)).getD [])
    document.fragments.length (allDirectSpreads selections)

/-- The fields of a selection set and of all fragments that it spreads, given the selection sets of
the fragments. -/
def levelCandidates (fragments : List (String × PlacedSet)) (set : PlacedSet) : List Candidate :=
  allDirectCandidates schema set.place set.parent set.selections ++
    (levelFragments document set.selections).flatMap fun name =>
      match fragments.lookup name with
      | some fragment =>
        allDirectCandidates schema fragment.place fragment.parent fragment.selections
      | none => []

/-- Whether values of the two types cannot be told apart by their shape alone. -/
def sameShape : TypeRef → TypeRef → Bool
  | .list first, .list second => sameShape first second
  | .nonNull first, .nonNull second => sameShape first second
  | .named first, .named second =>
    if schema.typeIs Schema.TypeBody.isLeaf first ||
        schema.typeIs Schema.TypeBody.isLeaf second then
      first == second
    else true
  | _, _ => false

/-- Whether two parents are different object types, so that no object has both fields. -/
def areExclusive (first second : Option String) : Bool :=
  match first, second with
  | some first, some second =>
    first != second && schema.typeIs Schema.TypeBody.isObject first &&
      schema.typeIs Schema.TypeBody.isObject second
  | _, _ => false

/-- Two fields of one response key, by their places, and whether parents further up are exclusive.
-/
structure Comparison where
  exclusive : Bool
  first : Nat
  second : Nat
  deriving DecidableEq, Hashable

def comparisonsAmong : List Candidate → List Comparison
  | [] => []
  | field :: rest =>
    (rest.filter (·.responseKey == field.responseKey)).map (⟨false, field.place, ·.place⟩) ++
      comparisonsAmong rest

def comparisonsBetween (exclusive : Bool) (first second : List Candidate) : List Comparison :=
  first.flatMap fun field =>
    (second.filter (·.responseKey == field.responseKey)).map (⟨exclusive, field.place, ·.place⟩)

structure Entry where
  field : Candidate
  below : List Candidate

def entries : Array Entry :=
  let fragments := fragmentSets schema document
  let sets := fragments.map (·.2) ++ operationSets schema document
  let fields := sets.flatMap fun set =>
    allPlacedCandidates schema set.place set.parent set.selections
  (fields.map fun field =>
    ⟨field, levelCandidates schema document fragments
      ⟨field.place + 1, field.innerParent, field.selections⟩⟩).toArray

def Comparison.isExclusive (comparison : Comparison) (first second : Candidate) : Bool :=
  comparison.exclusive || areExclusive schema first.parent second.parent

/-- Whether two fields can be merged as far as they themselves decide it. Fields of exclusive
parents, and those below them, need only have the same shape. -/
def Comparison.succeeds (comparison : Comparison) (first second : Candidate) : Bool :=
  (comparison.isExclusive schema first second ||
    first.name == second.name && sameArguments first.arguments second.arguments) &&
  match first.type, second.type with
  | some a, some b => sameShape schema a b
  | _, _ => true

def Comparison.outcome (entries : Array Entry) (comparison : Comparison) :
    Bool × List Comparison :=
  match entries[comparison.first]?, entries[comparison.second]? with
  | some first, some second =>
    (comparison.succeeds schema first.field second.field,
      comparisonsBetween (comparison.isExclusive schema first.field second.field)
        first.below second.below)
  | _, _ => (true, [])

/-- Whether all comparisons succeed, and those that follow from them on as many levels as the bound
says. -/
def allSucceed (entries : Array Entry) : Nat → List Comparison → Bool
  | 0, _ => true
  | bound + 1, comparisons =>
    let decided := comparisons.map (Comparison.outcome schema entries)
    comparisons.isEmpty ||
      decided.all (·.1) &&
        allSucceed entries bound (Std.HashSet.ofList (decided.flatMap (·.2))).toList

/-- Whether the fields of all selection sets of a document can be merged. Fields are not nested more
deeply than there are fields, since fragments do not spread each other in a cycle. -/
def fieldsMerge : Bool :=
  let fragments := fragmentSets schema document
  let all := entries schema document
  let roots := (fragments.map (·.2) ++ operationSets schema document).flatMap fun set =>
    comparisonsAmong (levelCandidates schema document fragments set)
  let inner := all.toList.flatMap fun entry => comparisonsAmong entry.below
  allSucceed schema all (all.size + 1) (roots ++ inner)

end

end QueryShape.Validity
