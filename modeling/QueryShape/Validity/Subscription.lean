import QueryShape.Validity.Site

/-!
# Subscriptions

A subscription asks for one field of its root type, and not for one of introspection. Its root
fields are collected without the values of variables: directives on the way are decided if their
condition is a literal, and otherwise the fields cannot be told.
-/

set_option autoImplicit false

namespace QueryShape.Validity

open Source (Selection Directive Document Operation Fragment Value)

/-- The value of a condition directive, if it is a boolean literal. Of arguments of one name the
last one counts. -/
def decidedCondition? (directive : Directive) : Option Bool :=
  match directive.arguments.reverse.find? (·.name == "if") with
  | some ⟨_, .boolean value⟩ => some value
  | _ => none

def firstCondition? (name : String) (otherwise : Bool) (directives : List Directive) :
    Option Bool :=
  match directives.find? (·.name == name) with
  | none => some otherwise
  | some directive => decidedCondition? directive

def isIncluded? (directives : List Directive) : Option Bool :=
  match firstCondition? "skip" false directives with
  | none => none
  | some true => some false
  | some false => firstCondition? "include" true directives

structure RootField where
  responseKey : String
  name : String

/-- The fields collected so far, and the fragments entered. -/
structure Collection where
  fields : List RootField
  entered : List String

namespace Collection

def empty : Collection := ⟨[], []⟩

def addField (collection : Collection) (field : RootField) : Collection :=
  { collection with fields := collection.fields ++ [field] }

def enter (collection : Collection) (fragment : String) : Collection :=
  { collection with entered := fragment :: collection.entered }

end Collection

section

variable (schema : Schema) (document : Document)

def conditionHolds (type condition : String) : Bool :=
  condition == type || schema.isSubtype condition type

mutual

/-- Adds the fields that a selection gives for an object type. What a fragment adds is given by a
function. -/
def collect (ofFragment : String → Collection → Option Collection) (type : String)
    (selection : Selection) (collection : Collection) : Option Collection :=
  match selection with
  | .field aliasName name _ directives _ =>
    match isIncluded? directives with
    | none => none
    | some false => some collection
    | some true => some (collection.addField ⟨aliasName.getD name, name⟩)
  | .fragmentSpread name directives =>
    if collection.entered.contains name then some collection
    else
      match isIncluded? directives with
      | none => none
      | some false => some collection
      | some true => ofFragment name (collection.enter name)
  | .inlineFragment condition directives selections =>
    match isIncluded? directives with
    | none => none
    | some false => some collection
    | some true =>
      if condition.all (conditionHolds schema type) then
        collectAll ofFragment type selections collection
      else some collection

def collectAll (ofFragment : String → Collection → Option Collection) (type : String)
    (selections : List Selection) (collection : Collection) : Option Collection :=
  match selections with
  | [] => some collection
  | selection :: rest =>
    match collect ofFragment type selection collection with
    | none => none
    | some collection => collectAll ofFragment type rest collection

end

/-- Adds the fields that a fragment gives for an object type; of fragments of one name the last one
counts. The bound limits how deeply fragments are entered from each other, each of them once. -/
def collectFragment (type : String) : Nat → String → Collection → Option Collection
  | 0, _, collection => some collection
  | bound + 1, name, collection =>
    match document.fragments.reverse.find? (·.name == name) with
    | none => some collection
    | some fragment =>
      if conditionHolds schema type fragment.typeCondition then
        collectAll schema (collectFragment type bound) type fragment.selections collection
      else some collection

/-- The root fields of a subscription; an operation of another kind is asked for none. Nothing if a
condition on the way is not decided. -/
def subscribedFields? (operation : Operation) : Option (List RootField) :=
  match operation.kind, schema.subscriptionType with
  | .subscription, some type =>
    (collectAll schema (collectFragment schema document type document.fragments.length) type
      operation.selections .empty).map (·.fields)
  | _, _ => some []

def subscriptionsDecided : Bool :=
  document.operations.all fun operation => (subscribedFields? schema document operation).isSome

def hasSingleField (operation : Operation) : Bool :=
  (subscribedFields? schema document operation).all fun fields =>
    (fields.all fun field => fields.all fun other => field.responseKey == other.responseKey) &&
      fields.all fun field => !field.name.startsWith "__"

end

end QueryShape.Validity
