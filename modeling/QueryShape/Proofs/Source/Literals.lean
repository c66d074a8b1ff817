import Mathlib.Data.List.Permutation
import QueryShape.Proofs.Entries
import QueryShape.Source.Literal

/-!
# Variables in the data of literals

The data of a literal keeps its variables apart from everything else as long as no object literal
has the shape of a reference. For such literals, putting values in the place of the references is
the same as evaluating the literal with these values for its variables.
-/

set_option autoImplicit false

namespace QueryShape.Data

/-- The name in an object that equals a reference. The order of the entries is left open. -/
def referenced? : Data → Option String
  | object [(first, string text), (second, string other)] =>
    if first = "kind" ∧ text = "Variable" ∧ second = "variableName" then some other
    else if first = "variableName" ∧ second = "kind" ∧ other = "Variable" then some text
    else none
  | _ => none

mutual

/-- The data with the given values in the place of all references. -/
def substitute (values : String → Data) : Data → Data
  | list items => list (substituteItems values items)
  | object entries =>
    match (object entries).referenced? with
    | some name => values name
    | none => object (substituteEntries values entries)
  | other => other

def substituteItems (values : String → Data) : List Data → List Data
  | [] => []
  | item :: rest => substitute values item :: substituteItems values rest

def substituteEntries (values : String → Data) : List (String × Data) → List (String × Data)
  | [] => []
  | (key, value) :: rest => (key, substitute values value) :: substituteEntries values rest

end

mutual

def parts : Data → List Data
  | list items => list items :: itemParts items
  | object entries => object entries :: entryParts entries
  | other => [other]

def itemParts : List Data → List Data
  | [] => []
  | item :: rest => parts item ++ itemParts rest

def entryParts : List (String × Data) → List Data
  | [] => []
  | (_, value) :: rest => parts value ++ entryParts rest

end

def references (data : Data) : List String :=
  data.parts.filterMap referenced?

theorem referenced?_eq_some_iff {data : Data} {name : String} :
    data.referenced? = some name ↔ ∃ entries, data = object entries ∧
      entries.Perm [("kind", string "Variable"), ("variableName", string name)] := by
  constructor
  · intro h
    rw [referenced?.eq_def] at h
    split at h
    case h_1 first text second other =>
      split at h
      case isTrue hshape =>
        obtain ⟨rfl, rfl, rfl⟩ := hshape
        cases h
        exact ⟨_, rfl, .refl _⟩
      case isFalse =>
        split at h
        case isTrue hshape =>
          obtain ⟨rfl, rfl, rfl⟩ := hshape
          cases h
          exact ⟨_, rfl, .swap _ _ _⟩
        case isFalse => cases h
    case h_2 => cases h
  · rintro ⟨entries, rfl, hperm⟩
    obtain rfl | rfl := List.perm_pair.mp hperm <;> simp [referenced?]

@[simp] theorem referenced?_reference (name : String) :
    (reference name).referenced? = some name :=
  referenced?_eq_some_iff.mpr ⟨_, rfl, .refl _⟩

theorem substitute_reference (values : String → Data) (name : String) :
    (reference name).substitute values = values name := by
  simp [reference, substitute, referenced?]

theorem substitute_list (values : String → Data) (items : List Data) :
    (list items).substitute values = list (items.map (substitute values)) := by
  have hitems : substituteItems values items = items.map (substitute values) := by
    induction items with
    | nil => rfl
    | cons item rest ih => rw [substituteItems, ih, List.map_cons]
  rw [substitute, hitems]

theorem substitute_object {values : String → Data} {entries : List (String × Data)}
    (h : (object entries).referenced? = none) :
    (object entries).substitute values =
      object (entries.map (Prod.map id (substitute values))) := by
  have hentries : substituteEntries values entries =
      entries.map (Prod.map id (substitute values)) := by
    clear h
    induction entries with
    | nil => rfl
    | cons entry rest ih => rw [substituteEntries, ih, List.map_cons]; rfl
  rw [substitute, h, hentries]

theorem references_list (items : List Data) :
    (list items).references = items.flatMap references := by
  have hitems : (itemParts items).filterMap referenced? = items.flatMap references := by
    induction items with
    | nil => rfl
    | cons item rest ih => rw [itemParts, List.filterMap_append, ih]; rfl
  rw [references, parts, List.filterMap_cons_none rfl, hitems]

theorem references_object (entries : List (String × Data)) :
    (object entries).references =
      (object entries).referenced?.toList ++ entries.flatMap (·.2.references) := by
  have hentries :
      (entryParts entries).filterMap referenced? = entries.flatMap (·.2.references) := by
    induction entries with
    | nil => rfl
    | cons entry rest ih => rw [entryParts, List.filterMap_append, ih]; rfl
  rw [references, parts, List.filterMap_cons, hentries]
  cases (object entries).referenced? <;> rfl

end QueryShape.Data

namespace QueryShape.Source.Value

open Data (lastEntries)

def members : Value → List Value
  | list items => items
  | object fields => fields.map (·.2)
  | _ => []

@[elab_as_elim]
theorem membersInduction {motive : Value → Prop}
    (step : ∀ value, (∀ member ∈ value.members, motive member) → motive value) (value : Value) :
    motive value :=
  @Value.rec motive (fun items => ∀ item ∈ items, motive item)
    (fun fields => ∀ member ∈ fields.map (·.2), motive member) (fun field => motive field.2)
    (fun _ => step _ nofun) (fun _ => step _ nofun) (fun _ => step _ nofun)
    (fun _ _ => step _ nofun) (fun _ => step _ nofun) (step _ nofun) (fun _ => step _ nofun)
    (fun _ hitems => step _ hitems) (fun _ hfields => step _ hfields)
    nofun (fun _ _ hitem hrest => List.forall_mem_cons.mpr ⟨hitem, hrest⟩)
    nofun (fun _ _ hfield hrest => List.forall_mem_cons.mpr ⟨hfield, hrest⟩)
    (fun _ _ hvalue => hvalue) value

mutual

/-- The value of a literal: of an object it is, for every name in the order of the first fields,
the value of the last field. -/
def evaluate (values : String → Data) : Value → Data
  | var name => values name
  | list items => .list (evaluateItems values items)
  | object fields => .object (lastEntries (evaluateFields values fields))
  | other => other.toData

def evaluateItems (values : String → Data) : List Value → List Data
  | [] => []
  | item :: rest => evaluate values item :: evaluateItems values rest

def evaluateFields (values : String → Data) : List (String × Value) → List (String × Data)
  | [] => []
  | (name, value) :: rest => (name, evaluate values value) :: evaluateFields values rest

end

mutual

/-- The literal and all literals inside of it, without those in a field that a later one of its name
replaces. -/
def parts : Value → List Value
  | list items => list items :: itemParts items
  | object fields => object fields :: (lastEntries (fieldParts fields)).flatMap (·.2)
  | other => [other]

def itemParts : List Value → List Value
  | [] => []
  | item :: rest => parts item ++ itemParts rest

def fieldParts : List (String × Value) → List (String × List Value)
  | [] => []
  | (name, value) :: rest => (name, parts value) :: fieldParts rest

end

def varName? : Value → Option String
  | var name => some name
  | _ => none

def varNames (value : Value) : List String :=
  value.parts.filterMap varName?

/-- Whether the literal is an object literal of which the data equals a reference. -/
def imitatesReference : Value → Bool
  | object fields => (object fields).toData.referenced?.isSome
  | _ => false

theorem toData_list (items : List Value) : (list items).toData = .list (items.map toData) := by
  have hitems : itemsToData items = items.map toData := by
    induction items with
    | nil => rfl
    | cons item rest ih => rw [itemsToData, ih, List.map_cons]
  rw [toData, hitems]

theorem toData_object (fields : List (String × Value)) :
    (object fields).toData = .object ((lastEntries fields).map (Prod.map id toData)) := by
  have hfields : fieldsToData fields = fields.map (Prod.map id toData) := by
    induction fields with
    | nil => rfl
    | cons field rest ih => rw [fieldsToData, ih, List.map_cons]; rfl
  rw [toData, hfields, Data.distinctEntries_eq, Data.lastEntries_map]

theorem evaluate_list (values : String → Data) (items : List Value) :
    (list items).evaluate values = .list (items.map (evaluate values)) := by
  have hitems : evaluateItems values items = items.map (evaluate values) := by
    induction items with
    | nil => rfl
    | cons item rest ih => rw [evaluateItems, ih, List.map_cons]
  rw [evaluate, hitems]

theorem evaluate_object (values : String → Data) (fields : List (String × Value)) :
    (object fields).evaluate values =
      .object ((lastEntries fields).map (Prod.map id (evaluate values))) := by
  have hfields : evaluateFields values fields = fields.map (Prod.map id (evaluate values)) := by
    induction fields with
    | nil => rfl
    | cons field rest ih => rw [evaluateFields, ih, List.map_cons]; rfl
  rw [evaluate, hfields, Data.lastEntries_map]

theorem parts_list (items : List Value) :
    (list items).parts = list items :: items.flatMap parts := by
  have hitems : itemParts items = items.flatMap parts := by
    induction items with
    | nil => rfl
    | cons item rest ih => rw [itemParts, ih, List.flatMap_cons]
  rw [parts, hitems]

theorem parts_object (fields : List (String × Value)) :
    (object fields).parts = object fields :: (lastEntries fields).flatMap (·.2.parts) := by
  have hfields : fieldParts fields = fields.map (Prod.map id parts) := by
    induction fields with
    | nil => rfl
    | cons field rest ih => rw [fieldParts, ih, List.map_cons]; rfl
  rw [parts, hfields, Data.lastEntries_map, List.flatMap_map]
  rfl

theorem mem_members_of_mem_lastEntries {fields : List (String × Value)} {field : String × Value}
    (h : field ∈ lastEntries fields) : field.2 ∈ (object fields).members :=
  List.mem_map_of_mem (Data.mem_of_mem_lastEntries h)

theorem references_toData (value : Value) :
    value.toData.references = value.parts.filterMap (·.toData.referenced?) := by
  induction value using membersInduction with | step value ih => ?_
  cases value with
  | var name => rfl
  | list items =>
    rw [toData_list, Data.references_list, List.flatMap_map, parts_list,
      List.filterMap_cons_none rfl, List.filterMap_flatMap]
    exact List.flatMap_congr ih
  | object fields =>
    have hfields : (lastEntries fields).flatMap (·.2.toData.references) =
        ((lastEntries fields).flatMap (·.2.parts)).filterMap (·.toData.referenced?) := by
      rw [List.filterMap_flatMap]
      exact List.flatMap_congr fun field hfield => ih _ (mem_members_of_mem_lastEntries hfield)
    rw [parts_object, List.filterMap_cons, ← hfields, toData_object, Data.references_object,
      List.flatMap_map]
    cases Data.referenced? _ <;> rfl
  | _ => rfl

theorem substitute_toData_object {fields : List (String × Value)}
    (h : (object fields).toData.referenced? = none) (values : String → Data) :
    (object fields).toData.substitute values =
      .object
        ((lastEntries fields).map (Prod.map id fun value => value.toData.substitute values)) := by
  rw [toData_object] at h ⊢
  rw [Data.substitute_object h, List.map_map]
  rfl

theorem substitute_toData {value : Value} (h : ∀ part ∈ value.parts, part.imitatesReference = false)
    (values : String → Data) : value.toData.substitute values = value.evaluate values := by
  induction value using membersInduction with | step value ih => ?_
  cases value with
  | var name => exact Data.substitute_reference values name
  | list items =>
    rw [parts_list, List.forall_mem_cons, List.forall_mem_flatMap] at h
    rw [toData_list, Data.substitute_list, List.map_map, evaluate_list]
    exact congrArg Data.list (List.map_congr_left fun item hitem => ih item hitem (h.2 item hitem))
  | object fields =>
    rw [parts_object, List.forall_mem_cons, List.forall_mem_flatMap] at h
    obtain ⟨hself, hfields⟩ := h
    have hnone : (object fields).toData.referenced? = none := by
      simpa [imitatesReference] using hself
    rw [substitute_toData_object hnone, evaluate_object]
    refine congrArg Data.object (List.map_congr_left fun field hfield => ?_)
    exact Prod.ext rfl (ih _ (mem_members_of_mem_lastEntries hfield) (hfields field hfield))
  | _ => rfl

theorem imitatesReference_eq_false {value : Value}
    (h : value.toData.substitute (fun _ => .null) = value.evaluate fun _ => .null) :
    ∀ part ∈ value.parts, part.imitatesReference = false := by
  induction value using membersInduction with | step value ih => ?_
  cases value with
  | list items =>
    rw [toData_list, Data.substitute_list, List.map_map, evaluate_list, Data.list.injEq,
      List.map_inj_left] at h
    rw [parts_list, List.forall_mem_cons, List.forall_mem_flatMap]
    exact ⟨rfl, fun item hitem => ih item hitem (h item hitem)⟩
  | object fields =>
    rw [evaluate_object] at h
    cases hself : (object fields).toData.referenced? with
    | none =>
      rw [substitute_toData_object hself, Data.object.injEq, List.map_inj_left] at h
      rw [parts_object, List.forall_mem_cons, List.forall_mem_flatMap]
      refine ⟨by simp [imitatesReference, hself], fun field hfield => ?_⟩
      exact ih _ (mem_members_of_mem_lastEntries hfield) (congrArg Prod.snd (h field hfield))
    | some name =>
      -- The object is replaced as a whole, but its value is an object.
      rw [toData_object] at hself h
      rw [Data.substitute, hself] at h
      cases h
  | _ => exact List.forall_mem_singleton.mpr rfl

theorem referenced?_toData {value : Value} (h : value.imitatesReference = false) :
    value.toData.referenced? = value.varName? := by
  cases value with
  | var name => exact Data.referenced?_reference name
  | object fields => simpa [imitatesReference, varName?] using h
  | _ => rfl

/-- Putting values in the place of the references in the data of a literal is evaluating the literal
exactly if no object literal in it imitates a reference. Then the references are those to its
variables. -/
theorem substitute_toData_eq_evaluate_iff (value : Value) :
    ((∀ values, value.toData.substitute values = value.evaluate values) ↔
        ∀ part ∈ value.parts, part.imitatesReference = false) ∧
      ((∀ part ∈ value.parts, part.imitatesReference = false) →
        value.toData.references = value.varNames) := by
  refine ⟨⟨fun h => imitatesReference_eq_false (h _), substitute_toData⟩, fun h => ?_⟩
  rw [references_toData, varNames]
  exact List.filterMap_congr fun part hpart => referenced?_toData (h part hpart)

/-- The literal `{kind: "Variable", variableName: "x"}`. -/
def imitation : Value :=
  .object [("kind", .string "Variable" false), ("variableName", .string "x" false)]

theorem not_keeps_imitation :
    imitation.varNames = [] ∧ imitation.toData.references = ["x"] ∧
      imitation.toData.substitute (fun _ => .null) ≠ imitation.evaluate fun _ => .null :=
  ⟨rfl, by decide, nofun⟩

def replacedImitation : Value :=
  .object
    [("filter", imitation), ("ids", .list [.var "a", .int "1"]),
      ("filter", .object [("kind", .string "Variable" false), ("variableName", .var "b")])]

theorem substitute_toData_replacedImitation :
    (∀ part ∈ replacedImitation.parts, part.imitatesReference = false) ∧
      (∀ values, replacedImitation.toData.substitute values = replacedImitation.evaluate values) ∧
      replacedImitation.toData.references = ["b", "a"] := by
  have h : ∀ part ∈ replacedImitation.parts, part.imitatesReference = false := by decide
  obtain ⟨hiff, hreferences⟩ := substitute_toData_eq_evaluate_iff replacedImitation
  exact ⟨h, hiff.mpr h, hreferences h⟩

end QueryShape.Source.Value
