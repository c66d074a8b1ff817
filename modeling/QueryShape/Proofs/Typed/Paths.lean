import QueryShape.Proofs.Typed.Conditional
import QueryShape.Proofs.Typed.Following

/-!
# Fields at a path

A path into a response names for every object on the way its type and the response key of a field,
from the inside out. A selection set selects a field at a path once for each way to get there, under
the checks of all fields on the way, and the field is included if the checks of one of them hold.
-/

set_option autoImplicit false

namespace QueryShape.Typed

/-- A step into a response: the type of an object and the response key of one of its fields. -/
structure Step where
  type : String
  key : String
  deriving DecidableEq, Repr

namespace Document

section

variable (document : Document)

/-- The selections select the field for the type of the step under its key. -/
def SelectsField (follow : Bool) (selections : List Selection) (step : Step) (member : Selected) :
    Prop :=
  ∃ selected, document.Selects follow step.type [] [step.type] selections selected ∧
    member ∈ selected ∧ member.field.responseKey = step.key

/-- The set selects the field at the path, which lists the last step first. -/
inductive SelectsAt (set : SelectionSet) : List Step → Selected → Prop
  | field {step : Step} {member : Selected}
      (hmember : document.SelectsField true set.selections step member) :
      SelectsAt set [step] member
  | nested {path : List Step} {outer member : Selected} {inner : SelectionSet} {step : Step}
      (houter : SelectsAt set path outer) (hinner : outer.field.selectionSet = some inner)
      (hmember : document.SelectsField true inner.selections step member) :
      SelectsAt set (step :: path) (member.within outer.checks)

/-- For the values of variables the response has a field at the path. -/
def Includes (values : String → Bool) (set : SelectionSet) (path : List Step) : Prop :=
  ∃ member, document.SelectsAt set path member ∧
    ∀ check ∈ member.checks, check.holds values = true

/-- Inside of the field a field is selected without any further check. -/
def SelectsUnchecked (outer : Selected) (step : Step) : Prop :=
  ∃ inner member, outer.field.selectionSet = some inner ∧
    document.SelectsField true inner.selections step member ∧ member.checks = []

end

variable {document : Document} {follow : Bool}

theorem Selects.append {type : String} {checks : List Check} {types : List String}
    {first second : List Selection} {selected others : List Selected}
    (hfirst : document.Selects follow type checks types first selected)
    (hsecond : document.Selects follow type checks types second others) :
    document.Selects follow type checks types (first ++ second) (selected ++ others) := by
  induction hfirst with
  | nil => exact hsecond
  | leaf _ ih => exact .leaf (ih hsecond)
  | composite _ ih => exact .composite (ih hsecond)
  | satisfied htype hinner _ _ ih =>
    rw [List.append_assoc]
    exact .satisfied htype hinner (ih hsecond)
  | unsatisfied htype _ ih => exact .unsatisfied htype (ih hsecond)
  | check hinner _ _ ih =>
    rw [List.append_assoc]
    exact .check hinner (ih hsecond)
  | followed hfollow hfragment htype happlies hinner _ _ ih =>
    rw [List.append_assoc]
    exact .followed hfollow hfragment htype happlies hinner (ih hsecond)
  | passed hpassed _ ih => exact .passed hpassed (ih hsecond)

theorem selectsField_iff {step : Step} {types : List String} {selections : List Selection}
    {selected : List Selected}
    (h : document.Selects follow step.type [] types selections selected)
    (htype : step.type ∈ types) (member : Selected) :
    document.SelectsField follow selections step member ↔
      member ∈ selected ∧ member.field.responseKey = step.key := by
  have hsame : document.Selects follow step.type [] [step.type] selections selected :=
    h.over (by simp [htype])
  constructor
  · rintro ⟨others, hothers, hmember⟩
    rwa [hothers.unique hsame] at hmember
  · exact fun hmember => ⟨selected, hsame, hmember⟩

theorem selectsField_flatMap (hclosed : document.IsClosed)
    (hacyclic : follow = true → document.IsAcyclic) {pieces : List SelectionSet}
    (hdefines : ∀ piece ∈ pieces, document.Defines piece.selections) (step : Step)
    (member : Selected) :
    document.SelectsField follow (pieces.flatMap (·.selections)) step member ↔
      ∃ piece ∈ pieces, document.SelectsField follow piece.selections step member := by
  induction pieces with
  | nil =>
    constructor
    · rintro ⟨_, hselects, hmember, _⟩
      cases hselects
      cases hmember
    · rintro ⟨_, hpiece, _⟩
      cases hpiece
  | cons piece rest ih =>
    obtain ⟨hfirst, hothers⟩ := List.forall_mem_cons.mp hdefines
    have hrest : document.Defines (rest.flatMap (·.selections)) := by
      intro name hname
      obtain ⟨selection, hselection, hname⟩ := Selection.mem_allSpreads.mp hname
      obtain ⟨other, hother, hselection⟩ := List.mem_flatMap.mp hselection
      exact hothers other hother name (Selection.mem_allSpreads.mpr ⟨selection, hselection, hname⟩)
    obtain ⟨own, hown⟩ := exists_selects hclosed hacyclic hfirst step.type [step.type]
    obtain ⟨others, hselects⟩ := exists_selects hclosed hacyclic hrest step.type [step.type]
    have htype : step.type ∈ [step.type] := List.mem_cons_self
    rw [List.flatMap_cons, selectsField_iff (hown.append hselects) htype, List.mem_append,
      or_and_right, ← selectsField_iff hown htype, ← selectsField_iff hselects htype, ih hothers]
    simp

/-- A field is included whenever the field around it is, if and only if it is so for those ways to
the field around it on which it is not selected without any further check. -/
theorem includes_cons_iff {set : SelectionSet} {path : List Step} {step : Step} :
    (∀ values, document.Includes values set path → document.Includes values set (step :: path)) ↔
      ∀ outer, document.SelectsAt set path outer → ¬document.SelectsUnchecked outer step →
        ∀ values, (∀ check ∈ outer.checks, check.holds values = true) →
          document.Includes values set (step :: path) := by
  constructor
  · intro hall outer houter _ values hholds
    exact hall values ⟨outer, houter, hholds⟩
  · rintro hall values ⟨outer, houter, hholds⟩
    by_cases hunchecked : document.SelectsUnchecked outer step
    · obtain ⟨inner, member, hinner, hmember, hnil⟩ := hunchecked
      refine ⟨_, .nested houter hinner hmember, ?_⟩
      simpa [Selected.within, hnil] using hholds
    · exact hall outer houter hunchecked values hholds

end Document

end QueryShape.Typed
