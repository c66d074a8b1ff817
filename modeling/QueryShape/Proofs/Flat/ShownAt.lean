import QueryShape.Proofs.Flat.Presence

/-!
# Fields at paths

A field at a path is shown by a node inside of the fields that the path goes through, and is merged
from fields that the document selects. Two trees can be followed along a path step by step if what
one node shows corresponds to what the other one shows, with related nodes inside.
-/

set_option autoImplicit false

namespace QueryShape.Flat

open Typed (SelectionSet Step)

section

variable {schema : Schema} {type : String} {node : Selection} {path : List Step} {field : Field}

theorem Selection.ShowsAt.exists_cons (h : node.ShowsAt schema type path field) :
    ∃ step rest, path = step :: rest := by
  cases h with
  | field => exact ⟨_, _, rfl⟩
  | nested => exact ⟨_, _, rfl⟩

theorem Selection.ShowsAt.responseName {step : Step}
    (h : node.ShowsAt schema type (step :: path) field) : field.responseName = step.key := by
  cases h with
  | field _ hfield | nested _ _ _ hfield => exact responseName_of_fieldFor? hfield

theorem Selection.ShowsAt.unique {other : Field} (h : node.ShowsAt schema type path field)
    (h' : node.ShowsAt schema type path other) : field = other := by
  induction h generalizing other with
  | field htype hfield =>
    cases h' with
    | field _ hother => exact Option.some.inj (hfield.symm.trans hother)
    | nested houter => cases houter
  | nested houter hinner htype hfield ih =>
    cases h' with
    | field => cases houter
    | nested houter' hinner' htype' hother =>
      obtain rfl := ih houter'
      obtain rfl := Option.some.inj (hinner.symm.trans hinner')
      exact Option.some.inj (hfield.symm.trans hother)

theorem MadeOf.exists_members_at {options : Options} {document : Typed.Document}
    (hsound : document.IsSound schema) (hnames : document.HasNames) {pieces : List SelectionSet}
    (h : MadeOf schema options document type pieces node)
    (hshown : node.ShowsAt schema type path field) :
    ∃ members, IsMergedFrom options document members field := by
  induction hshown with
  | field htype hfield =>
    obtain ⟨members, hmembers, _⟩ := h.exists_members hsound hnames htype hfield
    exact ⟨members, hmembers⟩
  | nested _ hinner htype hfield ih =>
    obtain ⟨_, houter⟩ := ih
    obtain ⟨members, hmembers, _⟩ :=
      (houter.madeOf hsound hinner).exists_members hsound hnames htype hfield
    exact ⟨members, hmembers⟩

end

/-- What one of two related nodes shows for a step, the other one shows with the same type, and if
there is a node inside, then related to the node inside of the other. -/
def IsSimulation (schema : Schema) (through : Step → Prop)
    (r : String → Selection → Selection → Prop) : Prop :=
  ∀ type node other, r type node other → ∀ step : Step, step.type ∈ schema.possibleTypes type →
    through step → ∀ field, node.fieldFor? step.type step.key = some field →
      ∃ gained, other.fieldFor? step.type step.key = some gained ∧
        gained.head.type = field.head.type ∧
        ∀ inner, field.selection? = some inner →
          ∃ otherInner, gained.selection? = some otherInner ∧
            r field.head.type.innermost inner otherInner

/-- Where a field is shown at a path, one of two related nodes shows it, and what the other one
shows instead is what the other tree shows at the path. -/
theorem Selection.ShowsAt.exists_related {schema : Schema} {through : Step → Prop}
    {r : String → Selection → Selection → Prop} (hr : IsSimulation schema through r)
    {type : String} {node other : Selection} (hnode : r type node other) {path : List Step}
    {field : Field} (h : node.ShowsAt schema type path field)
    (hpath : ∀ step ∈ path.tail, through step) :
    ∃ step around inner otherInner, path.head? = some step ∧ r around inner otherInner ∧
      step.type ∈ schema.possibleTypes around ∧ inner.fieldFor? step.type step.key = some field ∧
      ∀ gained, otherInner.fieldFor? step.type step.key = some gained →
        other.ShowsAt schema type path gained := by
  induction h with
  | @field step field htype hfield =>
    exact ⟨step, type, node, other, rfl, hnode, htype, hfield, fun _ => .field htype⟩
  | @nested path outer field inner step _ hinner htype hfield ih =>
    obtain ⟨last, around, outerNode, otherNode, hlast, hrelated, hlastType, houter, hshows⟩ :=
      ih fun step hstep => hpath step (List.mem_of_mem_tail hstep)
    obtain ⟨otherOuter, hotherOuter, hsame, hinside⟩ :=
      hr _ _ _ hrelated last hlastType (hpath last (List.mem_of_head? hlast)) outer houter
    obtain ⟨otherInner, hotherInner, hrelatedInner⟩ := hinside inner hinner
    refine ⟨step, _, inner, otherInner, rfl, hrelatedInner, htype, hfield, fun gained hgained => ?_⟩
    exact .nested (hshows otherOuter hotherOuter) hotherInner (hsame ▸ htype) hgained

end QueryShape.Flat
