import QueryShape.Proofs.Source.Fragments
import QueryShape.Proofs.Typed.Conditions

/-!
# Collecting response keys

The response keys that a selection set selects for an object type, when the variables have given
values: a selection counts if no directive excludes it, and an inline fragment or a spread only if
the type satisfies its condition. Whether a fragment is entered again where it was spread before in
the same selection set makes no difference to a key, unless the earlier spread was excluded.
-/

set_option autoImplicit false

namespace QueryShape.Source.Document

/-- A response key is collected for the type from selections, after spreads of the fragments seen so
far in their set. Spreads of these count only where fragments may be spread again. -/
inductive Collects (schema : Schema) (document : Document) (values : String → Bool) (type : String)
    (again : Bool) : List String → List Selection → String → Prop
  | field {seen : List String} {aliasName : Option String} {name : String}
      {arguments : List Argument} {directives : List Directive} {inner rest : List Selection}
      (hincluded : Directive.anyExcludes (fun name => some (values name)) directives = false) :
      Collects schema document values type again seen
        (.field aliasName name arguments directives inner :: rest) (aliasName.getD name)
  | inline {seen : List String} {condition : Option String} {directives : List Directive}
      {inner rest : List Selection} {key : String}
      (hincluded : Directive.anyExcludes (fun name => some (values name)) directives = false)
      (htype : ∀ name ∈ condition, type ∈ schema.possibleTypes name)
      (hinner : Collects schema document values type again [] inner key) :
      Collects schema document values type again seen
        (.inlineFragment condition directives inner :: rest) key
  | spread {seen : List String} {name : String} {directives : List Directive}
      {rest : List Selection} {fragment : Fragment} {key : String}
      (hcounts : again = true ∨ name ∉ seen)
      (hincluded : Directive.anyExcludes (fun name => some (values name)) directives = false)
      (hfragment : document.fragment? name = some fragment)
      (htype : type ∈ schema.possibleTypes fragment.typeCondition)
      (hinner : Collects schema document values type again [] fragment.selections key) :
      Collects schema document values type again seen (.fragmentSpread name directives :: rest) key
  | later {seen : List String} {selection : Selection} {rest : List Selection} {key : String}
      (hrest : Collects schema document values type again (selection.seenAfter seen) rest key) :
      Collects schema document values type again seen (selection :: rest) key

namespace Collects

variable {schema : Schema} {document : Document} {values : String → Bool} {type : String}

section

variable {again : Bool} {seen : List String} {directives : List Directive}
  {rest : List Selection} {key : String}

theorem field_cons_iff {aliasName : Option String} {name : String} {arguments : List Argument}
    {inner : List Selection} :
    Collects schema document values type again seen
        (.field aliasName name arguments directives inner :: rest) key ↔
      Directive.anyExcludes (fun name => some (values name)) directives = false ∧
          aliasName.getD name = key ∨
        Collects schema document values type again seen rest key := by
  constructor
  · intro h
    cases h with
    | field hincluded => exact Or.inl ⟨hincluded, rfl⟩
    | later hrest => exact Or.inr hrest
  · rintro (⟨hincluded, rfl⟩ | hrest)
    · exact .field hincluded
    · exact .later hrest

theorem inline_cons_iff {condition : Option String} {inner : List Selection} :
    Collects schema document values type again seen
        (.inlineFragment condition directives inner :: rest) key ↔
      Directive.anyExcludes (fun name => some (values name)) directives = false ∧
          (∀ name ∈ condition, type ∈ schema.possibleTypes name) ∧
          Collects schema document values type again [] inner key ∨
        Collects schema document values type again seen rest key := by
  constructor
  · intro h
    cases h with
    | inline hincluded htype hinner => exact Or.inl ⟨hincluded, htype, hinner⟩
    | later hrest => exact Or.inr hrest
  · rintro (⟨hincluded, htype, hinner⟩ | hrest)
    · exact .inline hincluded htype hinner
    · exact .later hrest

theorem spread_cons_iff {name : String} :
    Collects schema document values type again seen (.fragmentSpread name directives :: rest) key ↔
      (again = true ∨ name ∉ seen) ∧
          Directive.anyExcludes (fun name => some (values name)) directives = false ∧
          (∃ fragment, document.fragment? name = some fragment ∧
            type ∈ schema.possibleTypes fragment.typeCondition ∧
            Collects schema document values type again [] fragment.selections key) ∨
        Collects schema document values type again (seen.insert name) rest key := by
  constructor
  · intro h
    cases h with
    | spread hcounts hincluded hfragment htype hinner =>
      exact Or.inl ⟨hcounts, hincluded, _, hfragment, htype, hinner⟩
    | later hrest => exact Or.inr hrest
  · rintro (⟨hcounts, hincluded, fragment, hfragment, htype, hinner⟩ | hrest)
    · exact .spread hcounts hincluded hfragment htype hinner
    · exact .later hrest

theorem excluded_cons_iff {selection : Selection}
    (hexcluded :
      Directive.anyExcludes (fun name => some (values name)) selection.directives = true) :
    Collects schema document values type again seen (selection :: rest) key ↔
      Collects schema document values type again (selection.seenAfter seen) rest key := by
  constructor
  · intro h
    cases h with
    | field hincluded => simp_all [Selection.directives]
    | inline hincluded htype hinner => simp_all [Selection.directives]
    | spread hcounts hincluded hfragment htype hinner => simp_all [Selection.directives]
    | later hrest => exact hrest
  · exact .later

end

theorem spreadAgain {seen others : List String} {selections : List Selection} {key : String}
    (h : Collects schema document values type false seen selections key) :
    Collects schema document values type true others selections key := by
  induction h generalizing others with
  | field hincluded => exact .field hincluded
  | inline hincluded htype _ ih => exact .inline hincluded htype ih
  | spread _ hincluded hfragment htype _ ih =>
    exact .spread (Or.inl rfl) hincluded hfragment htype ih
  | later _ ih => exact .later ih

end Collects

end QueryShape.Source.Document
