import QueryShape.Proofs.Source.Selections
import QueryShape.Typed.OfSource

/-!
# Conditions of selections

The directives `@skip` and `@include` exclude a selection for some values of variables. Those with a
literal do so for all values or for none, and typing decides them; those with a variable become
checks, which hold for the values for which no directive excludes the selection.
-/

set_option autoImplicit false

namespace QueryShape.Source

namespace Directive

def condition (value? : String → Option Bool) (directive : Directive) : Option Bool :=
  match Typed.argumentValue? directive "if" with
  | some (.boolean value) => some value
  | some (.var name) => value? name
  | _ => none

/-- Whether the directive excludes its selection, as far as the values of variables are known. -/
def excludes (value? : String → Option Bool) (directive : Directive) : Bool :=
  (directive.name == "skip" && directive.condition value? == some true) ||
    (directive.name == "include" && directive.condition value? == some false)

end Directive

def Directive.anyExcludes (value? : String → Option Bool) (directives : List Directive) : Bool :=
  directives.any (·.excludes value?)

theorem Directive.anyExcludes_of_literal {directives : List Directive}
    (h : anyExcludes (fun _ => none) directives = true) (value? : String → Option Bool) :
    anyExcludes value? directives = true := by
  obtain ⟨directive, hmem, hexcludes⟩ := List.any_eq_true.mp h
  refine List.any_eq_true.mpr ⟨directive, hmem, ?_⟩
  simp only [excludes, condition] at hexcludes ⊢
  split at hexcludes <;> simp_all

end QueryShape.Source

namespace QueryShape.Typed

/-- Whether a check holds for the values of variables. -/
def Check.holds (values : String → Bool) (check : Check) : Bool :=
  values check.variableName != check.inverted

/-- The checks that directives leave to variables, none at all if a literal excludes the selection.
-/
def checksOf? : List Source.Directive → Option (List Check)
  | [] => some []
  | directive :: rest =>
    match conditionPolarity? directive.name with
    | none => checksOf? rest
    | some inverted =>
      match argumentValue? directive "if" with
      | some (.boolean value) => if value = inverted then none else checksOf? rest
      | some (.var name) => (checksOf? rest).map (⟨name, inverted⟩ :: ·)
      | _ => checksOf? rest

def Selection.under (types : List String) (checks : List Check) (selection : Selection) :
    Selection :=
  checks.foldl (fun inner check => .booleanCondition check types [inner]) selection

/-- Whether directives can be decided does not depend on the selection. -/
theorem underDirectives_of_eq_ok {types : List String} {directives : List Source.Directive}
    {selection : Selection} {kept : Option Selection}
    (h : underDirectives types directives selection = .ok kept) (other : Selection) :
    underDirectives types directives other =
      .ok ((checksOf? directives).map fun checks => other.under types checks) := by
  induction directives generalizing selection other with
  | nil => rfl
  | cons directive rest ih =>
    rw [underDirectives] at h ⊢
    rw [checksOf?]
    cases hpolarity : conditionPolarity? directive.name with
    | none =>
      rw [hpolarity] at h
      exact ih h other
    | some inverted =>
      rw [hpolarity] at h
      cases hvalue : argumentValue? directive "if" with
      | none => simp [hvalue] at h
      | some value =>
        cases value with
        | boolean decided =>
          simp only [hvalue] at h ⊢
          by_cases hexcluded : decided = inverted
          · rw [if_pos hexcluded, if_pos hexcluded]
            rfl
          · rw [if_neg hexcluded] at h
            rw [if_neg hexcluded, if_neg hexcluded]
            exact ih h other
        | var name =>
          simp only [hvalue] at h ⊢
          rw [ih h, Option.map_map]
          rfl
        | int _ | float _ | string _ _ | null | enum _ | list _ | object _ => simp [hvalue] at h

theorem eq_of_underDirectives {types : List String} {directives : List Source.Directive}
    {selection : Selection} {kept : Option Selection}
    (h : underDirectives types directives selection = .ok kept) :
    kept = (checksOf? directives).map fun checks => selection.under types checks :=
  Except.ok.inj (h.symm.trans (underDirectives_of_eq_ok h selection))

theorem excludes_eq (value? : String → Option Bool) (directive : Source.Directive) :
    directive.excludes value? =
      (conditionPolarity? directive.name).any (directive.condition value? == some ·) := by
  rw [Source.Directive.excludes, conditionPolarity?]
  by_cases hskip : directive.name = "skip"
  · simp [hskip]
  · by_cases hinclude : directive.name = "include"
    · simp [hinclude]
    · simp [hskip, hinclude]

theorem checksOf?_eq_none {directives : List Source.Directive} :
    checksOf? directives = none ↔
      Source.Directive.anyExcludes (fun _ => none) directives = true := by
  rw [Source.Directive.anyExcludes]
  induction directives with
  | nil => simp [checksOf?]
  | cons directive rest ih =>
    rw [checksOf?, List.any_cons, excludes_eq, Source.Directive.condition]
    cases conditionPolarity? directive.name with
    | none => simpa using ih
    | some inverted =>
      cases argumentValue? directive "if" with
      | none => simpa using ih
      | some value =>
        cases value with
        | boolean decided => by_cases h : decided = inverted <;> simp [h, ih]
        | var name => simpa using ih
        | int _ | float _ | string _ _ | null | enum _ | list _ | object _ => simpa using ih

theorem all_holds_iff {directives : List Source.Directive} {checks : List Check}
    (h : checksOf? directives = some checks) (values : String → Bool) :
    (∀ check ∈ checks, check.holds values = true) ↔
      Source.Directive.anyExcludes (fun name => some (values name)) directives = false := by
  rw [Source.Directive.anyExcludes]
  induction directives generalizing checks with
  | nil =>
    cases h
    simp
  | cons directive rest ih =>
    rw [checksOf?] at h
    rw [List.any_cons, excludes_eq, Source.Directive.condition]
    cases hpolarity : conditionPolarity? directive.name with
    | none =>
      rw [hpolarity] at h
      simpa using ih h
    | some inverted =>
      rw [hpolarity] at h
      cases hvalue : argumentValue? directive "if" with
      | none =>
        rw [hvalue] at h
        simpa using ih h
      | some value =>
        rw [hvalue] at h
        cases value with
        | boolean decided =>
          obtain ⟨hne, hrest⟩ := Option.ite_none_left_eq_some.mp h
          simpa [hne] using ih hrest
        | var name =>
          obtain ⟨others, hrest, rfl⟩ := Option.map_eq_some_iff.mp h
          rw [List.forall_mem_cons, ih hrest]
          simp [Check.holds]
        | int _ | float _ | string _ _ | null | enum _ | list _ | object _ => simpa using ih h

theorem checksOf?_ne_none {directives : List Source.Directive} {values : String → Bool}
    (h : Source.Directive.anyExcludes (fun name => some (values name)) directives = false) :
    checksOf? directives ≠ none := by
  intro hnone
  rw [Source.Directive.anyExcludes_of_literal (checksOf?_eq_none.mp hnone)] at h
  cases h

end QueryShape.Typed
