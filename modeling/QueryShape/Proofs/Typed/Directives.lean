import Mathlib.Data.List.Induction
import QueryShape.Proofs.Typed.Conditions

/-!
# What directives make of a selection

The first directive that excludes a selection by a literal, or that has no condition it could decide
by, settles what becomes of the selection. If there is none, the selection stands under the checks
of the variables that the directives name, and it is reached for those values for which every
directive allows it, in whatever order they are written.
-/

set_option autoImplicit false

namespace QueryShape.Source.Directive

/-- Whether the directive decides about its selection but has neither a truth value nor a variable
to do so by. -/
def isMalformed (directive : Directive) : Bool :=
  (Typed.conditionPolarity? directive.name).isSome &&
    match Typed.argumentValue? directive "if" with
    | some (.boolean _) | some (.var _) => false
    | _ => true

def excludesAlways (directive : Directive) : Bool :=
  directive.excludes fun _ => none

def check? (directive : Directive) : Option Typed.Check :=
  (Typed.conditionPolarity? directive.name).bind fun inverted =>
    match Typed.argumentValue? directive "if" with
    | some (.var name) => some ⟨name, inverted⟩
    | _ => none

def settles (directive : Directive) : Bool :=
  directive.excludesAlways || directive.isMalformed

def ComesBefore (first second : Directive → Bool) (directives : List Directive) : Prop :=
  ∃ earlier directive later, directives = earlier ++ directive :: later ∧
    first directive = true ∧ ∀ other ∈ earlier, second other = false

theorem comesBefore_iff {first second : Directive → Bool}
    (h : ∀ directive, settles directive = (first directive || second directive))
    {directives : List Directive} :
    ComesBefore first second directives ↔
      ∃ directive, directives.find? settles = some directive ∧ first directive = true := by
  constructor
  · rintro ⟨earlier, directive, later, rfl, hfirst, hearlier⟩
    -- One of the earlier directives may have the first property as well.
    rw [List.find?_append]
    cases hfind : earlier.find? settles with
    | none => exact ⟨directive, by simp [h, hfirst], hfirst⟩
    | some other =>
      have hother := List.find?_some hfind
      rw [h, hearlier other (List.mem_of_find?_eq_some hfind), Bool.or_false] at hother
      exact ⟨other, rfl, hother⟩
  · rintro ⟨directive, hfind, hfirst⟩
    obtain ⟨-, earlier, later, rfl, hearlier⟩ := List.find?_eq_some_iff_append.mp hfind
    refine ⟨earlier, directive, later, rfl, hfirst, fun other hother => ?_⟩
    have hopen := hearlier other hother
    rw [h, Bool.not_eq_true', Bool.or_eq_false_iff] at hopen
    exact hopen.2

theorem isMalformed_of_excludesAlways {directive : Directive}
    (h : directive.excludesAlways = true) : directive.isMalformed = false := by
  rw [excludesAlways, Typed.excludes_eq, condition] at h
  rw [isMalformed]
  split at h <;> simp_all

end QueryShape.Source.Directive

namespace QueryShape.Typed

open Source (Directive)

section

variable {directive : Directive} (types : List String) (rest : List Directive)
  (selection : Selection)

theorem underDirectives_of_excludesAlways (h : directive.excludesAlways = true) :
    underDirectives types (directive :: rest) selection = .ok none := by
  rw [Directive.excludesAlways, excludes_eq, Option.any_eq_true] at h
  obtain ⟨inverted, hpolarity, hcondition⟩ := h
  rw [Directive.condition] at hcondition
  rw [underDirectives, hpolarity]
  split at hcondition <;> simp_all

theorem underDirectives_of_isMalformed (h : directive.isMalformed = true) :
    underDirectives types (directive :: rest) selection =
      .error (.malformedCondition directive) := by
  rw [Directive.isMalformed, Bool.and_eq_true, Option.isSome_iff_exists] at h
  obtain ⟨⟨inverted, hpolarity⟩, hvalue⟩ := h
  rw [underDirectives, hpolarity]
  split at hvalue <;> simp_all

theorem underDirectives_of_open (hexcludes : directive.excludesAlways = false)
    (hmalformed : directive.isMalformed = false) :
    underDirectives types (directive :: rest) selection =
      underDirectives types rest (selection.under types directive.check?.toList) := by
  rw [Directive.excludesAlways, excludes_eq, Directive.condition] at hexcludes
  rw [Directive.isMalformed] at hmalformed
  rw [underDirectives, Directive.check?]
  cases hpolarity : conditionPolarity? directive.name with
  | none => rfl
  | some inverted =>
    rw [hpolarity] at hexcludes hmalformed
    split at hmalformed <;> simp_all [Selection.under]

end

theorem underDirectives_eq (types : List String) (directives : List Directive)
    (selection : Selection) :
    underDirectives types directives selection =
      match directives.find? Directive.settles with
      | none => .ok (some (selection.under types (directives.filterMap Directive.check?)))
      | some directive =>
        if directive.excludesAlways then .ok none
        else .error (.malformedCondition directive) := by
  induction directives generalizing selection with
  | nil => rfl
  | cons directive rest ih =>
    cases hexcludes : directive.excludesAlways with
    | true => simp [underDirectives_of_excludesAlways, Directive.settles, hexcludes]
    | false =>
      cases hmalformed : directive.isMalformed with
      | true =>
        simp [underDirectives_of_isMalformed, Directive.settles, hexcludes, hmalformed]
      | false =>
        have hchecks : (directive :: rest).filterMap Directive.check? =
            directive.check?.toList ++ rest.filterMap Directive.check? := by
          cases hcheck : directive.check? <;> simp [hcheck]
        rw [underDirectives_of_open types rest selection hexcludes hmalformed, ih, hchecks,
          List.find?_cons_of_neg (by simp [Directive.settles, hexcludes, hmalformed])]
        simp only [Selection.under, List.foldl_append]

section

variable {types : List String} {directives : List Directive} {selection : Selection}

theorem underDirectives_eq_none :
    underDirectives types directives selection = .ok none ↔
      Directive.ComesBefore Directive.excludesAlways Directive.isMalformed directives := by
  rw [Directive.comesBefore_iff fun _ => rfl, underDirectives_eq]
  cases directives.find? Directive.settles with
  | none => simp
  | some directive => cases hexcludes : directive.excludesAlways <;> simp [hexcludes]

theorem exists_underDirectives_eq_error :
    (∃ error, underDirectives types directives selection = .error error) ↔
      Directive.ComesBefore Directive.isMalformed Directive.excludesAlways directives := by
  rw [Directive.comesBefore_iff fun _ => Bool.or_comm _ _, underDirectives_eq]
  cases hfind : directives.find? Directive.settles with
  | none => simp
  | some directive =>
    have hsettles := List.find?_some hfind
    cases hexcludes : directive.excludesAlways with
    | true => simp [hexcludes, Directive.isMalformed_of_excludesAlways hexcludes]
    | false =>
      rw [Directive.settles, hexcludes, Bool.false_or] at hsettles
      simp [hexcludes, hsettles]

theorem exists_malformed_of_underDirectives {error : TypingError}
    (h : underDirectives types directives selection = .error error) :
    ∃ directive ∈ directives, directive.isMalformed = true ∧
      error = .malformedCondition directive := by
  rw [underDirectives_eq] at h
  cases hfind : directives.find? Directive.settles with
  | none => simp [hfind] at h
  | some directive =>
    have hsettles := List.find?_some hfind
    cases hexcludes : directive.excludesAlways with
    | true => simp [hfind, hexcludes] at h
    | false =>
      rw [Directive.settles, hexcludes, Bool.false_or] at hsettles
      simp only [hfind, hexcludes, Bool.false_eq_true, if_false, Except.error.injEq] at h
      exact ⟨directive, List.mem_of_find?_eq_some hfind, hsettles, h.symm⟩

theorem ne_error_of_formed (h : ∀ directive ∈ directives, directive.isMalformed = false)
    (error : TypingError) : underDirectives types directives selection ≠ .error error := by
  intro herror
  obtain ⟨directive, hdirective, hmalformed, -⟩ := exists_malformed_of_underDirectives herror
  rw [h directive hdirective] at hmalformed
  cases hmalformed

theorem underDirectives_eq_some {kept : Selection} :
    underDirectives types directives selection = .ok (some kept) ↔
      (∀ directive ∈ directives,
        directive.excludesAlways = false ∧ directive.isMalformed = false) ∧
      kept = selection.under types (directives.filterMap Directive.check?) := by
  have hopen : (∀ directive ∈ directives,
      directive.excludesAlways = false ∧ directive.isMalformed = false) ↔
      directives.find? Directive.settles = none := by
    simp [Directive.settles]
  rw [hopen, underDirectives_eq]
  cases directives.find? Directive.settles with
  | none => simp [eq_comm]
  | some directive => cases hexcludes : directive.excludesAlways <;> simp [hexcludes]

end

namespace Selection

/-- The other selection is reached inside of the selection, through checks that hold. -/
inductive Reaches (values : String → Bool) : Selection → Selection → Prop
  | refl (selection : Selection) : Reaches values selection selection
  | check {check : Check} {types : List String} {inner : List Selection} {next target : Selection}
      (hholds : check.holds values = true) (hnext : next ∈ inner)
      (hrest : Reaches values next target) :
      Reaches values (.booleanCondition check types inner) target

def IsReachedUnder (types : List String) (directives : List Directive) (values : String → Bool)
    (selection : Selection) : Prop :=
  ∃ kept, underDirectives types directives selection = .ok (some kept) ∧
    kept.Reaches values selection

theorem under_append_singleton (types : List String) (checks : List Check) (check : Check)
    (selection : Selection) :
    selection.under types (checks ++ [check]) =
      .booleanCondition check types [selection.under types checks] := by
  simp [under, List.foldl_append]

theorem sizeOf_le_under (types : List String) (checks : List Check) (selection : Selection) :
    sizeOf selection ≤ sizeOf (selection.under types checks) := by
  induction checks using List.reverseRecOn with
  | nil => exact Nat.le_refl _
  | append_singleton checks check ih =>
    simp only [under_append_singleton, booleanCondition.sizeOf_spec, List.cons.sizeOf_spec]
    omega

theorem reaches_booleanCondition_iff {values : String → Bool} {check : Check} {types : List String}
    {inner target : Selection} (hne : sizeOf target ≤ sizeOf inner) :
    (booleanCondition check types [inner]).Reaches values target ↔
      check.holds values = true ∧ inner.Reaches values target := by
  constructor
  · generalize hselection : booleanCondition check types [inner] = selection
    rintro (_ | ⟨hholds, hnext, hrest⟩)
    · rw [← hselection, booleanCondition.sizeOf_spec, List.cons.sizeOf_spec] at hne
      omega
    · cases hselection
      rw [List.mem_singleton.mp hnext] at hrest
      exact ⟨hholds, hrest⟩
  · rintro ⟨hholds, hinner⟩
    exact .check hholds (List.mem_singleton.mpr rfl) hinner

theorem reaches_under_iff {values : String → Bool} {types : List String} {checks : List Check}
    {selection : Selection} :
    (selection.under types checks).Reaches values selection ↔
      ∀ check ∈ checks, check.holds values = true := by
  induction checks using List.reverseRecOn with
  | nil => simpa [under] using Reaches.refl selection
  | append_singleton checks check ih =>
    rw [under_append_singleton, reaches_booleanCondition_iff (sizeOf_le_under types checks _), ih,
      List.forall_mem_append, List.forall_mem_singleton, and_comm]

theorem isReachedUnder_iff {types : List String} {directives : List Directive}
    {values : String → Bool} {selection : Selection}
    (h : ∀ error, underDirectives types directives selection ≠ .error error) :
    selection.IsReachedUnder types directives values ↔
      ∀ directive ∈ directives, directive.excludes (fun name => some (values name)) = false := by
  have hany : (∀ directive ∈ directives,
      directive.excludes (fun name => some (values name)) = false) ↔
      Directive.anyExcludes (fun name => some (values name)) directives = false := by
    simp [Directive.anyExcludes]
  cases hkept : underDirectives types directives selection with
  | error error => exact absurd hkept (h error)
  | ok kept =>
    rw [hany, IsReachedUnder, hkept]
    have heq := eq_of_underDirectives hkept
    cases hchecks : checksOf? directives with
    | none =>
      have hexcluded := Directive.anyExcludes_of_literal (checksOf?_eq_none.mp hchecks)
        fun name => some (values name)
      simp [heq, hchecks, hexcluded]
    | some checks =>
      rw [← all_holds_iff hchecks values, heq, hchecks]
      simp [reaches_under_iff]

end Selection

/-- A selection is dropped exactly if a literal excludes it before any directive that is malformed,
and there is an error exactly if one of those comes before any that excludes it by a literal. Else
it is kept under the checks of its directives, the last one outermost, and in each case without an
error it is reached for the values that every directive allows, in any order of the directives. -/
theorem underDirectives_conjunction (types : List String) (directives : List Directive)
    (selection : Selection) :
    (underDirectives types directives selection = .ok none ↔
        Directive.ComesBefore Directive.excludesAlways Directive.isMalformed directives) ∧
      ((∃ error, underDirectives types directives selection = .error error) ↔
        Directive.ComesBefore Directive.isMalformed Directive.excludesAlways directives) ∧
      (∀ error, underDirectives types directives selection = .error error →
        ∃ directive ∈ directives, directive.isMalformed = true ∧
          error = .malformedCondition directive) ∧
      (∀ kept, underDirectives types directives selection = .ok (some kept) ↔
        (∀ directive ∈ directives,
          directive.excludesAlways = false ∧ directive.isMalformed = false) ∧
        kept = selection.under types (directives.filterMap Directive.check?)) ∧
      (∀ values, (∀ error, underDirectives types directives selection ≠ .error error) →
        (selection.IsReachedUnder types directives values ↔ ∀ directive ∈ directives,
          directive.excludes (fun name => some (values name)) = false)) ∧
      ∀ others, directives.Perm others → (∀ directive ∈ directives, directive.isMalformed = false) →
        ∀ values, selection.IsReachedUnder types directives values ↔
          selection.IsReachedUnder types others values := by
  refine ⟨underDirectives_eq_none, exists_underDirectives_eq_error,
    fun error => exists_malformed_of_underDirectives, fun kept => underDirectives_eq_some,
    fun values => Selection.isReachedUnder_iff, fun others hperm hformed values => ?_⟩
  have hothers : ∀ directive ∈ others, directive.isMalformed = false :=
    fun directive hdirective => hformed directive (hperm.mem_iff.mpr hdirective)
  rw [Selection.isReachedUnder_iff (ne_error_of_formed hformed),
    Selection.isReachedUnder_iff (ne_error_of_formed hothers)]
  exact forall_congr' fun directive => imp_congr_left hperm.mem_iff

/-- The directives `@include(if: $c) @tag @skip(if: $d) @skip(if: false)`. -/
def includedAndSkipped : List Directive :=
  [⟨"include", [⟨"if", .var "c"⟩]⟩, ⟨"tag", []⟩, ⟨"skip", [⟨"if", .var "d"⟩]⟩,
    ⟨"skip", [⟨"if", .boolean false⟩]⟩]

theorem underDirectives_conjunction_includedAndSkipped :
    (∀ directive ∈ includedAndSkipped, directive.isMalformed = false) ∧
      underDirectives ["Dog"] includedAndSkipped (.fragmentSpread "All") =
        .ok (some (.booleanCondition ⟨"d", true⟩ ["Dog"]
          [.booleanCondition ⟨"c", false⟩ ["Dog"] [.fragmentSpread "All"]])) ∧
      (∀ values, (Selection.fragmentSpread "All").IsReachedUnder ["Dog"] includedAndSkipped values ↔
        ∀ directive ∈ includedAndSkipped,
          directive.excludes (fun name => some (values name)) = false) ∧
      (∀ values, (Selection.fragmentSpread "All").IsReachedUnder ["Dog"] includedAndSkipped values ↔
        (Selection.fragmentSpread "All").IsReachedUnder ["Dog"] includedAndSkipped.reverse values) ∧
      ∃ directive ∈ ⟨"skip", []⟩ :: includedAndSkipped, directive.isMalformed = true := by
  obtain ⟨-, -, -, hkept, hreached, hperm⟩ :=
    underDirectives_conjunction ["Dog"] includedAndSkipped (.fragmentSpread "All")
  obtain ⟨-, -, hmalformed, -⟩ :=
    underDirectives_conjunction ["Dog"] (⟨"skip", []⟩ :: includedAndSkipped) (.fragmentSpread "All")
  have hformed : ∀ directive ∈ includedAndSkipped, directive.isMalformed = false := by decide
  have hok := (hkept _).mpr ⟨by decide, rfl⟩
  refine ⟨hformed, hok, fun values => hreached values fun error herror => ?_,
    hperm _ (List.reverse_perm _).symm hformed, ?_⟩
  · rw [hok] at herror
    cases herror
  · obtain ⟨directive, hdirective, hmalformed, -⟩ := hmalformed _ rfl
    exact ⟨directive, hdirective, hmalformed⟩

end QueryShape.Typed
