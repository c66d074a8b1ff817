import QueryShape.Proofs.Matched
import QueryShape.Proofs.Typed.Inlining
import QueryShape.Proofs.Typed.Spreads

/-!
# Selections in another order

Selections can be put in another order, also inside conditions and below fields. Then the same
fields and spreads occur for the same types, in another order, whether spreads are replaced by what
they stand for or not.
-/

set_option autoImplicit false

namespace QueryShape.Typed

/-- The other list has the selections in another order, and so do the lists inside of conditions and
composite fields. -/
inductive Selection.Rearranges : List Selection → List Selection → Prop
  | nil : Rearranges [] []
  | leaf (head : FieldHead) {rest others : List Selection} (hrest : Rearranges rest others) :
      Rearranges (.leaf head :: rest) (.leaf head :: others)
  | composite (head : FieldHead) (types : List String)
      {nested otherNested rest others : List Selection} (hnested : Rearranges nested otherNested)
      (hrest : Rearranges rest others) :
      Rearranges (.composite head types nested :: rest)
        (.composite head types otherNested :: others)
  | typeCondition (condition : String) (narrowed : List String)
      {inner otherInner rest others : List Selection} (hinner : Rearranges inner otherInner)
      (hrest : Rearranges rest others) :
      Rearranges (.typeCondition condition narrowed inner :: rest)
        (.typeCondition condition narrowed otherInner :: others)
  | booleanCondition (check : Check) (types : List String)
      {inner otherInner rest others : List Selection} (hinner : Rearranges inner otherInner)
      (hrest : Rearranges rest others) :
      Rearranges (.booleanCondition check types inner :: rest)
        (.booleanCondition check types otherInner :: others)
  | fragmentSpread (name : String) {rest others : List Selection} (hrest : Rearranges rest others) :
      Rearranges (.fragmentSpread name :: rest) (.fragmentSpread name :: others)
  | swap (first second : Selection) (rest : List Selection) :
      Rearranges (first :: second :: rest) (second :: first :: rest)
  | trans {first second third : List Selection} (hfirst : Rearranges first second)
      (hsecond : Rearranges second third) : Rearranges first third

structure SelectionSet.Rearranges (set other : SelectionSet) : Prop where
  possibleTypes : other.possibleTypes = set.possibleTypes
  selections : Selection.Rearranges set.selections other.selections

structure Field.Rearranges (field other : Field) : Prop where
  head : other.head = { field.head with conditions := other.head.conditions }
  conditions : field.head.conditions.Perm other.head.conditions
  selectionSet : Option.Rel SelectionSet.Rearranges field.selectionSet other.selectionSet

inductive Occurrence.Rearranges : Occurrence → Occurrence → Prop
  | field {field other : Field} (types : List String) (h : field.Rearranges other) :
      Rearranges (.field field types) (.field other types)
  | spread (name : String) (types : List String) :
      Rearranges (.spread name types) (.spread name types)

namespace Selection.Rearranges

theorem refl (selections : List Selection) : Rearranges selections selections := by
  induction selections using Selection.listInduction with
  | nil => exact .nil
  | leaf head rest ih => exact .leaf head ih
  | composite head types nested rest ihNested ih => exact .composite head types ihNested ih
  | typeCondition condition narrowed inner rest ihInner ih =>
    exact .typeCondition condition narrowed ihInner ih
  | booleanCondition check types inner rest ihInner ih =>
    exact .booleanCondition check types ihInner ih
  | fragmentSpread name rest ih => exact .fragmentSpread name ih

theorem cons (selection : Selection) {rest others : List Selection} (h : Rearranges rest others) :
    Rearranges (selection :: rest) (selection :: others) := by
  cases selection with
  | leaf head => exact .leaf head h
  | composite head types nested => exact .composite head types (.refl nested) h
  | typeCondition condition narrowed inner =>
    exact .typeCondition condition narrowed (.refl inner) h
  | booleanCondition check types inner => exact .booleanCondition check types (.refl inner) h
  | fragmentSpread name => exact .fragmentSpread name h

theorem of_perm {selections others : List Selection} (h : selections.Perm others) :
    Rearranges selections others := by
  induction h with
  | nil => exact .nil
  | cons selection _ ih => exact .cons selection ih
  | swap first second rest => exact .swap second first rest
  | trans _ _ ihFirst ihSecond => exact .trans ihFirst ihSecond

theorem append_left (first : List Selection) {rest others : List Selection}
    (h : Rearranges rest others) : Rearranges (first ++ rest) (first ++ others) := by
  induction first with
  | nil => exact h
  | cons selection first ih => exact .cons selection ih

theorem append {first second rest others : List Selection} (h : Rearranges first second)
    (hrest : Rearranges rest others) : Rearranges (first ++ rest) (second ++ others) := by
  have hfirst : Rearranges (first ++ rest) (second ++ rest) := by
    clear hrest
    induction h with
    | nil => exact .refl rest
    | leaf head _ ih => exact .leaf head ih
    | composite head types hnested _ _ ih => exact .composite head types hnested ih
    | typeCondition condition narrowed hinner _ _ ih =>
      exact .typeCondition condition narrowed hinner ih
    | booleanCondition check types hinner _ _ ih => exact .booleanCondition check types hinner ih
    | fragmentSpread name _ ih => exact .fragmentSpread name ih
    | swap first second others => exact .swap first second (others ++ rest)
    | trans _ _ ihFirst ihSecond => exact .trans ihFirst ihSecond
  exact .trans hfirst (append_left second hrest)

theorem mem_allSpreads {selections others : List Selection} (h : Rearranges selections others)
    (name : String) : name ∈ allSpreads others ↔ name ∈ allSpreads selections := by
  induction h with
  | nil => rfl
  | leaf head _ ih => exact ih
  | composite head types _ _ ihNested ih =>
    simp only [allSpreads, spreads, List.mem_append, ihNested, ih]
  | typeCondition condition narrowed _ _ ihInner ih =>
    simp only [allSpreads, spreads, List.mem_append, ihInner, ih]
  | booleanCondition check types _ _ ihInner ih =>
    simp only [allSpreads, spreads, List.mem_append, ihInner, ih]
  | fragmentSpread name _ ih => simp only [allSpreads, List.mem_append, ih]
  | swap first second rest => simp only [allSpreads, List.mem_append, or_left_comm]
  | trans _ _ ihFirst ihSecond => rw [ihSecond, ihFirst]

end Selection.Rearranges

namespace SelectionSet.Rearranges

theorem refl (set : SelectionSet) : set.Rearranges set :=
  ⟨rfl, .refl set.selections⟩

theorem trans {set other third : SelectionSet} (h : set.Rearranges other)
    (h' : other.Rearranges third) : set.Rearranges third :=
  ⟨h'.possibleTypes.trans h.possibleTypes, .trans h.selections h'.selections⟩

end SelectionSet.Rearranges

namespace Field.Rearranges

variable {field other : Field}

theorem of_selectionSet {head : FieldHead} {set otherSet : Option SelectionSet}
    (h : Option.Rel SelectionSet.Rearranges set otherSet) :
    (⟨head, set⟩ : Field).Rearranges ⟨head, otherSet⟩ :=
  ⟨rfl, .refl _, h⟩

theorem refl (field : Field) : field.Rearranges field := by
  apply of_selectionSet
  cases field.selectionSet with
  | none => exact .none
  | some set => exact .some (.refl set)

theorem trans {third : Field} (h : field.Rearranges other) (h' : other.Rearranges third) :
    field.Rearranges third where
  head := by
    rw [h'.head, h.head]
  conditions := h.conditions.trans h'.conditions
  selectionSet := by
    have hfirst := h.selectionSet
    have hsecond := h'.selectionSet
    generalize field.selectionSet = first, other.selectionSet = second,
      third.selectionSet = last at hfirst hsecond ⊢
    cases hfirst with
    | none =>
      cases hsecond
      exact .none
    | some hfirst =>
      cases hsecond with
      | some hsecond => exact .some (hfirst.trans hsecond)

variable (h : field.Rearranges other)
include h

theorem responseKey_eq : other.responseKey = field.responseKey := by
  rw [Field.responseKey, h.head]
  rfl

theorem isConditional_eq : other.head.isConditional = field.head.isConditional := by
  rw [h.head]

theorem nested : Selection.Rearranges field.nested other.nested := by
  have hset := h.selectionSet
  rw [Field.nested, Field.nested]
  generalize field.selectionSet = set, other.selectionSet = otherSet at hset ⊢
  cases hset with
  | none => exact .nil
  | some hset => exact hset.selections

theorem isRegular (hregular : field.head.IsRegular) : other.head.IsRegular where
  nodup := h.conditions.nodup_iff.mp hregular.nodup
  eq_nil hconditional := by
    have hnil := hregular.eq_nil (h.isConditional_eq ▸ hconditional)
    exact (hnil ▸ h.conditions).nil_eq.symm

end Field.Rearranges

namespace Occurrence.Rearranges

theorem refl (occurrence : Occurrence) : occurrence.Rearranges occurrence := by
  cases occurrence with
  | field field types => exact .field types (.refl field)
  | spread name types => exact .spread name types

theorem trans {occurrence other third : Occurrence} (h : occurrence.Rearranges other)
    (h' : other.Rearranges third) : occurrence.Rearranges third := by
  cases h with
  | field types h =>
    cases h' with
    | field _ h' => exact .field types (h.trans h')
  | spread name types => exact h'

theorem types_eq {occurrence other : Occurrence} (h : occurrence.Rearranges other) :
    other.types = occurrence.types := by
  cases h <;> rfl

end Occurrence.Rearranges

namespace Selection.Rearranges

theorem allOccurrences {selections others : List Selection} (h : Rearranges selections others)
    (types : List String) (checks : List Check) :
    Matched Occurrence.Rearranges (Selection.allOccurrences types checks selections)
      (Selection.allOccurrences types checks others) := by
  have hsingle {occurrence other : Occurrence} (h : occurrence.Rearranges other) :
      Matched Occurrence.Rearranges [occurrence] [other] :=
    .of_forall₂ (.cons h .nil)
  induction h generalizing types checks with
  | nil => exact .of_forall₂ .nil
  | leaf head _ ih => exact (hsingle (.refl _)).append (ih types checks)
  | composite head nestedTypes hnested _ _ ih =>
    refine (hsingle (.field types (.of_selectionSet ?_))).append (ih types checks)
    exact .some ⟨rfl, hnested⟩
  | typeCondition condition narrowed _ _ ihInner ih =>
    exact (ihInner _ checks).append (ih types checks)
  | booleanCondition check innerTypes _ _ ihInner ih =>
    exact (ihInner types _).append (ih types checks)
  | fragmentSpread name _ ih => exact (hsingle (.spread name types)).append (ih types checks)
  | swap first second rest =>
    apply Matched.of_perm Occurrence.Rearranges.refl
    exact List.perm_append_comm_assoc _ _ _
  | trans _ _ ihFirst ihSecond =>
    exact (ihFirst types checks).comp (ihSecond types checks) fun _ _ _ => .trans

theorem spreads_iff {selections others : List Selection} (h : Rearranges selections others)
    (types : List String) (name : String) :
    Spreads types others name ↔ Spreads types selections name := by
  have hoccurrences := h.allOccurrences types []
  constructor
  · intro hspreads
    obtain ⟨applying, hmem, happlying⟩ :=
      hspreads.exists_occurrence (fun _ htype => htype) []
    obtain ⟨occurrence, hoccurrence, hsame⟩ := hoccurrences.exists_of_mem hmem
    cases hsame
    exact spreads_of_mem_allOccurrences hoccurrence happlying
  · intro hspreads
    obtain ⟨applying, hmem, happlying⟩ :=
      hspreads.exists_occurrence (fun _ htype => htype) []
    obtain ⟨occurrence, hoccurrence, hsame⟩ := hoccurrences.exists_of_mem_left hmem
    cases hsame
    exact spreads_of_mem_allOccurrences hoccurrence happlying

theorem exists_allInlined {expand : List String → String → Except FragmentError Selection}
    {selections others : List Selection} (h : Rearranges selections others) {types : List String}
    {inlinedAll : List Selection} (hinlined : allInlined expand types selections = .ok inlinedAll) :
    ∃ inlinedOther, allInlined expand types others = .ok inlinedOther ∧
      Rearranges inlinedAll inlinedOther := by
  induction h generalizing types inlinedAll with
  | nil => exact ⟨_, hinlined, .refl _⟩
  | leaf head _ ih =>
    obtain ⟨first, hfirst, rest, hrest, rfl⟩ := allInlined_cons_eq_ok.mp hinlined
    obtain ⟨others, hothers, hrearranges⟩ := ih hrest
    exact ⟨_, allInlined_cons_eq_ok.mpr ⟨first, hfirst, others, hothers, rfl⟩,
      .cons first hrearranges⟩
  | composite head nestedTypes hnested _ _ ih =>
    obtain ⟨first, hfirst, rest, hrest, rfl⟩ := allInlined_cons_eq_ok.mp hinlined
    obtain ⟨others, hothers, hrearranges⟩ := ih hrest
    cases hfirst
    exact ⟨_, allInlined_cons_eq_ok.mpr ⟨_, rfl, others, hothers, rfl⟩,
      .composite head nestedTypes hnested hrearranges⟩
  | typeCondition condition narrowed _ _ ihInner ih =>
    obtain ⟨_, hfirst, rest, hrest, rfl⟩ := allInlined_cons_eq_ok.mp hinlined
    obtain ⟨others, hothers, hrearranges⟩ := ih hrest
    simp only [inlined, Outcome.bind_eq_ok, Outcome.pure_eq_ok] at hfirst
    obtain ⟨inner, hinner, rfl⟩ := hfirst
    obtain ⟨otherInner, hotherInner, hrearrangesInner⟩ := ihInner hinner
    refine ⟨_, allInlined_cons_eq_ok.mpr ⟨.typeCondition condition narrowed otherInner, ?_, others,
      hothers, rfl⟩, .typeCondition condition narrowed hrearrangesInner hrearranges⟩
    simp only [inlined, hotherInner]
    rfl
  | booleanCondition check innerTypes _ _ ihInner ih =>
    obtain ⟨_, hfirst, rest, hrest, rfl⟩ := allInlined_cons_eq_ok.mp hinlined
    obtain ⟨others, hothers, hrearranges⟩ := ih hrest
    simp only [inlined, Outcome.bind_eq_ok, Outcome.pure_eq_ok] at hfirst
    obtain ⟨inner, hinner, rfl⟩ := hfirst
    obtain ⟨otherInner, hotherInner, hrearrangesInner⟩ := ihInner hinner
    refine ⟨_, allInlined_cons_eq_ok.mpr ⟨.booleanCondition check innerTypes otherInner, ?_, others,
      hothers, rfl⟩, .booleanCondition check innerTypes hrearrangesInner hrearranges⟩
    simp only [inlined, hotherInner]
    rfl
  | fragmentSpread name _ ih =>
    obtain ⟨first, hfirst, rest, hrest, rfl⟩ := allInlined_cons_eq_ok.mp hinlined
    obtain ⟨others, hothers, hrearranges⟩ := ih hrest
    exact ⟨_, allInlined_cons_eq_ok.mpr ⟨first, hfirst, others, hothers, rfl⟩,
      .cons first hrearranges⟩
  | swap first second rest =>
    obtain ⟨first, hfirst, _, hrest, rfl⟩ := allInlined_cons_eq_ok.mp hinlined
    obtain ⟨second, hsecond, others, hothers, rfl⟩ := allInlined_cons_eq_ok.mp hrest
    refine ⟨second :: first :: others, ?_, .swap first second others⟩
    exact allInlined_cons_eq_ok.mpr ⟨second, hsecond, _,
      allInlined_cons_eq_ok.mpr ⟨first, hfirst, others, hothers, rfl⟩, rfl⟩
  | trans _ _ ihFirst ihSecond =>
    obtain ⟨second, hsecond, hfirst⟩ := ihFirst hinlined
    obtain ⟨third, hthird, hlast⟩ := ihSecond hsecond
    exact ⟨third, hthird, .trans hfirst hlast⟩

end Selection.Rearranges

end QueryShape.Typed
