import QueryShape.Proofs.Typed.Compiled
import QueryShape.Proofs.Typed.Selected
import QueryShape.Proofs.Typed.Spreads

/-!
# Added `__typename` fields

A document that gets `__typename` fields before it is typed has the operations and fragments that it
has without them. Inside of fields and fragments there are further `__typename` fields, nothing else
is different, and the fields that are selected for a type are the same with further ones between
them.
-/

set_option autoImplicit false

namespace QueryShape.Typed

structure FieldHead.IsTypename (head : FieldHead) : Prop where
  responseKey : head.responseKey = "__typename"
  name : head.name = "__typename"
  aliasName : head.aliasName = none

/-- The other list has further `__typename` fields inside of fields, and among its own selections if
it is that of a field or fragment. Inside of conditions nothing is added. -/
inductive Selection.Gains : Bool → List Selection → List Selection → Prop
  | nil {inside : Bool} : Gains inside [] []
  | added {head : FieldHead} (hhead : head.IsTypename) {rest others : List Selection}
      (hrest : Gains true rest others) : Gains true rest (.leaf head :: others)
  /-- A schema may have its own idea of the type `String`. -/
  | addedComposite {head : FieldHead} (hhead : head.IsTypename) (types : List String)
      {rest others : List Selection} (hrest : Gains true rest others) :
      Gains true rest (.composite head types [] :: others)
  | leaf {inside : Bool} (head : FieldHead) {rest others : List Selection}
      (hrest : Gains inside rest others) : Gains inside (.leaf head :: rest) (.leaf head :: others)
  | composite {inside : Bool} (head : FieldHead) (types : List String)
      {nested otherNested rest others : List Selection} (hnested : Gains true nested otherNested)
      (hrest : Gains inside rest others) :
      Gains inside (.composite head types nested :: rest)
        (.composite head types otherNested :: others)
  | typeCondition {inside : Bool} (condition : String) (narrowed : List String)
      {inner otherInner rest others : List Selection} (hinner : Gains false inner otherInner)
      (hrest : Gains inside rest others) :
      Gains inside (.typeCondition condition narrowed inner :: rest)
        (.typeCondition condition narrowed otherInner :: others)
  | booleanCondition {inside : Bool} (check : Check) (types : List String)
      {inner otherInner rest others : List Selection} (hinner : Gains false inner otherInner)
      (hrest : Gains inside rest others) :
      Gains inside (.booleanCondition check types inner :: rest)
        (.booleanCondition check types otherInner :: others)
  | fragmentSpread {inside : Bool} (name : String) {rest others : List Selection}
      (hrest : Gains inside rest others) :
      Gains inside (.fragmentSpread name :: rest) (.fragmentSpread name :: others)

structure SelectionSet.Gains (inside : Bool) (set other : SelectionSet) : Prop where
  possibleTypes : other.possibleTypes = set.possibleTypes
  selections : Selection.Gains inside set.selections other.selections

structure Field.Gains (field other : Field) : Prop where
  head : other.head = field.head
  selectionSet : Option.Rel (SelectionSet.Gains true) field.selectionSet other.selectionSet

inductive Selected.Gains : Bool → List Selected → List Selected → Prop
  | nil {inside : Bool} : Gains inside [] []
  | added {member : Selected} (hhead : member.field.head.IsTypename) {rest others : List Selected}
      (hrest : Gains true rest others) : Gains true rest (member :: others)
  | kept {inside : Bool} {field other : Field} (hfield : field.Gains other) (checks : List Check)
      {rest others : List Selected} (hrest : Gains inside rest others) :
      Gains inside (⟨field, checks⟩ :: rest) (⟨other, checks⟩ :: others)

structure Operation.Gains (operation other : Operation) : Prop where
  rest : other =
    { operation with source := other.source, selectionSet := other.selectionSet }
  selectionSet : operation.selectionSet.Gains false other.selectionSet

structure Fragment.Gains (fragment other : Fragment) : Prop where
  rest : other =
    { fragment with source := other.source, selectionSet := other.selectionSet }
  selectionSet : fragment.selectionSet.Gains true other.selectionSet

structure Document.Gains (document other : Document) : Prop where
  operations : List.Forall₂ Operation.Gains document.operations other.operations
  fragments : List.Forall₂ Fragment.Gains document.fragments other.fragments

theorem Selection.Gains.refl {inside : Bool} (selections : List Selection) :
    Gains inside selections selections := by
  induction selections using Selection.listInduction generalizing inside with
  | nil => exact .nil
  | leaf head rest ih => exact .leaf head ih
  | composite head types nested rest ihNested ih => exact .composite head types ihNested ih
  | typeCondition condition narrowed inner rest ihInner ih =>
    exact .typeCondition condition narrowed ihInner ih
  | booleanCondition check types inner rest ihInner ih =>
    exact .booleanCondition check types ihInner ih
  | fragmentSpread name rest ih => exact .fragmentSpread name ih

namespace Selection.Gains

variable {inside : Bool} {selections others : List Selection} (h : Gains inside selections others)
include h

theorem toInside : Gains true selections others := by
  induction h with
  | nil => exact .nil
  | added hhead _ ih => exact .added hhead ih
  | addedComposite hhead types _ ih => exact .addedComposite hhead types ih
  | leaf head _ ih => exact .leaf head ih
  | composite head types hnested _ _ ih => exact .composite head types hnested ih
  | typeCondition condition narrowed hinner _ _ ih =>
    exact .typeCondition condition narrowed hinner ih
  | booleanCondition check types hinner _ _ ih => exact .booleanCondition check types hinner ih
  | fragmentSpread name _ ih => exact .fragmentSpread name ih

theorem append {first second : List Selection} (h' : Gains inside first second) :
    Gains inside (selections ++ first) (others ++ second) := by
  induction h with
  | nil => exact h'
  | added hhead _ ih => exact .added hhead (ih h')
  | addedComposite hhead types _ ih => exact .addedComposite hhead types (ih h')
  | leaf head _ ih => exact .leaf head (ih h')
  | composite head types hnested _ _ ih => exact .composite head types hnested (ih h')
  | typeCondition condition narrowed hinner _ _ ih =>
    exact .typeCondition condition narrowed hinner (ih h')
  | booleanCondition check types hinner _ _ ih =>
    exact .booleanCondition check types hinner (ih h')
  | fragmentSpread name _ ih => exact .fragmentSpread name (ih h')

theorem allSpreads_eq : allSpreads others = allSpreads selections := by
  induction h with
  | nil => rfl
  | added _ _ ih | addedComposite _ _ _ ih | leaf _ _ ih => exact ih
  | composite _ _ _ _ ihInner ih | typeCondition _ _ _ _ ihInner ih
  | booleanCondition _ _ _ _ ihInner ih =>
    rw [allSpreads, allSpreads, spreads, spreads, ihInner, ih]
  | fragmentSpread name _ ih => rw [allSpreads, allSpreads, ih]

theorem allSpreadsFor_eq (types : List String) :
    allSpreadsFor types others = allSpreadsFor types selections := by
  induction h with
  | nil => rfl
  | added _ _ ih | addedComposite _ _ _ ih | leaf _ _ ih => exact ih
  | composite _ _ _ _ _ ih => exact ih
  | typeCondition _ _ _ _ ihInner ih | booleanCondition _ _ _ _ ihInner ih =>
    rw [allSpreadsFor, allSpreadsFor, spreadsFor, spreadsFor, ihInner, ih]
  | fragmentSpread name _ ih => rw [allSpreadsFor, allSpreadsFor, ih]

end Selection.Gains

theorem Selection.Gains.flatMap {inside : Bool} {pieces others : List SelectionSet}
    (h : List.Forall₂ (SelectionSet.Gains inside) pieces others) :
    Gains inside (pieces.flatMap (·.selections)) (others.flatMap (·.selections)) := by
  induction h with
  | nil => exact .nil
  | cons hfirst _ ih => exact hfirst.selections.append ih

theorem SelectionSet.Gains.spreadNamesFor_eq {inside : Bool} {set other : SelectionSet}
    (h : set.Gains inside other) (types : List String) :
    other.spreadNamesFor types = set.spreadNamesFor types := by
  simp only [spreadNamesFor, spreadsFor, h.selections.allSpreadsFor_eq]

theorem SelectionSet.Gains.spreadNames_eq {inside : Bool} {set other : SelectionSet}
    (h : set.Gains inside other) : other.spreadNames = set.spreadNames := by
  rw [spreadNames, spreadNames, h.possibleTypes, h.spreadNamesFor_eq]

namespace Field.Gains

theorem composite (head : FieldHead) (types : List String)
    {nested otherNested : List Selection} (h : Selection.Gains true nested otherNested) :
    Field.Gains ⟨head, some ⟨types, nested⟩⟩ ⟨head, some ⟨types, otherNested⟩⟩ where
  head := rfl
  selectionSet := .some ⟨rfl, h⟩

theorem merge {first second other otherSecond : Field} (h : first.Gains other)
    (h' : second.Gains otherSecond) : (first.merge second).Gains (other.merge otherSecond) where
  head := by simp only [Field.merge, h.head, h'.head]
  selectionSet := by
    have hfirst := h.selectionSet
    have hsecond := h'.selectionSet
    simp only [Field.merge]
    generalize first.selectionSet = set, other.selectionSet = otherSet at hfirst ⊢
    generalize second.selectionSet = further, otherSecond.selectionSet = otherFurther at hsecond ⊢
    cases hfirst with
    | none => exact .none
    | some hset =>
      cases hsecond with
      | none => exact .some hset
      | some hfurther =>
        exact .some ⟨hset.possibleTypes, hset.selections.append hfurther.selections⟩

theorem mergeAll {fields others : List Field} (h : List.Forall₂ Field.Gains fields others) :
    Option.Rel Field.Gains (Field.mergeAll fields) (Field.mergeAll others) := by
  have hfold : ∀ {merged other : Option Field}, Option.Rel Field.Gains merged other →
      Option.Rel Field.Gains
        (fields.foldl (fun merged field => some (Field.mergeOnto merged field)) merged)
        (others.foldl (fun merged field => some (Field.mergeOnto merged field)) other) := by
    induction h with
    | nil => exact id
    | cons hfirst _ ih =>
      intro merged other hmerged
      apply ih
      cases hmerged with
      | none => exact .some hfirst
      | some hmerged => exact .some (hmerged.merge hfirst)
  exact hfold .none

end Field.Gains

structure Selected.Corresponds (selected other : Selected) : Prop where
  checks : other.checks = selected.checks
  field : selected.field.Gains other.field

theorem Selected.Corresponds.conditional {selected other : Selected}
    (h : selected.Corresponds other) : selected.conditional.Gains other.conditional where
  head := by rw [head_conditional, head_conditional, h.checks, h.field.head]
  selectionSet := h.field.selectionSet

namespace Selected.Gains

variable {inside : Bool} {selected gained : List Selected} (h : Gains inside selected gained)
include h

theorem append {first second : List Selected} (h' : Gains inside first second) :
    Gains inside (selected ++ first) (gained ++ second) := by
  induction h with
  | nil => exact h'
  | added hhead _ ih => exact .added hhead (ih h')
  | kept hfield checks _ ih => exact .kept hfield checks (ih h')

theorem filter (key : String) :
    Gains inside (selected.filter (·.field.responseKey = key))
      (gained.filter (·.field.responseKey = key)) := by
  induction h with
  | nil => exact .nil
  | added hhead _ ih =>
    rw [List.filter_cons]
    split
    · exact .added hhead ih
    · exact ih
  | @kept _ field other hfield checks _ _ _ ih =>
    have hkey : other.responseKey = field.responseKey := congrArg (·.responseKey) hfield.head
    simp only [List.filter_cons, hkey]
    split
    · exact .kept hfield checks ih
    · exact ih

theorem ne_nil (hne : selected ≠ []) : gained ≠ [] := by
  rintro rfl
  cases h
  exact hne rfl

theorem forall₂ (hnone : inside = true → ∀ member ∈ gained, ¬member.field.head.IsTypename) :
    List.Forall₂ Selected.Corresponds selected gained := by
  induction h with
  | nil => exact .nil
  | added hhead => exact absurd hhead (hnone rfl _ List.mem_cons_self)
  | kept hfield checks _ ih =>
    exact .cons ⟨rfl, hfield⟩
      (ih fun hinside member hmember => hnone hinside member (List.mem_cons_of_mem _ hmember))

end Selected.Gains

def Selection.FollowsNone (follow : Bool) (type : String) (selections : List Selection) : Prop :=
  follow = true → ∀ name, ¬Spreads [type] selections name

namespace Selection.FollowsNone

variable {follow : Bool} {type : String} {rest inner : List Selection}

theorem later {selection : Selection} (h : FollowsNone follow type (selection :: rest)) :
    FollowsNone follow type rest :=
  fun hfollow name hspreads => h hfollow name (.later hspreads)

theorem typeCondition {condition : String} {narrowed : List String} (htype : type ∈ narrowed)
    (h : FollowsNone follow type (.typeCondition condition narrowed inner :: rest)) :
    FollowsNone follow type inner :=
  fun hfollow name hspreads => h hfollow name (.typeCondition (by simpa using htype) hspreads)

theorem check {check : Check} {types : List String}
    (h : FollowsNone follow type (.booleanCondition check types inner :: rest)) :
    FollowsNone follow type inner :=
  fun hfollow name hspreads => h hfollow name (.check hspreads)

end Selection.FollowsNone

namespace Document.Gains

variable {document extended : Document} (h : document.Gains extended)
include h

theorem rel_fragment? (name : String) :
    Option.Rel Fragment.Gains (document.fragment? name) (extended.fragment? name) := by
  apply rel_find?_of_forall₂ h.fragments
  intro fragment other hgains
  rw [hgains.rest]

theorem exists_fragment {name : String} {other : Fragment}
    (hother : extended.fragment? name = some other) :
    ∃ fragment, document.fragment? name = some fragment ∧ fragment.Gains other :=
  exists_eq_some_of_rel_right (h.rel_fragment? name) hother

theorem exists_other {name : String} {fragment : Fragment}
    (hfragment : document.fragment? name = some fragment) :
    ∃ other, extended.fragment? name = some other ∧ fragment.Gains other :=
  exists_eq_some_of_rel (h.rel_fragment? name) hfragment

theorem spreadsOf_eq : extended.spreadsOf = document.spreadsOf := by
  funext name
  have hsame : (extended.fragment? name).map (·.selectionSet.spreads) =
      (document.fragment? name).map (·.selectionSet.spreads) :=
    map_eq_of_rel (h.rel_fragment? name)
      fun _ _ hgains => hgains.selectionSet.selections.allSpreads_eq
  rw [spreadsOf, spreadsOf, hsame]

theorem reachableNames_eq {inside : Bool} {set other : SelectionSet}
    (hset : set.Gains inside other) :
    extended.reachableNames other = document.reachableNames set := by
  rw [reachableNames, reachableNames, h.spreadsOf_eq, h.fragments.length_eq,
    SelectionSet.spreads, hset.selections.allSpreads_eq, SelectionSet.spreads]

/-- Selections with added fields select for a type what they select without them, and further
`__typename` fields. There are none if these can only be added inside, and no spread is followed. -/
theorem selects {follow into : Bool} {type : String} {checks : List Check} {types : List String}
    {others : List Selection} {gained : List Selected}
    (hothers : extended.Selects follow type checks types others gained) {inside : Bool}
    {selections : List Selection} (hlists : Selection.Gains inside selections others)
    {selected : List Selected}
    (hselects : document.Selects follow type checks types selections selected)
    (hinside : inside = true → into = true)
    (hnone : into = false → Selection.FollowsNone follow type selections) :
    Selected.Gains into selected gained := by
  induction hothers generalizing inside selections selected with
  | nil =>
    cases hlists
    cases hselects
    exact .nil
  | leaf _ ih =>
    cases hlists with
    | added hhead hrest =>
      obtain rfl := hinside rfl
      exact .added hhead (ih hrest hselects hinside hnone)
    | leaf head hrest =>
      cases hselects with
      | leaf hselects =>
        exact .kept ⟨rfl, .none⟩ _ (ih hrest hselects hinside fun hinto => (hnone hinto).later)
  | composite _ ih =>
    cases hlists with
    | addedComposite hhead types hrest =>
      obtain rfl := hinside rfl
      exact .added hhead (ih hrest hselects hinside hnone)
    | composite head types hnested hrest =>
      cases hselects with
      | composite hselects =>
        exact .kept (.composite _ _ hnested) _
          (ih hrest hselects hinside fun hinto => (hnone hinto).later)
  | satisfied htype _ _ ihInner ih =>
    cases hlists with
    | typeCondition condition narrowed hinner hrest =>
      cases hselects with
      | unsatisfied hnot => exact absurd htype hnot
      | satisfied _ hselectsInner hselects =>
        have hselected := ihInner hinner hselectsInner (by simp)
          fun hinto => (hnone hinto).typeCondition htype
        exact hselected.append (ih hrest hselects hinside fun hinto => (hnone hinto).later)
  | unsatisfied hnot _ ih =>
    cases hlists with
    | typeCondition condition narrowed hinner hrest =>
      cases hselects with
      | satisfied htype => exact absurd htype hnot
      | unsatisfied _ hselects =>
        exact ih hrest hselects hinside fun hinto => (hnone hinto).later
  | check _ _ ihInner ih =>
    cases hlists with
    | booleanCondition check types hinner hrest =>
      cases hselects with
      | check hselectsInner hselects =>
        have hselected := ihInner hinner hselectsInner (by simp) fun hinto => (hnone hinto).check
        exact hselected.append (ih hrest hselects hinside fun hinto => (hnone hinto).later)
  | @followed _ _ name _ _ _ _ hfollow hother htype happlies _ _ ihInner ih =>
    obtain ⟨fragment, hfragment, hgains⟩ := h.exists_fragment hother
    have htypes := hgains.selectionSet.possibleTypes
    cases hlists with
    | fragmentSpread _ hrest =>
      cases hselects with
      | passed hpassed => exact (hpassed hfollow _ hfragment ⟨htype, htypes ▸ happlies⟩).elim
      | followed _ hsame _ _ hselectsInner hselects =>
        obtain rfl := Option.some.inj (hfragment.symm.trans hsame)
        rw [← htypes] at hselectsInner
        -- The fragment has fields added, so that none may be missing around the spread.
        cases into with
        | false => exact absurd .spread (hnone rfl hfollow name)
        | true =>
          have hselected := ihInner hgains.selectionSet.selections hselectsInner (fun _ => rfl)
            (by simp)
          exact hselected.append (ih hrest hselects hinside (by simp))
  | passed hpassed _ ih =>
    cases hlists with
    | fragmentSpread _ hrest =>
      cases hselects with
      | passed _ hselects => exact ih hrest hselects hinside fun hinto => (hnone hinto).later
      | followed hfollow hfragment htype happlies =>
        obtain ⟨other, hother, hgains⟩ := h.exists_other hfragment
        rw [← hgains.selectionSet.possibleTypes] at happlies
        exact (hpassed hfollow _ hother ⟨htype, happlies⟩).elim

end Document.Gains

end QueryShape.Typed
