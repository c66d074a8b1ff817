import QueryShape.Proofs.Source.Selections

/-!
# Adding `__typename` fields once

Where `__typename` fields are added, every selection set keeps its selections in their order; one of
a field or of a fragment that has no `__typename` without an alias gets one in front, and no other
set does. Adding them again changes nothing, and leaving out the added ones gives the document back.

A place in a document is the number of a definition and then, for every selection on the way, the
number of selections after it. A field in front of a selection set changes no such place.
-/

set_option autoImplicit false

namespace QueryShape.Source

/-- What a selection set belongs to. -/
inductive SetOwner where
  | operation
  | fragment
  | field
  | inlineFragment
  deriving DecidableEq, Repr

structure SelectionSet where
  owner : SetOwner
  selections : List Selection
  deriving Repr

/-- The selection set of the given selections: the empty list stands for none. -/
def SelectionSet.ofList? (owner : SetOwner) (selections : List Selection) : Option SelectionSet :=
  if selections.isEmpty then none else some ⟨owner, selections⟩

namespace Selection

def set? : Selection → Option SelectionSet
  | field _ _ _ _ selections => SelectionSet.ofList? .field selections
  | fragmentSpread _ _ => none
  | inlineFragment _ _ selections => SelectionSet.ofList? .inlineFragment selections

def bare : Selection → Selection
  | field aliasName name arguments directives _ => field aliasName name arguments directives []
  | fragmentSpread name directives => fragmentSpread name directives
  | inlineFragment condition directives _ => inlineFragment condition directives []

mutual

/-- The selection without those selections inside of it that are at a removed place. -/
def without (removed : List Nat → Bool) : Selection → Selection
  | .field aliasName name arguments directives selections =>
    .field aliasName name arguments directives (allWithout removed selections)
  | .fragmentSpread name directives => .fragmentSpread name directives
  | .inlineFragment condition directives selections =>
    .inlineFragment condition directives (allWithout removed selections)

def allWithout (removed : List Nat → Bool) : List Selection → List Selection
  | [] => []
  | selection :: rest =>
    if removed [rest.length] then allWithout removed rest
    else
      without (fun place => removed (rest.length :: place)) selection :: allWithout removed rest

end

end Selection

namespace SelectionSet

/-- The set selects `__typename` directly and without an alias, whatever else is written there. -/
def hasTypename (set : SelectionSet) : Bool :=
  set.selections.any fun
    | .field none name _ _ _ => name == "__typename"
    | _ => false

/-- The set is that of a field or fragment, and there is no `__typename` in it. -/
def lacksTypename (set : SelectionSet) : Bool :=
  (set.owner == .field || set.owner == .fragment) && !set.hasTypename

def inner? (set : SelectionSet) (after : Nat) : Option SelectionSet :=
  set.selections.reverse[after]?.bind Selection.set?

def descend? (set : SelectionSet) : List Nat → Option SelectionSet
  | [] => some set
  | after :: place => (set.inner? after).bind (·.descend? place)

/-- Whether the place is the one in front of a set to which `__typename` is added. -/
def addsAt (set : SelectionSet) (place : List Nat) : Bool :=
  (set.descend? place.dropLast).any fun inner =>
    inner.lacksTypename && place.getLast? == some inner.selections.length

/-- The other set has the selections of the set, apart from what is inside of them, after a
`__typename` field with nothing else written there if the set lacks one. -/
structure GainsTypename (set other : SelectionSet) : Prop where
  owner : other.owner = set.owner
  selections : ∃ kept, kept.map Selection.bare = set.selections.map Selection.bare ∧
    other.selections =
      if set.lacksTypename then .field none "__typename" [] [] [] :: kept else kept

end SelectionSet

namespace Definition

def set? : Definition → Option SelectionSet
  | operation definition => SelectionSet.ofList? .operation definition.selections
  | fragment definition => SelectionSet.ofList? .fragment definition.selections
  | _ => none

def without (removed : List Nat → Bool) : Definition → Definition
  | operation definition =>
    operation { definition with selections := Selection.allWithout removed definition.selections }
  | fragment definition =>
    fragment { definition with selections := Selection.allWithout removed definition.selections }
  | other => other

end Definition

namespace Document

variable (document : Document)

def set? (definition : Nat) (place : List Nat) : Option SelectionSet :=
  (document.definitions[definition]?.bind Definition.set?).bind (·.descend? place)

def addsAt (definition : Nat) (place : List Nat) : Bool :=
  (document.definitions[definition]?.bind Definition.set?).any (·.addsAt place)

def without (removed : Nat → List Nat → Bool) : Document where
  definitions := document.definitions.mapIdx fun number definition =>
    definition.without (removed number)

end Document

namespace Selection

@[simp] theorem length_addTypenames (selections : List Selection) :
    (addTypenames selections).length = selections.length := by
  simp [addTypenames_eq_map]

@[simp] theorem isEmpty_addTypenames (selections : List Selection) :
    (addTypenames selections).isEmpty = selections.isEmpty := by
  simp [addTypenames_eq_map]

@[simp] theorem any_isTypename_addTypenames (selections : List Selection) :
    (addTypenames selections).any isTypename = selections.any isTypename := by
  simp [addTypenames_eq_map, Function.comp_def, isTypename_addTypename]

theorem withTypename_withTypename (selections : List Selection) :
    withTypename (withTypename selections) = withTypename selections := by
  by_cases h : (selections.isEmpty || selections.any isTypename) = true
  · rw [withTypename, if_pos (by rwa [withTypename, if_pos h])]
  · have hadded : withTypename selections = typenameField :: selections := by
      rw [withTypename, if_neg h]
    rw [hadded, withTypename, if_pos (by simp [typenameField, isTypename])]

theorem addTypenames_withTypename (selections : List Selection) :
    addTypenames (withTypename selections) = withTypename (addTypenames selections) := by
  simp only [withTypename, isEmpty_addTypenames, any_isTypename_addTypenames]
  split <;> rfl

theorem addTypenames_addTypenames (selections : List Selection) :
    addTypenames (addTypenames selections) = addTypenames selections := by
  induction selections using listInduction with
  | nil => rfl
  | field aliasName name arguments directives inner rest ihInner ih =>
    simp only [addTypenames, addTypename, addTypenames_withTypename, withTypename_withTypename,
      ihInner, ih]
  | fragmentSpread name directives rest ih => simp only [addTypenames, addTypename, ih]
  | inlineFragment condition directives inner rest ihInner ih =>
    simp only [addTypenames, addTypename, ihInner, ih]

theorem bare_addTypename (selection : Selection) : selection.addTypename.bare = selection.bare := by
  cases selection <;> rfl

end Selection

theorem Definition.addTypename_addTypename (definition : Definition) :
    definition.addTypename.addTypename = definition.addTypename := by
  cases definition with
  | operation definition =>
    simp only [Definition.addTypename, Selection.addTypenames_addTypenames]
  | fragment definition =>
    simp only [Definition.addTypename, Selection.addTypenames_withTypename,
      Selection.addTypenames_addTypenames, Selection.withTypename_withTypename]
  | _ => rfl

namespace SelectionSet

def addTypename (set : SelectionSet) : SelectionSet where
  owner := set.owner
  selections :=
    if set.lacksTypename then Selection.typenameField :: Selection.addTypenames set.selections
    else Selection.addTypenames set.selections

theorem hasTypename_eq (set : SelectionSet) :
    set.hasTypename = set.selections.any Selection.isTypename :=
  rfl

theorem gainsTypename_addTypename (set : SelectionSet) : set.GainsTypename set.addTypename where
  owner := rfl
  selections := by
    refine ⟨Selection.addTypenames set.selections, ?_, rfl⟩
    simp [Selection.addTypenames_eq_map, Function.comp_def, Selection.bare_addTypename]

theorem ofList?_withTypename {owner : SetOwner} (howner : owner = .field ∨ owner = .fragment)
    (selections : List Selection) :
    ofList? owner (Selection.withTypename (Selection.addTypenames selections)) =
      (ofList? owner selections).map addTypename := by
  have hlacks : ∀ others : List Selection, lacksTypename ⟨owner, others⟩ =
      !others.any Selection.isTypename := by
    intro others
    rw [← hasTypename_eq ⟨owner, others⟩]
    rcases howner with rfl | rfl <;> rfl
  cases h : selections.isEmpty <;> cases hany : selections.any Selection.isTypename <;>
    simp [ofList?, Selection.withTypename, addTypename, hlacks, h, hany]

theorem ofList?_addTypenames {owner : SetOwner}
    (howner : owner = .operation ∨ owner = .inlineFragment) (selections : List Selection) :
    ofList? owner (Selection.addTypenames selections) =
      (ofList? owner selections).map addTypename := by
  have hlacks : lacksTypename ⟨owner, selections⟩ = false := by
    rcases howner with rfl | rfl <;> rfl
  cases h : selections.isEmpty <;> simp [ofList?, addTypename, hlacks, h]

theorem set?_addTypename (selection : Selection) :
    selection.addTypename.set? = selection.set?.map addTypename := by
  cases selection with
  | field aliasName name arguments directives selections =>
    exact ofList?_withTypename (.inl rfl) selections
  | fragmentSpread name directives => rfl
  | inlineFragment condition directives selections =>
    exact ofList?_addTypenames (.inr rfl) selections

theorem inner?_addTypename (set : SelectionSet) (after : Nat) :
    set.addTypename.inner? after = (set.inner? after).map addTypename := by
  have hkept : (Selection.addTypenames set.selections).reverse[after]?.bind Selection.set? =
      (set.inner? after).map addTypename := by
    rw [inner?, Selection.addTypenames_eq_map, ← List.map_reverse, List.getElem?_map,
      Option.bind_map, Option.map_bind]
    congr 1
    funext selection
    exact set?_addTypename selection
  have hadded : ∀ number : Nat, [Selection.typenameField][number]?.bind Selection.set? = none := by
    intro number
    cases number <;> rfl
  rw [← hkept, inner?, addTypename]
  split
  · rw [List.reverse_cons]
    by_cases hwithin : after < (Selection.addTypenames set.selections).reverse.length
    · rw [List.getElem?_append_left hwithin]
    · have hbeyond := Nat.not_lt.mp hwithin
      rw [List.getElem?_append_right hbeyond, hadded, List.getElem?_eq_none hbeyond]
      rfl
  · rfl

theorem descend?_addTypename (set : SelectionSet) (place : List Nat) :
    set.addTypename.descend? place = (set.descend? place).map addTypename := by
  induction place generalizing set with
  | nil => rfl
  | cons after place ih =>
    rw [descend?, descend?, inner?_addTypename]
    cases set.inner? after with
    | none => rfl
    | some inner => exact ih inner

theorem inner?_cons_length (owner : SetOwner) (selection : Selection) (rest : List Selection) :
    inner? ⟨owner, selection :: rest⟩ rest.length = selection.set? := by
  simp [inner?]

theorem inner?_cons_of_lt (owner : SetOwner) (selection : Selection) {rest : List Selection}
    {after : Nat} (h : after < rest.length) :
    inner? ⟨owner, selection :: rest⟩ after = inner? ⟨owner, rest⟩ after := by
  simp [inner?, List.getElem?_append_left, h]

theorem addsAt_singleton (set : SelectionSet) (after : Nat) :
    set.addsAt [after] = (set.lacksTypename && after == set.selections.length) := by
  simp [addsAt, descend?]

theorem addsAt_cons (set : SelectionSet) (after : Nat) {place : List Nat} (h : place ≠ []) :
    set.addsAt (after :: place) = (set.inner? after).any (·.addsAt place) := by
  obtain ⟨next, rest, rfl⟩ := List.exists_cons_of_ne_nil h
  simp only [addsAt, List.dropLast_cons_cons, descend?, List.getLast?_cons_cons, Option.any_bind]
  rfl

structure RemovesInside (set : SelectionSet) (removed : List Nat → Bool) : Prop where
  kept : ∀ after < set.selections.length, removed [after] = false
  inside : ∀ after < set.selections.length, ∀ place ≠ [],
    removed (after :: place) = (set.inner? after).any (·.addsAt place)

theorem RemovesInside.tail {owner : SetOwner} {selection : Selection} {rest : List Selection}
    {removed : List Nat → Bool} (h : RemovesInside ⟨owner, selection :: rest⟩ removed) :
    RemovesInside ⟨owner, rest⟩ removed where
  kept after hafter := h.kept after (Nat.lt_succ_of_lt hafter)
  inside after hafter place hplace := by
    rw [h.inside after (Nat.lt_succ_of_lt hafter) place hplace,
      inner?_cons_of_lt owner selection hafter]

theorem RemovesInside.head {owner : SetOwner} {selection : Selection} {rest : List Selection}
    {removed : List Nat → Bool} (h : RemovesInside ⟨owner, selection :: rest⟩ removed) :
    removed [rest.length] = false ∧ ∀ place ≠ [],
      removed (rest.length :: place) = selection.set?.any (·.addsAt place) := by
  refine ⟨h.kept rest.length (Nat.lt_succ_self _), fun place hplace => ?_⟩
  rw [h.inside rest.length (Nat.lt_succ_self _) place hplace, inner?_cons_length]

theorem removesInside_of_addsAt {set : SelectionSet} {removed : List Nat → Bool}
    (h : ∀ place ≠ [], removed place = set.addsAt place) : set.RemovesInside removed where
  kept after hafter := by
    rw [h _ (by simp), addsAt_singleton]
    simp [Nat.ne_of_lt hafter]
  inside after _ place hplace := by
    rw [h _ (by simp), addsAt_cons set after hplace]

end SelectionSet

namespace Selection

open SelectionSet

theorem allWithout_nested {owner : SetOwner} {inner others : List Selection}
    {removed : List Nat → Bool}
    (hothers : ofList? owner others = (ofList? owner inner).map SelectionSet.addTypename)
    (hremoved : ∀ place ≠ [], removed place = (ofList? owner inner).any (·.addsAt place))
    (hinner : RemovesInside ⟨owner, inner⟩ removed →
      allWithout removed (addTypenames inner) = inner) :
    allWithout removed others = inner := by
  cases inner with
  | nil =>
    cases others with
    | nil => rfl
    | cons selection rest => cases hothers
  | cons selection rest =>
    obtain ⟨rfl⟩ : others = (SelectionSet.addTypename ⟨owner, selection :: rest⟩).selections := by
      cases others with
      | nil => cases hothers
      | cons other others => exact congrArg SelectionSet.selections (Option.some.inj hothers)
    have hadds : ∀ place ≠ [], removed place = addsAt ⟨owner, selection :: rest⟩ place := hremoved
    have hkept := hinner (removesInside_of_addsAt hadds)
    rw [SelectionSet.addTypename]
    split
    · rename_i hlacks
      rw [allWithout, if_pos, hkept]
      rw [hadds _ (by simp), addsAt_singleton, hlacks, length_addTypenames]
      simp
    · exact hkept

theorem allWithout_addTypenames {owner : SetOwner} {selections : List Selection}
    {removed : List Nat → Bool} (h : RemovesInside ⟨owner, selections⟩ removed) :
    allWithout removed (addTypenames selections) = selections := by
  induction selections using listInduction generalizing owner removed with
  | nil => rfl
  | field aliasName name arguments directives inner rest ihInner ih =>
    obtain ⟨hkept, hinside⟩ := h.head
    have hinner : allWithout (fun place => removed (rest.length :: place))
        (withTypename (addTypenames inner)) = inner :=
      allWithout_nested (ofList?_withTypename (.inl rfl) inner) hinside ihInner
    simp only [addTypenames, allWithout, length_addTypenames, hkept, ih h.tail, addTypename,
      without, hinner]
    rfl
  | fragmentSpread name directives rest ih =>
    obtain ⟨hkept, -⟩ := h.head
    simp only [addTypenames, allWithout, length_addTypenames, hkept, ih h.tail, addTypename,
      without]
    rfl
  | inlineFragment condition directives inner rest ihInner ih =>
    obtain ⟨hkept, hinside⟩ := h.head
    have hinner : allWithout (fun place => removed (rest.length :: place))
        (addTypenames inner) = inner :=
      allWithout_nested (ofList?_addTypenames (.inr rfl) inner) hinside ihInner
    simp only [addTypenames, allWithout, length_addTypenames, hkept, ih h.tail, addTypename,
      without, hinner]
    rfl

theorem allWithout_eq {owner : SetOwner} {selections others : List Selection}
    (h : ofList? owner others = (ofList? owner selections).map SelectionSet.addTypename) :
    allWithout (fun place => (ofList? owner selections).any (·.addsAt place)) others =
      selections :=
  allWithout_nested h (fun _ _ => rfl) allWithout_addTypenames

end Selection

namespace Definition

theorem set?_addTypename (definition : Definition) :
    definition.addTypename.set? = definition.set?.map SelectionSet.addTypename := by
  cases definition with
  | operation definition => exact SelectionSet.ofList?_addTypenames (.inl rfl) _
  | fragment definition => exact SelectionSet.ofList?_withTypename (.inr rfl) _
  | _ => rfl

theorem without_addTypename (definition : Definition) :
    definition.addTypename.without (fun place => definition.set?.any (·.addsAt place)) =
      definition := by
  cases definition with
  | operation definition =>
    have hselections := Selection.allWithout_eq
      (SelectionSet.ofList?_addTypenames (.inl rfl) definition.selections)
    simp only [addTypename, without, set?, hselections]
  | fragment definition =>
    have hselections := Selection.allWithout_eq
      (SelectionSet.ofList?_withTypename (.inr rfl) definition.selections)
    simp only [addTypename, without, set?, hselections]
  | _ => rfl

end Definition

namespace Document

variable (document : Document)

theorem addTypename_addTypename : document.addTypename.addTypename = document.addTypename := by
  simp [addTypename, Function.comp_def, Definition.addTypename_addTypename]

theorem set?_addTypename (definition : Nat) (place : List Nat) :
    document.addTypename.set? definition place =
      (document.set? definition place).map SelectionSet.addTypename := by
  rw [set?, set?, addTypename, List.getElem?_map]
  cases document.definitions[definition]? with
  | none => rfl
  | some definition =>
    rw [Option.map_some, Option.bind_some, Option.bind_some, Definition.set?_addTypename]
    cases definition.set? with
    | none => rfl
    | some set => exact set.descend?_addTypename place

theorem without_addTypename : document.addTypename.without document.addsAt = document := by
  have hdefinitions : document.addTypename.definitions.mapIdx
      (fun number definition => definition.without (document.addsAt number)) =
      document.definitions := by
    apply List.ext_getElem?
    intro number
    rw [List.getElem?_mapIdx, addTypename, List.getElem?_map]
    cases hdefinition : document.definitions[number]? with
    | none => rfl
    | some definition =>
      have hadds : document.addsAt number =
          fun place => definition.set?.any (·.addsAt place) := by
        funext place
        rw [addsAt, hdefinition, Option.bind_some]
      rw [hadds, Option.map_some, Option.map_some, Definition.without_addTypename]
  rw [without, hdefinitions]

/-- Adding `__typename` fields again changes nothing. Every selection set keeps its owner and, in
their order, its selections, after a `__typename` field exactly if it is the set of a field or
fragment without one; no set comes or goes; and the document is what is left without the fields
that are added. -/
theorem addTypename_erasable :
    document.addTypename.addTypename = document.addTypename ∧
      (∀ definition place, Option.Rel SelectionSet.GainsTypename (document.set? definition place)
        (document.addTypename.set? definition place)) ∧
      document.addTypename.without document.addsAt = document := by
  refine ⟨document.addTypename_addTypename, fun definition place => ?_,
    document.without_addTypename⟩
  rw [set?_addTypename]
  cases document.set? definition place with
  | none => exact .none
  | some set => exact .some set.gainsTypename_addTypename

def friendsWithTypename : Document where
  definitions :=
    [.operation
       { description := none
         kind := .query
         name := some "Q"
         variableDefinitions := []
         directives := []
         selections :=
           [.field none "animal" [] []
             [.field (some "kind") "__typename" [] [] [],
              .inlineFragment (some "Dog") []
                [.field none "friend" [] [] [.field none "__typename" [] [] []]]]] }]

/-- The set of animals gets a `__typename` in front of its two selections. That of the operation,
that of the inline fragment and that of friends get none. -/
theorem addTypename_erasable_friendsWithTypename :
    (∃ set other, friendsWithTypename.set? 0 [0] = some set ∧
      friendsWithTypename.addTypename.set? 0 [0] = some other ∧ set.GainsTypename other ∧
      set.selections.length = 2 ∧ other.selections.length = 3 ∧
      other.selections.head? = some (.field none "__typename" [] [] [])) ∧
    [[], [0], [0, 0], [0, 0, 0]].map (fun place =>
        (friendsWithTypename.addTypename.set? 0 place).map (·.selections.length)) =
      [some 1, some 3, some 1, some 1] ∧
    friendsWithTypename.addsAt 0 [0, 2] = true ∧
    friendsWithTypename.addTypename.without friendsWithTypename.addsAt = friendsWithTypename := by
  obtain ⟨-, hgains, herased⟩ := friendsWithTypename.addTypename_erasable
  refine ⟨?_, by decide, by decide, herased⟩
  have hset := hgains 0 [0]
  cases hset with
  | some hset => exact ⟨_, _, rfl, rfl, hset, rfl, rfl, rfl⟩

end Document

end QueryShape.Source
