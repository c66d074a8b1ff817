import QueryShape.Proofs.Typed.Paths
import QueryShape.Proofs.Typed.RearrangedCases
import QueryShape.Proofs.Typed.WellFormed

/-!
# Fields that can be merged

Two fields of a selection set can be merged if they are selected for one type under one key, at the
outside or inside of fields that can be merged. What is selected inside of merged fields can be
merged in the set around them as well, so that agreement of all fields that can be merged is handed
on from a set to the sets that are put together from it.
-/

set_option autoImplicit false

namespace QueryShape.Typed

namespace Document

/-- In the set both fields are selected under one key for one of the possible types, at the same
depth, with spreads followed or passed over. -/
inductive CanMerge (document : Document) (follow : Bool) (set : SelectionSet) :
    Field → Field → Prop
  | outside {step : Step} {first second : Selected} (htype : step.type ∈ set.possibleTypes)
      (hfirst : document.SelectsField follow set.selections step first)
      (hsecond : document.SelectsField follow set.selections step second) :
      CanMerge document follow set first.field second.field
  | inside {outer other : Field} {inner otherInner : SelectionSet} {step : Step}
      {first second : Selected} (houter : CanMerge document follow set outer other)
      (hinner : outer.selectionSet = some inner) (htype : step.type ∈ inner.possibleTypes)
      (hotherInner : other.selectionSet = some otherInner)
      (hotherType : step.type ∈ otherInner.possibleTypes)
      (hfirst : document.SelectsField follow inner.selections step first)
      (hsecond : document.SelectsField follow otherInner.selections step second) :
      CanMerge document follow set first.field second.field

/-- All fields of the set that can be merged are the same apart from conditions and nested
selections. -/
def Agrees (document : Document) (follow : Bool) (set : SelectionSet) : Prop :=
  ∀ first second, document.CanMerge follow set first second →
    first.head.unconditional = second.head.unconditional

variable {schema : Schema} {document : Document} {follow : Bool} {set : SelectionSet}

theorem Selects.subset_following {type : String} {checks : List Check}
    {types recorded : List String} {selections : List Selection} {passed followed : List Selected}
    (h : document.Selects false type checks types selections passed)
    (h' : document.Selects true type checks recorded selections followed) :
    passed ⊆ followed := by
  have happend : ∀ {first second others more : List Selected}, first ⊆ second → others ⊆ more →
      first ++ others ⊆ second ++ more := fun hfirst hothers =>
    List.append_subset.mpr ⟨List.subset_append_of_subset_left _ hfirst,
      List.subset_append_of_subset_right _ hothers⟩
  induction h generalizing recorded followed with
  | nil => simp
  | leaf _ ih =>
    cases h' with
    | leaf hrest => exact List.cons_subset_cons _ (ih hrest)
  | composite _ ih =>
    cases h' with
    | composite hrest => exact List.cons_subset_cons _ (ih hrest)
  | satisfied htype _ _ ihInner ih =>
    cases h' with
    | satisfied _ hinner hrest => exact happend (ihInner hinner) (ih hrest)
    | unsatisfied hnot _ => exact absurd htype hnot
  | unsatisfied hnot _ ih =>
    cases h' with
    | satisfied htype _ _ => exact absurd htype hnot
    | unsatisfied _ hrest => exact ih hrest
  | check _ _ ihInner ih =>
    cases h' with
    | check hinner hrest => exact happend (ihInner hinner) (ih hrest)
  | followed hfollow _ _ _ _ _ => cases hfollow
  | passed _ _ ih =>
    cases h' with
    | followed _ _ _ _ _ hrest =>
      exact List.subset_append_of_subset_right _ (ih hrest)
    | passed _ hrest => exact ih hrest

theorem SelectsField.composes {selections : List Selection} {step : Step} {member : Selected}
    (h : document.SelectsField follow selections step member)
    (hcomposes : document.Composes selections) :
    ∃ set, document.HasSet set ∧ member.field.toSelection ∈ set.selections := by
  obtain ⟨_, hselects, hmember, _⟩ := h
  exact hselects.composes hcomposes hmember

variable (hsound : document.IsSound schema) (hcomposes : document.Composes set.selections)
include hsound hcomposes

theorem CanMerge.composes {first second : Field} (h : document.CanMerge follow set first second) :
    (∃ other, document.HasSet other ∧ first.toSelection ∈ other.selections) ∧
      ∃ other, document.HasSet other ∧ second.toSelection ∈ other.selections := by
  induction h with
  | outside _ hfirst hsecond => exact ⟨hfirst.composes hcomposes, hsecond.composes hcomposes⟩
  | inside _ hinner _ hotherInner _ hfirst hsecond ih =>
    have hset := (hsound.hasSet_of_field ih.1 hinner).1
    have hotherSet := (hsound.hasSet_of_field ih.2 hotherInner).1
    exact ⟨hfirst.composes hset.composes, hsecond.composes hotherSet.composes⟩

theorem CanMerge.following {first second : Field} (h : document.CanMerge false set first second) :
    document.CanMerge true set first second := by
  have hselects : ∀ {selections : List Selection} {step : Step} {member : Selected},
      document.Composes selections → document.SelectsField false selections step member →
        document.SelectsField true selections step member := by
    rintro selections step member hcomposes ⟨passed, hpassed, hmember, hkey⟩
    obtain ⟨followed, hfollowed⟩ : ∃ followed,
        document.Selects true step.type [] [step.type] selections followed :=
      exists_selects hsound.closed (fun _ => hsound.acyclic) (hcomposes.defines hsound.closed) _ _
    exact ⟨followed, hfollowed, hpassed.subset_following hfollowed hmember, hkey⟩
  induction h with
  | outside htype hfirst hsecond =>
    exact .outside htype (hselects hcomposes hfirst) (hselects hcomposes hsecond)
  | inside houter hinner htype hotherInner hotherType hfirst hsecond ih =>
    obtain ⟨hfield, hother⟩ := houter.composes hsound hcomposes
    have hset := (hsound.hasSet_of_field hfield hinner).1
    have hotherSet := (hsound.hasSet_of_field hother hotherInner).1
    exact .inside ih hinner htype hotherInner hotherType (hselects hset.composes hfirst)
      (hselects hotherSet.composes hsecond)

theorem Agrees.of_following (h : document.Agrees true set) (follow : Bool) :
    document.Agrees follow set := by
  cases follow with
  | false => exact fun first second hmerge => h first second (hmerge.following hsound hcomposes)
  | true => exact h

variable (hagrees : document.Agrees follow set)
include hagrees

theorem CanMerge.agrees {first second : Field} (h : document.CanMerge follow set first second) :
    first.Agrees second := by
  obtain ⟨hfirst, hsecond⟩ := h.composes hsound hcomposes
  have hhead := hagrees first second h
  have htype : first.head.type = second.head.type := congrArg (·.type) hhead
  have htypes : ∀ field : Field,
      (∃ other, document.HasSet other ∧ field.toSelection ∈ other.selections) →
      field.selectionSet.map (·.possibleTypes) =
        if schema.isComposite field.head.type.innermost = true then
          some (schema.possibleTypes field.head.type.innermost)
        else none := by
    rintro field ⟨other, hother, hmem⟩
    obtain ⟨hnests, hcovers⟩ := (Selection.allFit_iff.mp (hsound.fits other hother) _ hmem).field
    cases hset : field.selectionSet with
    | none =>
      rw [hset] at hnests
      rw [if_neg (hnests.not.mp (by simp))]
      rfl
    | some nested =>
      rw [hset] at hnests
      rw [if_pos (hnests.mp rfl), Option.map_some, hcovers nested hset]
  exact ⟨hhead, by rw [htypes first hfirst, htypes second hsecond, htype]⟩

theorem exists_member_of_joined {outerStep : Step} (houter : outerStep.type ∈ set.possibleTypes)
    {origin : Selected} {rest : List Selected} {own : SelectionSet}
    (hmembers : ∀ member ∈ origin :: rest,
      document.SelectsField follow set.selections outerStep member)
    (hown : origin.field.selectionSet = some own) {step : Step}
    (htype : step.type ∈ own.possibleTypes) {selected : Selected}
    (h : document.SelectsField follow
      (((origin :: rest).filterMap (·.field.selectionSet)).flatMap (·.selections)) step selected) :
    ∃ member ∈ origin :: rest, ∃ piece, member.field.selectionSet = some piece ∧
      step.type ∈ piece.possibleTypes ∧
        document.SelectsField follow piece.selections step selected := by
  have hdefines : ∀ piece ∈ (origin :: rest).filterMap (·.field.selectionSet),
      document.Defines piece.selections := by
    intro piece hpiece
    obtain ⟨member, hmember, hset⟩ := List.mem_filterMap.mp hpiece
    have hfield := (hmembers member hmember).composes hcomposes
    exact (hsound.hasSet_of_field hfield hset).1.defines hsound.closed
  rw [selectsField_flatMap hsound.closed (fun _ => hsound.acyclic) hdefines] at h
  obtain ⟨piece, hpiece, hselects⟩ := h
  obtain ⟨member, hmember, hset⟩ := List.mem_filterMap.mp hpiece
  refine ⟨member, hmember, piece, hset, ?_, hselects⟩
  have hmerge : document.CanMerge follow set origin.field member.field :=
    .outside houter (hmembers origin List.mem_cons_self) (hmembers member hmember)
  have htypes := (hmerge.agrees hsound hcomposes hagrees).possibleTypes
  rw [hown, hset, Option.map_some, Option.map_some] at htypes
  rwa [← Option.some.inj htypes]

theorem CanMerge.of_joined {outerStep : Step} (houter : outerStep.type ∈ set.possibleTypes)
    {members : List Selected}
    (hmembers : ∀ member ∈ members, document.SelectsField follow set.selections outerStep member)
    {nested : SelectionSet}
    (hnested : Field.joined? (members.map Selected.conditional) = some nested)
    {first second : Field} (h : document.CanMerge follow nested first second) :
    document.CanMerge follow set first second := by
  cases members with
  | nil => cases hnested
  | cons origin rest =>
    obtain ⟨own, hown, rfl⟩ := Option.map_eq_some_iff.mp hnested
    rw [← List.map_cons, Selected.flatMap_nested_conditional] at h
    induction h with
    | outside htype hfirst hsecond =>
      obtain ⟨member, hmember, piece, hpiece, hin, hfirst⟩ :=
        exists_member_of_joined hsound hcomposes hagrees houter hmembers hown htype hfirst
      obtain ⟨other, hother, otherPiece, hotherPiece, hotherIn, hsecond⟩ :=
        exists_member_of_joined hsound hcomposes hagrees houter hmembers hown htype hsecond
      have hmerge : document.CanMerge follow set member.field other.field :=
        .outside houter (hmembers member hmember) (hmembers other hother)
      exact .inside hmerge hpiece hin hotherPiece hotherIn hfirst hsecond
    | inside _ hinner htype hotherInner hotherType hfirst hsecond ih =>
      exact .inside ih hinner htype hotherInner hotherType hfirst hsecond

omit hagrees in
/-- If a response key stands for the same field throughout the document, then fields that can be
merged are the same apart from conditions and nested selections. -/
theorem agrees_of_heads
    (h : ∀ head ∈ document.heads, ∀ other ∈ document.heads,
      head.responseKey = other.responseKey → head.unconditional = other.unconditional) :
    document.Agrees follow set := by
  intro first second hmerge
  obtain ⟨hfirst, hsecond⟩ := hmerge.composes hsound hcomposes
  refine h first.head (head_mem_heads hfirst) second.head (head_mem_heads hsecond) ?_
  clear hfirst hsecond
  cases hmerge with
  | outside _ hfirst hsecond | inside _ _ _ _ _ hfirst hsecond =>
    obtain ⟨_, _, _, hkey⟩ := hfirst
    obtain ⟨_, _, _, hsame⟩ := hsecond
    exact hkey.trans hsame.symm

end Document

end QueryShape.Typed
