import QueryShape.Proofs.Typed.Fitting
import QueryShape.Proofs.Typed.Inlining
import QueryShape.Proofs.Typed.Spreads

/-!
# Following spreads one after another

What a selection set selects for a type when spreads are followed is what it selects when they are
passed over, together with what the fragments select that are spread where the type satisfies all
conditions. The checks around a spread are added to those inside the fragment.
-/

set_option autoImplicit false

namespace QueryShape.Typed

theorem exists_mem_append {α : Type} {first second : List α} {holds : α → Prop} :
    (∃ x ∈ first ++ second, holds x) ↔ (∃ x ∈ first, holds x) ∨ ∃ x ∈ second, holds x := by
  simp only [List.mem_append, or_and_right, exists_or]

theorem Selection.Spreads.exists_fragment {schema : Schema} {document : Document} {type : String}
    {types : List String} {selections : List Selection} {name : String}
    (h : Selection.Spreads [type] selections name)
    (hfit : Selection.AllFit schema document types selections) (htype : type ∈ types) :
    ∃ fragment, document.fragment? name = some fragment ∧
      type ∈ fragment.selectionSet.possibleTypes := by
  induction h generalizing types with
  | spread =>
    obtain ⟨⟨fragment, hfragment, happlies⟩, _⟩ := hfit
    exact ⟨fragment, hfragment, happlies type htype⟩
  | typeCondition hnarrowed _ ih =>
    obtain ⟨⟨_, hinner⟩, _⟩ := hfit
    exact ih hinner (hnarrowed type List.mem_cons_self)
  | check _ ih =>
    obtain ⟨⟨_, hinner⟩, _⟩ := hfit
    exact ih hinner htype
  | later _ ih => exact ih hfit.2 htype

def Selected.within (before : List Check) (selected : Selected) : Selected :=
  ⟨selected.field, before ++ selected.checks⟩

@[simp] theorem Selected.field_within (before : List Check) (selected : Selected) :
    (selected.within before).field = selected.field :=
  rfl

@[simp] theorem Selected.map_within_nil (selected : List Selected) :
    selected.map (within []) = selected := by
  exact List.map_id selected

namespace Document

variable {document : Document} {type : String}

/-- Selecting under further checks adds them to what is selected. Of the types of the set it only
matters whether the type is among them. -/
theorem Selects.within {follow : Bool} {checks : List Check} {types others : List String}
    {selections : List Selection} {selected : List Selected}
    (h : document.Selects follow type checks types selections selected) (before : List Check)
    (htypes : type ∈ types ↔ type ∈ others) :
    document.Selects follow type (before ++ checks) others selections
      (selected.map (Selected.within before)) := by
  induction h generalizing others with
  | nil => exact .nil
  | leaf _ ih => exact .leaf (ih htypes)
  | composite _ ih => exact .composite (ih htypes)
  | satisfied htype _ _ ihInner ih =>
    rw [List.map_append]
    exact .satisfied htype (ihInner Iff.rfl) (ih htypes)
  | unsatisfied htype _ ih => exact .unsatisfied htype (ih htypes)
  | check _ _ ihInner ih =>
    rw [List.map_append]
    refine .check ?_ (ih htypes)
    rw [List.append_assoc]
    exact ihInner Iff.rfl
  | followed hfollow hfragment htype happlies _ _ ihInner ih =>
    rw [List.map_append]
    exact .followed hfollow hfragment (htypes.mp htype) happlies (ihInner Iff.rfl) (ih htypes)
  | passed hpassed _ ih =>
    refine .passed (fun hfollow fragment hfragment => ?_) (ih htypes)
    rw [← htypes]
    exact hpassed hfollow fragment hfragment

theorem Selects.over {follow : Bool} {checks : List Check} {types others : List String}
    {selections : List Selection} {selected : List Selected}
    (h : document.Selects follow type checks types selections selected)
    (htypes : type ∈ types ↔ type ∈ others) :
    document.Selects follow type checks others selections selected := by
  have hsame := h.within [] htypes
  rwa [Selected.map_within_nil] at hsame

theorem exists_selects {follow : Bool} (hclosed : document.IsClosed)
    (hacyclic : follow = true → document.IsAcyclic) {selections : List Selection}
    (hdefines : document.Defines selections) (type : String) (types : List String) :
    ∃ selected, document.Selects follow type [] types selections selected := by
  cases follow with
  | false => exact ⟨_, .of_passing document type [] types selections⟩
  | true =>
    have hset : document.Defines (SelectionSet.mk types selections).selections := hdefines
    obtain ⟨merged, hmerged⟩ := exists_inlined hclosed (hacyclic rfl) hset
    exact ⟨_, (selects_of_inlined hmerged type).2⟩

def FragmentSelects (document : Document) (type key name : String) : Prop :=
  ∃ fragment, document.fragment? name = some fragment ∧ ∃ selected,
    document.Selects true type [] fragment.selectionSet.possibleTypes
      fragment.selectionSet.selections selected ∧
    ∃ member ∈ selected, member.field.responseKey = key

variable {schema : Schema} {key : String}

theorem fragmentSelects_iff (hclosed : document.IsClosed) (hacyclic : document.IsAcyclic)
    {name : String} {fragment : Fragment} (hfragment : document.fragment? name = some fragment)
    {checks : List Check} {selected : List Selected}
    (h : document.Selects true type checks fragment.selectionSet.possibleTypes
      fragment.selectionSet.selections selected) :
    document.FragmentSelects type key name ↔
      ∃ member ∈ selected, member.field.responseKey = key := by
  have hself : ∀ bare, document.Selects true type [] fragment.selectionSet.possibleTypes
      fragment.selectionSet.selections bare → bare.map (Selected.within checks) = selected := by
    intro bare hbare
    have hwithin := hbare.within checks Iff.rfl
    rw [List.append_nil] at hwithin
    exact hwithin.unique h
  have hkeys : ∀ bare : List Selected,
      (∃ member ∈ bare.map (Selected.within checks), member.field.responseKey = key) ↔
        ∃ member ∈ bare, member.field.responseKey = key := by
    simp
  constructor
  · rintro ⟨other, hother, bare, hbare, hmember⟩
    obtain rfl := Option.some.inj (hfragment.symm.trans hother)
    rw [← hself bare hbare]
    exact (hkeys bare).mpr hmember
  · intro hmember
    obtain ⟨bare, hbare⟩ :=
      exists_selects hclosed (fun _ => hacyclic) (hclosed.defines hfragment) type
        fragment.selectionSet.possibleTypes
    rw [← hself bare hbare] at hmember
    exact ⟨fragment, hfragment, bare, hbare, (hkeys bare).mp hmember⟩

/-- The keys selected with spreads followed are those selected without and those of the fragments
that are spread where they apply. -/
theorem Selects.exists_key_iff (hclosed : document.IsClosed) (hacyclic : document.IsAcyclic)
    {checks : List Check} {types recorded : List String} {selections : List Selection}
    {selected : List Selected} (hfit : Selection.AllFit schema document types selections)
    (htype : type ∈ types) (hrecorded : type ∈ recorded)
    (h : document.Selects true type checks recorded selections selected) :
    (∃ member ∈ selected, member.field.responseKey = key) ↔
      (∃ member ∈ Selection.allSelectedFor type checks selections,
        member.field.responseKey = key) ∨
      ∃ name ∈ Selection.allSpreadsFor [type] selections,
        document.FragmentSelects type key name := by
  -- Where the selections fit, a spread that is reached applies to the type, so that none of them is
  -- passed over.
  induction h generalizing types with
  | nil => simp [Selection.allSelectedFor, Selection.allSpreadsFor]
  | leaf _ ih =>
    rw [List.exists_mem_cons_iff, ih hfit.2 htype hrecorded]
    simp [Selection.allSelectedFor, Selection.selectedFor, Selection.allSpreadsFor,
      Selection.spreadsFor, or_assoc]
  | composite _ ih =>
    rw [List.exists_mem_cons_iff, ih hfit.2 htype hrecorded]
    simp [Selection.allSelectedFor, Selection.selectedFor, Selection.allSpreadsFor,
      Selection.spreadsFor, or_assoc]
  | satisfied hin _ _ ihInner ih =>
    obtain ⟨⟨rfl, hinner⟩, hrest⟩ := hfit
    have hcontained : PossibleTypes.contained [type] (PossibleTypes.intersect types
        (schema.possibleTypes _)) = true :=
      PossibleTypes.contained_eq_true.mpr (List.forall_mem_singleton.mpr hin)
    rw [exists_mem_append, ihInner hinner hin hin, ih hrest htype hrecorded, or_or_or_comm,
      ← exists_mem_append, ← exists_mem_append, Selection.allSelectedFor,
      Selection.selectedFor, if_pos hin, Selection.allSpreadsFor, Selection.spreadsFor,
      if_pos hcontained]
  | unsatisfied hout _ ih =>
    have hcontained : ¬PossibleTypes.contained [type] _ = true := fun hall =>
      hout (PossibleTypes.contained_eq_true.mp hall type List.mem_cons_self)
    rw [ih hfit.2 htype hrecorded, Selection.allSelectedFor, Selection.selectedFor, if_neg hout,
      Selection.allSpreadsFor, Selection.spreadsFor, if_neg hcontained]
    rfl
  | check _ _ ihInner ih =>
    obtain ⟨⟨rfl, hinner⟩, hrest⟩ := hfit
    rw [exists_mem_append, ihInner hinner htype htype, ih hrest htype hrecorded,
      or_or_or_comm, ← exists_mem_append, ← exists_mem_append]
    rfl
  | followed _ hfragment _ _ hinner _ _ ih =>
    rw [exists_mem_append, ih hfit.2 htype hrecorded,
      ← fragmentSelects_iff hclosed hacyclic hfragment hinner, or_left_comm,
      ← List.exists_mem_cons_iff]
    rfl
  | passed hpassed _ ih =>
    obtain ⟨⟨fragment, hfragment, happlies⟩, _⟩ := hfit
    exact absurd ⟨hrecorded, happlies _ htype⟩ (hpassed rfl fragment hfragment)

end Document

end QueryShape.Typed
