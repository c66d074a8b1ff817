import QueryShape.Proofs.Typed.Inlining
import QueryShape.Proofs.Typed.Occurrences
import QueryShape.Proofs.Typed.WellFormed

/-!
# Inlining puts fragments in the place of spreads

The inlined form of a selection set has no spread at its own level, and inlining it again does not
change it. For each possible type it yields the fields, each with the checks around it, that the set
yields when every spread is replaced in place by the selections of its fragment, exactly where the
type is a possible type of the fragment.
-/

set_option autoImplicit false

namespace QueryShape.Typed

mutual

/-- There is no spread in the selection, apart from those below fields. -/
def Selection.IsSpreadFree : Selection → Prop
  | .leaf _ => True
  | .composite _ _ _ => True
  | .typeCondition _ _ inner => Selection.AllSpreadFree inner
  | .booleanCondition _ _ inner => Selection.AllSpreadFree inner
  | .fragmentSpread _ => False

def Selection.AllSpreadFree : List Selection → Prop
  | [] => True
  | selection :: rest => Selection.IsSpreadFree selection ∧ Selection.AllSpreadFree rest

end

/-- The fields that a list of selections yields for a type, with the checks around them, if every
spread is replaced by its fragment where the type is a possible type of the fragment. -/
inductive Document.Yields (document : Document) (type : String) :
    List Check → List Selection → List Selected → Prop
  | nil {checks : List Check} : Yields document type checks [] []
  | leaf {checks : List Check} {head : FieldHead} {rest : List Selection} {others : List Selected}
      (hrest : Yields document type checks rest others) :
      Yields document type checks (.leaf head :: rest) (⟨⟨head, none⟩, checks⟩ :: others)
  | composite {checks : List Check} {head : FieldHead} {nestedTypes : List String}
      {nested rest : List Selection} {others : List Selected}
      (hrest : Yields document type checks rest others) :
      Yields document type checks (.composite head nestedTypes nested :: rest)
        (⟨⟨head, some ⟨nestedTypes, nested⟩⟩, checks⟩ :: others)
  | satisfied {checks : List Check} {condition : String} {narrowed : List String}
      {inner rest : List Selection} {selected others : List Selected} (htype : type ∈ narrowed)
      (hinner : Yields document type checks inner selected)
      (hrest : Yields document type checks rest others) :
      Yields document type checks (.typeCondition condition narrowed inner :: rest)
        (selected ++ others)
  | unsatisfied {checks : List Check} {condition : String} {narrowed : List String}
      {inner rest : List Selection} {others : List Selected} (htype : type ∉ narrowed)
      (hrest : Yields document type checks rest others) :
      Yields document type checks (.typeCondition condition narrowed inner :: rest) others
  | check {checks : List Check} {check : Check} {innerTypes : List String}
      {inner rest : List Selection} {selected others : List Selected}
      (hinner : Yields document type (checks ++ [check]) inner selected)
      (hrest : Yields document type checks rest others) :
      Yields document type checks (.booleanCondition check innerTypes inner :: rest)
        (selected ++ others)
  | followed {checks : List Check} {name : String} {fragment : Fragment} {rest : List Selection}
      {selected others : List Selected} (hfragment : document.fragment? name = some fragment)
      (happlies : type ∈ fragment.selectionSet.possibleTypes)
      (hinner : Yields document type checks fragment.selectionSet.selections selected)
      (hrest : Yields document type checks rest others) :
      Yields document type checks (.fragmentSpread name :: rest) (selected ++ others)
  | passed {checks : List Check} {name : String} {fragment : Fragment} {rest : List Selection}
      {others : List Selected} (hfragment : document.fragment? name = some fragment)
      (happlies : type ∉ fragment.selectionSet.possibleTypes)
      (hrest : Yields document type checks rest others) :
      Yields document type checks (.fragmentSpread name :: rest) others

namespace Document

variable {document : Document} {type : String}

section

variable {schema : Schema} (hfits : document.FitsSchema schema) {checks : List Check}
  {types : List String} {selections : List Selection} {selected : List Selected}
  (hfit : Selection.AllFit schema document types selections) (htype : type ∈ types)
include hfits hfit htype

-- Where selections fit their sets, the types that are recorded on the set of a spread have every
-- type for which the spread is reached, so that only those of the fragment matter.

theorem Selects.yields (h : document.Selects true type checks types selections selected) :
    document.Yields type checks selections selected := by
  induction h with
  | nil => exact .nil
  | leaf _ ih => exact .leaf (ih hfit.2 htype)
  | composite _ ih => exact .composite (ih hfit.2 htype)
  | satisfied hin _ _ ihInner ih =>
    obtain ⟨⟨_, hinner⟩, hrest⟩ := hfit
    exact .satisfied hin (ihInner hinner hin) (ih hrest htype)
  | unsatisfied hout _ ih => exact .unsatisfied hout (ih hfit.2 htype)
  | check _ _ ihInner ih =>
    obtain ⟨⟨rfl, hinner⟩, hrest⟩ := hfit
    exact .check (ihInner hinner htype) (ih hrest htype)
  | followed _ hfragment _ happlies _ _ ihInner ih =>
    have hinner := hfits _ (hasSet_of_fragment? hfragment)
    exact .followed hfragment happlies (ihInner hinner happlies) (ih hfit.2 htype)
  | passed hpassed _ ih =>
    obtain ⟨⟨fragment, hfragment, _⟩, hrest⟩ := hfit
    exact .passed hfragment (fun happlies => hpassed rfl fragment hfragment ⟨htype, happlies⟩)
      (ih hrest htype)

theorem Yields.selects (h : document.Yields type checks selections selected) :
    document.Selects true type checks types selections selected := by
  induction h generalizing types with
  | nil => exact .nil
  | leaf _ ih => exact .leaf (ih hfit.2 htype)
  | composite _ ih => exact .composite (ih hfit.2 htype)
  | satisfied hin _ _ ihInner ih =>
    obtain ⟨⟨_, hinner⟩, hrest⟩ := hfit
    exact .satisfied hin (ihInner hinner hin) (ih hrest htype)
  | unsatisfied hout _ ih => exact .unsatisfied hout (ih hfit.2 htype)
  | check _ _ ihInner ih =>
    obtain ⟨⟨rfl, hinner⟩, hrest⟩ := hfit
    exact .check (ihInner hinner htype) (ih hrest htype)
  | followed hfragment happlies _ _ ihInner ih =>
    have hinner := hfits _ (hasSet_of_fragment? hfragment)
    exact .followed rfl hfragment htype happlies (ihInner hinner happlies) (ih hfit.2 htype)
  | passed hfragment hnot _ ih =>
    refine .passed (fun _ other hother => ?_) (ih hfit.2 htype)
    obtain rfl := Option.some.inj (hfragment.symm.trans hother)
    exact fun happlies => hnot happlies.2

end

end Document

namespace Selection

variable {expand : List String → String → Except FragmentError Selection}

theorem allSpreadFree_of_allInlined
    (hexpand : ∀ types name expanded, expand types name = .ok expanded → expanded.IsSpreadFree)
    {types : List String} {selections inlinedAll : List Selection}
    (h : allInlined expand types selections = .ok inlinedAll) : AllSpreadFree inlinedAll := by
  induction selections using listInduction generalizing types inlinedAll with
  | nil =>
    cases h
    trivial
  | leaf head rest ih =>
    obtain ⟨_, hfirst, others, hothers, rfl⟩ := allInlined_cons_eq_ok.mp h
    cases hfirst
    exact ⟨trivial, ih hothers⟩
  | composite head nestedTypes nested rest _ ih =>
    obtain ⟨_, hfirst, others, hothers, rfl⟩ := allInlined_cons_eq_ok.mp h
    cases hfirst
    exact ⟨trivial, ih hothers⟩
  | typeCondition condition narrowed inner rest ihInner ih =>
    obtain ⟨_, hfirst, others, hothers, rfl⟩ := allInlined_cons_eq_ok.mp h
    simp only [inlined, Outcome.bind_eq_ok, Outcome.pure_eq_ok] at hfirst
    obtain ⟨first, hfirst, rfl⟩ := hfirst
    exact ⟨ihInner hfirst, ih hothers⟩
  | booleanCondition check innerTypes inner rest ihInner ih =>
    obtain ⟨_, hfirst, others, hothers, rfl⟩ := allInlined_cons_eq_ok.mp h
    simp only [inlined, Outcome.bind_eq_ok, Outcome.pure_eq_ok] at hfirst
    obtain ⟨first, hfirst, rfl⟩ := hfirst
    exact ⟨ihInner hfirst, ih hothers⟩
  | fragmentSpread name rest ih =>
    obtain ⟨_, hfirst, others, hothers, rfl⟩ := allInlined_cons_eq_ok.mp h
    exact ⟨hexpand types name _ hfirst, ih hothers⟩

theorem allInlined_of_allSpreadFree {selections : List Selection} (h : AllSpreadFree selections)
    (types : List String) : allInlined expand types selections = .ok selections := by
  induction selections using listInduction generalizing types with
  | nil => rfl
  | leaf head rest ih => exact allInlined_cons_eq_ok.mpr ⟨_, rfl, rest, ih h.2 types, rfl⟩
  | composite head nestedTypes nested rest _ ih =>
    exact allInlined_cons_eq_ok.mpr ⟨_, rfl, rest, ih h.2 types, rfl⟩
  | typeCondition condition narrowed inner rest ihInner ih =>
    refine allInlined_cons_eq_ok.mpr ⟨_, ?_, rest, ih h.2 types, rfl⟩
    rw [inlined, ihInner h.1 narrowed]
    rfl
  | booleanCondition check innerTypes inner rest ihInner ih =>
    refine allInlined_cons_eq_ok.mpr ⟨_, ?_, rest, ih h.2 types, rfl⟩
    rw [inlined, ihInner h.1 innerTypes]
    rfl
  | fragmentSpread name rest _ => exact absurd h.1 id

end Selection

namespace Document

theorem isSpreadFree_of_expansion (document : Document) (bound : Nat) {types : List String}
    {name : String} {expanded : Selection}
    (h : document.expansion bound types name = .ok expanded) : expanded.IsSpreadFree := by
  induction bound generalizing types name expanded with
  | zero =>
    simp only [expansion, Outcome.bind_eq_ok] at h
    obtain ⟨_, _, h⟩ := h
    cases h
  | succ bound ih =>
    simp only [expansion, Outcome.bind_eq_ok, Outcome.pure_eq_ok] at h
    obtain ⟨fragment, _, inner, hinner, rfl⟩ := h
    exact Selection.allSpreadFree_of_allInlined (fun _ _ _ => ih) hinner

theorem allSpreadFree_of_inlined {document : Document} {set merged : SelectionSet}
    (h : document.inlined set = .ok merged) : Selection.AllSpreadFree merged.selections := by
  simp only [inlined, Outcome.bind_eq_ok, Outcome.pure_eq_ok] at h
  obtain ⟨selections, hselections, rfl⟩ := h
  exact Selection.allSpreadFree_of_allInlined
    (fun _ _ _ => document.isSpreadFree_of_expansion _) hselections

theorem inlined_of_allSpreadFree (document : Document) {set : SelectionSet}
    (h : Selection.AllSpreadFree set.selections) : document.inlined set = .ok set := by
  rw [inlined, Selection.allInlined_of_allSpreadFree h]
  rfl

variable {schema : Schema} {options : Options} {filePath : Option String}
  {source : Source.Document} {document : Document} {set : SelectionSet}

/-- Every selection set of a compiled document can be inlined. The result has the same possible
types and no spread, yields for each of them what the set yields with all fragments in place, in
order and under the same checks, and does not change when it is inlined again. -/
theorem inlined_in_place
    (hcompile : Document.compile schema options filePath source = .ok document)
    (hset : document.HasSet set) :
    ∃ merged, document.inlined set = .ok merged ∧
      merged.possibleTypes = set.possibleTypes ∧
      Selection.AllSpreadFree merged.selections ∧
      (∀ type ∈ set.possibleTypes, ∀ selected,
        document.Yields type [] set.selections selected ↔ selected = merged.selectedFor type) ∧
      document.inlined merged = .ok merged := by
  have hsound := isSound_of_compile hcompile
  obtain ⟨merged, hmerged⟩ := exists_inlined hsound.closed hsound.acyclic
    (hset.defines hsound.closed)
  have hfree := allSpreadFree_of_inlined hmerged
  refine ⟨merged, hmerged, (selects_of_inlined hmerged "").1, hfree, fun type htype selected => ?_,
    document.inlined_of_allSpreadFree hfree⟩
  have hfit := hsound.fits set hset
  have hselects := (selects_of_inlined hmerged type).2
  constructor
  · exact fun hyields => (hyields.selects hsound.fits hfit htype).unique hselects
  · rintro rfl
    exact hselects.yields hsound.fits hfit htype

theorem inlined_in_place_animalsWhen :
    ∃ (document : Document) (set merged : SelectionSet),
      Document.compile Schema.animals {} none animalsWhen = .ok document ∧
      document.HasSet set ∧ set.spreads = ["OfAnimals"] ∧
      document.inlined set = .ok merged ∧
      (∀ selected, document.Yields "Cat" [] set.selections selected ↔
        selected = merged.selectedFor "Cat") ∧
      (merged.selectedFor "Cat").map (fun member => (member.field.responseKey, member.checks)) =
        [("name", []), ("prey", [⟨"c", false⟩])] ∧
      document.inlined merged = .ok merged := by
  obtain ⟨document, hcompile⟩ : ∃ document,
      Document.compile Schema.animals {} none animalsWhen = .ok document :=
    Outcome.exists_eq_ok (by decide +kernel)
  have hset : ((Document.compile Schema.animals {} none animalsWhen).toOption.bind
      fun document => (document.operation? "Q").bind fun operation =>
        (operation.selectionSet.descend? [0]).map fun set => (set.possibleTypes, set.spreads)) =
      some (["Dog", "Cat"], ["OfAnimals"]) := by decide +kernel
  have hselected : ((Document.compile Schema.animals {} none animalsWhen).toOption.bind
      fun document => (document.operation? "Q").bind fun operation =>
        (operation.selectionSet.descend? [0]).bind fun set =>
          (document.inlined set).toOption.map fun merged => (merged.selectedFor "Cat").map
            fun member => (member.field.responseKey, member.checks)) =
      some [("name", []), ("prey", [⟨"c", false⟩])] := by decide +kernel
  rw [hcompile, Except.toOption, Option.bind_some] at hset hselected
  obtain ⟨operation, hoperation, hset⟩ := Option.bind_eq_some_iff.mp hset
  obtain ⟨set, hdescend, hset⟩ := Option.map_eq_some_iff.mp hset
  obtain ⟨htypes, hspreads⟩ := Prod.mk.inj hset
  have hroot : document.HasSet operation.selectionSet :=
    .root (.operation (List.mem_of_find?_eq_some hoperation))
  have hin := hroot.descend hdescend
  obtain ⟨merged, hmerged, _, _, hyields, hagain⟩ := inlined_in_place hcompile hin
  rw [hoperation, Option.bind_some, hdescend, Option.bind_some, hmerged] at hselected
  have hselected := Option.some.inj hselected
  exact ⟨document, set, merged, hcompile, hin, hspreads, hmerged, hyields "Cat" (by simp [htypes]),
    hselected, hagain⟩

end Document

end QueryShape.Typed
