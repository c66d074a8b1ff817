import QueryShape.Proofs.Outcome
import QueryShape.Proofs.Typed.Fragments
import QueryShape.Proofs.Typed.Selected
import QueryShape.Typed.Inlining

/-!
# Inlining follows spreads

In a closed and acyclic document every selection set can be inlined. For each of its types the
result selects outside of fragments what the set selects when its spreads are followed.
-/

set_option autoImplicit false

namespace QueryShape.Typed

namespace Selection

variable {expand : List String → String → Except FragmentError Selection}

theorem allInlined_cons_eq_ok {types : List String} {selection : Selection}
    {rest inlinedAll : List Selection} :
    allInlined expand types (selection :: rest) = .ok inlinedAll ↔
      ∃ first, inlined expand types selection = .ok first ∧
        ∃ others, allInlined expand types rest = .ok others ∧ first :: others = inlinedAll := by
  simp only [allInlined, Outcome.bind_eq_ok, Outcome.pure_eq_ok]

theorem exists_allInlined {selections : List Selection}
    (h : ∀ name ∈ allSpreads selections, ∀ types, ∃ expanded, expand types name = .ok expanded)
    (types : List String) : ∃ inlinedAll, allInlined expand types selections = .ok inlinedAll := by
  induction selections using listInduction generalizing types with
  | nil => exact ⟨[], rfl⟩
  | leaf head rest ih =>
    obtain ⟨others, hothers⟩ := ih h types
    exact ⟨_, allInlined_cons_eq_ok.mpr ⟨_, rfl, others, hothers, rfl⟩⟩
  | composite head nestedTypes nested rest _ ih =>
    obtain ⟨others, hothers⟩ := ih (fun name hname => h name (List.mem_append_right _ hname)) types
    exact ⟨_, allInlined_cons_eq_ok.mpr ⟨_, rfl, others, hothers, rfl⟩⟩
  | typeCondition condition narrowed inner rest ihInner ih =>
    obtain ⟨others, hothers⟩ := ih (fun name hname => h name (List.mem_append_right _ hname)) types
    obtain ⟨first, hfirst⟩ :=
      ihInner (fun name hname => h name (List.mem_append_left _ hname)) narrowed
    refine ⟨_, allInlined_cons_eq_ok.mpr ⟨.typeCondition condition narrowed first, ?_, others,
      hothers, rfl⟩⟩
    simp only [inlined, hfirst]
    rfl
  | booleanCondition check innerTypes inner rest ihInner ih =>
    obtain ⟨others, hothers⟩ := ih (fun name hname => h name (List.mem_append_right _ hname)) types
    obtain ⟨first, hfirst⟩ :=
      ihInner (fun name hname => h name (List.mem_append_left _ hname)) innerTypes
    refine ⟨_, allInlined_cons_eq_ok.mpr ⟨.booleanCondition check innerTypes first, ?_, others,
      hothers, rfl⟩⟩
    simp only [inlined, hfirst]
    rfl
  | fragmentSpread name rest ih =>
    obtain ⟨others, hothers⟩ := ih (fun name hname => h name (List.mem_append_right _ hname)) types
    obtain ⟨first, hfirst⟩ := h name (List.mem_append_left _ (List.mem_singleton.mpr rfl)) types
    exact ⟨_, allInlined_cons_eq_ok.mpr ⟨first, hfirst, others, hothers, rfl⟩⟩

end Selection

namespace Document

variable {document : Document}

theorem exists_expansion (hclosed : document.IsClosed) (hacyclic : document.IsAcyclic) {bound : Nat}
    {name : String} (hname : (document.fragment? name).isSome)
    (hbound : document.reachCost (fun _ => 1) name ≤ bound) (types : List String) :
    ∃ expanded, document.expansion bound types name = .ok expanded := by
  obtain ⟨fragment, hfragment⟩ := Option.isSome_iff_exists.mp hname
  -- Following a spread leaves at least one fragment behind, so that the cost goes down with the
  -- bound.
  induction bound generalizing name fragment types with
  | zero =>
    have hcost := le_reachCost (fun _ => 1) hfragment
    omega
  | succ bound ih =>
    have hinner : ∀ next ∈ Selection.allSpreads fragment.selectionSet.selections, ∀ types,
        ∃ expanded, document.expansion bound types next = .ok expanded := by
      intro next hnext types
      have hcost := reachCost_add_le hacyclic (fun _ => 1) hfragment hnext
      have hdefined := hclosed.defines hfragment next hnext
      obtain ⟨nextFragment, hnextFragment⟩ := Option.isSome_iff_exists.mp hdefined
      exact ih hdefined (by omega) types nextFragment hnextFragment
    obtain ⟨inner, hinner⟩ := Selection.exists_allInlined hinner
      (PossibleTypes.intersect types fragment.selectionSet.possibleTypes)
    refine ⟨.typeCondition fragment.type
      (PossibleTypes.intersect types fragment.selectionSet.possibleTypes) inner, ?_⟩
    simp only [expansion, requireFragment_eq_ok.mpr hfragment, Outcome.bind_eq_ok,
      Outcome.pure_eq_ok]
    exact ⟨fragment, rfl, inner, hinner, rfl⟩

theorem exists_inlined (hclosed : document.IsClosed) (hacyclic : document.IsAcyclic)
    {set : SelectionSet} (hset : document.Defines set.selections) :
    ∃ merged, document.inlined set = .ok merged := by
  have hexpand : ∀ name ∈ Selection.allSpreads set.selections, ∀ types, ∃ expanded,
      document.expansion document.fragments.length types name = .ok expanded := by
    intro name hname types
    apply exists_expansion hclosed hacyclic (hset name hname)
    have hcost : document.reachCost (fun _ => 1) name ≤ (document.fragments.map fun _ => 1).sum :=
      reachCost_le _ name
    simpa using hcost
  obtain ⟨selections, hselections⟩ := Selection.exists_allInlined hexpand set.possibleTypes
  refine ⟨{ set with selections }, ?_⟩
  simp only [inlined, Outcome.bind_eq_ok, Outcome.pure_eq_ok]
  exact ⟨selections, hselections, rfl⟩

/-- What an expanded spread selects is what its fragment selects, for the types that it applies to.
-/
def Expands (document : Document) (type : String)
    (expand : List String → String → Except FragmentError Selection) : Prop :=
  ∀ types name expanded, expand types name = .ok expanded →
    ∃ fragment inner, document.fragment? name = some fragment ∧
      expanded = .typeCondition fragment.type
        (PossibleTypes.intersect types fragment.selectionSet.possibleTypes) inner ∧
      ∀ checks, type ∈ types → type ∈ fragment.selectionSet.possibleTypes →
        document.Selects true type checks fragment.selectionSet.possibleTypes
          fragment.selectionSet.selections (Selection.allSelectedFor type checks inner)

theorem Expands.selects {type : String}
    {expand : List String → String → Except FragmentError Selection}
    (hexpand : document.Expands type expand) {types recorded : List String}
    (htypes : type ∈ types ↔ type ∈ recorded) (checks : List Check)
    {selections inlinedAll : List Selection}
    (h : Selection.allInlined expand types selections = .ok inlinedAll) :
    document.Selects true type checks recorded selections
      (Selection.allSelectedFor type checks inlinedAll) := by
  induction selections using Selection.listInduction generalizing types recorded checks inlinedAll
    with
  | nil =>
    cases h
    exact .nil
  | leaf head rest ih =>
    obtain ⟨_, hfirst, others, hothers, rfl⟩ := Selection.allInlined_cons_eq_ok.mp h
    cases hfirst
    exact .leaf (ih htypes checks hothers)
  | composite head nestedTypes nested rest _ ih =>
    obtain ⟨_, hfirst, others, hothers, rfl⟩ := Selection.allInlined_cons_eq_ok.mp h
    cases hfirst
    exact .composite (ih htypes checks hothers)
  | typeCondition condition narrowed inner rest ihInner ih =>
    obtain ⟨_, hfirst, others, hothers, rfl⟩ := Selection.allInlined_cons_eq_ok.mp h
    simp only [Selection.inlined, Outcome.bind_eq_ok, Outcome.pure_eq_ok] at hfirst
    obtain ⟨first, hfirst, rfl⟩ := hfirst
    rw [Selection.allSelectedFor, Selection.selectedFor]
    split
    · rename_i htype
      exact .satisfied htype (ihInner Iff.rfl checks hfirst) (ih htypes checks hothers)
    · rename_i htype
      exact .unsatisfied htype (ih htypes checks hothers)
  | booleanCondition check innerTypes inner rest ihInner ih =>
    obtain ⟨_, hfirst, others, hothers, rfl⟩ := Selection.allInlined_cons_eq_ok.mp h
    simp only [Selection.inlined, Outcome.bind_eq_ok, Outcome.pure_eq_ok] at hfirst
    obtain ⟨first, hfirst, rfl⟩ := hfirst
    exact .check (ihInner Iff.rfl (checks ++ [check]) hfirst) (ih htypes checks hothers)
  | fragmentSpread name rest ih =>
    obtain ⟨_, hfirst, others, hothers, rfl⟩ := Selection.allInlined_cons_eq_ok.mp h
    obtain ⟨fragment, inner, hfragment, rfl, hinner⟩ := hexpand types name _ hfirst
    rw [Selection.allSelectedFor, Selection.selectedFor]
    split
    · rename_i htype
      obtain ⟨hin, happlies⟩ := PossibleTypes.mem_intersect.mp htype
      exact .followed rfl hfragment (htypes.mp hin) happlies (hinner checks hin happlies)
        (ih htypes checks hothers)
    · rename_i htype
      refine .passed (fun _ other hother => ?_) (ih htypes checks hothers)
      rw [hfragment] at hother
      cases hother
      rw [← htypes, ← PossibleTypes.mem_intersect]
      exact htype

theorem expands_expansion (document : Document) (type : String) (bound : Nat) :
    document.Expands type (document.expansion bound) := by
  induction bound with
  | zero =>
    intro types name expanded h
    simp only [expansion, Outcome.bind_eq_ok] at h
    obtain ⟨_, _, h⟩ := h
    cases h
  | succ bound ih =>
    intro types name expanded h
    simp only [expansion, Outcome.bind_eq_ok, Outcome.pure_eq_ok] at h
    obtain ⟨fragment, hfragment, inner, hinner, rfl⟩ := h
    refine ⟨fragment, inner, requireFragment_eq_ok.mp hfragment, rfl, ?_⟩
    intro checks htype happlies
    exact ih.selects (by simp [htype, happlies]) checks hinner

/-- Inlining a selection set keeps its possible types, and what it selects for each of them. -/
theorem selects_of_inlined {set merged : SelectionSet} (h : document.inlined set = .ok merged)
    (type : String) :
    merged.possibleTypes = set.possibleTypes ∧
      document.Selects true type [] set.possibleTypes set.selections
        (Selection.allSelectedFor type [] merged.selections) := by
  simp only [inlined, Outcome.bind_eq_ok, Outcome.pure_eq_ok] at h
  obtain ⟨selections, hselections, rfl⟩ := h
  exact ⟨rfl, (document.expands_expansion type _).selects Iff.rfl [] hselections⟩

end Document

end QueryShape.Typed
