import QueryShape.Proofs.Typed.References

/-!
# References are what the selections depend on

A selection set depends on the fragments that are spread in it at any depth and on those that they
depend on in turn. Its references are gathered by a recursion through selections and fragments that
enters no fragment twice and stops at one that is missing. The recursion ends for every document,
also if fragments spread themselves or each other: the walk that lists the references is bounded by
the number of fragments, and has the same result.
-/

set_option autoImplicit false

namespace QueryShape.Typed

inductive Selection.Mentions : List Selection → String → Prop
  | here {name : String} {rest : List Selection} : Mentions (.fragmentSpread name :: rest) name
  | inside {selection : Selection} {inner : SelectionSet} {rest : List Selection} {name : String}
      (hinner : selection.selectionSet? = some inner) (hname : Mentions inner.selections name) :
      Mentions (selection :: rest) name
  | later {selection : Selection} {rest : List Selection} {name : String}
      (hname : Mentions rest name) : Mentions (selection :: rest) name

theorem Selection.mentions_iff {selections : List Selection} {name : String} :
    Mentions selections name ↔ name ∈ allSpreads selections := by
  constructor
  · intro h
    induction h with
    | here => exact List.mem_cons_self
    | @inside selection inner rest name hinner _ ih =>
      cases selection with
      | leaf | fragmentSpread => cases hinner
      | composite | typeCondition | booleanCondition =>
        cases hinner
        exact List.mem_append_left _ ih
    | later _ ih => exact List.mem_append_right _ ih
  · intro h
    induction selections using listInduction with
    | nil => cases h
    | leaf head rest ih => exact .later (ih h)
    | composite head types nested rest ihNested ih =>
      exact (List.mem_append.mp h).elim (fun h => .inside rfl (ihNested h)) fun h => .later (ih h)
    | typeCondition type narrowed inner rest ihInner ih =>
      exact (List.mem_append.mp h).elim (fun h => .inside rfl (ihInner h)) fun h => .later (ih h)
    | booleanCondition check types inner rest ihInner ih =>
      exact (List.mem_append.mp h).elim (fun h => .inside rfl (ihInner h)) fun h => .later (ih h)
    | fragmentSpread other rest ih =>
      rcases List.mem_cons.mp h with rfl | h
      · exact .here
      · exact .later (ih h)

namespace Document

/-- The set depends on the fragment of the name, directly or through other fragments, whether or not
there is one. -/
inductive DependsOn (document : Document) (set : SelectionSet) : String → Prop
  | direct {name : String} (hname : Selection.Mentions set.selections name) :
      DependsOn document set name
  | through {name next : String} {fragment : Fragment} (hname : DependsOn document set name)
      (hfragment : document.fragment? name = some fragment)
      (hnext : Selection.Mentions fragment.selectionSet.selections next) :
      DependsOn document set next

/-- Gathering the names of fragments through selections, from the names that are reached so far to
those that are reached then. Fragments are entered when they are reached; one that is missing ends
it all. -/
inductive Gathers (document : Document) : List Selection → Except FragmentError (List String) →
    Except FragmentError (List String) → Prop
  | failed {selections : List Selection} {error : FragmentError} :
      Gathers document selections (.error error) (.error error)
  | nil {reached : List String} : Gathers document [] (.ok reached) (.ok reached)
  | leaf {head : FieldHead} {rest : List Selection} {reached : List String}
      {result : Except FragmentError (List String)}
      (hrest : Gathers document rest (.ok reached) result) :
      Gathers document (.leaf head :: rest) (.ok reached) result
  | inside {selection : Selection} {inner : SelectionSet} {rest : List Selection}
      {reached : List String} {further result : Except FragmentError (List String)}
      (hinner : selection.selectionSet? = some inner)
      (hfurther : Gathers document inner.selections (.ok reached) further)
      (hrest : Gathers document rest further result) :
      Gathers document (selection :: rest) (.ok reached) result
  | known {name : String} {rest : List Selection} {reached : List String}
      {result : Except FragmentError (List String)} (hname : name ∈ reached)
      (hrest : Gathers document rest (.ok reached) result) :
      Gathers document (.fragmentSpread name :: rest) (.ok reached) result
  | missing {name : String} {rest : List Selection} {reached : List String} (hname : name ∉ reached)
      (hmissing : document.fragment? name = none) :
      Gathers document (.fragmentSpread name :: rest) (.ok reached)
        (.error (.missing name document.fragmentNames))
  | entered {name : String} {fragment : Fragment} {rest : List Selection} {reached : List String}
      {further result : Except FragmentError (List String)} (hname : name ∉ reached)
      (hfragment : document.fragment? name = some fragment)
      (hfurther : Gathers document fragment.selectionSet.selections (.ok (reached ++ [name]))
        further)
      (hrest : Gathers document rest further result) :
      Gathers document (.fragmentSpread name :: rest) (.ok reached) result

variable {document : Document}

theorem dependsOn_iff {set : SelectionSet} {name : String} :
    document.DependsOn set name ↔ document.Reaches set name := by
  constructor
  · intro h
    induction h with
    | direct hname => exact ⟨_, Selection.mentions_iff.mp hname, .refl⟩
    | through _ hfragment hnext ih =>
      obtain ⟨start, hstart, hreaches⟩ := ih
      refine ⟨start, hstart, hreaches.tail ?_⟩
      rw [spreadsOf_eq hfragment]
      exact Selection.mentions_iff.mp hnext
  · rintro ⟨start, hstart, hreaches⟩
    induction hreaches with
    | refl => exact .direct (Selection.mentions_iff.mpr hstart)
    | @tail previous next _ hstep ih =>
      cases hfragment : document.fragment? previous with
      | none =>
        rw [spreadsOf, hfragment] at hstep
        cases hstep
      | some fragment =>
        rw [spreadsOf_eq hfragment] at hstep
        exact .through ih hfragment (Selection.mentions_iff.mpr hstep)

theorem Gathers.unique {selections : List Selection}
    {start first second : Except FragmentError (List String)}
    (hfirst : document.Gathers selections start first)
    (hsecond : document.Gathers selections start second) : first = second := by
  induction hfirst generalizing second with
  | failed =>
    cases hsecond
    rfl
  | nil =>
    cases hsecond
    rfl
  | leaf _ ih =>
    cases hsecond with
    | leaf hrest => exact ih hrest
    | inside hinner _ _ => cases hinner
  | inside hinner _ _ ihFurther ih =>
    cases hsecond with
    | inside hinner' hfurther hrest =>
      obtain rfl := Option.some.inj (hinner.symm.trans hinner')
      obtain rfl := ihFurther hfurther
      exact ih hrest
    | leaf | known | missing | entered => cases hinner
  | known hname _ ih =>
    cases hsecond with
    | inside hinner _ _ => cases hinner
    | known _ hrest => exact ih hrest
    | missing hnot _ => exact absurd hname hnot
    | entered hnot _ _ _ => exact absurd hname hnot
  | missing hnot hmissing =>
    cases hsecond with
    | inside hinner _ _ => cases hinner
    | known hname _ => exact absurd hname hnot
    | missing _ _ => rfl
    | entered _ hfragment _ _ => cases hmissing.symm.trans hfragment
  | entered hnot hfragment _ _ ihFurther ih =>
    cases hsecond with
    | inside hinner _ _ => cases hinner
    | known hname _ => exact absurd hname hnot
    | missing _ hmissing => cases hmissing.symm.trans hfragment
    | entered _ hfragment' hfurther hrest =>
      obtain rfl := Option.some.inj (hfragment.symm.trans hfragment')
      obtain rfl := ihFurther hfurther
      exact ih hrest

theorem checked_eq_error {names : List String} {error : FragmentError}
    (h : document.checked names = .error error) :
    ∃ name ∈ names, error = .missing name document.fragmentNames ∧
      document.fragment? name = none := by
  rw [checked] at h
  cases hfound : names.find? fun name => (document.fragment? name).isNone with
  | none =>
    rw [hfound] at h
    cases h
  | some missing =>
    rw [hfound] at h
    cases h
    exact ⟨missing, List.mem_of_find?_eq_some hfound, rfl, by simpa using List.find?_some hfound⟩

theorem checked_of_isPrefix {reached listed : List String} {error : FragmentError}
    (hreached : reached <+: listed) (h : document.checked reached = .error error) :
    document.checked listed = .error error := by
  obtain ⟨further, rfl⟩ := hreached
  rw [checked] at h ⊢
  rw [List.find?_append]
  cases hfound : reached.find? fun name => (document.fragment? name).isNone with
  | none =>
    rw [hfound] at h
    cases h
  | some missing =>
    rw [hfound] at h
    exact h

theorem checked_append_of_missing {reached : List String} {name : String}
    (h : document.checked reached = .ok reached) (hmissing : document.fragment? name = none) :
    document.checked (reached ++ [name]) = .error (.missing name document.fragmentNames) := by
  have hnone : reached.find? (fun name => (document.fragment? name).isNone) = none := by
    rw [List.find?_eq_none]
    intro other hother
    simpa [Option.isSome_iff_ne_none] using (checked_eq_ok.mp h).2 other hother
  rw [checked, List.find?_append, hnone]
  simp [hmissing]

theorem checked_append_of_fragment? {reached : List String} {name : String} {fragment : Fragment}
    (h : document.checked reached = .ok reached)
    (hfragment : document.fragment? name = some fragment) :
    document.checked (reached ++ [name]) = .ok (reached ++ [name]) := by
  refine checked_eq_ok.mpr ⟨rfl, fun other hother => ?_⟩
  rcases List.mem_append.mp hother with hother | hother
  · exact (checked_eq_ok.mp h).2 other hother
  · rw [List.mem_singleton.mp hother, hfragment]
    rfl

theorem Gathers.of_checked {selections : List Selection} {reached listed : List String}
    (hreached : reached <+: listed)
    (h : document.checked reached = .ok reached →
      document.Gathers selections (.ok reached) (document.checked listed)) :
    document.Gathers selections (document.checked reached) (document.checked listed) := by
  cases hchecked : document.checked reached with
  | error error =>
    rw [checked_of_isPrefix hreached hchecked]
    exact .failed
  | ok names =>
    obtain ⟨rfl, _⟩ := checked_eq_ok.mp hchecked
    exact h hchecked

theorem gathers_foldl_visit {bound : Nat}
    (hspread : ∀ {reached : List String} {name : String} {rest : List Selection}
      {result : Except FragmentError (List String)},
      (Walk.pending document.fragmentNames reached).length ≤ bound →
      document.checked reached = .ok reached →
      document.Gathers rest (document.checked (Walk.visit document.spreadsOf bound reached name))
        result →
      document.Gathers (.fragmentSpread name :: rest) (.ok reached) result)
    {selections : List Selection} {reached : List String}
    (hbound : (Walk.pending document.fragmentNames reached).length ≤ bound) :
    document.Gathers selections (document.checked reached) (document.checked
      ((Selection.allSpreads selections).foldl (Walk.visit document.spreadsOf bound) reached)) := by
  -- Names are only added at the end, so the bound still holds for what comes later and an error
  -- that was found earlier is still the first.
  have hgrown : ∀ {reached further : List String}, reached <+: further →
      (Walk.pending document.fragmentNames reached).length ≤ bound →
        (Walk.pending document.fragmentNames further).length ≤ bound :=
    fun hfurther hbound => (Walk.length_pending_le fun _ h => hfurther.subset h).trans hbound
  have hwalk (starts reached : List String) :
      reached <+: starts.foldl (Walk.visit document.spreadsOf bound) reached :=
    Walk.isPrefix_foldl_visit document.spreadsOf bound reached starts
  induction selections using Selection.listInduction generalizing reached with
  | nil =>
    refine .of_checked List.prefix_rfl fun hok => ?_
    rw [Selection.allSpreads, List.foldl_nil, hok]
    exact .nil
  | leaf head rest ih =>
    refine .of_checked (hwalk _ _) fun hok => .leaf ?_
    rw [← hok]
    exact ih hbound
  | composite head types nested rest ihNested ih =>
    refine .of_checked (hwalk _ _) fun hok => .inside rfl (hok ▸ ihNested hbound) ?_
    rw [Selection.allSpreads, List.foldl_append]
    exact ih (hgrown (hwalk _ _) hbound)
  | typeCondition type narrowed inner rest ihInner ih =>
    refine .of_checked (hwalk _ _) fun hok => .inside rfl (hok ▸ ihInner hbound) ?_
    rw [Selection.allSpreads, List.foldl_append]
    exact ih (hgrown (hwalk _ _) hbound)
  | booleanCondition check types inner rest ihInner ih =>
    refine .of_checked (hwalk _ _) fun hok => .inside rfl (hok ▸ ihInner hbound) ?_
    rw [Selection.allSpreads, List.foldl_append]
    exact ih (hgrown (hwalk _ _) hbound)
  | fragmentSpread name rest ih =>
    refine .of_checked (hwalk _ _) fun hok => hspread hbound hok ?_
    exact ih (hgrown (Walk.isPrefix_visit document.spreadsOf bound reached name) hbound)

/-- The bound is enough for every spread, as each fragment that is entered is pending no longer. -/
theorem gathers_visit {bound : Nat} {reached : List String} {name : String} {rest : List Selection}
    {result : Except FragmentError (List String)}
    (hbound : (Walk.pending document.fragmentNames reached).length ≤ bound)
    (hok : document.checked reached = .ok reached)
    (hrest : document.Gathers rest
      (document.checked (Walk.visit document.spreadsOf bound reached name)) result) :
    document.Gathers (.fragmentSpread name :: rest) (.ok reached) result := by
  induction bound using Nat.strong_induction_on generalizing reached name rest result with
  | _ bound ih =>
    by_cases hmem : name ∈ reached
    · rw [Walk.visit_of_mem hmem, hok] at hrest
      exact .known hmem hrest
    cases hfragment : document.fragment? name with
    | none =>
      have hleaf : document.spreadsOf name = [] := by
        rw [spreadsOf, hfragment]
        rfl
      rw [Walk.visit_of_leaf hmem hleaf, checked_append_of_missing hok hfragment] at hrest
      cases hrest
      exact .missing hmem hfragment
    | some fragment =>
      have hknown : name ∈ document.fragmentNames := by
        obtain ⟨hfragment, hname⟩ := mem_of_fragment? hfragment
        exact List.mem_map.mpr ⟨fragment, hfragment, hname⟩
      have hlength := Walk.length_pending_lt hknown hmem
      obtain ⟨lesser, rfl⟩ : ∃ lesser, bound = lesser + 1 :=
        Nat.exists_eq_add_one.mpr (by omega)
      rw [Walk.visit, if_neg hmem, spreadsOf_eq hfragment] at hrest
      -- Reaching the fragment before its selections are gathered bounds a cycle through it.
      refine .entered hmem hfragment ?_ hrest
      rw [← checked_append_of_fragment? hok hfragment]
      exact gathers_foldl_visit (ih lesser (Nat.lt_succ_self lesser)) (by omega)

theorem gathers_references (set : SelectionSet) :
    document.Gathers set.selections (.ok []) (document.references set) := by
  have hbound : (Walk.pending document.fragmentNames []).length ≤ document.fragments.length :=
    calc
      (Walk.pending document.fragmentNames []).length ≤ document.fragmentNames.length :=
        List.length_filter_le _ _
      _ = document.fragments.length := by rw [fragmentNames, List.length_map]
  have hgathers : document.Gathers set.selections (document.checked [])
      (document.checked (document.reachableNames set)) :=
    gathers_foldl_visit gathers_visit hbound
  exact hgathers

/-- Gathering the fragments that a selection set depends on ends with the references of the set. It
fails exactly if the set depends on a fragment that is missing, and reports such a fragment.
Otherwise each name that the set depends on is listed once, and no other. -/
theorem references_iff_dependsOn (document : Document) (set : SelectionSet) :
    (∀ result, document.Gathers set.selections (.ok []) result ↔
      result = document.references set) ∧
    ((∃ error, document.references set = .error error) ↔
      ∃ name, document.DependsOn set name ∧ document.fragment? name = none) ∧
    (∀ error, document.references set = .error error →
      ∃ name, error = .missing name document.fragmentNames ∧
        document.DependsOn set name ∧ document.fragment? name = none) ∧
    ∀ names, document.references set = .ok names →
      names.Nodup ∧ ∀ name, name ∈ names ↔ document.DependsOn set name := by
  have hmem (name : String) :
      name ∈ document.reachableNames set ↔ document.DependsOn set name :=
    mem_reachableNames.trans dependsOn_iff.symm
  have hmissing : ∀ error, document.references set = .error error →
      ∃ name, error = .missing name document.fragmentNames ∧
        document.DependsOn set name ∧ document.fragment? name = none := by
    intro error herror
    obtain ⟨name, hname, rfl, hnone⟩ := checked_eq_error herror
    exact ⟨name, rfl, (hmem name).mp hname, hnone⟩
  refine ⟨fun result => ⟨fun h => h.unique (gathers_references set), ?_⟩, ⟨?_, ?_⟩, hmissing, ?_⟩
  · rintro rfl
    exact gathers_references set
  · rintro ⟨error, herror⟩
    obtain ⟨name, _, hname⟩ := hmissing error herror
    exact ⟨name, hname⟩
  · rintro ⟨name, hname, hnone⟩
    cases hreferences : document.references set with
    | error error => exact ⟨error, rfl⟩
    | ok names =>
      have hdefined := (references_eq_ok.mp hreferences).2 name ((hmem name).mpr hname)
      rw [hnone] at hdefined
      cases hdefined
  · intro names hnames
    obtain ⟨rfl, _⟩ := references_eq_ok.mp hnames
    exact ⟨nodup_reachableNames set, hmem⟩

def spreadingEachOther : Document where
  operations := []
  fragments :=
    [⟨none, "F", "", "Query", ⟨["Query"], [.fragmentSpread "F", .fragmentSpread "G"]⟩⟩,
     ⟨none, "G", "", "Query",
       ⟨["Query"], [.booleanCondition ⟨"c", false⟩ ["Query"] [.fragmentSpread "F"]]⟩⟩]
  typesUsed := []

theorem references_iff_dependsOn_spreadingEachOther :
    (∃ names, spreadingEachOther.references ⟨["Query"], [.fragmentSpread "F"]⟩ = .ok names ∧
      names = ["F", "G"] ∧ names.Nodup ∧
      ∀ name, name ∈ names ↔
        spreadingEachOther.DependsOn ⟨["Query"], [.fragmentSpread "F"]⟩ name) ∧
    ∃ error, spreadingEachOther.references
        ⟨["Query"], [.fragmentSpread "F", .fragmentSpread "H"]⟩ = .error error ∧
      ∃ name, error = .missing name ["F", "G"] ∧
        spreadingEachOther.DependsOn ⟨["Query"], [.fragmentSpread "F", .fragmentSpread "H"]⟩ name ∧
        spreadingEachOther.fragment? name = none := by
  constructor
  · have hnames : spreadingEachOther.references ⟨["Query"], [.fragmentSpread "F"]⟩ =
        .ok ["F", "G"] := by decide +kernel
    obtain ⟨_, _, _, hexact⟩ :=
      references_iff_dependsOn spreadingEachOther ⟨["Query"], [.fragmentSpread "F"]⟩
    exact ⟨_, hnames, rfl, hexact _ hnames⟩
  · have herror : spreadingEachOther.references
        ⟨["Query"], [.fragmentSpread "F", .fragmentSpread "H"]⟩ =
        .error (.missing "H" ["F", "G"]) := by decide +kernel
    obtain ⟨_, _, hmissing, _⟩ := references_iff_dependsOn spreadingEachOther
      ⟨["Query"], [.fragmentSpread "F", .fragmentSpread "H"]⟩
    exact ⟨_, herror, hmissing _ herror⟩

end Document

end QueryShape.Typed
