import QueryShape.Proofs.Typed.Compiled
import QueryShape.Proofs.Typed.Gathering
import QueryShape.Proofs.Typed.Parts

/-!
# The order of references

Following every spread wherever it stands lists what selections depend on with repetitions: the name
of a spread, then all that is listed in its fragment, then what comes after it. In a closed and
acyclic document this ends. References are gathered by entering each fragment only once, and yet
they are this list without its repetitions. Neither they nor the text made of their sources depend
on the order of the fragments in the document.
-/

set_option autoImplicit false

namespace QueryShape.Typed

theorem Selection.spreads_eq_of_inner {selection : Selection} {inner : SelectionSet}
    (h : selection.selectionSet? = some inner) :
    selection.spreads = allSpreads inner.selections := by
  cases selection with
  | leaf | fragmentSpread => cases h
  | composite | typeCondition | booleanCondition =>
    cases h
    rfl

namespace Document

/-- The names that are listed by following every spread in the selections, in order and at every
depth. -/
inductive Unfolds (document : Document) : List Selection → List String → Prop
  | nil : Unfolds document [] []
  | leaf {head : FieldHead} {rest : List Selection} {names : List String}
      (hrest : Unfolds document rest names) : Unfolds document (.leaf head :: rest) names
  | inside {selection : Selection} {inner : SelectionSet} {rest : List Selection}
      {below names : List String} (hinner : selection.selectionSet? = some inner)
      (hbelow : Unfolds document inner.selections below) (hrest : Unfolds document rest names) :
      Unfolds document (selection :: rest) (below ++ names)
  | spread {name : String} {fragment : Fragment} {rest : List Selection}
      {below names : List String} (hfragment : document.fragment? name = some fragment)
      (hbelow : Unfolds document fragment.selectionSet.selections below)
      (hrest : Unfolds document rest names) :
      Unfolds document (.fragmentSpread name :: rest) (name :: (below ++ names))

def CompleteFor (document : Document) (names reached : List String) : Prop :=
  ∀ name ∈ names, name ∈ reached → ∀ next ∈ document.spreadsOf name, next ∈ reached

variable {document : Document}

namespace Unfolds

variable {selections : List Selection} {names : List String}

theorem unique {others : List String} (h : document.Unfolds selections names)
    (hothers : document.Unfolds selections others) : names = others := by
  induction h generalizing others with
  | nil =>
    cases hothers
    rfl
  | leaf _ ih =>
    cases hothers with
    | leaf hrest => exact ih hrest
    | inside hinner _ _ => cases hinner
  | inside hinner _ _ ihBelow ih =>
    cases hothers with
    | inside hinner' hbelow hrest =>
      obtain rfl := Option.some.inj (hinner.symm.trans hinner')
      rw [ihBelow hbelow, ih hrest]
    | leaf | spread => cases hinner
  | spread hfragment _ _ ihBelow ih =>
    cases hothers with
    | inside hinner _ _ => cases hinner
    | spread hfragment' hbelow hrest =>
      obtain rfl := Option.some.inj (hfragment.symm.trans hfragment')
      rw [ihBelow hbelow, ih hrest]

theorem spreads_subset (h : document.Unfolds selections names) :
    ∀ name ∈ Selection.allSpreads selections, name ∈ names := by
  induction h with
  | nil => exact fun _ hname => hname
  | leaf _ ih => exact ih
  | inside hinner _ _ ihBelow ih =>
    rw [Selection.allSpreads, Selection.spreads_eq_of_inner hinner]
    intro name hname
    rcases List.mem_append.mp hname with hname | hname
    · exact List.mem_append_left _ (ihBelow name hname)
    · exact List.mem_append_right _ (ih name hname)
  | spread _ _ _ _ ih =>
    intro name hname
    rcases List.mem_cons.mp hname with rfl | hname
    · exact List.mem_cons_self
    · exact List.mem_cons_of_mem _ (List.mem_append_right _ (ih name hname))

theorem closed (h : document.Unfolds selections names) :
    ∀ name ∈ names, ∀ next ∈ document.spreadsOf name, next ∈ names := by
  induction h with
  | nil => exact fun _ hname => absurd hname List.not_mem_nil
  | leaf _ ih => exact ih
  | inside _ _ _ ihBelow ih =>
    intro name hname next hnext
    rcases List.mem_append.mp hname with hname | hname
    · exact List.mem_append_left _ (ihBelow name hname next hnext)
    · exact List.mem_append_right _ (ih name hname next hnext)
  | spread hfragment hbelow _ ihBelow ih =>
    intro name hname next hnext
    apply List.mem_cons_of_mem
    rcases List.mem_cons.mp hname with rfl | hname
    · rw [spreadsOf_eq hfragment] at hnext
      exact List.mem_append_left _ (hbelow.spreads_subset next hnext)
    · rcases List.mem_append.mp hname with hname | hname
      · exact List.mem_append_left _ (ihBelow name hname next hnext)
      · exact List.mem_append_right _ (ih name hname next hnext)

theorem exists_reaches (h : document.Unfolds selections names) :
    ∀ name ∈ names, ∃ start ∈ Selection.allSpreads selections,
      Walk.Reaches document.spreadsOf start name := by
  induction h with
  | nil => exact fun _ hname => absurd hname List.not_mem_nil
  | leaf _ ih => exact ih
  | inside hinner _ _ ihBelow ih =>
    rw [Selection.allSpreads, Selection.spreads_eq_of_inner hinner]
    intro name hname
    rcases List.mem_append.mp hname with hname | hname
    · obtain ⟨start, hstart, hreaches⟩ := ihBelow name hname
      exact ⟨start, List.mem_append_left _ hstart, hreaches⟩
    · obtain ⟨start, hstart, hreaches⟩ := ih name hname
      exact ⟨start, List.mem_append_right _ hstart, hreaches⟩
  | @spread first fragment _ _ _ hfragment _ _ ihBelow ih =>
    intro name hname
    rcases List.mem_cons.mp hname with rfl | hname
    · exact ⟨name, List.mem_cons_self, .refl⟩
    rcases List.mem_append.mp hname with hname | hname
    · obtain ⟨start, hstart, hreaches⟩ := ihBelow name hname
      rw [← spreadsOf_eq hfragment] at hstart
      exact ⟨first, List.mem_cons_self, .head hstart hreaches⟩
    · obtain ⟨start, hstart, hreaches⟩ := ih name hname
      exact ⟨start, List.mem_cons_of_mem _ hstart, hreaches⟩

theorem not_mem_below (hacyclic : document.IsAcyclic) {name : String} {fragment : Fragment}
    {below : List String} (hfragment : document.fragment? name = some fragment)
    (hbelow : document.Unfolds fragment.selectionSet.selections below) : name ∉ below := by
  intro hname
  obtain ⟨start, hstart, hreaches⟩ := hbelow.exists_reaches name hname
  rw [← spreadsOf_eq hfragment] at hstart
  exact hacyclic name (.head' hstart hreaches)

theorem subset_of_completeFor {reached : List String} (h : document.Unfolds selections names)
    (hcomplete : document.CompleteFor names reached)
    (hspreads : ∀ name ∈ Selection.allSpreads selections, name ∈ reached) :
    ∀ name ∈ names, name ∈ reached := by
  induction h with
  | nil => exact fun _ hname => absurd hname List.not_mem_nil
  | leaf _ ih => exact ih hcomplete hspreads
  | inside hinner _ _ ihBelow ih =>
    rw [Selection.allSpreads, Selection.spreads_eq_of_inner hinner] at hspreads
    obtain ⟨hspreadsBelow, hspreadsRest⟩ := List.forall_mem_append.mp hspreads
    obtain ⟨hcompleteBelow, hcompleteRest⟩ := List.forall_mem_append.mp hcomplete
    exact List.forall_mem_append.mpr
      ⟨ihBelow hcompleteBelow hspreadsBelow, ih hcompleteRest hspreadsRest⟩
  | spread hfragment _ _ ihBelow ih =>
    obtain ⟨hname, hspreadsRest⟩ := List.forall_mem_cons.mp hspreads
    obtain ⟨hcompleteName, hcompleteOthers⟩ := List.forall_mem_cons.mp hcomplete
    obtain ⟨hcompleteBelow, hcompleteRest⟩ := List.forall_mem_append.mp hcompleteOthers
    have hspreadsBelow := hcompleteName hname
    rw [spreadsOf_eq hfragment] at hspreadsBelow
    exact List.forall_mem_cons.mpr ⟨hname, List.forall_mem_append.mpr
      ⟨ihBelow hcompleteBelow hspreadsBelow, ih hcompleteRest hspreadsRest⟩⟩

end Unfolds

theorem CompleteFor.append {names reached below : List String}
    (h : document.CompleteFor names reached)
    (hbelow : ∀ name ∈ below, ∀ next ∈ document.spreadsOf name, next ∈ below) :
    document.CompleteFor names (distinct (reached ++ below)) := by
  intro name hname hreached next hnext
  rw [mem_distinct, List.mem_append] at hreached ⊢
  rcases hreached with hreached | hreached
  · exact Or.inl (h name hname hreached next hnext)
  · exact Or.inr (hbelow name hreached next hnext)

theorem CompleteFor.enter {names reached : List String} {name : String}
    (h : document.CompleteFor names reached) (hname : name ∉ names) :
    document.CompleteFor names (reached ++ [name]) := by
  intro other hother hreached next hnext
  rcases List.mem_append.mp hreached with hreached | hreached
  · exact List.mem_append_left _ (h other hother hreached next hnext)
  · rw [List.mem_singleton.mp hreached] at hother
    exact absurd hother hname

theorem Unfolds.gathers (hacyclic : document.IsAcyclic) {selections : List Selection}
    {names reached : List String} (h : document.Unfolds selections names) (hnodup : reached.Nodup)
    (hcomplete : document.CompleteFor names reached) :
    document.Gathers selections (.ok reached) (.ok (distinct (reached ++ names))) := by
  induction h generalizing reached with
  | nil =>
    rw [List.append_nil, distinct_eq_self hnodup]
    exact .nil
  | leaf _ ih => exact .leaf (ih hnodup hcomplete)
  | @inside _ _ _ below names hinner hbelow _ ihBelow ih =>
    obtain ⟨hcompleteBelow, hcompleteRest⟩ := List.forall_mem_append.mp hcomplete
    refine .inside hinner (ihBelow hnodup hcompleteBelow) ?_
    have hrest := ih (nodup_distinct _) (CompleteFor.append hcompleteRest hbelow.closed)
    rwa [distinct_distinct_append, List.append_assoc] at hrest
  | @spread name fragment _ below names hfragment hbelow _ ihBelow ih =>
    obtain ⟨hcompleteName, hcompleteOthers⟩ := List.forall_mem_cons.mp hcomplete
    obtain ⟨hcompleteBelow, hcompleteRest⟩ := List.forall_mem_append.mp hcompleteOthers
    have hlisted : document.Unfolds [.fragmentSpread name] (name :: (below ++ [])) :=
      .spread hfragment hbelow .nil
    rw [List.append_nil] at hlisted
    by_cases hmem : name ∈ reached
    · -- The name is passed over, and so is what is below it: all of that has been reached before.
      have hreached : ∀ other ∈ name :: below, other ∈ reached :=
        hlisted.subset_of_completeFor (List.forall_mem_cons.mpr ⟨hcompleteName, hcompleteBelow⟩)
          (List.forall_mem_singleton.mpr hmem)
      rw [← List.cons_append, distinct_append_append hreached]
      exact .known hmem (ih hnodup hcompleteRest)
    · -- The fragments around the spread are reached but not complete. They are not below it.
      have hentered := CompleteFor.enter hcompleteBelow (not_mem_below hacyclic hfragment hbelow)
      have hnodupEntered : (reached ++ [name]).Nodup :=
        List.nodup_append_comm.mp (List.nodup_cons.mpr ⟨hmem, hnodup⟩)
      have hrest := ih (nodup_distinct _) (CompleteFor.append hcompleteRest hlisted.closed)
      rw [distinct_distinct_append, List.append_assoc, List.cons_append] at hrest
      refine .entered hmem hfragment (ihBelow hnodupEntered hentered) ?_
      rwa [List.append_assoc, List.singleton_append]

theorem references_eq_of_unfolds (hacyclic : document.IsAcyclic) {set : SelectionSet}
    {names : List String} (h : document.Unfolds set.selections names) :
    document.references set = .ok (distinct names) :=
  (gathers_references set).unique
    (h.gathers hacyclic List.nodup_nil fun _ _ hreached => absurd hreached List.not_mem_nil)

theorem exists_unfolds_of_spreads {selections : List Selection}
    (h : ∀ name ∈ Selection.allSpreads selections, ∃ fragment below,
      document.fragment? name = some fragment ∧
        document.Unfolds fragment.selectionSet.selections below) :
    ∃ names, document.Unfolds selections names := by
  induction selections using Selection.listInduction with
  | nil => exact ⟨[], .nil⟩
  | leaf head rest ih =>
    obtain ⟨names, hnames⟩ := ih h
    exact ⟨names, .leaf hnames⟩
  | composite _ _ _ _ ihInner ih | typeCondition _ _ _ _ ihInner ih
  | booleanCondition _ _ _ _ ihInner ih =>
    obtain ⟨hinner, hrest⟩ := List.forall_mem_append.mp h
    obtain ⟨below, hbelow⟩ := ihInner hinner
    obtain ⟨names, hnames⟩ := ih hrest
    exact ⟨below ++ names, .inside rfl hbelow hnames⟩
  | fragmentSpread name rest ih =>
    obtain ⟨⟨fragment, below, hfragment, hbelow⟩, hrest⟩ := List.forall_mem_cons.mp h
    obtain ⟨names, hnames⟩ := ih hrest
    exact ⟨name :: (below ++ names), .spread hfragment hbelow hnames⟩

/-- Following every spread ends, as each one leaves a fragment behind that is not met again. -/
theorem exists_unfolds_fragment (hclosed : document.IsClosed) (hacyclic : document.IsAcyclic)
    {name : String} (hname : (document.fragment? name).isSome) :
    ∃ fragment below, document.fragment? name = some fragment ∧
      document.Unfolds fragment.selectionSet.selections below := by
  induction hcost : document.reachCost (fun _ => 1) name using Nat.strong_induction_on
    generalizing name with
  | _ cost ih =>
    obtain ⟨fragment, hfragment⟩ := Option.isSome_iff_exists.mp hname
    obtain ⟨below, hbelow⟩ := exists_unfolds_of_spreads fun next hnext => by
      have hless := reachCost_add_le hacyclic (fun _ => 1) hfragment hnext
      exact ih _ (by omega) (hclosed.defines hfragment next hnext) rfl
    exact ⟨fragment, below, hfragment, hbelow⟩

theorem holds_of_perm {other : Document} (hnames : document.fragmentNames.Nodup)
    (hperm : other.fragments.Perm document.fragments) : other.Holds document where
  nodup := hnames
  fragment name fragment hfragment := by
    obtain ⟨hmem, rfl⟩ := mem_of_fragment? hfragment
    have hothers : other.fragmentNames.Nodup := (hperm.map _).nodup_iff.mpr hnames
    exact ⟨fragment, fragment?_name hothers (hperm.mem_iff.mpr hmem), .refl fragment⟩

/-- In a closed and acyclic document the references of a selection set are the distinct names among
those that are listed by following every spread. In whatever order the document has its fragments,
the text of an operation with these selections is followed by the texts of the fragments in this
order. -/
theorem references_eq_distinct_unfolded (hclosed : document.IsClosed)
    (hacyclic : document.IsAcyclic) (hnames : document.fragmentNames.Nodup) {set : SelectionSet}
    (hset : document.Defines set.selections) :
    ∃ names fragments, (∀ listed, document.Unfolds set.selections listed ↔ listed = names) ∧
      List.Forall₂ (fun name fragment => document.fragment? name = some fragment)
        (distinct names) fragments ∧
      ∀ other : Document, other.fragments.Perm document.fragments →
        other.references set = .ok (distinct names) ∧
        ∀ operation : Operation, operation.selectionSet = set →
          other.identity operation = .ok (.ofSource
            ("\n".intercalate (operation.source :: fragments.map (·.source)))) := by
  obtain ⟨names, hunfolds⟩ := exists_unfolds_of_spreads fun name hname =>
    exists_unfolds_fragment hclosed hacyclic (hset name hname)
  have hreferences := references_eq_of_unfolds hacyclic hunfolds
  have hreachable := (references_eq_ok.mp hreferences).1
  have hfound : ∀ name ∈ distinct names, ∃ fragment,
      document.requireFragment name = .ok fragment := by
    intro name hname
    rw [← hreachable] at hname
    have hdefined := isSome_of_mem_reachableNames hclosed hset hname
    obtain ⟨fragment, hfragment⟩ := Option.isSome_iff_exists.mp hdefined
    exact ⟨fragment, requireFragment_eq_ok.mpr hfragment⟩
  obtain ⟨fragments, hfragments⟩ := Outcome.exists_mapM_eq_ok hfound
  refine ⟨names, fragments, fun listed => ?_, ?_, fun other hperm => ?_⟩
  · constructor
    · exact fun hlisted => hlisted.unique hunfolds
    · rintro rfl
      exact hunfolds
  · simpa only [Outcome.mapM_eq_ok, requireFragment_eq_ok] using hfragments
  · have hholds := holds_of_perm hnames hperm
    have hother := hholds.references_eq_ok hclosed hset hreferences
    refine ⟨hother, ?_⟩
    rintro operation rfl
    have hidentity : document.identityWith operation (distinct names) =
        .ok (.ofSource ("\n".intercalate (operation.source :: fragments.map (·.source)))) := by
      rw [identityWith, hfragments]
      rfl
    rw [identity, hother]
    exact hholds.identityWith_eq_ok hidentity

/-- Fragments that spread one on animals, directly and through each other, in an order in which none
of them comes after what it spreads. -/
def sharedNames : Source.Document where
  definitions :=
    [.fragment ⟨none, "Named", "Animal", [], [.field none "name" [] [] []]⟩,
     .fragment ⟨none, "OfAnimals", "Animal", [],
       [.fragmentSpread "OfDogs" [], .fragmentSpread "Named" []]⟩,
     .fragment ⟨none, "OfDogs", "Dog", [],
       [.field none "friend" [] [] [.fragmentSpread "Named" []]]⟩,
     .operation
       { description := none
         kind := .query
         name := some "Q"
         variableDefinitions := []
         directives := []
         selections := [.field none "animal" [] []
           [.fragmentSpread "OfDogs" [], .fragmentSpread "OfAnimals" [],
            .fragmentSpread "Named" []]] }]

theorem references_eq_distinct_unfolded_sharedNames :
    ∃ (document : Document) (operation : Operation) (names : List String)
        (fragments : List Fragment),
      Document.compile Schema.animals {} none sharedNames = .ok document ∧
      document.operation? "Q" = some operation ∧
      document.fragmentNames = ["Named", "OfAnimals", "OfDogs"] ∧
      document.Unfolds operation.selectionSet.selections names ∧
      distinct names = ["OfDogs", "Named", "OfAnimals"] ∧
      { document with fragments := document.fragments.reverse }.identity operation =
        .ok (.ofSource ("\n".intercalate (operation.source :: fragments.map (·.source)))) ∧
      document.identity operation =
        .ok (.ofSource ("\n".intercalate (operation.source :: fragments.map (·.source)))) := by
  obtain ⟨document, hcompile⟩ : ∃ document,
      Document.compile Schema.animals {} none sharedNames = .ok document :=
    Outcome.exists_eq_ok (by decide +kernel)
  have hreferences : ((Document.compile Schema.animals {} none sharedNames).toOption.bind
      fun document => (document.operation? "Q").bind fun operation =>
        (document.references operation.selectionSet).toOption.map fun names =>
          (document.fragmentNames, names)) =
      some (["Named", "OfAnimals", "OfDogs"], ["OfDogs", "Named", "OfAnimals"]) := by
    decide +kernel
  rw [hcompile, Except.toOption, Option.bind_some] at hreferences
  obtain ⟨operation, hoperation, hreferences⟩ := Option.bind_eq_some_iff.mp hreferences
  obtain ⟨gathered, hgathered, hvalues⟩ := Option.map_eq_some_iff.mp hreferences
  obtain ⟨hfragmentNames, rfl⟩ := Prod.mk.inj hvalues
  have hclosed := isClosed_of_compile hcompile
  have hset := hclosed.operation operation (List.mem_of_find?_eq_some hoperation)
  obtain ⟨names, fragments, hunfolds, -, hevery⟩ := references_eq_distinct_unfolded hclosed
    (isAcyclic_of_compile hcompile) (by rw [hfragmentNames]; decide) hset
  obtain ⟨hnames, hidentity⟩ := hevery document (List.Perm.refl _)
  rw [hnames] at hgathered
  exact ⟨document, operation, names, fragments, hcompile, hoperation, hfragmentNames,
    (hunfolds names).mpr rfl, Option.some.inj hgathered,
    (hevery _ (List.reverse_perm _)).2 operation rfl, hidentity operation rfl⟩

end Document

end QueryShape.Typed
