import QueryShape.Proofs.Flat.Flattened
import QueryShape.Proofs.Flat.Shown
import QueryShape.Proofs.Typed.Spreads

/-!
# Fragments listed for a type

A node lists for a type the fragments of the type's inline fragment, if there is one, and otherwise
its own. Only fragments are listed that are spread where they apply to the type. If fragments are
not merged in, all of them are. If they are, those are missing that do not apply to all types, where
the type has no inline fragment because its record has no fields of its own.
-/

set_option autoImplicit false

namespace QueryShape.Flat

open Typed (FragmentError SelectionSet Record TypeCase)

/-- The names of the fragments that a node lists for a type. -/
def Node.listed? (node : Node) (type : String) : Option (List String) :=
  ((node.inlineFragmentFor? type).getD node).spreads?

section

variable {flattenNested : SelectionSet → Except FragmentError Selection} {options : Options}
  {document : Typed.Document} {set : SelectionSet} {node : Selection} {typeCase : TypeCase}

theorem listed?_of_flattenStep
    (hnode : flattenStep options document flattenNested set = .ok node)
    (htypeCase : typeCaseOf options document set = .ok typeCase) {record : Record}
    (hrecord : record ∈ typeCase.records) {type : String} (htype : type ∈ record.possibleTypes) :
    ((Node.selection node).inlineFragmentFor? type).isSome =
        needsInlineFragments options set record ∧
      (Node.selection node).listed? type =
        some (if needsInlineFragments options set record then set.spreadNamesFor [type]
          else set.spreadNames) := by
  have hinline := inlineFor?_of_flattenStep hnode htypeCase hrecord htype
  obtain ⟨_, _, fields, _, groups, _, rfl⟩ := flattenStep_eq_ok.mp hnode
  rw [Node.listed?, Node.inlineFragmentFor?_selection, ← Selection.inlineFor?]
  cases hneeds : needsInlineFragments options set record with
  | false =>
    rw [hneeds] at hinline
    rw [hinline]
    exact ⟨rfl, rfl⟩
  | true =>
    rw [hneeds] at hinline
    obtain ⟨flats, _, hinline⟩ := hinline
    rw [hinline]
    exact ⟨rfl, rfl⟩

theorem spreads_all_of_not_needs {record : Record} (hrecord : record ∈ set.typeCase.records)
    (hneeds : needsInlineFragments options set record = false) {type : String}
    (htype : type ∈ record.possibleTypes) {name : String}
    (h : Typed.Selection.Spreads [type] set.selections name) :
    Typed.Selection.Spreads set.possibleTypes set.selections name := by
  have hspreads := SelectionSet.spreads_record hrecord htype h
  rw [needsInlineFragments] at hneeds
  split at hneeds
  · rename_i hcontained
    exact hspreads.mono (PossibleTypes.contained_eq_true.mp hcontained)
  · split at hneeds
    · rw [List.any_eq_false] at hneeds
      have hlisted := hneeds name (SelectionSet.mem_spreadNamesFor.mpr hspreads)
      simp only [decide_eq_true_eq, Decidable.not_not] at hlisted
      exact SelectionSet.mem_spreadNamesFor.mp hlisted
    · cases hneeds

end

variable {schema : Schema} {compileOptions options : Options} {filePath : Option String}
  {source : Source.Document} {document : Typed.Document} {set : SelectionSet}

/-- Whatever selection set of a compiled document is flattened: for each possible type its node
lists only fragments that are spread where they apply to the type, and all of these if fragments are
not merged in. In any case it lists all of them if and only if the type has an inline fragment or
they all apply to every possible type. -/
theorem listed_iff_spreads
    (hcompile : Typed.Document.compile schema compileOptions filePath source = .ok document)
    (hset : IsFlattened options document set) :
    ∃ node, flatten options document set = .ok node ∧
      ∀ type ∈ set.possibleTypes, ∃ names, (Node.selection node).listed? type = some names ∧
        (∀ name ∈ names, Typed.Selection.Spreads [type] set.selections name) ∧
        (options.mergeSpreadFields = false →
          ∀ name, name ∈ names ↔ Typed.Selection.Spreads [type] set.selections name) ∧
        ((∀ name, name ∈ names ↔ Typed.Selection.Spreads [type] set.selections name) ↔
          ((Node.selection node).inlineFragmentFor? type).isSome ∨
          ∀ name, Typed.Selection.Spreads [type] set.selections name →
            Typed.Selection.Spreads set.possibleTypes set.selections name) := by
  have hclosed := Typed.Document.isClosed_of_compile hcompile
  have hacyclic := Typed.Document.isAcyclic_of_compile hcompile
  have hdefines := hset.defines hclosed
  obtain ⟨node, hnode⟩ := exists_flatten hclosed (fun _ => hacyclic) hdefines
  refine ⟨node, hnode, fun type htype => ?_⟩
  rw [flatten_eq hclosed (fun _ => hacyclic) hdefines] at hnode
  obtain ⟨typeCase, htypeCase, _⟩ := flattenStep_eq_ok.mp hnode
  obtain ⟨record, hrecord, hin⟩ : ∃ record ∈ typeCase.records, type ∈ record.possibleTypes := by
    obtain ⟨merged, rfl, htypes, _⟩ := exists_merged_of_typeCaseOf htypeCase
    exact merged.sorts_typeCase.partition.covered type (htypes.symm ▸ htype)
  obtain ⟨hinline, hlisted⟩ := listed?_of_flattenStep hnode htypeCase hrecord hin
  refine ⟨_, hlisted, ?_⟩
  rw [hinline]
  have hmono : ∀ name, Typed.Selection.Spreads set.possibleTypes set.selections name →
      Typed.Selection.Spreads [type] set.selections name :=
    fun name h => h.mono (by simpa using htype)
  cases hneeds : needsInlineFragments options set record with
  | true =>
    simp only [if_true, SelectionSet.mem_spreadNamesFor]
    simp
  | false =>
    simp only [Bool.false_eq_true, if_false, false_or, SelectionSet.spreadNames,
      SelectionSet.mem_spreadNamesFor]
    refine ⟨hmono, fun hmerge name => ⟨hmono name, fun h => ?_⟩, ?_⟩
    · -- Without merging, the records are those of the set that the names are taken from.
      rw [typeCaseOf, hmerge] at htypeCase
      obtain rfl := Except.ok.inj htypeCase
      exact spreads_all_of_not_needs hrecord hneeds hin h
    · exact ⟨fun h name => (h name).mpr, fun h name => ⟨hmono name, h name⟩⟩

def excludedFriends : Source.Document where
  definitions :=
    [.operation
       { description := none
         kind := .query
         name := some "Q"
         variableDefinitions := []
         directives := []
         selections := [.field none "animal" [] [] [.fragmentSpread "Named" []]] },
     .fragment ⟨none, "Named", "Animal", [],
       [.field none "name" [] [] [], .fragmentSpread "OfDogs" []]⟩,
     .fragment ⟨none, "OfDogs", "Dog", [],
       [.field none "friend" [] [⟨"skip", [⟨"if", .boolean true⟩]⟩]
         [.field none "name" [] [] []]]⟩]

theorem exists_compile_excludedFriends :
    ∃ document fragment,
      Typed.Document.compile Schema.animals {} none excludedFriends = .ok document ∧
      document.fragment? "Named" = some fragment := by
  obtain ⟨document, hcompile⟩ : ∃ document,
      Typed.Document.compile Schema.animals {} none excludedFriends = .ok document :=
    Outcome.exists_eq_ok (by decide +kernel)
  have hfragment : ((Typed.Document.compile Schema.animals {} none excludedFriends).toOption.bind
      (·.fragment? "Named")).isSome = true := by decide +kernel
  rw [hcompile] at hfragment
  obtain ⟨fragment, hfragment⟩ := Option.isSome_iff_exists.mp hfragment
  exact ⟨document, fragment, hcompile, hfragment⟩

theorem listed_iff_spreads_excludedFriends :
    ∃ (document : Typed.Document) (fragment : Typed.Fragment),
      Typed.Document.compile Schema.animals {} none excludedFriends = .ok document ∧
      IsFlattened { mergeSpreadFields := false } document fragment.selectionSet ∧
      ∃ node, flatten { mergeSpreadFields := false } document fragment.selectionSet = .ok node ∧
        ∀ type ∈ fragment.selectionSet.possibleTypes, ∃ names,
          (Node.selection node).listed? type = some names ∧
          ∀ name, name ∈ names ↔
            Typed.Selection.Spreads [type] fragment.selectionSet.selections name := by
  obtain ⟨document, fragment, hcompile, hfragment⟩ := exists_compile_excludedFriends
  have hset : IsFlattened { mergeSpreadFields := false } document fragment.selectionSet :=
    .fragment (Typed.Document.mem_of_fragment? hfragment).1
  obtain ⟨node, hnode, hlisted⟩ := listed_iff_spreads hcompile hset
  refine ⟨document, fragment, hcompile, hset, node, hnode, fun type htype => ?_⟩
  obtain ⟨names, hnames, _, hall, _⟩ := hlisted type htype
  exact ⟨names, hnames, hall rfl⟩

/-- With fragments merged in, the fragment on dogs is listed for no type. -/
theorem not_listed_excludedFriends :
    ∃ (document : Typed.Document) (fragment : Typed.Fragment) (node : Selection),
      Typed.Document.compile Schema.animals {} none excludedFriends = .ok document ∧
      IsFlattened {} document fragment.selectionSet ∧
      flatten {} document fragment.selectionSet = .ok node ∧
      "Dog" ∈ fragment.selectionSet.possibleTypes ∧
      Typed.Selection.Spreads ["Dog"] fragment.selectionSet.selections "OfDogs" ∧
      (Node.selection node).listed? "Dog" = some [] := by
  obtain ⟨document, fragment, hcompile, hfragment⟩ := exists_compile_excludedFriends
  have hset : IsFlattened {} document fragment.selectionSet :=
    .fragment (Typed.Document.mem_of_fragment? hfragment).1
  have hclosed := Typed.Document.isClosed_of_compile hcompile
  have hacyclic := Typed.Document.isAcyclic_of_compile hcompile
  obtain ⟨node, hnode⟩ : ∃ node, flatten {} document fragment.selectionSet = .ok node :=
    exists_flatten hclosed (fun _ => hacyclic) (hset.defines hclosed)
  have hvalues : ((Typed.Document.compile Schema.animals {} none excludedFriends).toOption.bind
      fun document => (document.fragment? "Named").bind fun fragment =>
        (flatten {} document fragment.selectionSet).toOption.map fun node =>
          (fragment.selectionSet.possibleTypes, fragment.selectionSet.spreadNamesFor ["Dog"],
            (Node.selection node).listed? "Dog")) =
      some (["Dog", "Cat"], ["OfDogs"], some []) := by decide +kernel
  rw [hcompile] at hvalues
  simp only [Except.toOption, Option.bind_some, hfragment, hnode] at hvalues
  obtain ⟨htypes, hrest⟩ := Prod.mk.inj (Option.some.inj hvalues)
  obtain ⟨hspreads, hlisted⟩ := Prod.mk.inj hrest
  refine ⟨document, fragment, node, hcompile, hset, hnode, ?_, ?_, hlisted⟩
  · rw [htypes]
    decide
  · rw [← SelectionSet.mem_spreadNamesFor, hspreads]
    decide

end QueryShape.Flat
