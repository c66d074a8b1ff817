import QueryShape.Proofs.Flat.Documents
import QueryShape.Proofs.Typed.Parts

/-!
# Operations are flattened on their own

What an operation becomes depends on the fragments that spreads lead to from it and on nothing else
in the document. Two documents that have an operation in common, and agree on what it reaches, give
it the same flat form, because both hold the part of the first that the operation reaches.
-/

set_option autoImplicit false

namespace QueryShape.Flat

open Typed (SelectionSet TypeCase)

section

variable {options : Options} {document part : Typed.Document} (h : document.Holds part)
include h

theorem typeCaseOf_of_holds {set : SelectionSet} {typeCase : TypeCase}
    (hpart : typeCaseOf options part set = .ok typeCase) :
    typeCaseOf options document set = .ok typeCase := by
  rw [typeCaseOf] at hpart ⊢
  split at hpart
  · rename_i hmerge
    simp only [hmerge, if_true, Outcome.bind_eq_ok] at hpart ⊢
    obtain ⟨merged, hmerged, htypeCase⟩ := hpart
    exact ⟨merged, h.inlined_eq_ok hmerged, htypeCase⟩
  · rename_i hmerge
    rwa [if_neg hmerge]

theorem depthBound_le_of_holds (set : SelectionSet) :
    depthBound part set ≤ depthBound document set := by
  rw [depthBound_eq, depthBound_eq]
  exact Nat.add_le_add_left (h.sum_le SelectionSet.depth) _

theorem flatten_of_holds {set : SelectionSet} {node : Selection}
    (hpart : flatten options part set = .ok node) : flatten options document set = .ok node :=
  ofTyped_of_imp (fun _ _ => typeCaseOf_of_holds h)
    (Nat.succ_le_succ (depthBound_le_of_holds h set)) hpart

theorem ofTyped_operation_of_holds (hclosed : part.IsClosed) {operation : Typed.Operation}
    (hset : part.Defines operation.selectionSet.selections) {flat : Operation}
    (hpart : Operation.ofTyped options part operation = .ok flat) :
    Operation.ofTyped options document operation = .ok flat := by
  obtain ⟨names, hnames, identity, hidentity, selection, hselection, rfl⟩ :=
    operation_ofTyped_eq_ok.mp hpart
  exact operation_ofTyped_eq_ok.mpr ⟨names, h.references_eq_ok hclosed hset hnames, identity,
    h.identityWith_eq_ok hidentity, selection, flatten_of_holds h hselection, rfl⟩

end

section

variable {options : Options} {first second : Typed.Document} {operation : Typed.Operation}

/-- Two documents that agree on all fragments that an operation reaches flatten it alike, if none of
these reaches itself or fragments are kept apart. What else there is in the documents, and in which
order, does not matter. -/
theorem operation_eq_of_agrees
    (hfirst : first.operation? operation.name = some operation)
    (hsecond : second.operation? operation.name = some operation)
    (hagrees : first.AgreesOn second operation.selectionSet)
    (hacyclic : options.mergeSpreadFields = true → ∀ name,
      first.Reaches operation.selectionSet name →
        ¬Relation.TransGen (fun name next => next ∈ first.spreadsOf name) name name) :
    ∃ flat, Operation.ofTyped options first operation = .ok flat ∧
      Operation.ofTyped options second operation = .ok flat ∧
      ∀ document ∈ [first, second], ∀ result, Document.ofTyped options document = .ok result →
        result.operation? operation.name = some flat := by
  have hclosed := Typed.Document.isClosed_partOf hagrees.defined
  have hset := Typed.Document.defines_partOf hagrees.defined
  have hpartAcyclic : options.mergeSpreadFields = true →
      (first.partOf operation.selectionSet).IsAcyclic := by
    intro hmerge
    apply Typed.Document.isAcyclic_partOf
    exact fun name hname => hacyclic hmerge name (Typed.Document.mem_reachableNames.mp hname)
  obtain ⟨flat, _, hpart, _⟩ := exists_operation_ofTyped hclosed hpartAcyclic hset
  -- Both documents hold the part that the operation reaches in the first, which settles its form.
  have hinFirst := ofTyped_operation_of_holds hagrees.refl_left.holds_partOf hclosed hset hpart
  have hinSecond := ofTyped_operation_of_holds hagrees.holds_partOf hclosed hset hpart
  refine ⟨flat, hinFirst, hinSecond, ?_⟩
  intro document hdocument result hresult
  rcases List.mem_pair.mp hdocument with rfl | rfl
  · obtain ⟨other, hother, hflat⟩ := exists_operation? hresult hfirst
    rw [hother, Except.ok.inj (hflat.symm.trans hinFirst)]
  · obtain ⟨other, hother, hflat⟩ := exists_operation? hresult hsecond
    rw [hother, Except.ok.inj (hflat.symm.trans hinSecond)]

end

/-- The operation and the fragments of another document in a different order and from a file, beside
a fragment that spreads itself and an undefined one. -/
def spreadingAmongOthers : Typed.Document where
  operations :=
    [{ spreadingBelow.operation with
        name := "P"
        selectionSet := ⟨["Query"], [spreadingBelow.field "animal" [.fragmentSpread "H"]]⟩ },
     spreadingBelow.operation]
  fragments :=
    ⟨none, "H", "", "Dog", ⟨["Dog"], [.fragmentSpread "H", .fragmentSpread "Z"]⟩⟩ ::
      (spreadingBelow []).fragments.reverse.map fun fragment =>
        { fragment with filePath := some "others.graphql" }
  typesUsed := ["Color"]

theorem operation_eq_of_agrees_spreadingAmongOthers :
    ∃ flat, (spreadingBelow []).operation? "Q" = some spreadingBelow.operation ∧
      spreadingAmongOthers.operation? "Q" = some spreadingBelow.operation ∧
      Operation.ofTyped {} (spreadingBelow []) spreadingBelow.operation = .ok flat ∧
      Operation.ofTyped {} spreadingAmongOthers spreadingBelow.operation = .ok flat := by
  have hfirst : (spreadingBelow []).operation? "Q" = some spreadingBelow.operation := rfl
  have hsecond : spreadingAmongOthers.operation? "Q" = some spreadingBelow.operation := rfl
  have hagrees : (spreadingBelow []).AgreesOn spreadingAmongOthers
      spreadingBelow.operation.selectionSet := by
    intro name hname
    have hmem : name ∈ ["F", "G"] := Typed.Document.mem_reachableNames.mpr hname
    rcases List.mem_pair.mp hmem with rfl | rfl
    · exact ⟨_, _, rfl, rfl, rfl, rfl, rfl, rfl⟩
    · exact ⟨_, _, rfl, rfl, rfl, rfl, rfl, rfl⟩
  obtain ⟨flat, hinFirst, hinSecond, _⟩ :=
    @operation_eq_of_agrees {} _ _ spreadingBelow.operation hfirst hsecond hagrees
      fun _ name _ => isAcyclic_spreadingBelow name
  exact ⟨flat, hfirst, hsecond, hinFirst, hinSecond⟩

end QueryShape.Flat
