import QueryShape.Proofs.Source.Fragments
import QueryShape.Proofs.Typed.Conditions

/-!
# Spreads that are kept

The spreads that are left when selections are typed: not those in a selection that a literal
excludes, and of each fragment only the first one in a selection set, which counts even if it is
excluded itself.
-/

set_option autoImplicit false

namespace QueryShape.Source

mutual

/-- The fragments whose spreads in a selection are kept, after those spread before it. -/
def Selection.keptSpreads (seen : List String) : Selection → List String
  | .field _ _ _ directives selections =>
    if Directive.anyExcludes (fun _ => none) directives then []
    else Selection.allKeptSpreads [] selections
  | .fragmentSpread name directives =>
    if name ∈ seen ∨ Directive.anyExcludes (fun _ => none) directives then [] else [name]
  | .inlineFragment _ directives selections =>
    if Directive.anyExcludes (fun _ => none) directives then []
    else Selection.allKeptSpreads [] selections

def Selection.allKeptSpreads (seen : List String) : List Selection → List String
  | [] => []
  | selection :: rest =>
    Selection.keptSpreads seen selection ++
      Selection.allKeptSpreads (Selection.seenAfter seen selection) rest

end

def Document.keptSpreadsOf (document : Document) (name : String) : List String :=
  ((document.fragment? name).map (Selection.allKeptSpreads [] ·.selections)).getD []

/-- The fragment of the given name is reached from selections through spreads that are kept. -/
def Document.Keeps (document : Document) (selections : List Selection) (name : String) : Prop :=
  ∃ start ∈ Selection.allKeptSpreads [] selections, Walk.Reaches document.keptSpreadsOf start name

theorem Selection.allKeptSpreads_sublist (seen : List String) (selections : List Selection) :
    (allKeptSpreads seen selections).Sublist (Validity.allSpreadsWithin selections) := by
  induction selections using listInduction generalizing seen with
  | nil => exact List.nil_sublist _
  | field aliasName name arguments directives inner rest ihInner ih =>
    refine List.Sublist.append ?_ (ih _)
    rw [keptSpreads]
    split
    · exact List.nil_sublist _
    · exact ihInner _
  | fragmentSpread name directives rest ih =>
    refine List.Sublist.append ?_ (ih _)
    rw [keptSpreads]
    split
    · exact List.nil_sublist _
    · exact List.Sublist.refl _
  | inlineFragment condition directives inner rest ihInner ih =>
    refine List.Sublist.append ?_ (ih _)
    rw [keptSpreads]
    split
    · exact List.nil_sublist _
    · exact ihInner _

variable {document : Document}

theorem Document.keptSpreadsOf_eq {name : String} {fragment : Fragment}
    (h : document.fragment? name = some fragment) :
    document.keptSpreadsOf name = Selection.allKeptSpreads [] fragment.selections := by
  rw [keptSpreadsOf, h]
  rfl

theorem Document.mem_spreadsOf_of_kept {name next : String}
    (h : next ∈ document.keptSpreadsOf name) : next ∈ document.spreadsOf name := by
  cases hfragment : document.fragment? name with
  | none =>
    rw [keptSpreadsOf, hfragment] at h
    cases h
  | some fragment =>
    rw [keptSpreadsOf_eq hfragment] at h
    rw [spreadsOf_eq hfragment]
    exact (Selection.allKeptSpreads_sublist _ _).subset h

theorem Document.Keeps.mem_reachedFrom {selections : List Selection} {name : String}
    (h : document.Keeps selections name) : name ∈ Validity.reachedFrom document selections := by
  obtain ⟨start, hstart, hreaches⟩ := h
  have hspread := (Selection.allKeptSpreads_sublist _ _).subset hstart
  refine Document.mem_reachedFrom.mpr ⟨start, hspread, ?_⟩
  exact Relation.ReflTransGen.mono (fun _ _ => Document.mem_spreadsOf_of_kept) _ _ hreaches

end QueryShape.Source
