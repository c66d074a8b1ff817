import QueryShape.Options
import QueryShape.Proofs.Source.Selections
import QueryShape.Proofs.Walk
import QueryShape.Validity.Rules

/-!
# Fragments of valid documents

In a valid document every fragment that is spread is defined, and no fragment reaches itself through
spreads. Both remain so when `__typename` fields are added.
-/

set_option autoImplicit false

namespace QueryShape.Source.Document

section

variable (document : Document)

/-- The document that is typed: with `__typename` fields if the options ask for them. -/
def prepared (options : Options) : Document :=
  if options.addTypename then document.addTypename else document

def fragmentType? (name : String) : Option String :=
  (document.fragment? name).map (·.typeCondition)

def spreadsOf (name : String) : List String :=
  ((document.fragment? name).map (Validity.allSpreadsWithin ·.selections)).getD []

structure IsClosed : Prop where
  operation : ∀ operation ∈ document.operations,
    ∀ name ∈ Validity.allSpreadsWithin operation.selections, (document.fragment? name).isSome
  fragment : ∀ fragment ∈ document.fragments,
    ∀ name ∈ Validity.allSpreadsWithin fragment.selections, (document.fragment? name).isSome

def IsAcyclic : Prop :=
  ∀ name, ¬Relation.TransGen (fun name next => next ∈ document.spreadsOf name) name name

end

variable {document : Document}

theorem mem_of_fragment? {name : String} {fragment : Fragment}
    (h : document.fragment? name = some fragment) :
    fragment ∈ document.fragments ∧ fragment.name = name :=
  ⟨List.mem_of_find?_eq_some h, by simpa using List.find?_some h⟩

theorem spreadsOf_eq {name : String} {fragment : Fragment}
    (h : document.fragment? name = some fragment) :
    document.spreadsOf name = Validity.allSpreadsWithin fragment.selections := by
  rw [spreadsOf, h]
  rfl

theorem mem_fragmentNames_of_spreadsOf_ne_nil {name : String} (h : document.spreadsOf name ≠ []) :
    name ∈ document.fragments.map (·.name) := by
  cases hfragment : document.fragment? name with
  | none =>
    rw [spreadsOf, hfragment] at h
    exact absurd rfl h
  | some fragment =>
    obtain ⟨hmem, hname⟩ := mem_of_fragment? hfragment
    exact List.mem_map.mpr ⟨fragment, hmem, hname⟩

theorem mem_reachedFrom {selections : List Selection} {name : String} :
    name ∈ Validity.reachedFrom document selections ↔
      ∃ start ∈ Validity.allSpreadsWithin selections,
        Walk.Reaches document.spreadsOf start name :=
  Walk.mem_fromAll (fun _ => mem_fragmentNames_of_spreadsOf_ne_nil) (by simp)

end QueryShape.Source.Document

namespace QueryShape.Validity

theorem spreadNames_allSites (schema : Schema) (parent : Option String)
    (selections : List Source.Selection) :
    spreadNames (allSites schema parent selections) = allSpreadsWithin selections := by
  have happend : ∀ first second, spreadNames (first ++ second) =
      spreadNames first ++ spreadNames second := by
    intro first second
    simp [spreadNames, spreadSites]
  induction selections using Source.Selection.listInduction generalizing parent with
  | nil => rfl
  | field aliasName name arguments directives inner rest ihInner ih =>
    rw [allSites, happend, ih, selectionSites, allSpreadsWithin, spreadsWithin]
    exact congrArg (· ++ _) (ihInner _)
  | fragmentSpread name directives rest ih =>
    rw [allSites, happend, ih]
    rfl
  | inlineFragment condition directives inner rest ihInner ih =>
    rw [allSites, happend, ih, selectionSites, allSpreadsWithin, spreadsWithin]
    exact congrArg (· ++ _) (ihInner _)

variable {schema : Schema} {document : Source.Document}

theorem follows_of_isValid (h : isValid schema document = true) (rule : Rule)
    (hrule : rule ∈ Rule.all) : follows schema document rule = true :=
  List.all_eq_true.mp h rule hrule

theorem isClosed_of_isValid (h : isValid schema document = true) : document.IsClosed := by
  have hrule := follows_of_isValid h .knownFragmentNames (by decide)
  have hpart : ∀ part ∈ parts schema document, ∀ name ∈ spreadNames part.sites,
      (document.fragment? name).isSome := by
    simpa [follows] using hrule
  constructor
  · intro operation hoperation name hname
    apply hpart (Part.ofOperation schema operation)
    · exact List.mem_append_left _ (List.mem_map_of_mem hoperation)
    · exact (spreadNames_allSites schema _ operation.selections).symm ▸ hname
  · intro fragment hfragment name hname
    apply hpart (Part.ofFragment schema fragment)
    · exact List.mem_append_right _ (List.mem_map_of_mem hfragment)
    · exact (spreadNames_allSites schema _ fragment.selections).symm ▸ hname

theorem isAcyclic_of_isValid (h : isValid schema document = true) : document.IsAcyclic := by
  have hrule := follows_of_isValid h .acyclicFragments (by decide)
  intro name hcycle
  obtain ⟨next, hnext, hback⟩ := Relation.TransGen.head'_iff.mp hcycle
  cases hfragment : document.fragment? name with
  | none =>
    rw [Source.Document.spreadsOf, hfragment] at hnext
    cases hnext
  | some fragment =>
    obtain ⟨hmem, rfl⟩ := Source.Document.mem_of_fragment? hfragment
    rw [Source.Document.spreadsOf_eq hfragment] at hnext
    have hnot := List.all_eq_true.mp hrule fragment hmem
    simp only [Bool.not_eq_true', List.contains_eq_mem, decide_eq_false_iff_not] at hnot
    exact hnot (Source.Document.mem_reachedFrom.mpr ⟨next, hnext, hback⟩)

end QueryShape.Validity

namespace QueryShape.Source.Document

variable {document : Document}

theorem spreadsOf_addTypename : document.addTypename.spreadsOf = document.spreadsOf := by
  funext name
  rw [spreadsOf, spreadsOf, fragment?_addTypename, Option.map_map]
  congr 2
  funext fragment
  simp [Fragment.addTypename, Selection.allSpreadsWithin_withTypename]

theorem IsClosed.prepared (h : document.IsClosed) (options : Options) :
    (document.prepared options).IsClosed := by
  rw [Document.prepared]
  split
  · constructor
    · rw [operations_addTypename]
      intro operation hoperation name hname
      obtain ⟨original, horiginal, rfl⟩ := List.mem_map.mp hoperation
      rw [Operation.addTypename, Selection.allSpreadsWithin_addTypenames] at hname
      simpa [fragment?_addTypename] using h.operation original horiginal name hname
    · rw [fragments_addTypename]
      intro fragment hfragment name hname
      obtain ⟨original, horiginal, rfl⟩ := List.mem_map.mp hfragment
      rw [Fragment.addTypename, Selection.allSpreadsWithin_withTypename,
        Selection.allSpreadsWithin_addTypenames] at hname
      simpa [fragment?_addTypename] using h.fragment original horiginal name hname
  · exact h

theorem IsAcyclic.prepared (h : document.IsAcyclic) (options : Options) :
    (document.prepared options).IsAcyclic := by
  rw [Document.prepared]
  split
  · rw [IsAcyclic, spreadsOf_addTypename]
    exact h
  · exact h

theorem map_operations_prepared {α : Type} {f : Operation → α}
    (hf : ∀ operation : Operation, f operation.addTypename = f operation) (options : Options) :
    (document.prepared options).operations.map f = document.operations.map f := by
  rw [Document.prepared]
  split
  · rw [operations_addTypename, List.map_map]
    exact List.map_congr_left fun operation _ => hf operation
  · rfl

theorem map_fragments_prepared {α : Type} {f : Fragment → α}
    (hf : ∀ fragment : Fragment, f fragment.addTypename = f fragment) (options : Options) :
    (document.prepared options).fragments.map f = document.fragments.map f := by
  rw [Document.prepared]
  split
  · rw [fragments_addTypename, List.map_map]
    exact List.map_congr_left fun fragment _ => hf fragment
  · rfl

theorem aliases_prepared (options : Options) :
    (document.prepared options).aliases = document.aliases := by
  rw [Document.prepared]
  split
  · exact aliases_addTypename document
  · rfl

end QueryShape.Source.Document
