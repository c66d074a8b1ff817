import QueryShape.Proofs.Source.KeptSpreads
import QueryShape.Proofs.Source.Leaves
import QueryShape.Proofs.Typed.Compiled
import QueryShape.Proofs.Typed.References

/-!
# Spreads of typed selections

A typed document spreads what is kept of the spreads in the written one. What a selection set of it
depends on are therefore the fragments that the written one reaches through spreads that are kept.
-/

set_option autoImplicit false

namespace QueryShape.Typed

section

variable {schema : Schema} {fragmentType? : String → Option String}

theorem anyExcludes_of_checksOf? {directives : List Source.Directive} {checks : List Check}
    (h : checksOf? directives = some checks) :
    Source.Directive.anyExcludes (fun _ => none) directives = false := by
  rw [← Bool.not_eq_true, ← checksOf?_eq_none, h]
  nofun

/-- Typing keeps the spreads in selections that end at leaves, in order. -/
theorem Typing.allSpreads_eq {parent : String} {types seen : List String}
    {selections : List Source.Selection} {typed : List Selection}
    (h : Typing schema fragmentType? parent types seen selections typed)
    (hleaves : Source.Selection.AllEndAtLeaves schema parent selections) :
    Selection.allSpreads typed = Source.Selection.allKeptSpreads seen selections := by
  induction h with
  | nil => rfl
  | @excluded _ _ _ selection _ _ hexcluded _ ih =>
    rw [ih hleaves.2, Source.Selection.allKeptSpreads]
    have hexcludes := checksOf?_eq_none.mp hexcluded
    cases selection with
    | field _ _ _ directives _ | fragmentSpread _ directives | inlineFragment _ directives _ =>
      simp only [Source.Selection.directives] at hexcludes
      simp [Source.Selection.keptSpreads, hexcludes]
  | repeated hseen _ ih =>
    rw [ih hleaves.2, Source.Selection.allKeptSpreads, Source.Selection.keptSpreads,
      if_pos (Or.inl hseen), Source.Selection.seenAfter, List.insert_of_mem hseen]
    rfl
  | leaf hchecks hdefinition hleaf _ ih =>
    -- What is selected below a leaf would be lost.
    obtain ⟨rfl, _⟩ := (hleaves.1 _ hdefinition).imp_left (· hleaf)
    rw [Selection.allSpreads, Selection.spreads_under, ih hleaves.2]
    simp [Selection.spreads, Source.Selection.allKeptSpreads, Source.Selection.keptSpreads,
      Source.Selection.seenAfter]
  | composite hchecks hdefinition _ _ _ ihInner ih =>
    rw [Selection.allSpreads, Selection.spreads_under, ih hleaves.2, Selection.spreads,
      ihInner (hleaves.1 _ hdefinition).2, Source.Selection.allKeptSpreads,
      Source.Selection.keptSpreads, anyExcludes_of_checksOf? hchecks]
    rfl
  | spread hnew hchecks _ _ ih =>
    rw [Selection.allSpreads, Selection.spreads_under, ih hleaves.2, spreads_spreadWithin,
      Source.Selection.allKeptSpreads, Source.Selection.keptSpreads,
      anyExcludes_of_checksOf? hchecks, if_neg (by simpa using hnew)]
    rfl
  | inline hchecks _ _ ihInner ih =>
    rw [Selection.allSpreads, Selection.spreads_under, ih hleaves.2, Selection.spreads,
      ihInner hleaves.1, Source.Selection.allKeptSpreads, Source.Selection.keptSpreads,
      anyExcludes_of_checksOf? hchecks]
    rfl

end

namespace Document

namespace IsTyped

variable {schema : Schema} {filePath : Option String} {written : Source.Document}
  {document : Document} (h : IsTyped schema filePath written document)
include h

theorem exists_written {names : List String} {fragments : List Fragment}
    (hfragments : names.mapM document.requireFragment = .ok fragments) :
    ∃ originals : List Source.Fragment, originals.map (·.name) = names ∧
      (∀ original ∈ originals, written.fragment? original.name = some original) ∧
      fragments.map (·.source) = originals.map (·.print) := by
  have hall := Outcome.mapM_eq_ok.mp hfragments
  clear hfragments
  induction hall with
  | nil => exact ⟨[], rfl, by simp, rfl⟩
  | @cons name fragment _ _ hfragment _ ih =>
    obtain ⟨originals, hnames, hwritten, hprinted⟩ := ih
    obtain ⟨original, horiginal, hsource⟩ :=
      h.exists_fragment (requireFragment_eq_ok.mp hfragment)
    obtain ⟨_, hname⟩ := Source.Document.mem_of_fragment? horiginal
    obtain ⟨_, _, rfl⟩ := Fragment.ofSource_eq_ok.mp hsource
    refine ⟨original :: originals, ?_, ?_, ?_⟩
    · rw [List.map_cons, hnames, hname]
    · exact List.forall_mem_cons.mpr ⟨hname ▸ horiginal, hwritten⟩
    · rw [List.map_cons, List.map_cons, hprinted]

variable (hleaves : written.EndsAtLeaves schema)
include hleaves

theorem spreadsOf_eq_kept : document.spreadsOf = written.keptSpreadsOf := by
  funext name
  have hrel := h.rel_fragment? name
  rw [spreadsOf, Source.Document.keptSpreadsOf]
  cases hwritten : written.fragment? name with
  | none =>
    have hnone : document.fragment? name = none := by
      simpa [hwritten] using isSome_eq_of_rel hrel
    rw [hnone]
    rfl
  | some original =>
    obtain ⟨fragment, hfragment, hsource⟩ := exists_eq_some_of_rel hrel hwritten
    obtain ⟨set, hset, rfl⟩ := Fragment.ofSource_eq_ok.mp hsource
    have hmem := (Source.Document.mem_of_fragment? hwritten).1
    rw [hfragment]
    exact (typing_of_ofSource hset).2.allSpreads_eq (hleaves.fragment original hmem)

theorem mem_reachableNames_iff_keeps {parent : String} {selections : List Source.Selection}
    {set : SelectionSet}
    (hset : SelectionSet.ofSource schema written.fragmentType? parent selections = .ok set)
    (hselections : Source.Selection.AllEndAtLeaves schema parent selections) {name : String} :
    name ∈ document.reachableNames set ↔ written.Keeps selections name := by
  rw [mem_reachableNames, Reaches, h.spreadsOf_eq_kept hleaves, SelectionSet.spreads,
    (typing_of_ofSource hset).2.allSpreads_eq hselections]
  rfl

end IsTyped

end Document

end QueryShape.Typed
