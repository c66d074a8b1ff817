import Mathlib.Algebra.GroupWithZero.Nat
import Mathlib.Algebra.Order.BigOperators.Group.List
import Mathlib.Algebra.Order.Group.Nat
import QueryShape.Proofs.Typed.Selections
import QueryShape.Proofs.Walk

/-!
# Fragments that can be followed

A document is closed if all fragments spread in it are defined, and acyclic if no fragment reaches
itself through spreads. What the fragments cost that are reached from one of them, itself included,
then becomes less with every spread that is followed, so that following spreads ends. With each
fragment counted once, this bounds how many fragments lie on a path; with the depths of fragments it
bounds how deeply fields are nested on a path.
-/

set_option autoImplicit false

namespace QueryShape.Typed

namespace Document

variable (document : Document)

def Defines (selections : List Selection) : Prop :=
  ∀ name ∈ Selection.allSpreads selections, (document.fragment? name).isSome

structure IsClosed : Prop where
  operation : ∀ operation ∈ document.operations, document.Defines operation.selectionSet.selections
  fragment : ∀ fragment ∈ document.fragments, document.Defines fragment.selectionSet.selections

def IsAcyclic : Prop :=
  ∀ name, ¬Relation.TransGen (fun name next => next ∈ document.spreadsOf name) name name

open Classical in
/-- What the fragments cost that are reached from the named one, itself included. -/
noncomputable def reachCost (cost : Fragment → Nat) (name : String) : Nat :=
  ((document.fragments.filter fun fragment =>
    Walk.Reaches document.spreadsOf name fragment.name).map cost).sum

variable {document}

theorem defines_iff {selections : List Selection} :
    document.Defines selections ↔
      ∀ selection ∈ selections, ∀ name ∈ selection.spreads, (document.fragment? name).isSome := by
  constructor
  · exact fun h selection hmem name hname => h name (Selection.mem_allSpreads.mpr ⟨_, hmem, hname⟩)
  · intro h name hname
    obtain ⟨selection, hmem, hname⟩ := Selection.mem_allSpreads.mp hname
    exact h selection hmem name hname

theorem mem_of_fragment? {name : String} {fragment : Fragment}
    (h : document.fragment? name = some fragment) :
    fragment ∈ document.fragments ∧ fragment.name = name :=
  ⟨List.mem_of_find?_eq_some h, by simpa using List.find?_some h⟩

theorem spreadsOf_eq {name : String} {fragment : Fragment}
    (h : document.fragment? name = some fragment) :
    document.spreadsOf name = Selection.allSpreads fragment.selectionSet.selections := by
  rw [spreadsOf, h]
  rfl

theorem requireFragment_eq_ok {name : String} {fragment : Fragment} :
    document.requireFragment name = .ok fragment ↔ document.fragment? name = some fragment := by
  rw [requireFragment]
  cases document.fragment? name <;> simp

theorem IsClosed.defines (hclosed : document.IsClosed) {name : String} {fragment : Fragment}
    (h : document.fragment? name = some fragment) :
    document.Defines fragment.selectionSet.selections :=
  hclosed.fragment fragment (mem_of_fragment? h).1

end Document

theorem sum_filter_add_le {α : Type} (cost : α → Nat) {p q : α → Bool} {xs : List α}
    (himp : ∀ x, p x = true → q x = true) {left : α} (hmem : left ∈ xs) (hp : p left = false)
    (hq : q left = true) :
    ((xs.filter p).map cost).sum + cost left ≤ ((xs.filter q).map cost).sum := by
  induction xs with
  | nil => cases hmem
  | cons x rest ih =>
    have hrest : ((rest.filter p).map cost).sum ≤ ((rest.filter q).map cost).sum := by
      apply List.Sublist.sum_le_sum
      · exact (List.monotone_filter_right rest himp).map cost
      · simp
    rcases List.mem_cons.mp hmem with rfl | hmem
    · simp [hp, hq]
      omega
    · have hle := ih hmem
      cases hpx : p x with
      | false => cases hqx : q x <;> simp [hpx, hqx] <;> omega
      | true =>
        have hqx := himp x hpx
        simp [hpx, hqx]
        omega

namespace Document

variable {document : Document}

theorem reachCost_add_le (hacyclic : document.IsAcyclic) (cost : Fragment → Nat)
    {name next : String} {fragment : Fragment} (hfragment : document.fragment? name = some fragment)
    (hnext : next ∈ Selection.allSpreads fragment.selectionSet.selections) :
    document.reachCost cost next + cost fragment ≤ document.reachCost cost name := by
  obtain ⟨hmem, hname⟩ := mem_of_fragment? hfragment
  have hstep : next ∈ document.spreadsOf name := by rwa [spreadsOf_eq hfragment]
  apply sum_filter_add_le cost _ hmem
  · simp only [hname, decide_eq_false_iff_not]
    exact fun hback => hacyclic name (.head' hstep hback)
  · simp [hname, Relation.ReflTransGen.refl]
  · intro other hreach
    simp only [decide_eq_true_eq] at hreach ⊢
    exact .head hstep hreach

theorem le_reachCost (cost : Fragment → Nat) {name : String} {fragment : Fragment}
    (h : document.fragment? name = some fragment) :
    cost fragment ≤ document.reachCost cost name := by
  obtain ⟨hmem, hname⟩ := mem_of_fragment? h
  apply List.single_le_sum
  · simp
  · apply List.mem_map_of_mem
    simp [hmem, hname, Relation.ReflTransGen.refl]

theorem reachCost_le (cost : Fragment → Nat) (name : String) :
    document.reachCost cost name ≤ (document.fragments.map cost).sum := by
  apply List.Sublist.sum_le_sum
  · exact (List.filter_sublist).map _
  · simp

end Document

end QueryShape.Typed
