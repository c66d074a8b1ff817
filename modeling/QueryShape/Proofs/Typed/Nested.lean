import QueryShape.Proofs.Typed.Fragments
import QueryShape.Proofs.Typed.Selected

/-!
# Inside selected fields

What is inside a field that a selection set selects spreads defined fragments only, if the document
is closed, and is nested less deeply than the set itself. The depth is that through fragments: among
those without cycles the depths of all fragments that a spread reaches add up to enough for it.
-/

set_option autoImplicit false

namespace QueryShape.Typed

mutual

/-- How deeply composite fields are nested in a selection, given how deeply they are in fragments.
-/
def Selection.depthThrough (ofFragment : String → Nat) : Selection → Nat
  | .leaf _ => 0
  | .composite _ _ nested => Selection.allDepthThrough ofFragment nested + 1
  | .typeCondition _ _ inner => Selection.allDepthThrough ofFragment inner
  | .booleanCondition _ _ inner => Selection.allDepthThrough ofFragment inner
  | .fragmentSpread name => ofFragment name

def Selection.allDepthThrough (ofFragment : String → Nat) : List Selection → Nat
  | [] => 0
  | selection :: rest =>
    max (Selection.depthThrough ofFragment selection) (Selection.allDepthThrough ofFragment rest)

end

namespace Selection

variable {ofFragment : String → Nat}

theorem allDepthThrough_le {selections : List Selection} {bound : Nat} :
    allDepthThrough ofFragment selections ≤ bound ↔
      ∀ selection ∈ selections, depthThrough ofFragment selection ≤ bound := by
  induction selections with
  | nil => simp [allDepthThrough]
  | cons selection rest ih => simp [allDepthThrough, ih]

theorem depthThrough_le_of_mem {selection : Selection} {selections : List Selection}
    (h : selection ∈ selections) :
    depthThrough ofFragment selection ≤ allDepthThrough ofFragment selections :=
  allDepthThrough_le.mp (Nat.le_refl _) selection h

theorem allDepthThrough_le_maxDepth_add {selections : List Selection} {extra : Nat}
    (h : ∀ name ∈ allSpreads selections, ofFragment name ≤ extra) :
    allDepthThrough ofFragment selections ≤ maxDepth selections + extra := by
  induction selections using listInduction with
  | nil => simp [allDepthThrough]
  | leaf head rest ih =>
    have hrest := ih h
    simp only [allDepthThrough, depthThrough, maxDepth, depth]
    omega
  | composite head types nested rest ihNested ih =>
    have hnested := ihNested fun name hname => h name (List.mem_append_left _ hname)
    have hrest := ih fun name hname => h name (List.mem_append_right _ hname)
    simp only [allDepthThrough, depthThrough, maxDepth, depth]
    omega
  | typeCondition condition narrowed inner rest ihInner ih =>
    have hinner := ihInner fun name hname => h name (List.mem_append_left _ hname)
    have hrest := ih fun name hname => h name (List.mem_append_right _ hname)
    simp only [allDepthThrough, depthThrough, maxDepth, depth]
    omega
  | booleanCondition check types inner rest ihInner ih =>
    have hinner := ihInner fun name hname => h name (List.mem_append_left _ hname)
    have hrest := ih fun name hname => h name (List.mem_append_right _ hname)
    simp only [allDepthThrough, depthThrough, maxDepth, depth]
    omega
  | fragmentSpread name rest ih =>
    have hname := h name (List.mem_append_left _ (List.mem_singleton.mpr rfl))
    have hrest := ih fun name hname => h name (List.mem_append_right _ hname)
    simp only [allDepthThrough, depthThrough, maxDepth, depth]
    omega

end Selection

namespace Document

variable {document : Document}

noncomputable def fragmentDepth (document : Document) (name : String) : Nat :=
  document.reachCost (·.selectionSet.depth) name

theorem allDepthThrough_fragment_le (hacyclic : document.IsAcyclic) {name : String}
    {fragment : Fragment} (h : document.fragment? name = some fragment) :
    Selection.allDepthThrough document.fragmentDepth fragment.selectionSet.selections ≤
      document.fragmentDepth name := by
  have hown := le_reachCost (fun fragment => fragment.selectionSet.depth) h
  have hspreads : ∀ next ∈ Selection.allSpreads fragment.selectionSet.selections,
      document.fragmentDepth next ≤ document.fragmentDepth name - fragment.selectionSet.depth :=
    fun next hnext => Nat.le_sub_of_add_le (reachCost_add_le hacyclic _ h hnext)
  have hle := Selection.allDepthThrough_le_maxDepth_add hspreads
  rw [SelectionSet.depth] at hown hle
  rw [fragmentDepth] at hle ⊢
  omega

theorem Selects.depth_lt {follow : Bool} {ofFragment : String → Nat}
    (hfragment : follow = true → ∀ name fragment, document.fragment? name = some fragment →
      Selection.allDepthThrough ofFragment fragment.selectionSet.selections ≤ ofFragment name)
    {type : String} {checks : List Check} {types : List String} {selections : List Selection}
    {selected : List Selected} (h : document.Selects follow type checks types selections selected)
    {member : Selected} (hmember : member ∈ selected) {inner : SelectionSet}
    (hinner : member.field.selectionSet = some inner) :
    Selection.allDepthThrough ofFragment inner.selections <
      Selection.allDepthThrough ofFragment selections := by
  have hle := h.inherits (fun selection => Selection.depthThrough ofFragment selection ≤
    Selection.allDepthThrough ofFragment selections)
    (fun _ _ _ => Selection.allDepthThrough_le.mp) (fun _ _ _ => Selection.allDepthThrough_le.mp)
    (fun hfollow name fragment hdefined hname => Selection.allDepthThrough_le.mp
      ((hfragment hfollow name fragment hdefined).trans hname))
    (Selection.allDepthThrough_le.mp (Nat.le_refl _)) member hmember
  rw [Field.toSelection, hinner] at hle
  exact hle

theorem Selects.defines (hclosed : document.IsClosed) {follow : Bool} {type : String}
    {checks : List Check} {types : List String} {selections : List Selection}
    {selected : List Selected} (h : document.Selects follow type checks types selections selected)
    (hdefines : document.Defines selections) {member : Selected} (hmember : member ∈ selected)
    {inner : SelectionSet} (hinner : member.field.selectionSet = some inner) :
    document.Defines inner.selections := by
  have hdefined := h.inherits
    (fun selection => ∀ name ∈ selection.spreads, (document.fragment? name).isSome)
    (fun _ _ _ => defines_iff.mp) (fun _ _ _ => defines_iff.mp)
    (fun _ name fragment hfragment _ => defines_iff.mp (hclosed.defines hfragment))
    (defines_iff.mp hdefines) member hmember
  rw [Field.toSelection, hinner] at hdefined
  exact hdefined

end Document

end QueryShape.Typed
