import QueryShape.Proofs.Typed.Inlining
import QueryShape.Proofs.Typed.References

/-!
# Documents that hold a part

What a selection set depends on is a document of its own: the fragments that it reaches through
spreads. A document holds a part if it has all fragments of the part, up to the files that they are
from. Whatever else it has, and in whatever order, it references and inlines alike what is within a
closed part.
-/

set_option autoImplicit false

namespace QueryShape.Typed

structure Fragment.Agrees (fragment other : Fragment) : Prop where
  name : fragment.name = other.name
  source : fragment.source = other.source
  type : fragment.type = other.type
  selectionSet : fragment.selectionSet = other.selectionSet

theorem Fragment.Agrees.refl (fragment : Fragment) : fragment.Agrees fragment :=
  ⟨rfl, rfl, rfl, rfl⟩

theorem sum_le_of_subset {α : Type} (cost : α → Nat) {xs ys : List α} (hnodup : xs.Nodup)
    (hsubset : xs ⊆ ys) : (xs.map cost).sum ≤ (ys.map cost).sum := by
  obtain ⟨zs, hperm, hsublist⟩ := List.subperm_of_subset hnodup hsubset
  rw [← (hperm.map cost).sum_eq]
  exact (hsublist.map cost).sum_le_sum (by simp)

namespace Document

/-- The document has all fragments of the part, which are under distinct names. -/
structure Holds (document part : Document) : Prop where
  nodup : part.fragmentNames.Nodup
  fragment : ∀ name fragment, part.fragment? name = some fragment →
    ∃ other, document.fragment? name = some other ∧ other.Agrees fragment

section

variable {document part : Document}

theorem fragment?_name (hnodup : part.fragmentNames.Nodup) {fragment : Fragment}
    (hmem : fragment ∈ part.fragments) : part.fragment? fragment.name = some fragment := by
  obtain ⟨found, hfound⟩ : ∃ found, part.fragment? fragment.name = some found := by
    rw [← Option.isSome_iff_exists, fragment?, List.find?_isSome]
    exact ⟨fragment, hmem, beq_self_eq_true _⟩
  obtain ⟨hfoundMem, hname⟩ := mem_of_fragment? hfound
  rw [hfound, List.inj_on_of_nodup_map hnodup hfoundMem hmem hname]

theorem Holds.map_cost (h : document.Holds part) (cost : SelectionSet → Nat)
    {fragments : List Fragment}
    (hfragments : ∀ fragment ∈ fragments, part.fragment? fragment.name = some fragment) :
    ((fragments.map (·.name)).filterMap document.fragment?).map
        (fun fragment => cost fragment.selectionSet) =
      fragments.map fun fragment => cost fragment.selectionSet := by
  induction fragments with
  | nil => rfl
  | cons fragment rest ih =>
    obtain ⟨hfirst, hrest⟩ := List.forall_mem_cons.mp hfragments
    obtain ⟨other, hother, hagrees⟩ := h.fragment _ fragment hfirst
    rw [List.map_cons, List.filterMap_cons_some hother, List.map_cons, List.map_cons, ih hrest,
      hagrees.selectionSet]

theorem Holds.sum_le (h : document.Holds part) (cost : SelectionSet → Nat) :
    (part.fragments.map fun fragment => cost fragment.selectionSet).sum ≤
      (document.fragments.map fun fragment => cost fragment.selectionSet).sum := by
  rw [← h.map_cost cost fun fragment => fragment?_name h.nodup]
  apply sum_le_of_subset
  · apply h.nodup.filterMap
    intro name name' fragment hname hname'
    rw [← (mem_of_fragment? hname).2, ← (mem_of_fragment? hname').2]
  · intro fragment hfragment
    obtain ⟨name, _, hname⟩ := List.mem_filterMap.mp hfragment
    exact (mem_of_fragment? hname).1

theorem Holds.length_le (h : document.Holds part) :
    part.fragments.length ≤ document.fragments.length := by
  simpa using h.sum_le fun _ => 1

theorem Holds.spreadsOf_eq (h : document.Holds part) {name : String}
    (hname : (part.fragment? name).isSome) : part.spreadsOf name = document.spreadsOf name := by
  obtain ⟨fragment, hfragment⟩ := Option.isSome_iff_exists.mp hname
  obtain ⟨other, hother, hagrees⟩ := h.fragment name fragment hfragment
  rw [Document.spreadsOf_eq hfragment, Document.spreadsOf_eq hother, hagrees.selectionSet]

theorem Holds.reachableNames_eq (h : document.Holds part) (hclosed : part.IsClosed)
    {set : SelectionSet} (hset : part.Defines set.selections) :
    part.reachableNames set = document.reachableNames set := by
  have hlength (document : Document) :
      document.fragments.length = document.fragmentNames.length := by
    rw [fragmentNames, List.length_map]
  rw [reachableNames, reachableNames, hlength, hlength]
  apply Walk.fromAll_congr
  · exact fun _ => mem_fragmentNames_of_spreadsOf_ne_nil
  · exact fun _ => mem_fragmentNames_of_spreadsOf_ne_nil
  · intro start hstart name hreaches
    apply h.spreadsOf_eq
    exact isSome_of_mem_reachableNames hclosed hset
      (mem_reachableNames.mpr ⟨start, hstart, hreaches⟩)

theorem Holds.references_eq_ok (h : document.Holds part) (hclosed : part.IsClosed)
    {set : SelectionSet} (hset : part.Defines set.selections) {names : List String}
    (hpart : part.references set = .ok names) : document.references set = .ok names := by
  obtain ⟨rfl, hdefined⟩ := Document.references_eq_ok.mp hpart
  rw [h.reachableNames_eq hclosed hset] at hdefined ⊢
  refine Document.references_eq_ok.mpr ⟨rfl, fun name hname => ?_⟩
  have hsome := hdefined name hname
  obtain ⟨fragment, hfragment⟩ := Option.isSome_iff_exists.mp hsome
  obtain ⟨other, hother, _⟩ := h.fragment name fragment hfragment
  rw [hother]
  rfl

theorem Holds.exists_mapM_requireFragment (h : document.Holds part) {names : List String}
    {fragments : List Fragment} (hfragments : names.mapM part.requireFragment = .ok fragments) :
    ∃ others, names.mapM document.requireFragment = .ok others ∧
      others.map (·.source) = fragments.map (·.source) := by
  simp only [Outcome.mapM_eq_ok, requireFragment_eq_ok] at hfragments ⊢
  induction hfragments with
  | nil => exact ⟨[], .nil, rfl⟩
  | cons hfirst _ ih =>
    obtain ⟨other, hother, hagrees⟩ := h.fragment _ _ hfirst
    obtain ⟨others, hothers, hsources⟩ := ih
    exact ⟨other :: others, .cons hother hothers, by simp [hagrees.source, hsources]⟩

theorem Holds.identityWith_eq_ok (h : document.Holds part) {operation : Operation}
    {names : List String} {identity : Identity}
    (hidentity : part.identityWith operation names = .ok identity) :
    document.identityWith operation names = .ok identity := by
  simp only [identityWith, Outcome.bind_eq_ok, Outcome.pure_eq_ok] at hidentity ⊢
  obtain ⟨fragments, hfragments, rfl⟩ := hidentity
  obtain ⟨others, hothers, hsources⟩ := h.exists_mapM_requireFragment hfragments
  exact ⟨others, hothers, by rw [hsources]⟩

end

end Document

theorem Selection.allInlined_of_imp
    {expand others : List String → String → Except FragmentError Selection}
    (h : ∀ types name expanded, expand types name = .ok expanded →
      others types name = .ok expanded) {types : List String} {selections result : List Selection}
    (hresult : allInlined expand types selections = .ok result) :
    allInlined others types selections = .ok result := by
  induction selections using listInduction generalizing types result with
  | nil => exact hresult
  | leaf head rest ih =>
    obtain ⟨_, hfirst, _, hrest, rfl⟩ := allInlined_cons_eq_ok.mp hresult
    exact allInlined_cons_eq_ok.mpr ⟨_, hfirst, _, ih hrest, rfl⟩
  | composite head nestedTypes nested rest _ ih =>
    obtain ⟨_, hfirst, _, hrest, rfl⟩ := allInlined_cons_eq_ok.mp hresult
    exact allInlined_cons_eq_ok.mpr ⟨_, hfirst, _, ih hrest, rfl⟩
  | typeCondition condition narrowed inner rest ihInner ih =>
    obtain ⟨_, hfirst, _, hrest, rfl⟩ := allInlined_cons_eq_ok.mp hresult
    refine allInlined_cons_eq_ok.mpr ⟨_, ?_, _, ih hrest, rfl⟩
    simp only [inlined, Outcome.bind_eq_ok] at hfirst ⊢
    obtain ⟨_, hinner, hfirst⟩ := hfirst
    exact ⟨_, ihInner hinner, hfirst⟩
  | booleanCondition check innerTypes inner rest ihInner ih =>
    obtain ⟨_, hfirst, _, hrest, rfl⟩ := allInlined_cons_eq_ok.mp hresult
    refine allInlined_cons_eq_ok.mpr ⟨_, ?_, _, ih hrest, rfl⟩
    simp only [inlined, Outcome.bind_eq_ok] at hfirst ⊢
    obtain ⟨_, hinner, hfirst⟩ := hfirst
    exact ⟨_, ihInner hinner, hfirst⟩
  | fragmentSpread name rest ih =>
    obtain ⟨_, hfirst, _, hrest, rfl⟩ := allInlined_cons_eq_ok.mp hresult
    exact allInlined_cons_eq_ok.mpr ⟨_, h types name _ hfirst, _, ih hrest, rfl⟩

namespace Document

section

variable {document part : Document} (h : document.Holds part)
include h

theorem Holds.expansion_eq_ok {bound larger : Nat} (hle : bound ≤ larger) {types : List String}
    {name : String} {expanded : Selection}
    (hpart : part.expansion bound types name = .ok expanded) :
    document.expansion larger types name = .ok expanded := by
  induction bound generalizing larger types name expanded with
  | zero =>
    simp only [expansion, Outcome.bind_eq_ok] at hpart
    obtain ⟨_, _, hpart⟩ := hpart
    cases hpart
  | succ bound ih =>
    obtain ⟨larger, rfl⟩ := Nat.exists_eq_add_of_lt hle
    simp only [expansion, Outcome.bind_eq_ok, Outcome.pure_eq_ok, requireFragment_eq_ok]
      at hpart ⊢
    obtain ⟨fragment, hfragment, inner, hinner, rfl⟩ := hpart
    obtain ⟨other, hother, hagrees⟩ := h.fragment name fragment hfragment
    refine ⟨other, hother, inner, ?_, by rw [hagrees.type, hagrees.selectionSet]⟩
    rw [hagrees.selectionSet]
    exact Selection.allInlined_of_imp (fun _ _ _ => ih (Nat.le_add_right bound larger)) hinner

theorem Holds.inlined_eq_ok {set merged : SelectionSet} (hpart : part.inlined set = .ok merged) :
    document.inlined set = .ok merged := by
  simp only [inlined, Outcome.bind_eq_ok, Outcome.pure_eq_ok] at hpart ⊢
  obtain ⟨selections, hselections, rfl⟩ := hpart
  exact ⟨selections, Selection.allInlined_of_imp
    (fun _ _ _ => h.expansion_eq_ok h.length_le) hselections, rfl⟩

end

def partOf (document : Document) (set : SelectionSet) : Document where
  operations := []
  fragments := (document.reachableNames set).filterMap document.fragment?
  typesUsed := []

section

variable {document : Document} {set : SelectionSet}

theorem fragment?_partOf (name : String) :
    (document.partOf set).fragment? name =
      if name ∈ document.reachableNames set then document.fragment? name else none := by
  rw [fragment?, partOf]
  induction document.reachableNames set with
  | nil => rfl
  | cons first rest ih =>
    cases hfirst : document.fragment? first with
    | none =>
      rw [List.filterMap_cons_none hfirst, ih]
      by_cases hname : name = first
      · simp [hname, hfirst]
      · simp [hname]
    | some fragment =>
      have hfragment := (mem_of_fragment? hfirst).2
      rw [List.filterMap_cons_some hfirst, List.find?_cons, ih, hfragment]
      by_cases hname : name = first
      · simp [hname, hfirst]
      · simp [hname, beq_eq_false_iff_ne.mpr (Ne.symm hname)]

variable (hdefined : ∀ name ∈ document.reachableNames set, (document.fragment? name).isSome)
include hdefined

theorem fragmentNames_partOf :
    (document.partOf set).fragmentNames = document.reachableNames set := by
  rw [fragmentNames, partOf]
  revert hdefined
  generalize document.reachableNames set = names
  intro hdefined
  induction names with
  | nil => rfl
  | cons first rest ih =>
    obtain ⟨hfirst, hrest⟩ := List.forall_mem_cons.mp hdefined
    obtain ⟨fragment, hfragment⟩ := Option.isSome_iff_exists.mp hfirst
    rw [List.filterMap_cons_some hfragment, List.map_cons, ih hrest, (mem_of_fragment? hfragment).2]

theorem nodup_partOf : (document.partOf set).fragmentNames.Nodup := by
  rw [fragmentNames_partOf hdefined]
  exact nodup_reachableNames set

theorem defines_partOf : (document.partOf set).Defines set.selections := by
  intro name hname
  have hreached : name ∈ document.reachableNames set := mem_reachableNames.mpr ⟨name, hname, .refl⟩
  rw [fragment?_partOf, if_pos hreached]
  exact hdefined name hreached

theorem isClosed_partOf : (document.partOf set).IsClosed where
  operation _ hoperation := by cases hoperation
  fragment fragment hfragment next hnext := by
    obtain ⟨name, hname, hfound⟩ := List.mem_filterMap.mp hfragment
    obtain ⟨start, hstart, hreaches⟩ := mem_reachableNames.mp hname
    have hstep : next ∈ document.spreadsOf name := by rwa [Document.spreadsOf_eq hfound]
    have hreached : next ∈ document.reachableNames set :=
      mem_reachableNames.mpr ⟨start, hstart, hreaches.tail hstep⟩
    rw [fragment?_partOf, if_pos hreached]
    exact hdefined next hreached

omit hdefined in
theorem isAcyclic_partOf (hacyclic : ∀ name ∈ document.reachableNames set,
      ¬Relation.TransGen (fun name next => next ∈ document.spreadsOf name) name name) :
    (document.partOf set).IsAcyclic := by
  have hpart : ∀ name next, next ∈ (document.partOf set).spreadsOf name →
      name ∈ document.reachableNames set ∧ next ∈ document.spreadsOf name := by
    intro name next hnext
    rw [spreadsOf, fragment?_partOf] at hnext
    split at hnext
    · rename_i hname
      exact ⟨hname, hnext⟩
    · cases hnext
  intro name hcycle
  obtain ⟨next, hnext, _⟩ := Relation.TransGen.head'_iff.mp hcycle
  apply hacyclic name (hpart name next hnext).1
  exact Relation.TransGen.mono (fun name next hnext => (hpart name next hnext).2) _ _ hcycle

end

/-- The documents have the same fragments, up to their files, wherever spreads lead to from the
selection set. -/
def AgreesOn (document other : Document) (set : SelectionSet) : Prop :=
  ∀ name, document.Reaches set name → ∃ fragment found,
    document.fragment? name = some fragment ∧ other.fragment? name = some found ∧
      found.Agrees fragment

section

variable {document other : Document} {set : SelectionSet} (h : document.AgreesOn other set)
include h

theorem AgreesOn.defined : ∀ name ∈ document.reachableNames set,
    (document.fragment? name).isSome := by
  intro name hname
  obtain ⟨fragment, _, hfragment, _⟩ := h name (mem_reachableNames.mp hname)
  rw [hfragment]
  rfl

theorem AgreesOn.holds_partOf : other.Holds (document.partOf set) where
  nodup := nodup_partOf h.defined
  fragment name fragment hfragment := by
    rw [fragment?_partOf] at hfragment
    obtain ⟨hname, hfragment⟩ := Option.ite_none_right_eq_some.mp hfragment
    obtain ⟨_, found, hsame, hfound, hagrees⟩ := h name (mem_reachableNames.mp hname)
    obtain rfl := Option.some.inj (hsame.symm.trans hfragment)
    exact ⟨found, hfound, hagrees⟩

theorem AgreesOn.refl_left : document.AgreesOn document set := by
  intro name hname
  obtain ⟨fragment, _, hfragment, _⟩ := h name hname
  exact ⟨fragment, fragment, hfragment, hfragment, .refl fragment⟩

end

end Document

end QueryShape.Typed
