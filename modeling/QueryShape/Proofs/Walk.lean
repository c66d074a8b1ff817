import Mathlib.Data.List.Nodup
import Mathlib.Logic.Relation
import QueryShape.Walk

/-!
# Depth-first walks reach exactly what can be reached

A walk whose bound is at least the number of nodes with successors lists the nodes that paths lead
to from its starts, each once. The reason is that a finished walk is closed: it lists the successors
of every node that it lists. What a walk lists, and in which order, does not depend on any node that
its starts do not reach.
-/

set_option autoImplicit false

namespace QueryShape.Walk

variable {α : Type}

abbrev Reaches (successors : α → List α) : α → α → Prop :=
  Relation.ReflTransGen fun node next => next ∈ successors node

theorem Reaches.mem_of_closed {successors : α → List α} {listed : List α}
    (hclosed : ∀ node ∈ listed, ∀ next ∈ successors node, next ∈ listed) {start node : α}
    (h : Reaches successors start node) (hstart : start ∈ listed) : node ∈ listed := by
  induction h with
  | refl => exact hstart
  | tail _ hstep ih => exact hclosed _ ih _ hstep

variable [DecidableEq α]

def pending (nodes reached : List α) : List α :=
  nodes.filter (· ∉ reached)

theorem length_pending_le {nodes reached further : List α} (h : ∀ node ∈ reached, node ∈ further) :
    (pending nodes further).length ≤ (pending nodes reached).length := by
  apply List.Sublist.length_le
  apply List.monotone_filter_right
  intro node hnode
  simp only [decide_eq_true_eq] at hnode ⊢
  exact fun hreached => hnode (h node hreached)

theorem length_pending_lt {nodes reached : List α} {node : α} (hnode : node ∈ nodes)
    (hnew : node ∉ reached) :
    (pending nodes (reached ++ [node])).length < (pending nodes reached).length := by
  have hsub : (pending nodes (reached ++ [node])).Sublist (pending nodes reached) := by
    apply List.monotone_filter_right
    intro other hother
    simp only [List.mem_append, decide_eq_true_eq] at hother ⊢
    exact fun hreached => hother (Or.inl hreached)
  apply Nat.lt_of_le_of_ne hsub.length_le
  intro hlength
  have hmem : node ∈ pending nodes (reached ++ [node]) := by
    rw [hsub.eq_of_length hlength]
    exact List.mem_filter.mpr ⟨hnode, by simpa using hnew⟩
  simp [pending] at hmem

section

variable (successors : α → List α)

theorem isPrefix_visit (bound : Nat) (reached : List α) (start : α) :
    reached <+: visit successors bound reached start := by
  induction bound generalizing reached start with
  | zero =>
    rw [visit]
    split
    · exact List.prefix_rfl
    · exact List.prefix_append _ _
  | succ bound ih =>
    rw [visit]
    split
    · exact List.prefix_rfl
    · exact List.foldlRecOn (motive := (reached <+: ·)) _ _ (List.prefix_append _ _)
        fun further hfurther next _ => hfurther.trans (ih further next)

theorem isPrefix_foldl_visit (bound : Nat) (reached starts : List α) :
    reached <+: starts.foldl (visit successors bound) reached :=
  List.foldlRecOn (motive := (reached <+: ·)) _ _ List.prefix_rfl
    fun further hfurther next _ => hfurther.trans (isPrefix_visit successors bound further next)

theorem mem_visit_of_mem (bound : Nat) (reached : List α) (start : α) {node : α}
    (h : node ∈ reached) : node ∈ visit successors bound reached start :=
  (isPrefix_visit successors bound reached start).subset h

theorem mem_foldl_visit_of_mem (bound : Nat) (reached starts : List α) {node : α}
    (h : node ∈ reached) : node ∈ starts.foldl (visit successors bound) reached :=
  (isPrefix_foldl_visit successors bound reached starts).subset h

theorem start_mem_visit (bound : Nat) (reached : List α) (start : α) :
    start ∈ visit successors bound reached start := by
  cases bound with
  | zero =>
    rw [visit]
    split
    · assumption
    · simp
  | succ bound =>
    rw [visit]
    split
    · assumption
    · exact mem_foldl_visit_of_mem successors bound _ _ (by simp)

theorem starts_mem_foldl_visit (bound : Nat) (reached starts : List α) :
    ∀ start ∈ starts, start ∈ starts.foldl (visit successors bound) reached := by
  induction starts generalizing reached with
  | nil => simp
  | cons first rest ih =>
    intro start hstart
    rcases List.mem_cons.mp hstart with rfl | hstart
    · exact mem_foldl_visit_of_mem successors bound _ rest
        (start_mem_visit successors bound reached start)
    · exact ih _ start hstart

theorem reaches_of_mem_visit (bound : Nat) (reached : List α) (start : α) {node : α}
    (h : node ∈ visit successors bound reached start) :
    node ∈ reached ∨ Reaches successors start node := by
  induction bound generalizing reached start with
  | zero =>
    rw [visit] at h
    split at h
    · exact Or.inl h
    · rcases List.mem_append.mp h with h | h
      · exact Or.inl h
      · rw [List.mem_singleton.mp h]
        exact Or.inr .refl
  | succ bound ih =>
    rw [visit] at h
    split at h
    · exact Or.inl h
    · revert h
      refine List.foldlRecOn
        (motive := fun listed => node ∈ listed → node ∈ reached ∨ Reaches successors start node)
        _ _ ?_ ?_
      · intro h
        rcases List.mem_append.mp h with h | h
        · exact Or.inl h
        · rw [List.mem_singleton.mp h]
          exact Or.inr .refl
      · intro listed hlisted next hnext h
        rcases ih listed next h with h | h
        · exact hlisted h
        · exact Or.inr (.head hnext h)

theorem nodup_visit (bound : Nat) {reached : List α} (start : α) (h : reached.Nodup) :
    (visit successors bound reached start).Nodup := by
  induction bound generalizing reached start with
  | zero =>
    rw [visit]
    split
    · exact h
    · rename_i hnew
      exact (List.nodup_append_comm.mp (List.nodup_cons.mpr ⟨hnew, h⟩))
  | succ bound ih =>
    rw [visit]
    split
    · exact h
    · rename_i hnew
      exact List.foldlRecOn (motive := List.Nodup) _ _
        (List.nodup_append_comm.mp (List.nodup_cons.mpr ⟨hnew, h⟩))
        fun _ hlisted next _ => ih next hlisted

theorem nodup_fromAll (bound : Nat) (starts : List α) :
    (fromAll successors bound starts).Nodup :=
  List.foldlRecOn (motive := List.Nodup) _ _ List.nodup_nil fun _ h next _ =>
    nodup_visit successors bound next h

section

variable {successors} {nodes : List α} (hnodes : ∀ node, successors node ≠ [] → node ∈ nodes)

include hnodes

omit hnodes in
theorem foldl_visit_closed {bound : Nat}
    (hvisit : ∀ {reached : List α} (start : α), (pending nodes reached).length ≤ bound →
      ∀ node ∈ visit successors bound reached start, node ∈ reached ∨
        ∀ next ∈ successors node, next ∈ visit successors bound reached start)
    {starts listed : List α} (hlisted : (pending nodes listed).length ≤ bound) :
    ∀ node ∈ starts.foldl (visit successors bound) listed, node ∈ listed ∨
      ∀ next ∈ successors node, next ∈ starts.foldl (visit successors bound) listed := by
  induction starts generalizing listed with
  | nil => exact fun _ h => Or.inl h
  | cons first rest ih =>
    intro node hnode
    have hgrown : ∀ node ∈ listed, node ∈ visit successors bound listed first :=
      fun _ => mem_visit_of_mem successors bound listed first
    rcases ih (Nat.le_trans (length_pending_le hgrown) hlisted) node hnode with h | h
    · rcases hvisit first hlisted node h with h | h
      · exact Or.inl h
      · exact Or.inr fun next hnext =>
          mem_foldl_visit_of_mem successors bound _ rest (h next hnext)
    · exact Or.inr h

theorem visit_closed {bound : Nat} {reached : List α} (start : α)
    (hbound : (pending nodes reached).length ≤ bound) :
    ∀ node ∈ visit successors bound reached start,
      node ∈ reached ∨ ∀ next ∈ successors node, next ∈ visit successors bound reached start := by
  induction bound generalizing reached start with
  | zero =>
    intro node hnode
    rw [visit] at hnode ⊢
    split at hnode
    · exact Or.inl hnode
    · rename_i hnew
      rcases List.mem_append.mp hnode with hnode | hnode
      · exact Or.inl hnode
      · right
        intro next hnext
        rw [List.mem_singleton.mp hnode] at hnext
        have hmem : start ∈ pending nodes reached :=
          List.mem_filter.mpr ⟨hnodes start (List.ne_nil_of_mem hnext), by simpa using hnew⟩
        rw [List.length_eq_zero_iff.mp (Nat.le_zero.mp hbound)] at hmem
        cases hmem
  | succ bound ih =>
    intro node hnode
    rw [visit] at hnode ⊢
    split at hnode
    · exact Or.inl hnode
    rename_i hnew
    rw [if_neg hnew]
    by_cases hstart : successors start = []
    · simp only [hstart, List.foldl_nil] at hnode ⊢
      rcases List.mem_append.mp hnode with hnode | hnode
      · exact Or.inl hnode
      · rw [List.mem_singleton.mp hnode, hstart]
        exact Or.inr fun _ h => absurd h List.not_mem_nil
    · -- A start with successors is a node that is no longer pending.
      have hlength := length_pending_lt (hnodes start hstart) hnew
      have hpending : (pending nodes (reached ++ [start])).length ≤ bound := by omega
      rcases foldl_visit_closed (fun start => ih start) hpending node hnode with h | h
      · rcases List.mem_append.mp h with h | h
        · exact Or.inl h
        · rw [List.mem_singleton.mp h]
          exact Or.inr fun next hnext => starts_mem_foldl_visit successors bound _ _ next hnext
      · exact Or.inr h

theorem fromAll_closed {bound : Nat} (hbound : nodes.length ≤ bound) (starts : List α) :
    ∀ node ∈ fromAll successors bound starts,
      ∀ next ∈ successors node, next ∈ fromAll successors bound starts := by
  refine List.foldlRecOn
    (motive := fun listed => ∀ node ∈ listed, ∀ next ∈ successors node, next ∈ listed)
    starts _ (by simp) ?_
  intro listed hlisted start _ node hnode next hnext
  have hpending : (pending nodes listed).length ≤ bound :=
    Nat.le_trans (List.length_filter_le _ _) hbound
  rcases visit_closed hnodes start hpending node hnode with h | h
  · exact mem_visit_of_mem successors bound listed start (hlisted node h next hnext)
  · exact h next hnext

/-- A walk lists exactly the nodes that can be reached from its starts. -/
theorem mem_fromAll {bound : Nat} (hbound : nodes.length ≤ bound) {starts : List α} {node : α} :
    node ∈ fromAll successors bound starts ↔ ∃ start ∈ starts, Reaches successors start node := by
  constructor
  · refine List.foldlRecOn (motive := fun listed =>
      node ∈ listed → ∃ start ∈ starts, Reaches successors start node) starts _ (by simp) ?_
    intro listed hlisted start hstart h
    rcases reaches_of_mem_visit successors bound listed start h with h | h
    · exact hlisted h
    · exact ⟨start, hstart, h⟩
  · rintro ⟨start, hstart, h⟩
    exact h.mem_of_closed (fromAll_closed hnodes hbound starts)
      (starts_mem_foldl_visit successors bound [] starts start hstart)

end

end

section

variable {successors others : α → List α}

theorem visit_of_mem {reached : List α} {start : α} (h : start ∈ reached) (bound : Nat) :
    visit successors bound reached start = reached := by
  cases bound <;> rw [visit, if_pos h]

theorem visit_of_leaf {reached : List α} {start : α} (hnew : start ∉ reached)
    (hleaf : successors start = []) (bound : Nat) :
    visit successors bound reached start = reached ++ [start] := by
  cases bound with
  | zero => rw [visit, if_neg hnew]
  | succ bound => rw [visit, if_neg hnew, hleaf, List.foldl_nil]

theorem foldl_visit_congr {bound bound' : Nat} {starts reached : List α}
    (h : ∀ start ∈ starts, ∀ further, (∀ node ∈ reached, node ∈ further) →
      visit successors bound further start = visit others bound' further start) :
    starts.foldl (visit successors bound) reached =
      starts.foldl (visit others bound') reached := by
  induction starts generalizing reached with
  | nil => rfl
  | cons first rest ih =>
    rw [List.foldl_cons, List.foldl_cons, ← h first List.mem_cons_self reached fun _ => id]
    apply ih
    intro start hstart further hfurther
    apply h start (List.mem_cons_of_mem _ hstart)
    exact fun node hnode => hfurther node (mem_visit_of_mem successors bound reached first hnode)

/-- Two bounds that the pending nodes do not exceed make no difference. -/
theorem visit_eq_of_pending {nodes : List α} (hnodes : ∀ node, successors node ≠ [] → node ∈ nodes)
    {bound bound' : Nat} {reached : List α} (start : α)
    (hbound : (pending nodes reached).length ≤ bound)
    (hbound' : (pending nodes reached).length ≤ bound') :
    visit successors bound reached start = visit successors bound' reached start := by
  induction bound generalizing bound' reached start with
  | zero =>
    by_cases hmem : start ∈ reached
    · rw [visit_of_mem hmem, visit_of_mem hmem]
    · have hleaf : successors start = [] := by
        by_contra hsuccessors
        have hlength := length_pending_lt (hnodes start hsuccessors) hmem
        omega
      rw [visit_of_leaf hmem hleaf, visit_of_leaf hmem hleaf]
  | succ bound ih =>
    by_cases hmem : start ∈ reached
    · rw [visit_of_mem hmem, visit_of_mem hmem]
    by_cases hleaf : successors start = []
    · rw [visit_of_leaf hmem hleaf, visit_of_leaf hmem hleaf]
    -- Entering a node that has successors leaves one pending node less, for either bound.
    have hlength := length_pending_lt (hnodes start hleaf) hmem
    obtain ⟨other, rfl⟩ : ∃ other, bound' = other + 1 := Nat.exists_eq_add_one.mpr (by omega)
    rw [visit, visit, if_neg hmem, if_neg hmem]
    apply foldl_visit_congr
    intro next _ further hfurther
    have hpending : (pending nodes further).length ≤
        (pending nodes (reached ++ [start])).length := length_pending_le hfurther
    exact ih next (by omega) (by omega)

theorem visit_congr (bound : Nat) (reached : List α) {start : α}
    (hsame : ∀ node, Reaches successors start node → successors node = others node) :
    visit successors bound reached start = visit others bound reached start := by
  induction bound generalizing reached start with
  | zero => rfl
  | succ bound ih =>
    rw [visit, visit, ← hsame start .refl]
    split
    · rfl
    · apply foldl_visit_congr
      intro next hnext further _
      exact ih further fun node hreaches => hsame node (.head hnext hreaches)

/-- Two graphs that agree on what the starts reach are walked alike, whatever else they have. -/
theorem fromAll_congr {nodes nodes' starts : List α}
    (hnodes : ∀ node, successors node ≠ [] → node ∈ nodes)
    (hnodes' : ∀ node, others node ≠ [] → node ∈ nodes')
    (hsame : ∀ start ∈ starts, ∀ node, Reaches successors start node →
      successors node = others node) :
    fromAll successors nodes.length starts = fromAll others nodes'.length starts := by
  have hle (listed reached : List α) : (pending listed reached).length ≤ listed.length :=
    List.length_filter_le _ _
  calc
    fromAll successors nodes.length starts =
        fromAll successors (max nodes.length nodes'.length) starts :=
      foldl_visit_congr fun start _ further _ =>
        visit_eq_of_pending hnodes start (hle nodes further)
          (Nat.le_trans (hle nodes further) (Nat.le_max_left _ _))
    _ = fromAll others (max nodes.length nodes'.length) starts :=
      foldl_visit_congr fun start hstart further _ => visit_congr _ further (hsame start hstart)
    _ = fromAll others nodes'.length starts :=
      foldl_visit_congr fun start _ further _ =>
        visit_eq_of_pending hnodes' start
          (Nat.le_trans (hle nodes' further) (Nat.le_max_right _ _)) (hle nodes' further)

end

end QueryShape.Walk
