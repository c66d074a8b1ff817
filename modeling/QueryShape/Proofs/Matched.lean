import Mathlib.Data.List.Perm.Basic
import QueryShape.Distinct
import QueryShape.Proofs.Outcome

/-!
# Lists whose members match in some order

Two lists match under a relation if the members of the first can be put in an order in which they
are related to those of the second, one by one. Leaving out and mapping members keeps a match as far
as it treats related members alike, and lists match whose members are found by the same keys.
-/

set_option autoImplicit false

namespace QueryShape

/-- In some order the members of the first list are related to those of the second. -/
def Matched {α β : Type} (r : α → β → Prop) (xs : List α) (ys : List β) : Prop :=
  ∃ ordered, xs.Perm ordered ∧ List.Forall₂ r ordered ys

section

variable {α β γ : Type} {r : α → β → Prop} {s : β → γ → Prop} {t : α → γ → Prop}

theorem forall₂_comp {xs : List α} {ys : List β} {zs : List γ} (h : List.Forall₂ r xs ys)
    (h' : List.Forall₂ s ys zs) (hcomp : ∀ x y z, r x y → s y z → t x z) :
    List.Forall₂ t xs zs := by
  induction h generalizing zs with
  | nil =>
    cases h'
    exact .nil
  | cons hr _ ih =>
    cases h' with
    | cons hs hrest => exact .cons (hcomp _ _ _ hr hs) (ih hrest)

theorem forall₂_mapM {δ ε : Type} {u : γ → δ → Prop} {f : α → Except ε γ} {g : β → Except ε δ}
    {xs : List α} {ys : List β} {zs : List γ} {ws : List δ} (h : List.Forall₂ r xs ys)
    (hf : xs.mapM f = .ok zs) (hg : ys.mapM g = .ok ws)
    (hfg : ∀ x ∈ xs, ∀ y ∈ ys, r x y → ∀ z w, f x = .ok z → g y = .ok w → u z w) :
    List.Forall₂ u zs ws := by
  rw [Outcome.mapM_eq_ok] at hf hg
  induction h generalizing zs ws with
  | nil =>
    cases hf
    cases hg
    exact .nil
  | cons hr _ ih =>
    cases hf with
    | cons hz hf =>
      cases hg with
      | cons hw hg =>
        refine .cons (hfg _ List.mem_cons_self _ List.mem_cons_self hr _ _ hz hw) (ih hf hg ?_)
        exact fun x hx y hy => hfg x (List.mem_cons_of_mem _ hx) y (List.mem_cons_of_mem _ hy)

theorem exists_of_mem_forall₂ {xs : List α} {ys : List β} (h : List.Forall₂ r xs ys) {y : β}
    (hy : y ∈ ys) : ∃ x ∈ xs, r x y := by
  induction h with
  | nil => cases hy
  | cons hr _ ih =>
    rcases List.mem_cons.mp hy with rfl | hy
    · exact ⟨_, List.mem_cons_self, hr⟩
    · obtain ⟨x, hx, hr⟩ := ih hy
      exact ⟨x, List.mem_cons_of_mem _ hx, hr⟩

theorem forall₂_of_map_eq {f : α → β} {r : α → α → Prop} {xs ys : List α}
    (h : xs.map f = ys.map f) (hr : ∀ x ∈ xs, ∀ y ∈ ys, f x = f y → r x y) :
    List.Forall₂ r xs ys := by
  induction xs generalizing ys with
  | nil =>
    rw [List.map_nil, eq_comm, List.map_eq_nil_iff] at h
    rw [h]
    exact .nil
  | cons x rest ih =>
    cases ys with
    | nil => cases h
    | cons y others =>
      obtain ⟨hfirst, hrest⟩ := List.cons.inj h
      refine .cons (hr x List.mem_cons_self y List.mem_cons_self hfirst) (ih hrest ?_)
      exact fun x hx y hy => hr x (List.mem_cons_of_mem _ hx) y (List.mem_cons_of_mem _ hy)

theorem distinct_perm [DecidableEq α] {xs ys : List α} (h : ∀ x, x ∈ xs ↔ x ∈ ys) :
    (distinct xs).Perm (distinct ys) := by
  rw [List.perm_ext_iff_of_nodup (nodup_distinct xs) (nodup_distinct ys)]
  simpa using h

namespace Matched

theorem of_forall₂ {xs : List α} {ys : List β} (h : List.Forall₂ r xs ys) : Matched r xs ys :=
  ⟨xs, .refl xs, h⟩

theorem of_perm {r : α → α → Prop} (hrefl : ∀ x, r x x) {xs ys : List α} (h : xs.Perm ys) :
    Matched r xs ys :=
  ⟨ys, h, List.forall₂_same.mpr fun x _ => hrefl x⟩

theorem append {xs xs' : List α} {ys ys' : List β} (h : Matched r xs ys)
    (h' : Matched r xs' ys') : Matched r (xs ++ xs') (ys ++ ys') := by
  obtain ⟨ordered, hperm, hr⟩ := h
  obtain ⟨ordered', hperm', hr'⟩ := h'
  exact ⟨ordered ++ ordered', hperm.append hperm', List.rel_append hr hr'⟩

theorem comp {xs : List α} {ys : List β} {zs : List γ} (h : Matched r xs ys)
    (h' : Matched s ys zs) (hcomp : ∀ x y z, r x y → s y z → t x z) : Matched t xs zs := by
  obtain ⟨ordered, hperm, hr⟩ := h
  obtain ⟨ordered', hperm', hs⟩ := h'
  have hboth : Relation.Comp (List.Forall₂ r) List.Perm ordered ordered' := ⟨ys, hr, hperm'⟩
  rw [List.forall₂_comp_perm_eq_perm_comp_forall₂] at hboth
  obtain ⟨found, hfound, hfoundRel⟩ := hboth
  exact ⟨found, hperm.trans hfound, forall₂_comp hfoundRel hs hcomp⟩

theorem length_eq {xs : List α} {ys : List β} (h : Matched r xs ys) : xs.length = ys.length := by
  obtain ⟨ordered, hperm, hr⟩ := h
  rw [hperm.length_eq, hr.length_eq]

theorem exists_of_mem {xs : List α} {ys : List β} (h : Matched r xs ys) {y : β} (hy : y ∈ ys) :
    ∃ x ∈ xs, r x y := by
  obtain ⟨ordered, hperm, hr⟩ := h
  obtain ⟨x, hx, hxy⟩ := exists_of_mem_forall₂ hr hy
  exact ⟨x, hperm.mem_iff.mpr hx, hxy⟩

theorem exists_of_mem_left {xs : List α} {ys : List β} (h : Matched r xs ys) {x : α}
    (hx : x ∈ xs) : ∃ y ∈ ys, r x y := by
  obtain ⟨ordered, hperm, hr⟩ := h
  exact exists_of_mem_forall₂ hr.flip (hperm.mem_iff.mp hx)

theorem filter {p : α → Bool} {q : β → Bool} {xs : List α} {ys : List β} (h : Matched r xs ys)
    (hpq : ∀ x y, r x y → p x = q y) : Matched r (xs.filter p) (ys.filter q) := by
  obtain ⟨ordered, hperm, hr⟩ := h
  refine ⟨ordered.filter p, hperm.filter p, List.rel_filter ?_ hr⟩
  intro x y hxy
  simp only [hpq x y hxy]

theorem filterMap {γ δ : Type} {s : γ → δ → Prop} {f : α → Option γ} {g : β → Option δ}
    {xs : List α} {ys : List β} (h : Matched r xs ys)
    (hfg : ∀ x y, r x y → Option.Rel s (f x) (g y)) :
    Matched s (xs.filterMap f) (ys.filterMap g) := by
  obtain ⟨ordered, hperm, hr⟩ := h
  exact ⟨ordered.filterMap f, hperm.filterMap f, List.rel_filterMap (fun x y hxy => hfg x y hxy) hr⟩

theorem perm {xs ys : List α} (h : Matched Eq xs ys) : xs.Perm ys := by
  obtain ⟨ordered, hperm, heq⟩ := h
  rw [List.forall₂_eq_eq_eq] at heq
  exact heq ▸ hperm

theorem mapM {δ ε : Type} {u : γ → δ → Prop} {f : α → Except ε γ} {g : β → Except ε δ}
    {xs : List α} {ys : List β} {zs : List γ} {ws : List δ} (h : Matched r xs ys)
    (hf : xs.mapM f = .ok zs) (hg : ys.mapM g = .ok ws)
    (hfg : ∀ x ∈ xs, ∀ y, r x y → ∀ z w, f x = .ok z → g y = .ok w → u z w) : Matched u zs ws := by
  obtain ⟨ordered, hperm, hr⟩ := h
  obtain ⟨found, hfound, hfoundPerm⟩ :=
    List.perm_comp_forall₂ hperm.symm (Outcome.mapM_eq_ok.mp hf)
  refine ⟨found, hfoundPerm.symm, forall₂_mapM hr (Outcome.mapM_eq_ok.mpr hfound) hg ?_⟩
  exact fun x hx y _ => hfg x (hperm.mem_iff.mpr hx) y

theorem of_map_perm {κ : Type} {f : α → κ} {g : β → κ} {xs : List α} {ys : List β}
    (h : (xs.map f).Perm (ys.map g)) (hr : ∀ x ∈ xs, ∀ y ∈ ys, f x = g y → r x y) :
    Matched r xs ys := by
  have hleft : Matched (fun x key => x ∈ xs ∧ f x = key) xs (xs.map f) := by
    apply of_forall₂
    rw [List.forall₂_map_right_iff, List.forall₂_same]
    exact fun x hx => ⟨hx, rfl⟩
  have hright : Matched (fun key y => y ∈ ys ∧ g y = key) (ys.map g) ys := by
    apply of_forall₂
    rw [List.forall₂_map_left_iff, List.forall₂_same]
    exact fun y hy => ⟨hy, rfl⟩
  have hkeys : Matched (fun key y => y ∈ ys ∧ g y = key) (xs.map f) ys :=
    (of_perm (r := Eq) (fun _ => rfl) h).comp hright fun _ _ _ heq hy => heq ▸ hy
  refine hleft.comp hkeys ?_
  rintro x _ y ⟨hx, rfl⟩ ⟨hy, hkey⟩
  exact hr x hx y hy hkey.symm

end Matched

end

end QueryShape
