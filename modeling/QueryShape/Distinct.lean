/-!
# Distinct members

A list without its repetitions: every member once, at the place where it first occurs.
-/

set_option autoImplicit false

namespace QueryShape

variable {α : Type} [DecidableEq α]

def distinct : List α → List α
  | [] => []
  | a :: rest => a :: (distinct rest).filter (· ≠ a)

@[simp] theorem mem_distinct {a : α} {xs : List α} : a ∈ distinct xs ↔ a ∈ xs := by
  induction xs with
  | nil => simp [distinct]
  | cons x rest ih =>
    by_cases h : a = x <;> simp [distinct, ih, h]

theorem nodup_distinct (xs : List α) : (distinct xs).Nodup := by
  induction xs with
  | nil => simp [distinct]
  | cons x rest ih =>
    simp only [distinct, List.nodup_cons, List.mem_filter]
    exact ⟨by simp, ih.filter _⟩

theorem distinct_sublist (xs : List α) : (distinct xs).Sublist xs := by
  induction xs with
  | nil => exact .slnil
  | cons x rest ih => exact (List.filter_sublist.trans ih).cons_cons x

theorem distinct_eq_self {xs : List α} (h : xs.Nodup) : distinct xs = xs := by
  induction xs with
  | nil => rfl
  | cons x rest ih =>
    obtain ⟨hx, hrest⟩ := List.nodup_cons.mp h
    rw [distinct, ih hrest, List.filter_eq_self.mpr]
    intro y hy
    exact decide_eq_true fun heq => hx (heq ▸ hy)

theorem distinct_distinct (xs : List α) : distinct (distinct xs) = distinct xs :=
  distinct_eq_self (nodup_distinct xs)

theorem distinct_append (xs ys : List α) :
    distinct (xs ++ ys) = distinct xs ++ (distinct ys).filter (· ∉ xs) := by
  induction xs with
  | nil => rw [List.filter_eq_self.mpr (by simp), List.nil_append, distinct, List.nil_append]
  | cons x rest ih =>
    rw [List.cons_append, distinct, ih, List.filter_append, List.filter_filter, distinct,
      List.cons_append]
    simp

theorem distinct_append_of_subset {xs ys : List α} (h : ∀ y ∈ ys, y ∈ xs) :
    distinct (xs ++ ys) = distinct xs := by
  rw [distinct_append, List.filter_eq_nil_iff.mpr (by simpa using h), List.append_nil]

theorem distinct_append_singleton (xs : List α) (y : α) :
    distinct (xs ++ [y]) = if y ∈ xs then distinct xs else distinct xs ++ [y] := by
  by_cases h : y ∈ xs <;> simp [distinct_append, distinct, h]

theorem distinct_distinct_append (xs ys : List α) :
    distinct (distinct xs ++ ys) = distinct (xs ++ ys) := by
  rw [distinct_append, distinct_append, distinct_distinct]
  simp

theorem distinct_append_distinct (xs ys : List α) :
    distinct (xs ++ distinct ys) = distinct (xs ++ ys) := by
  rw [distinct_append, distinct_append, distinct_distinct]

theorem distinct_append_append {xs ys : List α} (h : ∀ y ∈ ys, y ∈ xs) (zs : List α) :
    distinct (xs ++ (ys ++ zs)) = distinct (xs ++ zs) :=
  calc
    distinct (xs ++ (ys ++ zs)) = distinct (distinct (xs ++ ys) ++ zs) := by
      rw [distinct_distinct_append, List.append_assoc]
    _ = distinct (xs ++ zs) := by rw [distinct_append_of_subset h, distinct_distinct_append]

theorem distinct_filter (keep : α → Bool) (xs : List α) :
    distinct (xs.filter keep) = (distinct xs).filter keep := by
  induction xs with
  | nil => rfl
  | cons x rest ih =>
    rw [distinct, List.filter_cons, List.filter_cons]
    split
    · rw [distinct, ih, List.filter_filter, List.filter_filter]
      simp only [Bool.and_comm]
    · rename_i hx
      rw [ih, List.filter_filter]
      apply List.filter_congr
      intro y _
      by_cases hy : y = x <;> simp [hy, hx]

theorem distinct_eq_eraseDups (xs : List α) : distinct xs = xs.eraseDups := by
  induction hlength : xs.length using Nat.strongRecOn generalizing xs with
  | ind length ih =>
    cases xs with
    | nil => rfl
    | cons x rest =>
      have hshorter : (rest.filter fun y => !y == x).length < length :=
        hlength ▸ Nat.lt_succ_of_le (List.length_filter_le _ rest)
      rw [List.eraseDups_cons, ← ih _ hshorter _ rfl, distinct_filter, distinct]
      apply congrArg
      apply List.filter_congr
      intro y _
      by_cases hy : y = x <;> simp [hy]

end QueryShape
