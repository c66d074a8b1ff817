import Mathlib.Data.List.Forall2

/-!
# Related optional values

Two optional values are related if both are missing, or if both are there and related. Choosing
between values and going on from them keeps this, and so does looking for a member in lists whose
members are related one by one.
-/

set_option autoImplicit false

namespace QueryShape

variable {α β γ δ : Type} {r : α → β → Prop}

theorem rel_or {first second : Option α} {first' second' : Option β}
    (h : Option.Rel r first first') (h' : Option.Rel r second second') :
    Option.Rel r (first.or second) (first'.or second') := by
  cases h with
  | some hr => exact .some hr
  | none => exact h'

theorem rel_bind {s : γ → δ → Prop} {first : Option α} {second : Option β}
    {next : α → Option γ} {otherNext : β → Option δ} (h : Option.Rel r first second)
    (hnext : ∀ x y, r x y → Option.Rel s (next x) (otherNext y)) :
    Option.Rel s (first.bind next) (second.bind otherNext) := by
  cases h with
  | some hr => exact hnext _ _ hr
  | none => exact .none

theorem rel_imp {s : α → β → Prop} {first : Option α} {second : Option β}
    (h : Option.Rel r first second) (himp : ∀ x y, r x y → s x y) : Option.Rel s first second := by
  cases h with
  | none => exact .none
  | some hr => exact .some (himp _ _ hr)

theorem isSome_eq_of_rel {first : Option α} {second : Option β} (h : Option.Rel r first second) :
    second.isSome = first.isSome := by
  cases h <;> rfl

theorem rel_of_isSome_eq {first : Option α} {second : Option β}
    (h : second.isSome = first.isSome)
    (hr : ∀ x y, first = some x → second = some y → r x y) : Option.Rel r first second := by
  cases first with
  | none =>
    cases second with
    | none => exact .none
    | some y => cases h
  | some x =>
    cases second with
    | none => cases h
    | some y => exact .some (hr x y rfl rfl)

theorem map_eq_of_rel {f : α → γ} {g : β → γ} {first : Option α} {second : Option β}
    (h : Option.Rel r first second) (hfg : ∀ x y, r x y → g y = f x) :
    second.map g = first.map f := by
  cases h with
  | none => rfl
  | some hr => exact congrArg some (hfg _ _ hr)

theorem exists_eq_some_of_rel {first : Option α} {second : Option β}
    (h : Option.Rel r first second) {x : α} (hx : first = some x) :
    ∃ y, second = some y ∧ r x y := by
  subst hx
  cases h with
  | some hr => exact ⟨_, rfl, hr⟩

theorem exists_eq_some_of_rel_right {first : Option α} {second : Option β}
    (h : Option.Rel r first second) {y : β} (hy : second = some y) :
    ∃ x, first = some x ∧ r x y := by
  subst hy
  cases h with
  | some hr => exact ⟨_, rfl, hr⟩

theorem rel_find?_of_forall₂ {xs : List α} {ys : List β} (h : List.Forall₂ r xs ys)
    {p : α → Bool} {q : β → Bool} (hpq : ∀ x y, r x y → p x = q y) :
    Option.Rel r (xs.find? p) (ys.find? q) := by
  induction h with
  | nil => exact .none
  | cons hfirst _ ih =>
    rw [List.find?_cons, List.find?_cons, ← hpq _ _ hfirst]
    cases p _ with
    | false => exact ih
    | true => exact .some hfirst

theorem map_eq_of_forall₂ {f : α → γ} {g : β → γ} {xs : List α} {ys : List β}
    (h : List.Forall₂ r xs ys) (hfg : ∀ x y, r x y → g y = f x) : ys.map g = xs.map f := by
  induction h with
  | nil => rfl
  | cons hfirst _ ih => rw [List.map_cons, List.map_cons, hfg _ _ hfirst, ih]

end QueryShape
