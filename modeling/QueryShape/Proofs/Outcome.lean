import Mathlib.Data.List.Forall2

/-!
# Outcomes of computations that may fail

When a sequence of steps succeeds, each of them does, and a list is mapped by a function that may
fail to the list of what the function gives for its members. Two computations correspond if they end
in the same error or in related results, step by step.
-/

set_option autoImplicit false

namespace QueryShape.Outcome

variable {α β ε : Type}

theorem exists_eq_ok {step : Except ε α} (h : step.toOption.isSome = true) :
    ∃ result, step = .ok result := by
  cases step with
  | error error => cases h
  | ok result => exact ⟨result, rfl⟩

theorem toOption_eq_some {step : Except ε α} {result : α} :
    step.toOption = some result ↔ step = .ok result := by
  cases step <;> simp [Except.toOption]

theorem bind_eq_ok {step : Except ε α} {next : α → Except ε β} {result : β} :
    (step >>= next) = .ok result ↔ ∃ value, step = .ok value ∧ next value = .ok result := by
  cases step <;> simp [bind, Except.bind]

theorem pure_eq_ok {value result : α} :
    (pure value : Except ε α) = .ok result ↔ value = result := by
  simp [pure, Except.pure]

theorem guard_eq_ok {p : Prop} [Decidable p] {error : ε} {next : Except ε β}
    {others : α → Except ε β} {result : β} :
    (if p then next else (throw error : Except ε α) >>= others) = .ok result ↔
      p ∧ next = .ok result := by
  by_cases h : p <;> simp [h, throw, throwThe, MonadExceptOf.throw, bind, Except.bind]

theorem mapError_eq_ok {ε' : Type} {convert : ε → ε'} {step : Except ε α} {result : α} :
    step.mapError convert = .ok result ↔ step = .ok result := by
  cases step <;> simp [Except.mapError]

theorem mapM_eq_ok {f : α → Except ε β} {xs : List α} {ys : List β} :
    xs.mapM f = .ok ys ↔ List.Forall₂ (fun x y => f x = .ok y) xs ys := by
  induction xs generalizing ys with
  | nil => cases ys <;> simp [pure, Except.pure]
  | cons x rest ih =>
    simp only [List.mapM_cons, bind_eq_ok, pure_eq_ok]
    constructor
    · rintro ⟨y, hy, ys, hys, rfl⟩
      exact .cons hy (ih.mp hys)
    · intro h
      cases h with
      | cons hy hys => exact ⟨_, hy, _, ih.mpr hys, rfl⟩

theorem exists_mapM_eq_ok {f : α → Except ε β} {xs : List α}
    (h : ∀ x ∈ xs, ∃ y, f x = .ok y) : ∃ ys, xs.mapM f = .ok ys := by
  induction xs with
  | nil => exact ⟨[], rfl⟩
  | cons x rest ih =>
    obtain ⟨y, hy⟩ := h x List.mem_cons_self
    obtain ⟨ys, hys⟩ := ih fun x hx => h x (List.mem_cons_of_mem _ hx)
    exact ⟨y :: ys, mapM_eq_ok.mpr (.cons hy (mapM_eq_ok.mp hys))⟩

theorem forall₂_of_mapM_mapM {γ ε' : Type} {f : α → Except ε β} {g : β → Except ε' γ} {xs : List α}
    {ys : List β} {zs : List γ} (hf : xs.mapM f = .ok ys) (hg : ys.mapM g = .ok zs) :
    List.Forall₂ (fun x z => x ∈ xs ∧ ∃ y, f x = .ok y ∧ g y = .ok z) xs zs := by
  rw [List.forall₂_and_left]
  refine ⟨fun _ h => h, ?_⟩
  rw [mapM_eq_ok] at hf hg
  induction hf generalizing zs with
  | nil =>
    cases hg
    exact .nil
  | cons hx _ ih =>
    cases hg with
    | cons hy hrest => exact .cons ⟨_, hx, hy⟩ (ih hrest)

theorem mapM_eq_ok_of_imp {f g : α → Except ε β} {xs : List α} {ys : List β}
    (h : ∀ x ∈ xs, ∀ y, f x = .ok y → g x = .ok y) (hf : xs.mapM f = .ok ys) :
    xs.mapM g = .ok ys := by
  rw [mapM_eq_ok] at hf ⊢
  induction hf with
  | nil => exact .nil
  | cons hy _ ih =>
    exact .cons (h _ List.mem_cons_self _ hy) (ih fun x hx => h x (List.mem_cons_of_mem _ hx))

theorem mapM_eq_of_forall₂ {γ : Type} {f : α → Except ε γ} {g : β → Except ε γ}
    {r : α → β → Prop} {xs : List α} {ys : List β} (h : List.Forall₂ r xs ys)
    (hfg : ∀ x ∈ xs, ∀ y, r x y → g y = f x) : ys.mapM g = xs.mapM f := by
  induction h with
  | nil => rfl
  | cons hfirst _ ih =>
    rw [List.mapM_cons, List.mapM_cons, hfg _ List.mem_cons_self _ hfirst,
      ih fun x hx => hfg x (List.mem_cons_of_mem _ hx)]

theorem exists_mapM_map {f : α → Except ε β} {r : β → β → Prop} {xs : List α} {ys : List β}
    (change : α → α) (h : xs.mapM f = .ok ys)
    (hchange : ∀ x y, f x = .ok y → ∃ z, f (change x) = .ok z ∧ r y z) :
    ∃ zs, (xs.map change).mapM f = .ok zs ∧ List.Forall₂ r ys zs := by
  rw [mapM_eq_ok] at h
  induction h with
  | nil => exact ⟨[], rfl, .nil⟩
  | cons hx _ ih =>
    obtain ⟨z, hz, hr⟩ := hchange _ _ hx
    obtain ⟨zs, hzs, hrest⟩ := ih
    exact ⟨z :: zs, mapM_eq_ok.mpr (.cons hz (mapM_eq_ok.mp hzs)), .cons hr hrest⟩

theorem exists_of_mem_mapM {f : α → Except ε β} {xs : List α} {ys : List β}
    (h : xs.mapM f = .ok ys) {y : β} (hy : y ∈ ys) : ∃ x ∈ xs, f x = .ok y := by
  rw [mapM_eq_ok] at h
  induction h with
  | nil => cases hy
  | cons hx _ ih =>
    rcases List.mem_cons.mp hy with rfl | hy
    · exact ⟨_, List.mem_cons_self, hx⟩
    · obtain ⟨x, hx, hfx⟩ := ih hy
      exact ⟨x, List.mem_cons_of_mem _ hx, hfx⟩

theorem exists_mem_of_mapM {f : α → Except ε β} {xs : List α} {ys : List β}
    (h : xs.mapM f = .ok ys) {x : α} (hx : x ∈ xs) : ∃ y ∈ ys, f x = .ok y := by
  rw [mapM_eq_ok] at h
  induction h with
  | nil => cases hx
  | cons hy _ ih =>
    rcases List.mem_cons.mp hx with rfl | hx
    · exact ⟨_, List.mem_cons_self, hy⟩
    · obtain ⟨y, hy, hfx⟩ := ih hx
      exact ⟨y, List.mem_cons_of_mem _ hy, hfx⟩

/-- A list is mapped to the error of its first member for which there is one. -/
theorem mapM_eq_error_iff {f : α → Except ε β} {refusal? : α → Option ε} {xs : List α}
    (h : ∀ x ∈ xs, ∀ error, f x = .error error ↔ refusal? x = some error) {error : ε} :
    xs.mapM f = .error error ↔ xs.findSome? refusal? = some error := by
  induction xs with
  | nil => simp [pure, Except.pure]
  | cons x rest ih =>
    obtain ⟨hx, hrest⟩ := List.forall_mem_cons.mp h
    rw [List.mapM_cons, List.findSome?_cons]
    cases hfirst : f x with
    | error first => simp [(hx first).mp hfirst, bind, Except.bind]
    | ok y =>
      have hnone : refusal? x = none := by
        rw [Option.eq_none_iff_forall_ne_some]
        intro other hother
        rw [(hx other).mpr hother] at hfirst
        cases hfirst
      rw [hnone, ← ih hrest]
      cases rest.mapM f <;> simp [bind, Except.bind, pure, Except.pure]

/-- Both computations end in the same error, or in related results. -/
inductive Rel (r : α → β → Prop) : Except ε α → Except ε β → Prop
  | error (error : ε) : Rel r (.error error) (.error error)
  | ok {x : α} {y : β} (h : r x y) : Rel r (.ok x) (.ok y)

namespace Rel

variable {γ δ : Type} {r : α → β → Prop} {s : γ → δ → Prop}

theorem bind {step : Except ε α} {other : Except ε β} {next : α → Except ε γ}
    {otherNext : β → Except ε δ} (h : Rel r step other)
    (hnext : ∀ x y, r x y → Rel s (next x) (otherNext y)) :
    Rel s (step >>= next) (other >>= otherNext) := by
  cases h with
  | error error => exact .error error
  | ok hr => exact hnext _ _ hr

theorem bind_same {step : Except ε α} {next : α → Except ε γ} {otherNext : α → Except ε δ}
    (hnext : ∀ x, step = .ok x → Rel s (next x) (otherNext x)) :
    Rel s (step >>= next) (step >>= otherNext) := by
  cases step with
  | error error => exact .error error
  | ok x => exact hnext x rfl

theorem mapM {f : γ → Except ε α} {g : γ → Except ε β} {xs : List γ}
    (h : ∀ x ∈ xs, Rel r (f x) (g x)) : Rel (List.Forall₂ r) (xs.mapM f) (xs.mapM g) := by
  induction xs with
  | nil => exact .ok .nil
  | cons x rest ih =>
    obtain ⟨hx, hrest⟩ := List.forall_mem_cons.mp h
    rw [List.mapM_cons, List.mapM_cons]
    exact hx.bind fun _ _ hfirst => (ih hrest).bind fun _ _ hothers => .ok (.cons hfirst hothers)

end Rel

end QueryShape.Outcome
