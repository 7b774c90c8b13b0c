import Mathlib.Data.List.Forall2

namespace List

variable {α β γ δ : Type}

/-- Every element has an image, and the images stand in the order of the elements. -/
theorem mapM_eq_some {f : α → Option β} {xs : List α} {ys : List β} :
    xs.mapM f = some ys ↔ Forall₂ (fun x y => f x = some y) xs ys := by
  induction xs generalizing ys with
  | nil =>
    rw [List.mapM_nil, List.forall₂_nil_left_iff, Option.pure_def, Option.some.injEq]
    exact eq_comm
  | cons x xs ih =>
    simp only [List.mapM_cons, Option.bind_eq_bind, Option.bind_eq_some_iff, Option.pure_def,
      Option.some.injEq, List.forall₂_cons_left_iff, ih]
    constructor
    · rintro ⟨y, hy, ys', hys, rfl⟩
      exact ⟨y, ys', hy, hys, rfl⟩
    · rintro ⟨y, ys', hy, hys, rfl⟩
      exact ⟨y, hy, ys', hys, rfl⟩

theorem foldlM_related {f : γ → α → Option γ} {g : δ → α → Option δ} {R : γ → δ → Prop}
    {xs : List α} (step : ∀ x ∈ xs, ∀ c d c', R c d → f c x = some c' →
      ∃ d', g d x = some d' ∧ R c' d') {c c' : γ} {d : δ} (start : R c d)
    (h : xs.foldlM f c = some c') : ∃ d', xs.foldlM g d = some d' ∧ R c' d' := by
  induction xs generalizing c d with
  | nil =>
    cases h
    exact ⟨d, rfl, start⟩
  | cons x xs ih =>
    rw [foldlM_cons] at h
    obtain ⟨c₁, first, rest⟩ := Option.bind_eq_some_iff.mp h
    obtain ⟨d₁, first', rel⟩ := step x mem_cons_self c d c₁ start first
    obtain ⟨d', rest', rel'⟩ := ih (fun y hy => step y (mem_cons_of_mem _ hy)) rel rest
    refine ⟨d', ?_, rel'⟩
    rw [foldlM_cons, first']
    exact rest'

end List

namespace Option

variable {α β : Type}

/-- Where the first has a value, the second has the same. -/
def Sub (x y : Option α) : Prop := ∀ a, x = some a → y = some a

theorem Sub.refl (x : Option α) : Sub x x := fun _ h => h

theorem Sub.none (y : Option α) : Sub .none y := nofun

theorem Sub.bind {x y : Option α} {f g : α → Option β} (h : Sub x y) (next : ∀ a, Sub (f a) (g a)) :
    Sub (x >>= f) (y >>= g) := by
  intro b eq
  obtain ⟨a, first, rest⟩ := bind_eq_some_iff.mp eq
  exact bind_eq_some_iff.mpr ⟨a, h a first, next a b rest⟩

theorem Sub.guard {x y : Option α} {p : Prop} [Decidable p] (h : Sub x y) :
    Sub (if p then x else .none) y := by
  intro a eq
  exact h a (ite_none_right_eq_some.mp eq).2

theorem Sub.ite {x y : Option α} {p : Prop} [Decidable p] (h : Sub x y) :
    Sub (if p then x else .none) (if p then y else .none) := by
  intro a eq
  obtain ⟨holds, value⟩ := ite_none_right_eq_some.mp eq
  exact ite_none_right_eq_some.mpr ⟨holds, h a value⟩

theorem Sub.foldlM {f g : β → α → Option β} (step : ∀ b a, Sub (f b a) (g b a)) (xs : List α)
    (b : β) : Sub (xs.foldlM f b) (xs.foldlM g b) := by
  induction xs generalizing b with
  | nil => exact .refl _
  | cons x xs ih => exact Sub.bind (step b x) ih

end Option
