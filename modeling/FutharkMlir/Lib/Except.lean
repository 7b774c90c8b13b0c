import Mathlib.Data.List.Forall2

namespace Except

variable {ε α β : Type}

theorem bind_eq_ok {x : Except ε α} {f : α → Except ε β} {b : β} :
    x >>= f = .ok b ↔ ∃ a, x = .ok a ∧ f a = .ok b := by
  cases x with
  | error e => simp [bind, Except.bind]
  | ok a => simp [bind, Except.bind]

theorem map_eq_ok {x : Except ε α} {f : α → β} {b : β} :
    f <$> x = .ok b ↔ ∃ a, x = .ok a ∧ f a = b := by
  cases x with
  | error e => simp [Functor.map, Except.map]
  | ok a => simp [Functor.map, Except.map]

theorem map_eq_error {x : Except ε α} {f : α → β} {e : ε} :
    f <$> x = .error e ↔ x = .error e := by
  cases x with
  | error e => simp [Functor.map, Except.map]
  | ok a => simp [Functor.map, Except.map]

theorem pure_eq_ok {a b : α} : (pure a : Except ε α) = .ok b ↔ a = b := by
  simp [pure, Except.pure]

theorem exists_ok {x : Except ε α} (h : x.toOption.isSome = true) : ∃ a, x = .ok a := by
  cases x with
  | error e => cases h
  | ok a => exact ⟨a, rfl⟩

/-- Every element succeeds, and the results stand in the order of the elements. -/
theorem mapM_eq_ok {f : α → Except ε β} {xs : List α} {ys : List β} :
    xs.mapM f = .ok ys ↔ List.Forall₂ (fun x y => f x = .ok y) xs ys := by
  induction xs generalizing ys with
  | nil =>
    rw [List.mapM_nil, pure_eq_ok, List.forall₂_nil_left_iff]
    exact eq_comm
  | cons x xs ih =>
    simp only [List.mapM_cons, bind_eq_ok, pure_eq_ok, List.forall₂_cons_left_iff, ih]
    constructor
    · rintro ⟨y, hy, ys', hys, rfl⟩
      exact ⟨y, ys', hy, hys, rfl⟩
    · rintro ⟨y, ys', hy, hys, rfl⟩
      exact ⟨y, hy, ys', hys, rfl⟩

/-- A first `q` after nothing but `p` stands at the head or behind it. -/
theorem split_cons {p q : α → Prop} {x : α} {xs : List α} :
    (∃ before y after, x :: xs = before ++ y :: after ∧ (∀ z ∈ before, p z) ∧ q y) ↔
      q x ∨ p x ∧ ∃ before y after, xs = before ++ y :: after ∧ (∀ z ∈ before, p z) ∧ q y := by
  constructor
  · rintro ⟨before, y, after, eq, good, hy⟩
    cases before with
    | nil =>
      cases eq
      exact .inl hy
    | cons z before =>
      cases eq
      exact .inr ⟨good x (by simp), before, y, after, rfl, fun w hw => good w (by simp [hw]), hy⟩
  · rintro (hx | ⟨hx, before, y, after, rfl, good, hy⟩)
    · exact ⟨[], x, xs, rfl, by simp, hx⟩
    · exact ⟨x :: before, y, after, rfl, List.forall_mem_cons.mpr ⟨hx, good⟩, hy⟩

/-- All succeed, or there is a first that fails. -/
theorem mapM_eq_error {f : α → Except ε β} {xs : List α} {e : ε} :
    xs.mapM f = .error e ↔ ∃ before x after, xs = before ++ x :: after ∧
      (∀ y ∈ before, ∃ z, f y = .ok z) ∧ f x = .error e := by
  induction xs with
  | nil => simp [pure, Except.pure]
  | cons x xs ih =>
    rw [List.mapM_cons, split_cons]
    cases hx : f x with
    | error e' => simp [bind, Except.bind]
    | ok z =>
      have step : ((Except.ok z : Except ε β) >>= fun y => do
          let ys ← xs.mapM f
          return y :: ys) = (z :: ·) <$> xs.mapM f := by
        cases xs.mapM f <;> rfl
      rw [step, map_eq_error, ih]
      simp

theorem mapM_range_eq_error {f : Nat → Except ε β} {n : Nat} {e : ε} :
    (List.range n).mapM f = .error e ↔
      ∃ k < n, f k = .error e ∧ ∀ j < k, ∃ z, f j = .ok z := by
  rw [mapM_eq_error]
  constructor
  · rintro ⟨before, k, after, eq, good, failed⟩
    have at' : (List.range n)[before.length]? = some k := by simp [eq]
    obtain ⟨lt, here⟩ := List.getElem?_eq_some_iff.mp at'
    rw [List.getElem_range] at here
    rw [List.length_range] at lt
    subst here
    refine ⟨before.length, lt, failed, fun j hj => good j ?_⟩
    have first : (List.range n)[j]? = before[j]? := by rw [eq, List.getElem?_append_left hj]
    rw [List.getElem?_range (by omega)] at first
    exact List.mem_of_getElem? first.symm
  · rintro ⟨k, lt, failed, good⟩
    obtain ⟨m, rfl⟩ : ∃ m, n = k + 1 + m := ⟨n - k - 1, by omega⟩
    have split : List.range (k + 1 + m) = List.range k ++ k :: (List.range m).map (k + 1 + ·) := by
      simp [List.range_add, List.range_succ]
    exact ⟨_, k, _, split, fun j hj => good j (List.mem_range.mp hj), failed⟩

theorem mapM_exists_ok {f : α → Except ε β} {xs : List α} :
    (∃ ys, xs.mapM f = .ok ys) ↔ ∀ x ∈ xs, ∃ y, f x = .ok y := by
  constructor
  · rintro ⟨ys, h⟩ x hx
    induction mapM_eq_ok.mp h with
    | nil => cases hx
    | @cons a b as bs head tail ih =>
      rcases List.mem_cons.mp hx with rfl | hx
      · exact ⟨b, head⟩
      · exact ih (mapM_eq_ok.mpr tail) hx
  · intro h
    cases run : xs.mapM f with
    | ok ys => exact ⟨ys, rfl⟩
    | error e =>
      obtain ⟨before, x, after, rfl, _, failed⟩ := mapM_eq_error.mp run
      obtain ⟨y, hy⟩ := h x (by simp)
      rw [hy] at failed
      cases failed

end Except
