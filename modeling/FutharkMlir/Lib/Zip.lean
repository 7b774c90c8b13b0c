import Mathlib.Data.List.Basic

namespace List

variable {α β : Type}

theorem map_fst_zip_take (xs : List α) (ys : List β) :
    (xs.zip ys).map Prod.fst = xs.take ys.length := by
  induction xs generalizing ys with
  | nil => simp
  | cons x xs ih => cases ys <;> simp [ih]

theorem eq_of_mem_zip_map {f : α → β} {xs : List α} {x : α} {y : β}
    (h : (x, y) ∈ xs.zip (xs.map f)) : y = f x := by
  induction xs with
  | nil => cases h
  | cons a xs ih =>
    rcases List.mem_cons.mp h with eq | h
    · cases eq
      rfl
    · exact ih h

theorem exists_mem_zip {xs : List α} {ys : List β} (length : xs.length = ys.length) {x : α}
    (h : x ∈ xs) : ∃ y, (x, y) ∈ xs.zip ys := by
  rw [← List.map_fst_zip (Nat.le_of_eq length)] at h
  obtain ⟨⟨a, b⟩, member, rfl⟩ := List.mem_map.mp h
  exact ⟨b, member⟩

theorem forall₂_getElem? {R : α → β → Prop} {xs : List α} {ys : List β} (h : Forall₂ R xs ys)
    {k : Nat} {x : α} (at' : xs[k]? = some x) : ∃ y, ys[k]? = some y ∧ R x y := by
  induction h generalizing k with
  | nil => cases at'
  | @cons a b _ _ head _ ih =>
    cases k with
    | zero =>
      cases at'
      exact ⟨b, rfl, head⟩
    | succ k => exact ih at'

theorem take_zip_length (xs : List α) (ys : List β) :
    xs.take (xs.zip ys).length = (xs.zip ys).map Prod.fst ∧
      ys.take (xs.zip ys).length = (xs.zip ys).map Prod.snd := by
  induction xs generalizing ys with
  | nil => simp
  | cons x xs ih =>
    cases ys with
    | nil => simp
    | cons y ys =>
      obtain ⟨left, right⟩ := ih ys
      constructor
      · simpa using left
      · simpa using right

theorem zip_eq_iff {xs : List α} {ys : List β} {ps : List (α × β)} :
    xs.zip ys = ps ↔ xs.take ps.length = ps.map Prod.fst ∧ ys.take ps.length = ps.map Prod.snd ∧
      (xs.length = ps.length ∨ ys.length = ps.length) := by
  constructor
  · rintro rfl
    obtain ⟨left, right⟩ := take_zip_length xs ys
    refine ⟨left, right, ?_⟩
    rw [length_zip]
    omega
  · rintro ⟨left, right, short⟩
    have enough := congrArg length left
    have enough' := congrArg length right
    rw [length_take, length_map] at enough enough'
    have cut : (xs.zip ys).length = ps.length := by
      rw [length_zip]
      omega
    obtain ⟨left', right'⟩ := take_zip_length xs ys
    rw [cut] at left' right'
    have same := zip_of_prod (left'.symm.trans left) (right'.symm.trans right)
    rw [same]
    exact (zip_of_prod rfl rfl).symm

end List
