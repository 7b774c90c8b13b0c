import Mathlib.Data.List.Basic

/-! Words in which some letters open a bracket and some close one. A weight for every letter
says which: one that opens adds to the depth, and one that closes takes from it. -/
namespace Brackets

variable {α : Type} {w : α → Int} {d : Int} {a : α} {s t : List α}

/-- How many more brackets a word opens than it closes. -/
def depth (w : α → Int) : List α → Int
  | [] => 0
  | a :: s => w a + depth w s

@[simp] theorem depth_nil : depth w [] = 0 := rfl

@[simp] theorem depth_cons : depth w (a :: s) = w a + depth w s := rfl

@[simp] theorem depth_append : depth w (s ++ t) = depth w s + depth w t := by
  induction s with
  | nil => simp
  | cons a s ih =>
    simp only [List.cons_append, depth_cons, ih]
    omega

theorem depth_flat (flat : ∀ a ∈ s, w a = 0) : depth w s = 0 := by
  induction s with
  | nil => rfl
  | cons a s ih =>
    have tail := ih fun b hb => flat b (by simp [hb])
    simp [flat a (by simp), tail]

/-- Read from depth `d` on, the word never gets below the ground. -/
def Above (w : α → Int) (d : Int) (s : List α) : Prop := ∀ u, u <+: s → 0 ≤ d + depth w u

theorem Above.start (h : Above w d s) : 0 ≤ d := by simpa using h [] (List.nil_prefix)

theorem Above.finish (h : Above w d s) : 0 ≤ d + depth w s := h s (List.prefix_refl s)

@[simp] theorem above_nil : Above w d [] ↔ 0 ≤ d := by simp [Above]

@[simp] theorem above_cons : Above w d (a :: s) ↔ 0 ≤ d ∧ Above w (d + w a) s := by
  constructor
  · intro h
    refine ⟨h.start, fun u hu => ?_⟩
    have here := h (a :: u) (List.cons_prefix_cons.mpr ⟨rfl, hu⟩)
    rw [depth_cons] at here
    omega
  · rintro ⟨ground, tail⟩ u hu
    cases u with
    | nil => simpa using ground
    | cons b u =>
      obtain ⟨rfl, inner⟩ := List.cons_prefix_cons.mp hu
      have here := tail u inner
      rw [depth_cons]
      omega

theorem above_append : Above w d (s ++ t) ↔ Above w d s ∧ Above w (d + depth w s) t := by
  induction s generalizing d with
  | nil =>
    simp only [List.nil_append, above_nil, depth_nil, Int.add_zero]
    constructor
    · intro h
      exact ⟨h.start, h⟩
    · intro h
      exact h.2
  | cons a s ih =>
    simp only [List.cons_append, above_cons, ih, depth_cons, and_assoc, Int.add_assoc]

theorem Above.mono {d' : Int} (h : Above w d s) (le : d ≤ d') : Above w d' s := by
  intro u hu
  have here := h u hu
  omega

theorem above_flat (flat : ∀ a ∈ s, w a = 0) : Above w d (s ++ t) ↔ Above w d t := by
  induction s with
  | nil => rfl
  | cons a s ih =>
    have tail := ih fun b hb => flat b (by simp [hb])
    rw [List.cons_append, above_cons, flat a (by simp), Int.add_zero, tail]
    exact and_iff_right_of_imp Above.start

/-- Read from depth `d` on, a letter stands inside of brackets only. -/
def Inside (w : α → Int) (x : α) (d : Int) (s : List α) : Prop :=
  ∀ u v, s = u ++ x :: v → 0 < d + depth w u

variable {x : α}

@[simp] theorem inside_nil : Inside w x d [] := by
  intro u v eq
  cases u <;> cases eq

@[simp] theorem inside_cons : Inside w x d (a :: s) ↔ (a = x → 0 < d) ∧ Inside w x (d + w a) s := by
  constructor
  · intro h
    constructor
    · rintro rfl
      simpa using h [] s rfl
    · rintro u v rfl
      have here := h (a :: u) v rfl
      rw [depth_cons] at here
      omega
  · rintro ⟨head, tail⟩ u v eq
    cases u with
    | nil =>
      obtain ⟨rfl, _⟩ := List.cons.inj eq
      simpa using head rfl
    | cons b u =>
      obtain ⟨rfl, rest⟩ := List.cons.inj eq
      have here := tail u v rest
      rw [depth_cons]
      omega

theorem inside_append : Inside w x d (s ++ t) ↔ Inside w x d s ∧ Inside w x (d + depth w s) t := by
  induction s generalizing d with
  | nil => simp
  | cons a s ih => simp only [List.cons_append, inside_cons, ih, depth_cons, and_assoc, Int.add_assoc]

theorem inside_absent (absent : x ∉ s) : Inside w x d s := by
  rintro u v rfl
  simp at absent

/-- Never closes more than it opened, and leaves nothing open. -/
structure Balanced (w : α → Int) (s : List α) : Prop where
  above : Above w 0 s
  closed : depth w s = 0

namespace Balanced

theorem append (hs : Balanced w s) (ht : Balanced w t) : Balanced w (s ++ t) where
  above := by
    rw [above_append, hs.closed]
    exact ⟨hs.above, ht.above⟩
  closed := by rw [depth_append, hs.closed, ht.closed, Int.add_zero]

theorem flat (h : ∀ a ∈ s, w a = 0) : Balanced w s where
  above := by
    intro u hu
    rw [depth_flat fun a ha => h a (hu.subset ha)]
    omega
  closed := depth_flat h

theorem enclose {b : α} (h : Balanced w s) (opens : w a = 1) (closes : w b = -1) :
    Balanced w (a :: (s ++ [b])) where
  above := by
    simp only [above_cons, above_append, h.closed, opens, closes, above_nil]
    exact ⟨by omega, h.above.mono (by omega), by omega, by omega⟩
  closed := by simp [h.closed, opens, closes]

/-- One level up, every letter of a balanced word is inside of brackets. -/
theorem inside (h : Balanced w s) : Inside w x 1 s := by
  rintro u v rfl
  have ground := h.above u (List.prefix_append u (x :: v))
  omega

end Balanced

end Brackets
