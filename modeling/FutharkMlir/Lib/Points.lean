import Mathlib.Data.List.Forall2
import Mathlib.Data.List.Nodup
import Mathlib.Data.List.Range
import Mathlib.Algebra.BigOperators.Group.List.Basic
import Mathlib.Tactic.Ring

/-- The point lies in the space: it has its rank and every coordinate is below its extent. -/
def InBounds (shape p : List Nat) : Prop := List.Forall₂ (fun n i => i < n) shape p

instance (shape p : List Nat) : Decidable (InBounds shape p) :=
  inferInstanceAs (Decidable (List.Forall₂ _ _ _))

def points : List Nat → List (List Nat)
  | [] => [[]]
  | n :: shape => (List.range n).flatMap fun i => (points shape).map (i :: ·)

def linear : List Nat → List Nat → Nat
  | _ :: shape, i :: p => i * shape.prod + linear shape p
  | _, _ => 0

def unlinear : List Nat → Nat → List Nat
  | [], _ => []
  | _ :: shape, k => k / shape.prod :: unlinear shape (k % shape.prod)

theorem InBounds.length {shape p : List Nat} (h : InBounds shape p) : p.length = shape.length :=
  (List.Forall₂.length_eq h).symm

theorem inBounds_cons {n i : Nat} {shape p : List Nat} :
    InBounds (n :: shape) (i :: p) ↔ i < n ∧ InBounds shape p :=
  List.forall₂_cons

theorem mem_points {shape p : List Nat} : p ∈ points shape ↔ InBounds shape p := by
  induction shape generalizing p with
  | nil => simp [points, InBounds]
  | cons n shape ih =>
    simp only [points, List.mem_flatMap, List.mem_range, List.mem_map, ih]
    constructor
    · rintro ⟨i, hi, q, hq, rfl⟩
      exact inBounds_cons.mpr ⟨hi, hq⟩
    · intro h
      cases p with
      | nil => cases h
      | cons i p =>
        obtain ⟨hi, hp⟩ := inBounds_cons.mp h
        exact ⟨i, hi, p, hp, rfl⟩

theorem nodup_points (shape : List Nat) : (points shape).Nodup := by
  induction shape with
  | nil => simp [points]
  | cons n shape ih =>
    refine List.nodup_flatMap.mpr ⟨fun i _ => ih.map fun p q h => (List.cons.inj h).2, ?_⟩
    refine List.Pairwise.imp_of_mem ?_ (List.nodup_range (n := n))
    intro i j _ _ ne p hp hq
    obtain ⟨q, _, rfl⟩ := List.mem_map.mp hp
    obtain ⟨q', _, h⟩ := List.mem_map.mp hq
    exact ne (List.cons.inj h).1.symm

theorem flatMap_ite_eq {ι α : Type} [DecidableEq ι] {l : List ι} {i : ι} (nodup : l.Nodup)
    (member : i ∈ l) (xs : List α) : (l.flatMap fun k => if k = i then xs else []) = xs := by
  induction l with
  | nil => cases member
  | cons k l ih =>
    rw [List.nodup_cons] at nodup
    rw [List.flatMap_cons]
    by_cases eq : k = i
    · subst eq
      have none : (l.flatMap fun j => if j = k then xs else []) = [] := by
        rw [List.flatMap_eq_nil_iff]
        intro j hj
        apply if_neg
        intro same
        exact nodup.1 (same ▸ hj)
      rw [none, if_pos rfl, List.append_nil]
    · rw [if_neg eq, List.nil_append]
      exact ih nodup.2 ((List.mem_cons.mp member).resolve_left (Ne.symm eq))

/-- The points that agree with one in all but the last coordinate, in order. -/
theorem filter_points_last {shape o : List Nat} (h : InBounds shape o) (n : Nat) :
    (points (shape ++ [n])).filter (fun p => p.take shape.length = o) =
      (List.range n).map fun j => o ++ [j] := by
  induction h with
  | nil => simp [points, List.map_eq_flatMap]
  | @cons m i shape o lt _ ih =>
    have first : ∀ k, ((points (shape ++ [n])).map (k :: ·)).filter
        (fun p => p.take (shape.length + 1) = i :: o) =
          if k = i then (List.range n).map fun j => i :: (o ++ [j]) else [] := by
      intro k
      rw [List.filter_map]
      split
      · rename_i eq
        subst eq
        have same : ((fun p : List Nat => decide (p.take (shape.length + 1) = k :: o)) ∘
            (k :: ·)) = fun p => decide (p.take shape.length = o) := by
          funext p
          simp
        rw [same, ih, List.map_map]
        rfl
      · rename_i ne
        rw [List.map_eq_nil_iff, List.filter_eq_nil_iff]
        intro p _
        simp [ne]
    rw [List.cons_append, points, List.filter_flatMap, List.length_cons]
    simp only [first]
    exact flatMap_ite_eq List.nodup_range (List.mem_range.mpr lt) _

theorem linear_lt {shape p : List Nat} (h : InBounds shape p) : linear shape p < shape.prod := by
  induction h with
  | nil => simp [linear]
  | @cons n i shape p hi hp ih =>
    rw [linear, List.prod_cons]
    calc i * shape.prod + linear shape p < i * shape.prod + shape.prod := by omega
      _ = (i + 1) * shape.prod := by ring
      _ ≤ n * shape.prod := Nat.mul_le_mul_right _ hi

theorem unlinear_linear {shape p : List Nat} (h : InBounds shape p) :
    unlinear shape (linear shape p) = p := by
  induction h with
  | nil => rfl
  | @cons n i shape p hi hp ih =>
    have lt := linear_lt hp
    have pos : 0 < shape.prod := by omega
    rw [linear, unlinear, Nat.mul_comm, Nat.mul_add_div pos, Nat.div_eq_of_lt lt,
      Nat.mul_add_mod, Nat.mod_eq_of_lt lt, ih, Nat.add_zero]

theorem linear_unlinear {shape : List Nat} {k : Nat} (h : k < shape.prod) :
    linear shape (unlinear shape k) = k := by
  induction shape generalizing k with
  | nil =>
    rw [List.prod_nil, Nat.lt_one_iff] at h
    rw [h, unlinear, linear]
    rintro n shape i p h
    cases h
  | cons n shape ih =>
    rw [List.prod_cons] at h
    have pos : 0 < shape.prod := Nat.pos_of_ne_zero fun zero => by simp [zero] at h
    rw [unlinear, linear, ih (Nat.mod_lt _ pos), Nat.div_add_mod']

theorem points_linear (shape : List Nat) :
    (points shape).map (linear shape) = List.range shape.prod := by
  induction shape with
  | nil => rfl
  | cons n shape ih =>
    have row : ∀ i, ((points shape).map (i :: ·)).map (linear (n :: shape)) =
        (List.range shape.prod).map (i * shape.prod + ·) := by
      intro i
      rw [← ih, List.map_map, List.map_map]
      rfl
    rw [points, List.map_flatMap, List.prod_cons]
    simp only [row]
    clear row
    induction n with
    | zero => simp
    | succ n ihn =>
      rw [List.range_succ, List.flatMap_append, ihn, List.flatMap_singleton, Nat.succ_mul,
        List.range_add]

/-- The elements at the points of a space are those at the positions, in order. -/
theorem map_points {α : Type} (shape : List Nat) (f : List Nat → α) :
    (points shape).map f = (List.range shape.prod).map fun k => f (unlinear shape k) := by
  rw [← points_linear, List.map_map]
  refine List.map_congr_left fun p hp => ?_
  rw [Function.comp_apply, unlinear_linear (mem_points.mp hp)]
