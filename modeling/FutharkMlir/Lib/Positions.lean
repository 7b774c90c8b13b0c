import Mathlib.Data.List.Nodup
import Mathlib.Data.List.Range
import Mathlib.Algebra.BigOperators.Group.List.Basic

structure Positions (n : Nat) (is : List Int) : Prop where
  nodup : is.Nodup
  inside : ∀ i ∈ is, 0 ≤ i ∧ i < n

instance (n : Nat) (is : List Int) : Decidable (Positions n is) :=
  decidable_of_iff (is.Nodup ∧ ∀ i ∈ is, 0 ≤ i ∧ i < n)
    ⟨fun h => ⟨h.1, h.2⟩, fun h => ⟨h.nodup, h.inside⟩⟩

def others (n : Nat) (is : List Int) : List Nat := (List.range n).filter fun i => (i : Int) ∉ is

theorem mem_others {n i : Nat} {is : List Int} : i ∈ others n is ↔ i < n ∧ (i : Int) ∉ is := by
  simp [others]

theorem others_increasing (n : Nat) (is : List Int) : (others n is).Pairwise (· < ·) :=
  List.Pairwise.filter _ List.pairwise_lt_range

namespace Positions

variable {α : Type} {n : Nat} {is js : List Int}

theorem mem_toNat (h : Positions n is) {i : Nat} : i ∈ is.map Int.toNat ↔ (i : Int) ∈ is := by
  simp only [List.mem_map]
  constructor
  · rintro ⟨j, hj, rfl⟩
    rwa [Int.toNat_of_nonneg (h.inside j hj).1]
  · intro hi
    exact ⟨i, hi, Int.toNat_natCast i⟩

theorem nodup_toNat (h : Positions n is) : (is.map Int.toNat).Nodup := by
  refine h.nodup.map_on fun i hi j hj eq => ?_
  have hi := (h.inside i hi).1
  have hj := (h.inside j hj).1
  omega

theorem perm_range (h : Positions n is) : (is.map Int.toNat ++ others n is).Perm (List.range n) := by
  have disjoint : ∀ i ∈ is.map Int.toNat, ∀ j ∈ others n is, i ≠ j := by
    rintro i hi j hj rfl
    exact (mem_others.mp hj).2 (h.mem_toNat.mp hi)
  have nodup : (is.map Int.toNat ++ others n is).Nodup :=
    List.nodup_append.mpr ⟨h.nodup_toNat, (others_increasing n is).imp Nat.ne_of_lt, disjoint⟩
  refine (List.perm_ext_iff_of_nodup nodup List.nodup_range).mpr fun i => ?_
  rw [List.mem_append, h.mem_toNat, mem_others, List.mem_range]
  constructor
  · rintro (hi | ⟨lt, _⟩)
    · have := (h.inside _ hi).2
      omega
    · exact lt
  · intro lt
    by_cases hi : (i : Int) ∈ is
    · exact .inl hi
    · exact .inr ⟨lt, hi⟩

/-- The selected elements and the others are all elements of the list. -/
theorem perm {xs : List α} (h : Positions xs.length is) (d : α) :
    ((is.map fun i => xs.getD i.toNat d) ++ (others xs.length is).map fun i => xs.getD i d).Perm
      xs := by
  have all : (List.range xs.length).map (fun i => xs.getD i d) = xs := by
    refine List.ext_getElem (by simp) fun i h₁ h₂ => ?_
    simp [h₂]
  have perm := h.perm_range.map fun i => xs.getD i d
  rw [all, List.map_append, List.map_map] at perm
  exact perm

theorem length {xs : List α} (h : Positions xs.length is) :
    is.length + (others xs.length is).length = xs.length := by
  have perm := h.perm_range.length_eq
  simpa using perm

theorem prod {M : Type} [CommMonoid M] {xs : List M} (h : Positions xs.length is) (d : M) :
    (is.map fun i => xs.getD i.toNat d).prod *
        ((others xs.length is).map fun i => xs.getD i d).prod = xs.prod := by
  rw [← List.prod_append]
  exact (h.perm d).prod_eq

end Positions
