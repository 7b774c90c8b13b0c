import FutharkMlir.Lib.Points

/-! Leaving out unit dimensions of a shape. The first dimensions that agree are kept, so
that a unit dimension may stand in for another; the points are the same all the same. -/

/-- Which dimensions of a shape are kept in a reduced one: only units are left out. -/
def keptDims : List Int → List Int → Option (List Bool)
  | [], [] => some []
  | [], _ :: _ => none
  | d :: shape, [] => if d = 1 then (keptDims shape []).map (false :: ·) else none
  | d :: shape, e :: reduced =>
    if d = e then (keptDims shape reduced).map (true :: ·)
    else if d = 1 then (keptDims shape (e :: reduced)).map (false :: ·)
    else none

def keepDims {α : Type} : List Bool → List α → List α
  | true :: kept, x :: xs => x :: keepDims kept xs
  | false :: kept, _ :: xs => keepDims kept xs
  | _, _ => []

def restoreDims : List Bool → List Nat → List Nat
  | true :: kept, i :: p => i :: restoreDims kept p
  | true :: kept, [] => 0 :: restoreDims kept []
  | false :: kept, p => 0 :: restoreDims kept p
  | [], _ => []

/-- A point of a shape and one of the shape without some of its unit dimensions. -/
inductive Restores : List Nat → List Nat → List Nat → List Nat → Prop
  | nil : Restores [] [] [] []
  | keep {n i : Nat} {ns ms p q : List Nat} (h : i < n) :
      Restores ns ms q p → Restores (n :: ns) (n :: ms) (i :: q) (i :: p)
  | drop {ns ms p q : List Nat} : Restores ns ms q p → Restores (1 :: ns) ms q (0 :: p)

namespace Restores

variable {ns ms p p' q : List Nat}

/-- A unit dimension that is kept can be left out instead. -/
theorem shift {r : List Nat} (h : Restores ns (1 :: ms) r p) : Restores ns ms r.tail p := by
  generalize eq : 1 :: ms = ms' at h
  induction h with
  | nil => cases eq
  | keep lt rest =>
    cases eq
    rw [Nat.lt_one_iff.mp lt]
    exact .drop rest
  | drop _ ih => exact .drop (ih eq)

theorem unique (h : Restores ns ms q p) (k : Restores ns ms q p') : p = p' := by
  induction ns generalizing ms q p p' with
  | nil =>
    cases h
    cases k
    rfl
  | cons n ns ih =>
    cases h with
    | keep lt rest =>
      cases k with
      | keep _ rest' => rw [ih rest rest']
      | drop rest' => rw [Nat.lt_one_iff.mp lt, ih rest rest'.shift]
    | drop rest =>
      cases k with
      | keep lt rest' => rw [Nat.lt_one_iff.mp lt, ih rest.shift rest']
      | drop rest' => rw [ih rest rest']

end Restores

/-- The dimensions of the first list, by what is known of them and what they are, without
some of the units. -/
inductive Reduces : List (Int × Nat) → List (Int × Nat) → Prop
  | nil : Reduces [] []
  | keep {ds es : List (Int × Nat)} (d : Int × Nat) : Reduces ds es → Reduces (d :: ds) (d :: es)
  | drop {ds es : List (Int × Nat)} : Reduces ds es → Reduces ((1, 1) :: ds) es

namespace Reduces

variable {ds es : List (Int × Nat)}

theorem shift {e : Int × Nat} (h : Reduces ds (e :: es)) (unit : e = (1, 1)) : Reduces ds es := by
  generalize eq : e :: es = es' at h
  induction h with
  | nil => cases eq
  | keep d rest =>
    cases eq
    rw [unit]
    exact .drop rest
  | drop _ ih => exact .drop (ih eq)

theorem subset (h : Reduces ds es) : es ⊆ ds := by
  induction h with
  | nil => exact List.Subset.refl _
  | keep d _ ih => exact List.cons_subset_cons d ih
  | drop _ ih => exact List.subset_cons_of_subset _ ih

/-- The dimensions that are kept have the reduced shape, and points are restored. -/
theorem keptDims_some (h : Reduces ds es) (units : ∀ d ∈ ds, d.1 = 1 → d.2 = 1) :
    ∃ kept, keptDims (ds.map Prod.fst) (es.map Prod.fst) = some kept ∧
      keepDims kept (ds.map Prod.snd) = es.map Prod.snd ∧
      ∀ q, InBounds (es.map Prod.snd) q →
        Restores (ds.map Prod.snd) (es.map Prod.snd) q (restoreDims kept q) := by
  induction ds generalizing es with
  | nil =>
    cases h
    refine ⟨[], rfl, rfl, fun q hq => ?_⟩
    cases hq
    exact .nil
  | cons d ds ih =>
    have later := (List.forall_mem_cons.mp units).2
    -- the first dimension agrees with the first one of the reduced shape, or it is a unit
    by_cases agrees : ∃ e es', es = e :: es' ∧ d.1 = e.1
    · obtain ⟨e, es', rfl, same⟩ := agrees
      have both : d = e ∧ Reduces ds es' := by
        cases h with
        | keep _ rest => exact ⟨rfl, rest⟩
        | drop rest =>
          have isUnit : e = (1, 1) :=
            Prod.ext same.symm (later e (rest.subset List.mem_cons_self) same.symm)
          exact ⟨isUnit.symm, rest.shift isUnit⟩
      obtain ⟨rfl, rest⟩ := both
      obtain ⟨kept, eq, extents, restored⟩ := ih rest later
      refine ⟨true :: kept, by simp [keptDims, eq], by simp [keepDims, extents], fun q hq => ?_⟩
      cases hq with
      | cons lt hq => exact .keep lt (restored _ hq)
    · have rest : d = (1, 1) ∧ Reduces ds es := by
        cases h with
        | keep _ rest => exact absurd ⟨d, _, rfl, rfl⟩ agrees
        | drop rest => exact ⟨rfl, rest⟩
      obtain ⟨rfl, rest⟩ := rest
      obtain ⟨kept, eq, extents, restored⟩ := ih rest later
      refine ⟨false :: kept, ?_, by simp [keepDims, extents], fun q hq => .drop (restored q hq)⟩
      cases es with
      | nil => simpa [keptDims] using eq
      | cons e es =>
        have differs : (1 : Int) ≠ e.1 := fun same => agrees ⟨e, es, rfl, same⟩
        simpa [keptDims, differs] using eq

end Reduces
