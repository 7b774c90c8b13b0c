import FutharkMlir.Semantics.Mlir
import FutharkMlir.Lib.Option

/-! Groupings of the dimensions of a shape: which ones fit two types, what they are worth
up to unit dimensions, and when the extents of a group follow from their product. -/
namespace FutharkMlir

theorem Tensor.toList_reshape {α : Type} (t : Tensor α) {shape : List Nat}
    (count : shape.prod = t.shape.prod) : (t.reshape shape).toList = t.toList := by
  unfold Tensor.toList Tensor.reshape
  rw [map_points, map_points, count]
  refine List.map_congr_left fun k hk => ?_
  have lt : k < shape.prod := by
    rw [count]
    exact List.mem_range.mp hk
  show t.get (unlinear t.shape (linear shape (unlinear shape k))) = t.get (unlinear t.shape k)
  rw [linear_unlinear lt]

def entries {α : Type} (one : α) (shape : List α) (group : List Nat) : List α :=
  group.map fun i => shape.getD i one

/-- A dynamic dimension stands for a group with a dynamic part, a static one for static
parts of that product. -/
def GroupFits (shape : List Int) (group : List Nat) (d : Int) : Prop :=
  isDynamic d = true ∧ (entries 1 shape group).any isDynamic = true ∨
    isDynamic d = false ∧ (entries 1 shape group).any isDynamic = false ∧
      (entries 1 shape group).prod = d

instance (shape : List Int) (group : List Nat) (d : Int) : Decidable (GroupFits shape group d) :=
  inferInstanceAs (Decidable (_ ∨ _))

/-- The grouping is compatible with the two types, of which the first has more dimensions. -/
structure Grouping (big small : List Int) (groups : List (List Nat)) : Prop where
  cover : groups.flatten = List.range big.length
  dims : List.Forall₂ (GroupFits big) groups small

def UpToUnits (shape : List Int) (groups groups' : List (List Nat)) : Prop :=
  List.Forall₂ (fun g g' => g.filter (fun i => shape.getD i 1 ≠ 1) =
    g'.filter fun i => shape.getD i 1 ≠ 1) groups groups'

def known (parts : List Int) : Nat := ((parts.filter fun d => !isDynamic d).map Int.toNat).prod

def Inferable (parts : List Int) : Prop :=
  parts.countP isDynamic = 0 ∨ parts.countP isDynamic = 1 ∧ known parts ≠ 0

section Units

variable {shape : List Int} {extents : List Nat} {groups groups' : List (List Nat)}

theorem Fits.getD (h : Fits shape extents) (i : Nat) : dimFits (shape.getD i 1) (extents.getD i 1) := by
  induction h generalizing i with
  | nil => exact .inr rfl
  | cons hd _ ih =>
    cases i with
    | zero => exact hd
    | succ i => exact ih i

theorem Fits.unit (h : Fits shape extents) {i : Nat} (unit : shape.getD i 1 = 1) :
    extents.getD i 1 = 1 := by
  rcases h.getD i with dynamic | static
  · rw [unit] at dynamic
    cases dynamic
  · rw [unit] at static
    exact (Int.ofNat_inj.mp static).symm

theorem prod_units (h : Fits shape extents) (g : List Nat) :
    (entries 1 extents g).prod =
      (entries 1 extents (g.filter fun i => shape.getD i 1 ≠ 1)).prod := by
  unfold entries
  induction g with
  | nil => rfl
  | cons i g ih =>
    by_cases unit : shape.getD i 1 = 1
    · rw [List.filter_cons_of_neg (by simpa using unit), List.map_cons, List.prod_cons, h.unit unit,
        Nat.one_mul, ih]
    · rw [List.filter_cons_of_pos (by simpa using unit), List.map_cons, List.prod_cons,
        List.map_cons, List.prod_cons, ih]

theorem collapsedExtents_units (h : Fits shape extents) (same : UpToUnits shape groups groups') :
    collapsedExtents groups extents = collapsedExtents groups' extents := by
  unfold collapsedExtents
  induction same with
  | nil => rfl
  | @cons g g' _ _ hg _ ih =>
    have eq : (entries 1 extents g).prod = (entries 1 extents g').prod := by
      rw [prod_units h g, hg, ← prod_units h g']
    rw [List.map_cons, List.map_cons, ih]
    exact congrArg (· :: _) eq

theorem inferable_units (shape : List Int) (g : List Nat) :
    (entries 1 shape g).countP isDynamic =
        (entries 1 shape (g.filter fun i => shape.getD i 1 ≠ 1)).countP isDynamic ∧
      known (entries 1 shape g) = known (entries 1 shape (g.filter fun i => shape.getD i 1 ≠ 1)) := by
  unfold entries known
  induction g with
  | nil => exact ⟨rfl, rfl⟩
  | cons i g ih =>
    by_cases unit : shape.getD i 1 = 1
    · rw [List.filter_cons_of_neg (by simpa using unit)]
      have static : isDynamic (shape.getD i 1) = false := by
        rw [unit]
        rfl
      refine ⟨?_, ?_⟩
      · rw [List.map_cons, List.countP_cons_of_neg (by rw [static]; decide), ih.1]
      · rw [List.map_cons, List.filter_cons_of_pos (by rw [static]; rfl), List.map_cons,
          List.prod_cons, unit, ih.2]
        exact Nat.one_mul _
    · rw [List.filter_cons_of_pos (by simpa using unit), List.map_cons, List.map_cons]
      refine ⟨?_, ?_⟩
      · rw [List.countP_cons, List.countP_cons, ih.1]
      · cases dynamic : isDynamic (shape.getD i 1)
        · rw [List.filter_cons_of_pos (by rw [dynamic]; rfl),
            List.filter_cons_of_pos (by rw [dynamic]; rfl), List.map_cons, List.map_cons,
            List.prod_cons, List.prod_cons, ih.2]
        · rw [List.filter_cons_of_neg (by rw [dynamic]; decide),
            List.filter_cons_of_neg (by rw [dynamic]; decide), ih.2]

theorem UpToUnits.inferable (same : UpToUnits shape groups groups')
    (h : ∀ g ∈ groups', Inferable (entries 1 shape g)) :
    ∀ g ∈ groups, Inferable (entries 1 shape g) := by
  induction same with
  | nil => exact h
  | @cons g g' _ _ hg _ ih =>
    intro k hk
    rcases List.mem_cons.mp hk with rfl | hk
    · have inferable := h g' List.mem_cons_self
      rw [Inferable, (inferable_units shape g').1, (inferable_units shape g').2, ← hg,
        ← (inferable_units shape k).1, ← (inferable_units shape k).2] at inferable
      exact inferable
    · exact ih (fun g hg => h g (List.mem_cons_of_mem _ hg)) k hk

end Units

section Expansion

theorem known_cons (d : Int) (parts : List Int) :
    known (d :: parts) = (if isDynamic d then 1 else d.toNat) * known parts := by
  unfold known
  cases dynamic : isDynamic d
  · rw [List.filter_cons_of_pos (by rw [dynamic]; rfl), List.map_cons, List.prod_cons]
    rfl
  · rw [List.filter_cons_of_neg (by rw [dynamic]; decide)]
    exact (Nat.one_mul _).symm

theorem Fits.static {parts : List Int} {ns : List Nat} (h : Fits parts ns)
    (none : parts.countP isDynamic = 0) : parts.map Int.toNat = ns ∧ known parts = ns.prod := by
  induction h with
  | nil => exact ⟨rfl, rfl⟩
  | @cons d n parts ns hd _ ih =>
    have static : isDynamic d = false := by
      cases dynamic : isDynamic d
      · rfl
      · rw [List.countP_cons_of_pos dynamic] at none
        cases none
    rw [List.countP_cons_of_neg (by rw [static]; decide)] at none
    obtain ⟨rest, prod⟩ := ih none
    have eq : d = n := hd.resolve_left (by rw [static]; decide)
    have toNat : d.toNat = n := by rw [eq, Int.toNat_natCast]
    refine ⟨by rw [List.map_cons, rest, toNat], ?_⟩
    rw [known_cons, static, prod, List.prod_cons, toNat]
    rfl

theorem Fits.dynamic {parts : List Int} {ns : List Nat} (h : Fits parts ns)
    (one : parts.countP isDynamic = 1) : ∃ x, ns.prod = known parts * x ∧
      ns = parts.map fun d => if isDynamic d then x else d.toNat := by
  induction h with
  | nil => cases one
  | @cons d n parts ns hd rest ih =>
    cases dynamic : isDynamic d
    · rw [List.countP_cons_of_neg (by rw [dynamic]; decide)] at one
      obtain ⟨x, prod, eq⟩ := ih one
      have static : d = n := hd.resolve_left (by rw [dynamic]; decide)
      have toNat : d.toNat = n := by rw [static, Int.toNat_natCast]
      refine ⟨x, ?_, ?_⟩
      · rw [List.prod_cons, prod, known_cons, dynamic, toNat]
        exact (Nat.mul_assoc _ _ _).symm
      · rw [List.map_cons, dynamic, toNat, ← eq]
        rfl
    · rw [List.countP_cons_of_pos dynamic] at one
      obtain ⟨eq, prod⟩ := Fits.static rest (Nat.succ.inj one)
      refine ⟨n, ?_, ?_⟩
      · rw [List.prod_cons, known_cons, dynamic, prod, Nat.mul_comm]
        exact congrArg (· * n) (Nat.one_mul _).symm
      · rw [List.map_cons, dynamic, ← eq]
        refine congrArg (n :: ·) (List.map_congr_left fun e he => ?_)
        rw [List.countP_eq_zero.mp (Nat.succ.inj one) e he |> Bool.eq_false_iff.mpr]
        rfl

theorem expandedGroup_iff {parts : List Int} {ns : List Nat} (fits : Fits parts ns) {n : Nat} :
    expandedGroup n parts = some ns ↔ ns.prod = n ∧ Inferable parts := by
  have folded : ((parts.filter fun d => !isDynamic d).map Int.toNat).prod = known parts := rfl
  unfold expandedGroup Inferable
  rw [List.countP_eq_length_filter, folded]
  cases dynamic : parts.filter isDynamic with
  | nil =>
    have none : parts.countP isDynamic = 0 := by rw [List.countP_eq_length_filter, dynamic]; rfl
    obtain ⟨eq, prod⟩ := fits.static none
    simp [eq, prod]
  | cons d rest =>
    cases rest with
    | nil =>
      have one : parts.countP isDynamic = 1 := by
        rw [List.countP_eq_length_filter, dynamic]
        rfl
      obtain ⟨x, prod, eq⟩ := fits.dynamic one
      have member : d ∈ parts.filter isDynamic := by rw [dynamic]; exact List.mem_cons_self
      obtain ⟨member, isDyn⟩ := List.mem_filter.mp member
      have same : (∀ y, (parts.map fun d => if isDynamic d then y else d.toNat) = ns → y = x) := by
        intro y h
        rw [eq] at h
        have at' := List.map_inj_left.mp h d member
        simpa [isDyn] using at'
      constructor
      · intro h
        simp only [Option.ite_none_left_eq_some, not_or, not_not, Option.some.injEq] at h
        obtain ⟨⟨nonzero, divides⟩, h⟩ := h
        refine ⟨?_, .inr ⟨rfl, nonzero⟩⟩
        rw [prod, ← same _ h]
        exact Nat.mul_div_cancel' (Nat.dvd_of_mod_eq_zero divides)
      · rintro ⟨rfl, zero | ⟨_, nonzero⟩⟩
        · cases zero
        · have quotient : ns.prod / known parts = x := by
            rw [prod]
            exact Nat.mul_div_cancel_left x (Nat.pos_of_ne_zero nonzero)
          have divides : ns.prod % known parts = 0 := by rw [prod, Nat.mul_mod_right]
          simp only [quotient]
          rw [if_neg (by simp [nonzero, divides]), ← eq]
    | cons e rest => simp

theorem expandedGroup_length {n : Nat} {parts : List Int} {ns : List Nat}
    (h : expandedGroup n parts = some ns) : ns.length = parts.length := by
  unfold expandedGroup at h
  split at h
  · obtain ⟨_, eq⟩ := Option.ite_none_right_eq_some.mp h
    cases eq
    exact List.length_map _
  · obtain ⟨_, eq⟩ := Option.ite_none_left_eq_some.mp h
    cases eq
    exact List.length_map _
  · cases h

theorem expandedExtents_flatten {groups : List (List Nat)} {sources extents : List Nat}
    {shape : List Int} : expandedExtents groups sources shape = some extents ↔
      ∃ parts, List.Forall₂ (fun q ns => expandedGroup q.2 (entries 1 shape q.1) = some ns)
        (groups.zip sources) parts ∧ parts.flatten = extents := by
  unfold expandedExtents
  generalize groups.zip sources = pairs
  induction pairs generalizing extents with
  | nil =>
    constructor
    · intro h
      cases h
      exact ⟨[], .nil, rfl⟩
    · rintro ⟨parts, hparts, rfl⟩
      cases hparts
      rfl
  | cons q pairs ih =>
    rw [List.foldrM_cons]
    constructor
    · intro h
      obtain ⟨rest, hrest, h⟩ := Option.bind_eq_some_iff.mp h
      obtain ⟨ns, hns, h⟩ := Option.bind_eq_some_iff.mp h
      cases h
      obtain ⟨parts, hparts, rfl⟩ := ih.mp hrest
      exact ⟨ns :: parts, .cons hns hparts, rfl⟩
    · rintro ⟨parts, hparts, rfl⟩
      cases hparts with
      | @cons _ ns _ rest hns hrest =>
        refine Option.bind_eq_some_iff.mpr ⟨rest.flatten, ih.mpr ⟨rest, hrest, rfl⟩, ?_⟩
        exact Option.bind_eq_some_iff.mpr ⟨ns, hns, rfl⟩

theorem Fits.entries {shape : List Int} {extents : List Nat} (h : Fits shape extents)
    (group : List Nat) : Fits (entries 1 shape group) (entries 1 extents group) := by
  unfold FutharkMlir.entries
  rw [Fits, List.forall₂_map_left_iff, List.forall₂_map_right_iff, List.forall₂_same]
  exact fun i _ => h.getD i

theorem entries_range (extents : List Nat) :
    entries 1 extents (List.range extents.length) = extents := by
  refine List.ext_getElem (by simp [entries]) fun i h h' => ?_
  simp [entries, h']

/-- The extents of the parts follow from those of the whole dimensions just where the
products of the groups are these and no group leaves two parts open. -/
theorem expandedExtents_iff {groups : List (List Nat)} {shape : List Int} {extents sources : List Nat}
    (length : groups.length = sources.length) (cover : groups.flatten = List.range shape.length)
    (fits : Fits shape extents) :
    expandedExtents groups sources shape = some extents ↔
      collapsedExtents groups extents = sources ∧
        ∀ g ∈ groups, Inferable (entries 1 shape g) := by
  have flat : (groups.map (entries 1 extents)).flatten = extents := by
    have all : (groups.map (entries 1 extents)).flatten = entries 1 extents groups.flatten := by
      unfold entries
      rw [List.map_flatten]
    rw [all, cover, List.Forall₂.length_eq fits, entries_range]
  have each : ∀ (gs : List (List Nat)) (ss : List Nat), gs.length = ss.length →
      (List.Forall₂ (fun q ns => expandedGroup q.2 (entries 1 shape q.1) = some ns) (gs.zip ss)
        (gs.map (entries 1 extents)) ↔
      collapsedExtents gs extents = ss ∧ ∀ g ∈ gs, Inferable (entries 1 shape g)) := by
    intro gs
    induction gs with
    | nil =>
      intro ss h
      cases List.length_eq_zero_iff.mp h.symm
      simp [collapsedExtents]
    | cons g gs ih =>
      intro ss h
      cases ss with
      | nil => cases h
      | cons n ss =>
        rw [List.zip_cons_cons, List.map_cons, List.forall₂_cons, ih ss (Nat.succ.inj h),
          expandedGroup_iff (fits.entries g), List.forall_mem_cons, collapsedExtents,
          collapsedExtents, List.map_cons, List.cons.injEq]
        exact ⟨fun ⟨⟨a, b⟩, c, d⟩ => ⟨⟨a, c⟩, b, d⟩, fun ⟨⟨a, c⟩, b, d⟩ => ⟨⟨a, b⟩, c, d⟩⟩
  rw [expandedExtents_flatten, ← each groups sources length]
  constructor
  · rintro ⟨parts, hparts, rfl⟩
    have same : parts = groups.map (entries 1 parts.flatten) := by
      rw [List.eq_iff_flatten_eq, flat]
      refine ⟨rfl, ?_⟩
      have lengths : parts.map List.length = (groups.zip sources).map (List.length ∘ Prod.fst) := by
        rw [← List.forall₂_eq_eq_eq, List.forall₂_map_left_iff, List.forall₂_map_right_iff]
        refine hparts.flip.imp fun ns q h => ?_
        rw [expandedGroup_length h, FutharkMlir.entries, List.length_map, Function.comp_apply]
      rw [lengths, ← List.map_map, List.map_fst_zip (le_of_eq length), List.map_map]
      refine List.map_congr_left fun g _ => ?_
      rw [Function.comp_apply, FutharkMlir.entries, List.length_map]
    rw [← same]
    exact hparts
  · exact fun h => ⟨_, h, flat⟩

end Expansion

end FutharkMlir
