import FutharkMlir.Simulation.Accepts
import FutharkMlir.Lib.Except
import FutharkMlir.Lib.Positions
import Mathlib.Data.List.GetD
import Mathlib.Tactic.Ring

/-! The shapes of `dot_general` and `ragged_dot`: every dimension of the operands is batched,
contracted, grouped or left over, and the result has the batched and the left-over ones. -/
namespace FutharkMlir

def extentAt (shape : List Int) (i : Int) : Int := shape.getD i.toNat 0

def SameExtent (a b : Int) : Prop := isDynamic a = true ∨ isDynamic b = true ∨ a = b

/-- The dimension numbers are those of two operands with these shapes. -/
structure DotDims.Valid (d : DotDims) (lhs rhs : List Int) : Prop where
  left : Positions lhs.length (d.lhsBatching ++ d.lhsContracting)
  right : Positions rhs.length (d.rhsBatching ++ d.rhsContracting ++ d.rhsGroup)
  batching : List.Forall₂ (fun i j => SameExtent (extentAt lhs i) (extentAt rhs j))
    d.lhsBatching d.rhsBatching
  contracting : List.Forall₂ (fun i j => SameExtent (extentAt lhs i) (extentAt rhs j))
    d.lhsContracting d.rhsContracting

/-- The batch extents in the order they are listed, then those of the dimensions left over, in
increasing order. -/
def DotDims.resultShape (d : DotDims) (lhs rhs : List Int) : List Int :=
  d.lhsBatching.map (extentAt lhs) ++
    ((others lhs.length (d.lhsBatching ++ d.lhsContracting)).map fun i : Nat => extentAt lhs i) ++
    ((others rhs.length (d.rhsBatching ++ d.rhsContracting ++ d.rhsGroup)).map
      fun i : Nat => extentAt rhs i)

/-- With one group extent in front exactly where the ragged dimension is contracted. -/
def DotDims.raggedShape (d : DotDims) (lhs rhs : List Int) (g ragged : Int) : List Int :=
  (if ragged ∈ d.lhsContracting then [g] else []) ++ d.resultShape lhs rhs

theorem remainingDims_eq (shape excluded : List Int) :
    remainingDims shape excluded =
      (others shape.length excluded).map fun i : Nat => extentAt shape i := by
  have zip : shape.zipIdx = (List.range shape.length).map fun (i : Nat) => (extentAt shape i, i) := by
    refine List.ext_getElem (by simp) fun i h₁ h₂ => ?_
    rw [List.length_zipIdx] at h₁
    simp [extentAt, h₁]
  rw [remainingDims, zip, List.filter_map, List.map_map, others]
  congr 1
  refine List.filter_congr fun i _ => ?_
  simp

theorem batchExtents_ok {shape is : List Int} (h : ∀ i ∈ is, 0 ≤ i ∧ i < shape.length) :
    is.mapM (indexedInt shape) = .ok (is.map (extentAt shape)) := by
  rw [Except.mapM_eq_ok, List.forall₂_map_right_iff, List.forall₂_same]
  intro i hi
  obtain ⟨nonneg, lt⟩ := h i hi
  have lt' : i.toNat < shape.length := by omega
  rw [indexedInt, if_neg (Int.not_lt.mpr nonneg), indexed, List.getElem?_eq_getElem lt']
  simp [extentAt, lt']

section Shapes

variable {d : DotDims} {lhs rhs : List Int}

theorem batching_ok (valid : d.Valid lhs rhs) :
    d.lhsBatching.mapM (indexedInt lhs) = .ok (d.lhsBatching.map (extentAt lhs)) :=
  batchExtents_ok fun i hi => valid.left.inside i (List.mem_append_left _ hi)

theorem dotGeneralShape_eq (valid : d.Valid lhs rhs) (ungrouped : d.rhsGroup = []) :
    dotGeneralShape lhs rhs d = .ok (d.resultShape lhs rhs) := by
  rw [dotGeneralShape, batching_ok valid, DotDims.resultShape, ungrouped, List.append_nil]
  simp only [remainingDims_eq]
  rfl

theorem raggedDotShape_eq (valid : d.Valid lhs rhs) (g r : Int) :
    raggedDotShape lhs rhs g r d = .ok (d.raggedShape lhs rhs g r) := by
  rw [raggedDotShape, batching_ok valid, DotDims.raggedShape, DotDims.resultShape]
  simp only [remainingDims_eq, List.contains_iff_mem, List.append_assoc]
  rfl

theorem resultShape_rank (valid : d.Valid lhs rhs) :
    (d.resultShape lhs rhs).length + d.lhsBatching.length + 2 * d.lhsContracting.length +
      d.rhsGroup.length = lhs.length + rhs.length := by
  have left := valid.left.length
  have right := valid.right.length
  have batching := valid.batching.length_eq
  have contracting := valid.contracting.length_eq
  simp only [List.length_append] at left right
  simp only [DotDims.resultShape, List.length_append, List.length_map]
  omega

theorem paired_eq {is js : List Int} (left : ∀ n ∈ lhs, isDynamic n = false)
    (right : ∀ n ∈ rhs, isDynamic n = false) (hi : ∀ i ∈ is, 0 ≤ i ∧ i < lhs.length)
    (hj : ∀ j ∈ js, 0 ≤ j ∧ j < rhs.length)
    (h : List.Forall₂ (fun i j => SameExtent (extentAt lhs i) (extentAt rhs j)) is js) :
    is.map (extentAt lhs) = js.map (extentAt rhs) := by
  have member : ∀ {shape : List Int} {i : Int}, 0 ≤ i ∧ i < shape.length →
      extentAt shape i ∈ shape := by
    intro shape i ⟨_, lt⟩
    have lt' : i.toNat < shape.length := by omega
    rw [extentAt, List.getD_eq_getElem _ _ lt']
    exact List.getElem_mem lt'
  induction h with
  | nil => rfl
  | @cons i j is js same _ ih =>
    rw [List.forall_mem_cons] at hi hj
    have eq : extentAt lhs i = extentAt rhs j := by
      rcases same with dynamic | dynamic | eq
      · rw [left _ (member hi.1)] at dynamic
        cases dynamic
      · rw [right _ (member hj.1)] at dynamic
        cases dynamic
      · exact eq
    rw [List.map_cons, List.map_cons, eq, ih hi.2 hj.2]

theorem resultShape_prod (valid : d.Valid lhs rhs) (left : ∀ n ∈ lhs, isDynamic n = false)
    (right : ∀ n ∈ rhs, isDynamic n = false) :
    (d.resultShape lhs rhs).prod * (d.lhsBatching.map (extentAt lhs)).prod *
      (d.lhsContracting.map (extentAt lhs)).prod ^ 2 * (d.rhsGroup.map (extentAt rhs)).prod =
      lhs.prod * rhs.prod := by
  have hl := valid.left.prod 0
  have hr := valid.right.prod 0
  have batching := paired_eq left right
    (fun i hi => valid.left.inside i (List.mem_append_left _ hi))
    (fun j hj => valid.right.inside j (by simp [hj])) valid.batching
  have contracting := paired_eq left right
    (fun i hi => valid.left.inside i (List.mem_append_right _ hi))
    (fun j hj => valid.right.inside j (by simp [hj])) valid.contracting
  simp only [List.map_append, List.prod_append] at hl hr
  rw [← hl, ← hr]
  have batchExtents : (d.rhsBatching.map fun i => rhs.getD i.toNat 0).prod =
      (d.lhsBatching.map (extentAt lhs)).prod := congrArg List.prod batching.symm
  have contractedExtents : (d.rhsContracting.map fun i => rhs.getD i.toNat 0).prod =
      (d.lhsContracting.map (extentAt lhs)).prod := congrArg List.prod contracting.symm
  have cast : ∀ shape : List Int, ∀ i : Nat, extentAt shape i = shape.getD i 0 :=
    fun shape i => by rw [extentAt, Int.toNat_natCast]
  have here : ∀ shape : List Int, extentAt shape = fun i => shape.getD i.toNat 0 := fun _ => rfl
  rw [batchExtents, contractedExtents]
  simp only [DotDims.resultShape, List.prod_append, cast, here]
  ring

end Shapes

section Lowering

variable (cfg : Config)

theorem getArg_append {sizes args : List Value} {i : Nat} (h : i < args.length) :
    getArg (sizes ++ args) args.length i = .ok args[i] := by
  have enough : ¬ (sizes ++ args).length < args.length := by
    rw [List.length_append]
    omega
  have position : (sizes ++ args).length - args.length + i = sizes.length + i := by
    rw [List.length_append]
    omega
  rw [getArg, if_neg enough, position, indexed,
    List.getElem?_append_right (Nat.le_add_right _ _), Nat.add_sub_cancel_left,
    List.getElem?_eq_getElem h]

abbrev Constants (vs : List Value) (lists : List (List Int)) : Prop :=
  List.Forall₂ (fun v is => getConstantIntTensor v = .ok is) vs lists

variable {d : DotDims} {lhs rhs : Value} {lhsShape rhsShape : List Int} {elem elem' : ElemTy}

def Yields (shape : List Int) (elem : ElemTy) (vs : List Value) : Prop :=
  ∃ v, vs = [v] ∧ v.ty = .tensor shape elem

theorem create_yields {code : OpCode} {operands : List Value} {shape : List Int} {elem : ElemTy} :
    Emit.Accepts (Emit.create code operands [.tensor shape elem] []) (Yields shape elem) :=
  Emit.Accepts.create.weaken fun vs hvs => by
    obtain ⟨v, rfl, ty⟩ := List.map_eq_singleton_iff.mp hvs
    exact ⟨v, rfl, ty⟩

theorem lowerDotGeneral_yields (sizes : List Value) (retTy : MlirTy)
    (lhsTy : lhs.ty = .tensor lhsShape elem) (rhsTy : rhs.ty = .tensor rhsShape elem')
    (valid : d.Valid lhsShape rhsShape) (ungrouped : d.rhsGroup = []) {a b c e : Value}
    (constants : Constants [a, b, c, e]
      [d.lhsBatching, d.rhsBatching, d.lhsContracting, d.rhsContracting]) :
    (lowerDotGeneral cfg (sizes ++ [lhs, rhs, a, b, c, e]) [retTy]).Accepts
      (Yields (d.resultShape lhsShape rhsShape) elem) := by
  simp only [Constants, List.forall₂_cons, List.forall₂_nil_left_iff, and_true] at constants
  obtain ⟨ha, hb, hc, he⟩ := constants
  have arg : ∀ i (h : i < 6), getArg (sizes ++ [lhs, rhs, a, b, c, e]) 6 i =
      .ok ([lhs, rhs, a, b, c, e][i]) := fun i h => getArg_append h
  have shape : dotGeneralShape lhsShape rhsShape _ = .ok (d.resultShape lhsShape rhsShape) :=
    dotGeneralShape_eq valid ungrouped
  unfold lowerDotGeneral
  refine .bindExcept (assertThat_true cfg (by simp)) (.bindExcept (assertThat_true cfg rfl) ?_)
  refine .bindExcept (arg 0 (by decide)) (.bindExcept (arg 1 (by decide)) ?_)
  refine .bindExcept (arg 2 (by decide)) (.bindExcept ha ?_)
  refine .bindExcept (arg 3 (by decide)) (.bindExcept hb ?_)
  refine .bindExcept (arg 4 (by decide)) (.bindExcept hc ?_)
  refine .bindExcept (arg 5 (by decide)) (.bindExcept he ?_)
  refine .bindExcept (congrArg getRankedType lhsTy) (.bindExcept (congrArg getRankedType rhsTy) ?_)
  exact .bindExcept shape create_yields

theorem lowerRaggedDot_yields (sizes : List Value) (retTy : MlirTy)
    (lhsTy : lhs.ty = .tensor lhsShape elem) (rhsTy : rhs.ty = .tensor rhsShape elem')
    (valid : d.Valid lhsShape rhsShape) (static : ∀ n ∈ rhsShape, isDynamic n = false)
    {groupSizes a b c e ragged group : Value} {groupShape : List Int} {elem'' : ElemTy} {g r : Int}
    (groupTy : groupSizes.ty = .tensor groupShape elem'') (last : groupShape.getLast? = some g)
    (constants : Constants [a, b, c, e, group]
      [d.lhsBatching, d.rhsBatching, d.lhsContracting, d.rhsContracting, d.rhsGroup])
    (dim : getConstantInt ragged = .ok r) :
    (lowerRaggedDot cfg (sizes ++ [lhs, rhs, groupSizes, a, b, c, e, ragged, group])
      [retTy]).Accepts (Yields (d.raggedShape lhsShape rhsShape g r) elem) := by
  simp only [Constants, List.forall₂_cons, List.forall₂_nil_left_iff, and_true] at constants
  obtain ⟨ha, hb, hc, he, hgroup⟩ := constants
  have arg : ∀ i (h : i < 9), getArg (sizes ++ [lhs, rhs, groupSizes, a, b, c, e, ragged, group])
      9 i = .ok ([lhs, rhs, groupSizes, a, b, c, e, ragged, group][i]) :=
    fun i h => getArg_append h
  have shape := raggedDotShape_eq valid g r
  have known : rhsShape.any isDynamic = false := by
    rw [List.any_eq_false]
    intro n hn
    rw [static n hn]
    decide
  unfold lowerRaggedDot
  refine .bindExcept (assertThat_true cfg (by simp)) (.bindExcept (assertThat_true cfg rfl) ?_)
  refine .bindExcept (arg 0 (by decide)) (.bindExcept (arg 1 (by decide)) ?_)
  refine .bindExcept (arg 2 (by decide)) ?_
  refine .bindExcept (arg 3 (by decide)) (.bindExcept ha ?_)
  refine .bindExcept (arg 4 (by decide)) (.bindExcept hb ?_)
  refine .bindExcept (arg 5 (by decide)) (.bindExcept hc ?_)
  refine .bindExcept (arg 6 (by decide)) (.bindExcept he ?_)
  refine .bindExcept (arg 7 (by decide)) (.bindExcept dim ?_)
  refine .bindExcept (arg 8 (by decide)) (.bindExcept hgroup ?_)
  refine .bindExcept (congrArg getRankedType lhsTy) (.bindExcept (congrArg getRankedType rhsTy) ?_)
  dsimp only
  rw [known, if_neg Bool.false_ne_true]
  refine .bindExcept (congrArg getRankedType groupTy) ?_
  dsimp only
  rw [last]
  exact .bind (.pure rfl) fun _ eq => eq ▸ .bindExcept shape create_yields

/-- `dot_general` and `ragged_dot` give their result the batch extents and the extents left
over, and the group extent where the ragged dimension is contracted: no dimension is lost and
none is there twice. -/
theorem dot_shapes (sizes : List Value) (retTy : MlirTy) (lhsTy : lhs.ty = .tensor lhsShape elem)
    (rhsTy : rhs.ty = .tensor rhsShape elem') (valid : d.Valid lhsShape rhsShape) :
    (∀ a b c e, d.rhsGroup = [] →
      Constants [a, b, c, e]
        [d.lhsBatching, d.rhsBatching, d.lhsContracting, d.rhsContracting] →
      (lowerDotGeneral cfg (sizes ++ [lhs, rhs, a, b, c, e]) [retTy]).Accepts
        (Yields (d.resultShape lhsShape rhsShape) elem)) ∧
    (∀ groupSizes a b c e ragged group groupShape elem'' g r,
      (∀ n ∈ rhsShape, isDynamic n = false) → groupSizes.ty = .tensor groupShape elem'' →
      groupShape.getLast? = some g →
      Constants [a, b, c, e, group]
        [d.lhsBatching, d.rhsBatching, d.lhsContracting, d.rhsContracting, d.rhsGroup] →
      getConstantInt ragged = .ok r →
      (lowerRaggedDot cfg (sizes ++ [lhs, rhs, groupSizes, a, b, c, e, ragged, group])
        [retTy]).Accepts (Yields (d.raggedShape lhsShape rhsShape g r) elem)) ∧
    (d.resultShape lhsShape rhsShape).length + d.lhsBatching.length +
      2 * d.lhsContracting.length + d.rhsGroup.length = lhsShape.length + rhsShape.length ∧
    (∀ g r, (d.raggedShape lhsShape rhsShape g r).length =
      (if r ∈ d.lhsContracting then 1 else 0) + (d.resultShape lhsShape rhsShape).length) ∧
    ((∀ n ∈ lhsShape, isDynamic n = false) → (∀ n ∈ rhsShape, isDynamic n = false) →
      (d.resultShape lhsShape rhsShape).prod * (d.lhsBatching.map (extentAt lhsShape)).prod *
        (d.lhsContracting.map (extentAt lhsShape)).prod ^ 2 *
        (d.rhsGroup.map (extentAt rhsShape)).prod = lhsShape.prod * rhsShape.prod ∧
      ∀ g r, (d.raggedShape lhsShape rhsShape g r).prod =
        (if r ∈ d.lhsContracting then g else 1) * (d.resultShape lhsShape rhsShape).prod) := by
  have rank : ∀ g r, (d.raggedShape lhsShape rhsShape g r).length =
      (if r ∈ d.lhsContracting then 1 else 0) + (d.resultShape lhsShape rhsShape).length := by
    intro g r
    unfold DotDims.raggedShape
    split <;> simp [Nat.add_comm]
  refine ⟨fun a b c e ungrouped constants =>
      lowerDotGeneral_yields cfg sizes retTy lhsTy rhsTy valid ungrouped constants,
    fun groupSizes a b c e ragged group groupShape elem'' g r static groupTy last constants dim =>
      lowerRaggedDot_yields cfg sizes retTy lhsTy rhsTy valid static groupTy last constants dim,
    resultShape_rank valid, rank,
    fun left right => ⟨resultShape_prod valid left right, fun g r => ?_⟩⟩
  unfold DotDims.raggedShape
  split <;> simp

/-- A constant tensor of integers. -/
def intTensor (is : List Int) : Value :=
  { func := "f", id := 0, ty := .tensor [is.length] (.int 64)
    const := some (.dense [is.length] (.int 64) (is.map fun i => .integer 64 (BitVec.ofInt 64 i))) }

def stack (shape : List Int) : Value := { func := "f", id := 0, ty := .tensor shape (.int 64) }

def intScalar (i : Int) : Value :=
  { func := "f", id := 0, ty := .scalar (.int 64),
    const := some (.scalar (.integer 64 (BitVec.ofInt 64 i))) }

/-- A product of two stacks of three matrices, and one of six rows with the matrices of three
groups. -/
theorem dot_shapes_stacks :
    (lowerDotGeneral releaseConfig
      ([intTensor []] ++ [stack [3, 4, 2], stack [3, 2, 5], intTensor [0], intTensor [0],
        intTensor [2], intTensor [1]])
      [.tensor [3, 4, 5] (.int 64)]).Accepts (Yields [3, 4, 5] (.int 64)) ∧
    (lowerRaggedDot releaseConfig
      ([intTensor []] ++ [stack [6, 4], stack [3, 4, 5], stack [3], intTensor [], intTensor [],
        intTensor [1], intTensor [1], intScalar 0, intTensor [0]])
      [.tensor [6, 5] (.int 64)]).Accepts (Yields [6, 5] (.int 64)) := by
  constructor
  · let d : DotDims :=
      { lhsBatching := [0], rhsBatching := [0], lhsContracting := [2], rhsContracting := [1] }
    have left : Positions 3 [0, 2] := ⟨by decide, by decide⟩
    have right : Positions 3 [0, 1] := ⟨by decide, by decide⟩
    have valid : d.Valid [3, 4, 2] [3, 2, 5] :=
      ⟨left, right, .cons (.inr (.inr rfl)) .nil, .cons (.inr (.inr rfl)) .nil⟩
    have constants : Constants [intTensor [0], intTensor [0], intTensor [2], intTensor [1]]
        [d.lhsBatching, d.rhsBatching, d.lhsContracting, d.rhsContracting] :=
      .cons rfl (.cons rfl (.cons rfl (.cons rfl .nil)))
    exact (dot_shapes releaseConfig [intTensor []] (.tensor [3, 4, 5] (.int 64))
      (show (stack [3, 4, 2]).ty = _ from rfl) (show (stack [3, 2, 5]).ty = _ from rfl) valid).1
      _ _ _ _ rfl constants
  · let d : DotDims :=
      { lhsBatching := [], rhsBatching := [], lhsContracting := [1], rhsContracting := [1]
        rhsGroup := [0] }
    have left : Positions 2 [1] := ⟨by decide, by decide⟩
    have right : Positions 3 [1, 0] := ⟨by decide, by decide⟩
    have valid : d.Valid [6, 4] [3, 4, 5] := ⟨left, right, .nil, .cons (.inr (.inr rfl)) .nil⟩
    have constants :
        Constants [intTensor [], intTensor [], intTensor [1], intTensor [1], intTensor [0]]
          [d.lhsBatching, d.rhsBatching, d.lhsContracting, d.rhsContracting, d.rhsGroup] :=
      .cons rfl (.cons rfl (.cons rfl (.cons rfl (.cons rfl .nil))))
    exact (dot_shapes releaseConfig [intTensor []] (.tensor [6, 5] (.int 64))
      (show (stack [6, 4]).ty = _ from rfl) (show (stack [3, 4, 5]).ty = _ from rfl) valid).2.1
      (stack [3]) _ _ _ _ (intScalar 0) _ [3] (.int 64) 3 0 (by decide) rfl rfl constants rfl

end Lowering

end FutharkMlir
