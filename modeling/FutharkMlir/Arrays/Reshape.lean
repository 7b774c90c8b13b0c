import FutharkMlir.Arrays.Grouping
import FutharkMlir.Lib.Except
import FutharkMlir.Simulation.Runs

namespace FutharkMlir

variable {F : Type}

def evalDims (fl : FloatOps F) (ρ : Store F) (dims : List SubExp) : Option (List Nat) :=
  dims.mapM fun d => (evalPrim fl ρ d).bind PVal.toIndex

/-- What is known of MLIR's search: the grouping it returns is the only one that is
compatible with the two types, up to unit dimensions, and there is none for equal ranks. A
tensor of rank zero has no groups. -/
structure Config.Reassociates (cfg : Config) : Prop where
  ranks : ∀ s s' g, cfg.getReassociationIndicesForReshape s s' = some g → s.length ≠ s'.length
  collapse : ∀ s s' g, cfg.getReassociationIndicesForReshape s s' = some g →
    s' ≠ [] → s'.length < s.length → Grouping s s' g ∧ ∀ g', Grouping s s' g' → UpToUnits s g g'
  expand : ∀ s s' g, cfg.getReassociationIndicesForReshape s s' = some g →
    s ≠ [] → s.length < s'.length → Grouping s' s g ∧ ∀ g', Grouping s' s g' → UpToUnits s' g g'

/-- The extents agree where the types do, and otherwise some grouping that is compatible
with the types is one of the extents too, in which the open extents follow from the others. What
a tensor of rank zero becomes has static unit dimensions only. -/
def ReshapeAgrees (source target : List Int) (start extents : List Nat) : Prop :=
  if source = target then start = extents
  else if source = [] ∨ target = [] then ∀ d ∈ target, d = 1
  else if target.length < source.length then
    ∃ g, Grouping source target g ∧ collapsedExtents g start = extents
  else ∃ g, Grouping target source g ∧ collapsedExtents g extents = start ∧
    ∀ group ∈ g, Inferable (entries 1 target group)

/-- The value has these extents and, in row-major order, the elements of the tensor. -/
def Reshaped (E : Env F) (v : Value) (t : Tensor (Scalar F)) (extents : List Nat) : Prop :=
  ∃ t', E v = some (.tensor t') ∧ t'.shape = extents ∧ t'.toList = t.toList

section Dims

variable {fl : FloatOps F} {ρ : Store F}

theorem toShapeDim_fits {d : SubExp} {s : Int} {n : Nat} (h : toShapeDim d = .ok s)
    (eval : (evalPrim fl ρ d).bind PVal.toIndex = some n) : dimFits s n := by
  cases d with
  | var x =>
    cases h
    exact .inl rfl
  | const c =>
    cases c with
    | int c =>
      cases h
      have position : (if c.v.msb then none else some c.v.toNat) = some n := eval
      have le : c.t.getWidth ≤ 64 := by cases c.t <;> decide
      obtain ⟨nonneg, eq⟩ := Option.ite_none_left_eq_some.mp position
      cases eq
      refine .inr ?_
      rw [IntValue.getValue, BitVec.toInt_signExtend_of_le le,
        BitVec.toInt_eq_toNat_of_msb (Bool.eq_false_iff.mpr nonneg)]
    | float c => cases h
    | bool b => cases h
    | unit => cases h

theorem toShapeType_fits {dims : List SubExp} {shape : List Int} {extents : List Nat}
    (h : toShapeType dims = .ok shape) (eval : evalDims fl ρ dims = some extents) :
    Fits shape extents := by
  rw [toShapeType, Except.mapM_eq_ok] at h
  rw [evalDims, List.mapM_eq_some] at eval
  unfold Fits
  induction h generalizing extents with
  | nil =>
    cases eval
    exact .nil
  | cons hd _ ih =>
    cases eval with
    | cons he hes => exact .cons (toShapeDim_fits hd he) (ih hes)

end Dims

/-- The operations inserted in between run, and this holds after them. -/
def Insertion.RunsTo (W : World F) (point : List Nat) (E : Env F) (ip ip' : Insertion)
    (Q : Env F → Prop) : Prop :=
  ∃ new E' ws, ip'.ops = ip.ops ++ new ∧
    execOps W.machine W.call new point E = some (E', ws) ∧ Q E'

variable {cfg : Config} {W : World F} {point : List Nat} {E : Env F} {ctx : Ctx} {x : VName}
  {v r : Value} {t : Tensor (Scalar F)} {source target : List Int} {elem : ElemTy}
  {start extents : List Nat} {ip ip' : Insertion}

theorem Insertion.runsTo_same {Q : Env F → Prop} : ip.RunsTo W point E ip Q ↔ Q E := by
  constructor
  · rintro ⟨new, E', ws, ops, exec, holds⟩
    rw [List.self_eq_append_right.mp ops] at exec
    cases exec
    exact holds
  · exact fun h => ⟨[], E, [], by simp, rfl, h⟩

theorem reshapeOp_iff {code : OpCode} {res : Option (List Nat)}
    (run : (Emit.create1 code [v] (.tensor target elem)).run ip = .ok (r, ip'))
    (value : E v = some (.tensor t))
    (eval : evalOp W.machine W.call point code [v] [.tensor t] [.tensor target elem] [] =
      res.map fun shape => ([.tensor (t.reshape shape)], []))
    (count : t.shape.prod = extents.prod) :
    ip.RunsTo W point E ip' (fun E' => Reshaped E' r t extents) ↔ res = some extents := by
  cases run
  have exec : execOps W.machine W.call [.mk code [v]
      [{ func := ip.func, id := ip.next, ty := .tensor target elem }] []] point E =
      res.map fun shape => (E.insert { func := ip.func, id := ip.next, ty := .tensor target elem }
        (.tensor (t.reshape shape)), []) := by
    cases res <;> simp [execOps, execOp, value, regionsOf, eval, Binding.bind]
  constructor
  · rintro ⟨new, E', ws, ops, ran, t', value', shape, _⟩
    rw [← List.append_cancel_left ops, exec] at ran
    cases res with
    | none => cases ran
    | some shape' =>
      cases ran
      rw [Binding.insert_self] at value'
      cases value'
      exact congrArg some shape
  · rintro rfl
    refine ⟨_, _, _, rfl, exec, _, Binding.insert_self _ _ _, rfl, ?_⟩
    exact t.toList_reshape count.symm

/-- What the lowering of a reshape inserts, if it is accepted. -/
theorem lowerReshape_run {dims : List SubExp} (bound : ctx x = some v)
    (ty : v.ty = .tensor source elem) (shape : toShapeType dims = .ok target)
    (run : (lowerReshape cfg (.var x) dims ctx).run ip = .ok (r, ip')) :
    source = target ∧ r = v ∧ ip' = ip ∨
      source ≠ target ∧ ∃ g, cfg.getReassociationIndicesForReshape source target = some g ∧
        (Emit.create1 (if target.length < source.length then .collapseShape g else .expandShape g)
          [v] (.tensor target elem)).run ip = .ok (r, ip') := by
  unfold lowerReshape at run
  obtain ⟨w, ip₁, first, run⟩ := Tracked.bind_ok.mp run
  rw [lowerSubExp, Ctx.lookup, bound] at first
  obtain ⟨rfl, rfl⟩ := Tracked.pure_ok.mp first
  obtain ⟨⟨s, e⟩, ip₂, second, run⟩ := Tracked.bind_ok.mp run
  obtain ⟨ranked, rfl⟩ := Tracked.ofExcept_ok.mp second
  rw [ty] at ranked
  cases ranked
  obtain ⟨s', ip₃, third, run⟩ := Tracked.bind_ok.mp run
  obtain ⟨shape', rfl⟩ := Tracked.ofExcept_ok.mp third
  cases shape.symm.trans shape'
  by_cases same : source = target
  · rw [if_pos same] at run
    obtain ⟨rfl, rfl⟩ := Tracked.pure_ok.mp run
    exact .inl ⟨same, rfl, rfl⟩
  · rw [if_neg same] at run
    cases found : cfg.getReassociationIndicesForReshape source target with
    | none =>
      rw [found] at run
      exact (Tracked.throw_ok.mp run).elim
    | some g =>
      rw [found] at run
      refine .inr ⟨same, g, rfl, ?_⟩
      dsimp only at run
      split at run <;> rename_i fewer
      · rw [if_pos fewer]
        exact run
      · rw [if_neg fewer]
        exact run

theorem collapseOp_iff {g : List (List Nat)}
    (run : (Emit.create1 (.collapseShape g) [v] (.tensor target elem)).run ip = .ok (r, ip'))
    (value : E v = some (.tensor t)) (count : t.shape.prod = extents.prod) :
    ip.RunsTo W point E ip' (fun E' => Reshaped E' r t extents) ↔
      collapseExtents g t.shape target = some extents := by
  have eval : evalOp W.machine W.call point (.collapseShape g) [v] [.tensor t]
      [.tensor target elem] [] = (collapseExtents g t.shape target).map
        fun shape => ([.tensor (t.reshape shape)], []) := by
    cases h : collapseExtents g t.shape target <;> simp [evalOp, evalTensorOp, h]
  exact reshapeOp_iff run value eval count

theorem expandOp_iff {g : List (List Nat)}
    (run : (Emit.create1 (.expandShape g) [v] (.tensor target elem)).run ip = .ok (r, ip'))
    (value : E v = some (.tensor t)) (count : t.shape.prod = extents.prod) :
    ip.RunsTo W point E ip' (fun E' => Reshaped E' r t extents) ↔
      expandExtents g t.shape target = some extents := by
  have eval : evalOp W.machine W.call point (.expandShape g) [v] [.tensor t]
      [.tensor target elem] [] = (expandExtents g t.shape target).map
        fun shape => ([.tensor (t.reshape shape)], []) := by
    cases h : expandExtents g t.shape target <;> simp [evalOp, evalTensorOp, h]
  exact reshapeOp_iff run value eval count

theorem collapse_iff {g : List (List Nat)} (ranked : target ≠ [])
    (grouping : Grouping source target g)
    (unique : ∀ g', Grouping source target g' → UpToUnits source g g')
    (fits : Fits source start) (fits' : Fits target extents) :
    collapseExtents g start target = some extents ↔
      ∃ g, Grouping source target g ∧ collapsedExtents g start = extents := by
  have cover : groupsCover g start.length = true := by
    rw [groupsCover, grouping.cover, ← List.Forall₂.length_eq fits]
    exact beq_self_eq_true _
  rw [collapseExtents, if_neg ranked]
  constructor
  · intro h
    exact ⟨g, grouping, Option.some.inj (Option.ite_none_right_eq_some.mp h).2⟩
  · rintro ⟨g', grouping', rfl⟩
    rw [collapsedExtents_units fits (unique g' grouping'), if_pos ⟨cover, fits'⟩]

theorem expand_iff {g : List (List Nat)} (ranked : source ≠ [])
    (grouping : Grouping target source g)
    (unique : ∀ g', Grouping target source g' → UpToUnits target g g')
    (fits : Fits source start) (fits' : Fits target extents) :
    expandExtents g start target = some extents ↔
      ∃ g, Grouping target source g ∧ collapsedExtents g extents = start ∧
        ∀ group ∈ g, Inferable (entries 1 target group) := by
  have cover : groupsCover g target.length = true := by
    rw [groupsCover, grouping.cover]
    exact beq_self_eq_true _
  have length : g.length = start.length := by
    rw [grouping.dims.length_eq, List.Forall₂.length_eq fits]
  have some : start ≠ [] := fun none => ranked (List.forall₂_nil_right_iff.mp (none ▸ fits))
  rw [expandExtents, if_neg some, if_pos ⟨cover, length⟩,
    expandedExtents_iff length grouping.cover fits']
  constructor
  · exact fun h => ⟨g, grouping, h⟩
  · rintro ⟨g', grouping', products, inferable⟩
    have same := unique g' grouping'
    exact ⟨(collapsedExtents_units fits' same).trans products, same.inferable inferable⟩

theorem expand_scalar_iff {g : List (List Nat)} (fits : Fits target extents) :
    expandExtents g [] target = some extents ↔ ∀ d ∈ target, d = 1 := by
  rw [expandExtents, if_pos rfl]
  constructor
  · exact fun h => (Option.ite_none_right_eq_some.mp h).1
  · intro units
    have static : target.countP isDynamic = 0 := by
      rw [List.countP_eq_zero]
      intro d member
      rw [units d member]
      decide
    rw [if_pos units, (fits.static static).1]

/-- A reshape that is accepted gives the extents and the elements it should just where the
extents agree with what the types tell of them. -/
theorem reshape_iff {fl : FloatOps F} {ρ : Store F} (search : cfg.Reassociates)
    (bound : ctx x = some v) (ty : v.ty = .tensor source elem) (value : E v = some (.tensor t))
    (fits : Fits source t.shape) {dimBegin dimEnd : Nat} {reshapedDim remainder : List SubExp}
    (shape : toShapeType remainder = .ok target) (eval : evalDims fl ρ remainder = some extents)
    (count : t.shape.prod = extents.prod)
    (run : (lowerBasicOp cfg (.reshape (.var x) dimBegin dimEnd reshapedDim remainder) ctx).run ip =
      .ok (r, ip')) :
    ip.RunsTo W point E ip' (fun E' => Reshaped E' r t extents) ↔
      ReshapeAgrees source target t.shape extents := by
  have fits' := toShapeType_fits shape eval
  unfold ReshapeAgrees
  rcases lowerReshape_run bound ty shape run with ⟨same, rfl, rfl⟩ | ⟨differ, g, found, run'⟩
  · rw [if_pos same, Insertion.runsTo_same]
    constructor
    · rintro ⟨t', value', rfl, _⟩
      cases value.symm.trans value'
      rfl
    · exact fun eq => ⟨t, value, eq, rfl⟩
  · rw [if_neg differ]
    by_cases fewer : target.length < source.length
    · rw [if_pos fewer] at run' ⊢
      rw [collapseOp_iff run' value count]
      by_cases scalar : target = []
      · subst scalar
        have none : extents = [] := List.forall₂_nil_left_iff.mp fits'
        have one : t.shape.prod = 1 := by rw [count, none]; rfl
        simp [collapseExtents, none, one]
      · have ranked : ¬ (source = [] ∨ target = []) := by
          rintro (rfl | rfl)
          · cases fewer
          · exact scalar rfl
        rw [if_neg ranked]
        obtain ⟨grouping, unique⟩ := search.collapse _ _ _ found scalar fewer
        exact collapse_iff scalar grouping unique fits fits'
    · have more : source.length < target.length := by
        have ranks := search.ranks _ _ _ found
        omega
      rw [if_neg fewer] at run' ⊢
      rw [expandOp_iff run' value count]
      by_cases scalar : source = []
      · subst scalar
        rw [if_pos (.inl rfl), List.forall₂_nil_left_iff.mp fits]
        exact expand_scalar_iff fits'
      · have ranked : ¬ (source = [] ∨ target = []) := by
          rintro (rfl | rfl)
          · exact scalar rfl
          · cases more
        rw [if_neg ranked]
        obtain ⟨grouping, unique⟩ := search.expand _ _ _ found scalar more
        exact expand_iff scalar grouping unique fits fits'

/-- A search that knows how to merge two dimensions of extents two and three. -/
def mergeConfig : Config where
  asserts := false
  getReassociationIndicesForReshape s s' :=
    if s = [2, 3] ∧ s' = [6] then some [[0, 1]] else none

theorem mergeConfig_reassociates : mergeConfig.Reassociates := by
  have merged : ∀ s s' g, mergeConfig.getReassociationIndicesForReshape s s' = some g →
      (s = [2, 3] ∧ s' = [6]) ∧ g = [[0, 1]] := by
    intro s s' g h
    obtain ⟨shapes, eq⟩ := Option.ite_none_right_eq_some.mp h
    exact ⟨shapes, (Option.some.inj eq).symm⟩
  refine ⟨fun s s' g h => ?_, fun s s' g h _ _ => ?_, fun s s' g h _ lt => ?_⟩
  · obtain ⟨⟨rfl, rfl⟩, _⟩ := merged s s' g h
    decide
  · obtain ⟨⟨rfl, rfl⟩, rfl⟩ := merged s s' g h
    refine ⟨⟨rfl, .cons (by decide) .nil⟩, fun g' grouping => ?_⟩
    obtain ⟨cover, dims⟩ := grouping
    cases dims with
    | cons hg rest =>
      cases rest
      rw [List.flatten_cons, List.flatten_nil, List.append_nil] at cover
      subst cover
      exact .cons rfl .nil
  · obtain ⟨⟨rfl, rfl⟩, _⟩ := merged s s' g h
    exact absurd lt (by decide)

theorem reshape_iff_merge : ∃ r ip', (lowerBasicOp mergeConfig
      (.reshape (.var "a") 0 2 [] [.const (.createInt 6 64)])
      (Ctx.empty.insert "a" (arrayValue [2, 3]))).run ⟨"f", 1, [], []⟩ = .ok (r, ip') ∧
    Insertion.RunsTo ⟨unitMachine, fun _ _ => none⟩ []
      (Binding.empty.insert (arrayValue [2, 3]) (.tensor (countUp [2, 3]))) ⟨"f", 1, [], []⟩ ip'
      (fun E' => Reshaped E' r (countUp [2, 3]) [6]) := by
  have bound : (Ctx.empty.insert "a" (arrayValue [2, 3])) "a" = some (arrayValue [2, 3]) := rfl
  have eval : evalDims unitMachine.toFloatOps Binding.empty [.const (.createInt 6 64)] =
      some [6] := rfl
  obtain ⟨r, ip', run⟩ : ∃ r ip', (lowerBasicOp mergeConfig
      (.reshape (.var "a") 0 2 [] [.const (.createInt 6 64)])
      (Ctx.empty.insert "a" (arrayValue [2, 3]))).run ⟨"f", 1, [], []⟩ = .ok (r, ip') :=
    ⟨_, _, rfl⟩
  refine ⟨r, ip', run, (reshape_iff mergeConfig_reassociates bound rfl (Binding.insert_self _ _ _)
    (by decide) rfl eval rfl run).mpr ?_⟩
  exact ⟨[[0, 1]], ⟨rfl, .cons (by decide) .nil⟩, rfl⟩

/-- Two arrays of the same rank whose extents are dynamic have the same type, and no
operation is inserted for their reshape. -/
theorem reshape_same_type : ¬ ∀ (cfg : Config) (W : World Unit) (E : Env Unit) (ctx : Ctx)
    (ρ : Store Unit) (x : VName) (v r : Value) (t : Tensor (Scalar Unit)) (source : List Int)
    (elem : ElemTy) (extents : List Nat) (dimBegin dimEnd : Nat)
    (reshapedDim remainder : List SubExp) (ip ip' : Insertion), cfg.Reassociates → ctx x = some v →
      v.ty = .tensor source elem → E v = some (.tensor t) → Fits source t.shape →
      evalDims W.machine.toFloatOps ρ remainder = some extents → t.shape.prod = extents.prod →
      (lowerBasicOp cfg (.reshape (.var x) dimBegin dimEnd reshapedDim remainder) ctx).run ip =
        .ok (r, ip') → ip.RunsTo W [] E ip' fun E' => Reshaped E' r t extents := by
  intro claim
  let shape := [kDynamic, kDynamic]
  let ρ : Store Unit := (Binding.empty.insert "n" (.prim (.int .int64 3))).insert "m"
    (.prim (.int .int64 4))
  have kept := claim releaseConfig ⟨unitMachine, fun _ _ => none⟩
    (Binding.empty.insert (arrayValue shape) (.tensor (countUp [2, 6])))
    (Ctx.empty.insert "a" (arrayValue shape)) ρ "a" (arrayValue shape) (arrayValue shape)
    (countUp [2, 6]) shape (.int 64) [3, 4] 0 2 [] [.var "n", .var "m"] ⟨"f", 1, [], []⟩
    ⟨"f", 1, [], []⟩
    ⟨fun _ _ _ h => (by cases h), fun _ _ _ h => (by cases h), fun _ _ _ h => (by cases h)⟩
    rfl rfl (Binding.insert_self _ _ _) (by decide) rfl rfl rfl
  obtain ⟨t', value, extents, _⟩ := Insertion.runsTo_same.mp kept
  rw [Binding.insert_self] at value
  cases value
  cases extents

end FutharkMlir
