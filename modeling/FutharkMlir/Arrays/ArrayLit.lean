import FutharkMlir.Arrays.Replicate
import FutharkMlir.Simulation.Bodies
import FutharkMlir.Simulation.Conversions
import FutharkMlir.Syntax.Parser

namespace FutharkMlir

variable {F : Type}

/-- The rows of a literal of this type: scalars where it is `[]t`, and otherwise arrays of the
extents that the dimensions name. -/
def IsRow (t : PrimType) (dims : List SubExp) (extents : List Nat) : FVal F → Prop
  | .prim p => dims = [] ∧ p.HasType t
  | .array a => dims ≠ [] ∧ a.shape = extents ∧ ∀ p, InBounds a.shape p → (a.get p).HasType t

/-- The array with these rows, none of which is read out of bounds. -/
def rowsOf (v : FVal F) (rest : List (FVal F)) (extents : List Nat) : FVal F :=
  .array ⟨(rest.length + 1) :: extents, fun p => match p with
    | [] => v.element []
    | i :: q => ((v :: rest).getD i v).element q⟩

/-- The text `[]` and then the dimensions of a row. -/
def literalType (t : PrimType) (dims : List SubExp) : PType := .shape ([] :: dims.map ([·])) t

theorem visit_literal (values : List SubExp) (t : PrimType) (dims : List SubExp) :
    visitBasicOpArrayLit values (literalType t dims) =
      .arrayLit values (.array t (.const (.createInt values.length 64) :: dims)) := by
  have flat : visitExtShape ([] :: dims.map ([·])) = dims := by
    rw [visitExtShape, List.flatten_cons, List.nil_append]
    induction dims with
    | nil => rfl
    | cons d dims ih => rw [List.map_cons, List.flatten_cons, ih]; rfl
  simp [visitBasicOpArrayLit, literalType, visitType, flat]

theorem toShapeDim_count {n : Nat} (small : n < 2 ^ 63) :
    toShapeDim (.const (.createInt n 64)) = .ok (n : Int) := by
  have fits : (BitVec.ofInt 64 (n : Int)).toInt = n := by
    refine BitVec.toInt_ofInt_eq_self (by decide) ?_ (by exact_mod_cast small)
    exact le_trans (by decide) (Int.natCast_nonneg n)
  have value : (⟨.int64, BitVec.ofInt 64 n⟩ : IntValue).getValue = BitVec.ofInt 64 n :=
    BitVec.signExtend_eq _
  change Except.ok (⟨.int64, BitVec.ofInt 64 n⟩ : IntValue).getValue.toInt = _
  rw [value, fits]

section Elements

variable {fl : FloatOps F}

theorem getPrimValueAttr_value {c : PrimValue} {a : TypedAttr} {p : PVal F}
    (h : getPrimValueAttr c = .ok a) (value : c.value fl = some p) : a.value fl = p.lower := by
  cases c with
  | int c =>
    cases h
    cases value
    rw [TypedAttr.value, setWidth_getValue]
    rfl
  | float c =>
    cases h
    cases value
    rfl
  | bool b =>
    cases h
    cases value
    rfl
  | unit => cases h

/-- Where no variable comes first, the attributes are those of all constants. -/
theorem constantPrefix_all {values : List SubExp} {attrs : List TypedAttr} {ρ : Store F}
    {ps : List (PVal F)} (h : constantPrefix values = .ok (attrs, true))
    (hps : List.Forall₂ (fun se p => evalSubExp fl ρ se = some (.prim p)) values ps) :
    attrs.map (TypedAttr.value fl) = ps.map PVal.lower := by
  induction hps generalizing attrs with
  | nil =>
    cases h
    rfl
  | @cons se p values ps hp _ ih =>
    cases se with
    | var x => cases h
    | const c =>
      simp only [constantPrefix, Except.bind_eq_ok, Except.pure_eq_ok] at h
      obtain ⟨a, ha, ⟨rest, all⟩, hrest, eq⟩ := h
      cases eq
      obtain ⟨q, hq, eq⟩ := Option.map_eq_some_iff.mp hp
      cases eq
      rw [List.map_cons, List.map_cons, getPrimValueAttr_value ha hq, ih hrest]

end Elements

section Lowering

variable {W : World F} {point : List Nat} {E : Env F} {ctx : Ctx} {ρ : Store F}

theorem isRow_prims {t : PrimType} {extents : List Nat} {vals : List (FVal F)}
    (rows : ∀ w ∈ vals, IsRow t [] extents w) :
    ∃ ps : List (PVal F), vals = ps.map .prim ∧ ∀ p ∈ ps, p.HasType t := by
  induction vals with
  | nil => exact ⟨[], rfl, by simp⟩
  | cons w vals ih =>
    obtain ⟨row, later⟩ := List.forall_mem_cons.mp rows
    obtain ⟨ps, rfl, types⟩ := ih later
    cases w with
    | prim p => exact ⟨p :: ps, rfl, List.forall_mem_cons.mpr ⟨row.2, types⟩⟩
    | array a => exact (row.1 rfl).elim

theorem ofList_row {α : Type} (d : α) (xs : List α) {n : Nat} (length : xs.length = n) :
    Tensor.ofList d [(n : Int)] xs = some ⟨[n], fun p => xs.getD (linear [n] p) d⟩ := by
  have known : isDynamic (n : Int) = false := by
    rw [isDynamic, kDynamic, beq_eq_false_iff_ne]
    omega
  have resolved : resolveShape [(n : Int)] [] = some [n] := by simp [resolveShape, known]
  simp [Tensor.ofList, resolved, length]

theorem represents_scalars {p : PVal F} {ps : List (PVal F)} {elem : ElemTy} {u : Value}
    {n : Nat} (length : n = (p :: ps).length) (types : ∀ q ∈ p :: ps, q.elemTy = elem)
    (value : E u = some (.tensor ⟨[n], fun q =>
      ((p :: ps).map PVal.lower).getD (linear [n] q) (.index 0)⟩))
    (type : u.ty = .tensor [(n : Int)] elem) :
    Represents E u (rowsOf (.prim p) (ps.map .prim) []) := by
  subst length
  refine ⟨_, _, elem, value, type, .cons (.inr rfl) .nil, by simp, fun q hq => ?_⟩
  rw [List.length_map] at hq
  obtain ⟨i, _, lt, none, rfl⟩ := List.forall₂_cons_left_iff.mp hq
  cases none
  have within : i < (p :: ps).length := lt
  have position : linear [(p :: ps).length] [i] = i := by simp [linear]
  have row : (FVal.prim p :: ps.map .prim).getD i (.prim p) = .prim ((p :: ps)[i]) := by
    rw [← List.map_cons, List.getD_eq_getElem?_getD, List.getElem?_map,
      List.getElem?_eq_getElem within]
    rfl
  constructor
  · simp only [position, row, FVal.element, List.getD_eq_getElem?_getD, List.getElem?_map,
      List.getElem?_eq_getElem within, Option.map_some, Option.getD_some]
  · simp only [row, FVal.element]
    exact types _ (List.getElem_mem within)

theorem denseConstant_runs {shape : List Int} {elem : ElemTy} {attrs : List TypedAttr}
    {t : Tensor (Scalar F)}
    (list : Tensor.ofList (.index 0) shape (attrs.map (TypedAttr.value W.machine.toFloatOps)) =
      some t) :
    Emit.Runs W point E (Emit.createConstant (.dense shape elem attrs) (.tensor shape elem))
      fun E' v => E' v = some (.tensor t) ∧ v.ty = .tensor shape elem := by
  intro ip v ip' run below
  cases run
  have eval : evalOp W.machine W.call point (.constant (.dense shape elem attrs)) [] []
      [.tensor shape elem] [] = some ([.tensor t], []) := by
    simp only [evalOp, evalTensorOp, List.head?_cons, list, Option.map_some, Option.bind_eq_bind,
      Option.bind_some, Option.pure_def]
  obtain ⟨exec, sub, below'⟩ := insert_runs
    (v := { func := ip.func, id := ip.next, ty := .tensor shape elem,
            const := some (.dense shape elem attrs) }) below rfl rfl eval
  exact ⟨_, _, [], rfl, exec, sub, below', rfl, Binding.insert_self _ _ _, rfl⟩

theorem scalarElements_runs {vs : List Value} {ps : List (PVal F)} {shape : List Int}
    {elem : ElemTy} {t : Tensor (Scalar F)}
    (hvs : List.Forall₂ (FutharkMlir.Represents E) vs (ps.map .prim))
    (list : Tensor.ofList (.index 0) shape (ps.map PVal.lower) = some t) :
    Emit.Runs W point E (Emit.create1 .fromElements vs (.tensor shape elem)) fun E' v =>
      E' v = some (.tensor t) ∧ v.ty = .tensor shape elem := by
  have scalars : (lowerAll ps).mapM MVal.toScalar = some (ps.map PVal.lower) := by
    rw [List.mapM_eq_some, lowerAll, List.forall₂_map_left_iff, List.forall₂_map_right_iff,
      List.forall₂_same]
    exact fun _ _ => rfl
  refine create1_runs (Represents.mapM hvs) ?_
  change evalOp W.machine W.call point .fromElements vs (lowerAll ps) _ [] = _
  simp only [evalOp, evalTensorOp, List.head?_cons, scalars, list, Option.bind_eq_bind,
    Option.bind_some, Option.pure_def]

theorem lowerTy_literal {t : PrimType} {n : Nat} (small : n < 2 ^ 63) {ty : MlirTy}
    (h : lowerTy (.array t [.const (.createInt n 64)]) = .ok ty) :
    ∃ elem, lowerPrimType t = .ok elem ∧ ty = .tensor [(n : Int)] elem := by
  simp only [lowerTy, toShapeType, List.mapM_cons, List.mapM_nil, toShapeDim_count small,
    Except.bind_eq_ok, Except.pure_eq_ok] at h
  obtain ⟨_, ⟨_, eq, _, rfl, rfl⟩, elem, lowered, rfl⟩ := h
  cases eq
  exact ⟨elem, lowered, rfl⟩

theorem scalarLit_runs (rep : ctx.Represents E ρ) {values : List SubExp} {t : PrimType}
    {p : PVal F} {ps : List (PVal F)}
    (hvals : values.mapM (evalSubExp W.machine.toFloatOps ρ) = some ((p :: ps).map .prim))
    (types : ∀ q ∈ p :: ps, q.HasType t) (small : values.length < 2 ^ 63) :
    Emit.Runs W point E
      (lowerArrayLit values (.array t [.const (.createInt values.length 64)]) ctx) fun E' u =>
        Represents E' u (rowsOf (.prim p) (ps.map .prim) []) ∧
        lowerTy (.array t [.const (.createInt values.length 64)]) = .ok u.ty := by
  have each := List.mapM_eq_some.mp hvals
  rw [List.forall₂_map_right_iff] at each
  have length : values.length = (p :: ps).length := each.length_eq
  unfold lowerArrayLit
  refine .bind (.liftExcept _) fun ty E₁ _ h => ?_
  obtain ⟨rfl, lowered⟩ := h
  obtain ⟨elem, helem, rfl⟩ := lowerTy_literal small lowered
  have elems : ∀ q ∈ p :: ps, q.elemTy = elem := fun q hq =>
    (Except.ok.inj (helem.symm.trans (types q hq))).symm
  refine .bind (.liftExcept _) fun r E₂ _ h => ?_
  obtain ⟨rfl, hprefix⟩ := h
  obtain ⟨attrs, all⟩ := r
  cases all with
  | true =>
    have list := ofList_row (.index 0) (attrs.map (TypedAttr.value W.machine.toFloatOps))
      (n := values.length) (by rw [constantPrefix_all hprefix each, List.length_map, length])
    refine (denseConstant_runs list).weaken fun E' ws u _ h => ⟨h.1, ?_, by rw [lowered, h.2.2]⟩
    rw [constantPrefix_all hprefix each] at h
    exact represents_scalars length elems h.2.1 h.2.2
  | false =>
    refine .bind (lowerSubExps_runs rep hvals) fun vs E₃ _ hvs => ?_
    have list := ofList_row (.index 0) ((p :: ps).map (PVal.lower (F := F))) (n := values.length)
      (by rw [List.length_map, length])
    refine (scalarElements_runs hvs list).weaken
      fun E' ws u _ h => ⟨h.1, ?_, by rw [lowered, h.2.2]⟩
    exact represents_scalars length elems h.2.1 h.2.2

theorem Represents.values {us : List Value} {vals : List (FVal F)}
    (h : List.Forall₂ (FutharkMlir.Represents E) us vals) : ∃ xs, us.mapM E = some xs := by
  induction h with
  | nil => exact ⟨[], rfl⟩
  | @cons u val _ _ hu _ ih =>
    obtain ⟨xs, seen⟩ := ih
    have value : ∃ x, E u = some x := by
      cases val with
      | prim p => exact ⟨_, hu.1⟩
      | array a =>
        obtain ⟨t, _, _, value, _⟩ := hu
        exact ⟨_, value⟩
    obtain ⟨x, value⟩ := value
    exact ⟨x :: xs, by simp [value, seen]⟩

/-- Rows that are arrays are operands that `tensor.from_elements` does not have. -/
theorem arrayRows_stuck (rep : ctx.Represents E ρ) {se : SubExp} {values : List SubExp}
    {a : Tensor (PVal F)} {rest : List (FVal F)} (type : Ty)
    (hvals : (se :: values).mapM (evalSubExp W.machine.toFloatOps ρ) = some (.array a :: rest)) :
    Emit.Stuck W point E (lowerArrayLit (se :: values) type ctx) := by
  have first : ∃ x, se = .var x := by
    cases se with
    | var x => exact ⟨x, rfl⟩
    | const c =>
      cases List.mapM_eq_some.mp hvals with
      | cons h _ =>
        obtain ⟨_, _, eq⟩ := Option.map_eq_some_iff.mp h
        cases eq
  obtain ⟨x, rfl⟩ := first
  unfold lowerArrayLit
  refine .bind (.liftExcept _) fun ty E₁ _ h => ?_
  obtain ⟨rfl, _⟩ := h
  refine .bind (.liftExcept _) fun r E₂ _ h => ?_
  obtain ⟨rfl, eq⟩ := h
  cases eq
  refine .bind (lowerSubExps_runs rep hvals) fun vs E₃ _ hvs => ?_
  cases hvs with
  | @cons u _ us _ hu hus =>
    obtain ⟨t, shape, elem, value, _⟩ := hu
    obtain ⟨xs, seen⟩ := Represents.values hus
    have operands : (u :: us).mapM E₃ = some (.tensor t :: xs) := by simp [value, seen]
    refine .create1 operands ?_
    cases ty <;> simp [evalOp, evalTensorOp, MVal.toScalar]

def literalTy (t : PrimType) (n : Nat) (dims : List SubExp) : Ty :=
  .array t (.const (.createInt n 64) :: dims)

section Literal

variable {t : PrimType} {dims : List SubExp} {extents : List Nat} {v : FVal F}
  {rest : List (FVal F)} {values : List SubExp} {ip ip' : Insertion} {u : Value}

variable (point) in
theorem scalarLit_inserts (rep : ctx.Represents E ρ)
    (rows : ∀ w ∈ v :: rest, IsRow t [] extents w)
    (hvals : values.mapM (evalSubExp W.machine.toFloatOps ρ) = some (v :: rest))
    (small : values.length < 2 ^ 63)
    (run : (lowerArrayLit values (literalTy t values.length []) ctx).run ip = .ok (u, ip'))
    (below : E.Below ip.next) :
    ∃ E', Inserts W point E ip ip' E' ∧ Represents E' u (rowsOf v rest []) ∧
      lowerTy (literalTy t values.length []) = .ok u.ty := by
  obtain ⟨ps, eq, types⟩ := isRow_prims rows
  cases ps with
  | nil => cases eq
  | cons p ps =>
    cases eq
    have runs : Emit.Runs W point E _ _ := scalarLit_runs rep hvals types small
    obtain ⟨new, E', _, ops, exec, _, _, rfl, represents⟩ := runs ip u ip' run below
    exact ⟨E', ⟨new, ops, exec⟩, represents⟩

theorem arrayRows_inserts (rep : ctx.Represents E ρ) (nonempty : dims ≠ [])
    (rows : ∀ w ∈ v :: rest, IsRow t dims extents w)
    (hvals : values.mapM (evalSubExp W.machine.toFloatOps ρ) = some (v :: rest)) {type : Ty}
    (run : (lowerArrayLit values type ctx).run ip = .ok (u, ip')) (below : E.Below ip.next)
    {E' : Env F} : ¬ Inserts W point E ip ip' E' := by
  rintro ⟨new, ops, exec⟩
  obtain ⟨a, rfl⟩ : ∃ a, v = .array a := by
    cases v with
    | prim p => exact (nonempty (rows _ List.mem_cons_self).1).elim
    | array a => exact ⟨a, rfl⟩
  cases values with
  | nil => cases hvals
  | cons se values =>
    have stuck : Emit.Stuck W point E _ := arrayRows_stuck rep type hvals
    obtain ⟨new', ops', none⟩ := stuck ip u ip' run below
    rw [ops, List.append_cancel_left_eq] at ops'
    rw [ops', none] at exec
    cases exec

end Literal

def SameTensor (E₁ : Env F) (u₁ : Value) (E₂ : Env F) (u₂ : Value) : Prop :=
  ∃ t₁ t₂, E₁ u₁ = some (.tensor t₁) ∧ E₂ u₂ = some (.tensor t₂) ∧ t₁.shape = t₂.shape ∧
    ∀ p, InBounds t₁.shape p → t₁.get p = t₂.get p

theorem sameTensor_of_represents {E₁ E₂ : Env F} {u₁ u₂ : Value} {a : Tensor (PVal F)}
    (h₁ : Represents E₁ u₁ (.array a)) (h₂ : Represents E₂ u₂ (.array a)) :
    SameTensor E₁ u₁ E₂ u₂ := by
  obtain ⟨t₁, _, _, value₁, _, _, shape₁, elements₁⟩ := h₁
  obtain ⟨t₂, _, _, value₂, _, _, shape₂, elements₂⟩ := h₂
  refine ⟨t₁, t₂, value₁, value₂, shape₁.trans shape₂.symm, fun p hp => ?_⟩
  rw [shape₁] at hp
  rw [(elements₁ p hp).1, (elements₂ p hp).1]

/-- A literal has the type of its rows with their number in front. Where the lowering does not
throw, it builds the array with these rows exactly where they are scalars, and then the same
tensor from constants as from operands. -/
theorem arrayLit_iff (rep : ctx.Represents E ρ) {t : PrimType} {dims : List SubExp}
    {extents : List Nat} (hdims : evalDims W.machine.toFloatOps ρ dims = some extents)
    {v : FVal F} {rest : List (FVal F)} (rows : ∀ w ∈ v :: rest, IsRow t dims extents w)
    {values : List SubExp}
    (hvals : values.mapM (evalSubExp W.machine.toFloatOps ρ) = some (v :: rest))
    (small : values.length < 2 ^ 63) :
    visitBasicOpArrayLit values (literalType t dims) =
      .arrayLit values (literalTy t values.length dims) ∧
    ∀ ip u ip', (lowerArrayLit values (literalTy t values.length dims) ctx).run ip = .ok (u, ip') →
      E.Below ip.next →
      ((∃ E', Inserts W point E ip ip' E' ∧ Represents E' u (rowsOf v rest extents) ∧
        lowerTy (literalTy t values.length dims) = .ok u.ty) ↔ dims = []) ∧
      ∀ values', values'.mapM (evalSubExp W.machine.toFloatOps ρ) = some (v :: rest) →
        ∀ u' ip'', (lowerArrayLit values' (literalTy t values.length dims) ctx).run ip =
          .ok (u', ip'') → ∀ E₁ E₂, Inserts W point E ip ip' E₁ → Inserts W point E ip ip'' E₂ →
          SameTensor E₁ u E₂ u' := by
  refine ⟨visit_literal values t dims, fun ip u ip' run below => ⟨⟨?_, ?_⟩, ?_⟩⟩
  · rintro ⟨E', inserts, _⟩
    by_contra nonempty
    exact arrayRows_inserts rep nonempty rows hvals run below inserts
  · rintro rfl
    cases hdims
    exact scalarLit_inserts point rep rows hvals small run below
  · intro values' hvals' u' ip'' run' E₁ E₂ inserts₁ inserts₂
    by_cases empty : dims = []
    · subst empty
      cases hdims
      have length : values'.length = values.length :=
        (List.mapM_eq_some.mp hvals').length_eq.trans (List.mapM_eq_some.mp hvals).length_eq.symm
      obtain ⟨E₁', inserts₁', rep₁, _⟩ :=
        scalarLit_inserts point rep rows hvals small run below
      rw [← length] at small run'
      obtain ⟨E₂', inserts₂', rep₂, _⟩ :=
        scalarLit_inserts point rep rows hvals' small run' below
      rw [inserts₁.unique inserts₁', inserts₂.unique inserts₂']
      exact sameTensor_of_represents rep₁ rep₂
    · exact (arrayRows_inserts rep empty rows hvals run below inserts₁).elim

end Lowering

section Examples

theorem intCtx_represents (t : IntType) (a : BitVec t.getWidth) :
    (intCtx t).Represents (intEnv t a) (Binding.empty.insert "x" (.prim (.int t a))) := by
  intro x val hx
  by_cases eq : x = "x"
  · rw [eq, Binding.insert_self] at hx
    cases hx
    exact ⟨intValue t, by rw [eq]; rfl, intEnv_represents t a⟩
  · rw [Binding.insert_of_ne _ _ eq] at hx
    cases hx

theorem arrayLit_iff_mixed : ∃ u ip E',
    (lowerArrayLit [.var "x", .const (.createInt 7 64)] (literalTy (.int .int64) 2 [])
      (intCtx .int64)).run afterInt.ip = .ok (u, ip) ∧
    Inserts ⟨unitMachine, fun _ _ => none⟩ [] (intEnv .int64 5) afterInt.ip ip E' ∧
    Represents E' u (rowsOf (.prim (.int .int64 (5 : BitVec 64)))
      [.prim (.int .int64 (7 : BitVec 64))] []) := by
  obtain ⟨⟨u, ip⟩, run⟩ := Except.exists_ok (x := (lowerArrayLit
    [.var "x", .const (.createInt 7 64)] (literalTy (.int .int64) 2 []) (intCtx .int64)).run
    afterInt.ip) (by decide +kernel)
  let W : World Unit := ⟨unitMachine, fun _ _ => none⟩
  have rows : ∀ w ∈ [.prim (.int .int64 (5 : BitVec 64)), (.prim (.int .int64 (7 : BitVec 64)) :
      FVal Unit)], IsRow (.int .int64) [] [] w := by
    intro w hw
    simp only [List.mem_cons, List.not_mem_nil, or_false] at hw
    rcases hw with rfl | rfl <;> exact ⟨rfl, rfl⟩
  let store : Store Unit := Binding.empty.insert "x" (.prim (.int .int64 (5 : BitVec 64)))
  have values : [.var "x", .const (.createInt 7 64)].mapM
      (evalSubExp W.machine.toFloatOps store) = some _ := rfl
  obtain ⟨E', inserts, represents, _⟩ := ((arrayLit_iff (W := W)
    (intCtx_represents .int64 5) rfl rows values (by decide)).2 _ _ _ run
    (intEnv_below _ _)).1.mpr rfl
  exact ⟨u, ip, E', run, inserts, represents⟩

/-- A row that is an array is no operand of the operation that is built. -/
theorem arrayLit_rows : ¬ ∀ (W : World Unit) (point : List Nat) (E : Env Unit) (ctx : Ctx)
    (ρ : Store Unit) (t : PrimType) (dims : List SubExp) (extents : List Nat) (v : FVal Unit)
    (rest : List (FVal Unit)) (values : List SubExp), ctx.Represents E ρ →
    evalDims W.machine.toFloatOps ρ dims = some extents →
    (∀ w ∈ v :: rest, IsRow t dims extents w) →
    values.mapM (evalSubExp W.machine.toFloatOps ρ) = some (v :: rest) → values.length < 2 ^ 63 →
    ∀ ip u ip', (lowerArrayLit values (literalTy t values.length dims) ctx).run ip = .ok (u, ip') →
      E.Below ip.next → ∃ E', Inserts W point E ip ip' E' ∧
        Represents E' u (rowsOf v rest extents) ∧
        lowerTy (literalTy t values.length dims) = .ok u.ty := by
  intro claim
  let W : World Unit := ⟨unitMachine, fun _ _ => none⟩
  obtain ⟨⟨u, ip⟩, run⟩ := Except.exists_ok (x := (lowerArrayLit [.var "xs"]
    (literalTy (.int .int64) 1 [.const (.createInt 4 64)]) (numbersCtx 4)).run afterArray.ip)
    (by decide +kernel)
  have rows : ∀ w ∈ [.array (numbers 4)], IsRow (.int .int64) [.const (.createInt 4 64)] [4] w := by
    intro w hw
    cases List.mem_singleton.mp hw
    exact ⟨List.cons_ne_nil _ _, rfl, fun _ _ => rfl⟩
  obtain ⟨E', inserts, _⟩ := claim W [] _ _ _ _ [.const (.createInt 4 64)] [4] _ [] [.var "xs"]
    (numbers_represents 4) rfl rows rfl (by decide) _ _ _ run (numbers_below 4)
  exact arrayRows_inserts (numbers_represents 4) (List.cons_ne_nil _ _) rows rfl run
    (numbers_below 4) inserts

end Examples

end FutharkMlir
