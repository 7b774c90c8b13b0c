import FutharkMlir.Lib.Except
import FutharkMlir.Simulation.Scalars

/-! Conversions between integer types, alone and one after the other: `arith.extsi` and
`arith.extui` are there for every pair of types and valid only where the type grows. -/
namespace FutharkMlir

variable {F : Type}

/-- The integer of a converted one: the same number where the type grows, read signed by
`sext`, and the number modulo the width otherwise. -/
def convertInt (signed : Bool) (src dst : IntType) (a : BitVec src.getWidth) :
    BitVec dst.getWidth :=
  if signed ∧ src.getWidth < dst.getWidth then BitVec.ofInt dst.getWidth a.toInt
  else BitVec.ofNat dst.getWidth a.toNat

def intConv (signed : Bool) (src dst : IntType) : ConvOp :=
  if signed then .sext src dst else .zext src dst

/-- A conversion: whether it extends by the sign, to which type, and the name it binds. -/
structure Conversion where
  signed : Bool
  dst : IntType
  name : VName

def convStms : VName → IntType → List Conversion → List Stm
  | _, _, [] => []
  | x, t, c :: rest =>
    .mk [⟨c.name, .prim (.int c.dst)⟩] (.basicOp (.convOp (intConv c.signed t c.dst) (.var x))) ::
      convStms c.name c.dst rest

def lastName : VName → List Conversion → VName
  | x, [] => x
  | _, c :: rest => lastName c.name rest

def convertAll : (t : IntType) → BitVec t.getWidth → List Conversion → PVal F
  | t, a, [] => .int t a
  | t, a, c :: rest => convertAll c.dst (convertInt c.signed t c.dst a) rest

def Widens : IntType → List Conversion → Prop
  | _, [] => True
  | t, c :: rest => t.getWidth < c.dst.getWidth ∧ Widens c.dst rest

theorem convertInt_signed {src dst : IntType} (wider : src.getWidth < dst.getWidth)
    (a : BitVec src.getWidth) : convertInt true src dst a = a.signExtend dst.getWidth := by
  rw [convertInt, if_pos ⟨rfl, wider⟩]
  rfl

theorem convertInt_unsigned (src dst : IntType) (a : BitVec src.getWidth) :
    convertInt false src dst a = a.setWidth dst.getWidth := by
  rw [convertInt, if_neg (by simp), BitVec.ofNat_toNat]

section Runs

variable (cfg : Config) (prog : Prog) (lf : FunDef → Lower Callee)
  {W : World F} {point : List Nat} {E : Env F} {ctx : Ctx}

def extOp (signed : Bool) (v u : Value) : Op :=
  .mk (if signed then .extsi else .extui) [v] [u] []

def nextInt (ip : Insertion) (dst : IntType) : Value :=
  { func := ip.func, id := ip.next, ty := .int dst.getWidth }

theorem convStm_run {x : VName} {v : Value} (bound : ctx x = some v) (t : IntType)
    (c : Conversion) (b : Builder) :
    ∃ b', (lowerStm cfg prog lf (.mk [⟨c.name, .prim (.int c.dst)⟩]
      (.basicOp (.convOp (intConv c.signed t c.dst) (.var x)))) ctx).run b =
        .ok (ctx.insert c.name (nextInt b.ip c.dst), b') ∧
      b'.ip.ops = b.ip.ops ++ [extOp c.signed v (nextInt b.ip c.dst)] ∧
      b'.ip.next = b.ip.next + 1 := by
  obtain ⟨signed, dst, name⟩ := c
  have lookup : (ctx.lookup x).run b.ip = .ok (v, b.ip) := by
    rw [Ctx.lookup, bound]
    rfl
  have lowered : (lowerBasicOp cfg (.convOp (intConv signed t dst) (.var x)) ctx).run b.ip =
      .ok (nextInt b.ip dst, { b.ip with
        next := b.ip.next + 1, ops := b.ip.ops ++ [extOp signed v (nextInt b.ip dst)] }) := by
    rw [lowerBasicOp, Tracked.run_bind, lowerSubExp, lookup]
    cases signed <;> rfl
  have lifted : (Lower.ofEmit (lowerBasicOp cfg (.convOp (intConv signed t dst) (.var x)) ctx)).run b =
      .ok (nextInt b.ip dst, { b with ip := { b.ip with
        next := b.ip.next + 1, ops := b.ip.ops ++ [extOp signed v (nextInt b.ip dst)] } }) := by
    simp only [Lower.ofEmit, lowered]
  refine ⟨?after, ?run, ?ops, ?next⟩
  case run =>
    simp only [lowerStm, Tracked.run_bind, Lower.recording, lowerExp]
    erw [lifted]
    rfl
  case ops => rfl
  case next => rfl

/-- The operation is valid just where the type grows, and then converts. -/
theorem extOp_exec {t : IntType} {a : BitVec t.getWidth} {v u : Value}
    (rep : Represents E v (.prim (.int t a))) (signed : Bool) (dst : IntType)
    (ty : u.ty = .int dst.getWidth) :
    execOps W.machine W.call [extOp signed v u] point E =
      if t.getWidth < dst.getWidth then
        some (E.insert u (.scalar (.int dst.getWidth (convertInt signed t dst a))), [])
      else none := by
  have value : E v = some (.scalar (.int t.getWidth a)) := rep.1
  cases signed with
  | true =>
    by_cases wider : t.getWidth < dst.getWidth
    · rw [convertInt_signed wider]
      simp [extOp, execOps, execOp, value, evalOp, evalTensorOp, regionsOf, ty, evalScalarOp,
        MVal.toScalar, wider, Binding.bind]
    · simp [extOp, execOps, execOp, value, evalOp, evalTensorOp, regionsOf, ty, evalScalarOp,
        MVal.toScalar, wider]
  | false =>
    rw [convertInt_unsigned]
    by_cases wider : t.getWidth < dst.getWidth
    · simp [extOp, execOps, execOp, value, evalOp, evalTensorOp, regionsOf, ty, evalScalarOp,
        MVal.toScalar, wider, Binding.bind]
    · simp [extOp, execOps, execOp, value, evalOp, evalTensorOp, regionsOf, ty, evalScalarOp,
        MVal.toScalar, wider]

theorem insert_next {ip : Insertion} (below : E.Below ip.next) (dst : IntType)
    (a : BitVec dst.getWidth) :
    Represents (E.insert (nextInt ip dst) (.scalar (.int dst.getWidth a))) (nextInt ip dst)
      (.prim (.int dst a)) ∧
      Env.Below (E.insert (nextInt ip dst) (.scalar (.int dst.getWidth a))) (ip.next + 1) := by
  refine ⟨⟨Binding.insert_self _ _ _, rfl⟩, fun w x hx => ?_⟩
  by_cases eq : w = nextInt ip dst
  · rw [eq]
    exact Nat.lt_succ_self _
  · rw [Binding.insert_of_ne _ _ eq] at hx
    exact Nat.lt_succ_of_lt (below w x hx)

def Converts (W : World F) (point : List Nat) (E : Env F) (new : List Op) (c : Ctx) (x : VName)
    (p : PVal F) : Prop :=
  ∃ E' u, execOps W.machine W.call new point E = some (E', []) ∧ c x = some u ∧
    Represents E' u (.prim p)

theorem execOps_cons {op : Op} {new : List Op} {E₁ : Env F}
    (first : execOps W.machine W.call [op] point E = some (E₁, [])) :
    execOps W.machine W.call (op :: new) point E = execOps W.machine W.call new point E₁ := by
  rw [← List.singleton_append, execOps_append, first, Option.bind_eq_bind, Option.bind_some]
  cases h : execOps W.machine W.call new point E₁ <;> simp [h]

/-- The induction is on the conversions: one that does not widen has no result, and none
after it has. -/
theorem convStms_runs (convs : List Conversion) {x : VName} {t : IntType}
    {a : BitVec t.getWidth} {v : Value} (bound : ctx x = some v)
    (rep : Represents E v (.prim (.int t a))) {b b' : Builder} {c : Ctx}
    (run : (lowerStms cfg prog lf (convStms x t convs) ctx).run b = .ok (c, b'))
    (below : E.Below b.ip.next) : ∃ new, b'.ip.ops = b.ip.ops ++ new ∧
      (Converts W point E new c (lastName x convs) (convertAll t a convs) ↔ Widens t convs) := by
  induction convs generalizing x t v ctx E b with
  | nil =>
    rw [convStms] at run
    unfold lowerStms at run
    cases run
    refine ⟨[], by simp, fun _ => trivial, fun _ => ⟨E, v, rfl, bound, rep⟩⟩
  | cons conv rest ih =>
    obtain ⟨b₁, first, ops, next⟩ := convStm_run cfg prog lf bound t conv b
    rw [convStms] at run
    unfold lowerStms at run
    obtain ⟨c₁, b₂, first', later⟩ := Tracked.bind_ok.mp run
    cases first.symm.trans first'
    have exec : execOps W.machine W.call [extOp conv.signed v (nextInt b.ip conv.dst)] point E = _ :=
      extOp_exec rep conv.signed conv.dst rfl
    by_cases wider : t.getWidth < conv.dst.getWidth
    · rw [if_pos wider] at exec
      obtain ⟨rep₁, below₁⟩ := insert_next below conv.dst (convertInt conv.signed t conv.dst a)
      obtain ⟨new, ops', rest_iff⟩ := ih (Ctx.insert_self _ _ _) rep₁ later (next ▸ below₁)
      refine ⟨extOp conv.signed v (nextInt b.ip conv.dst) :: new, by rw [ops', ops]; simp, ?_⟩
      rw [lastName, convertAll, Widens, and_iff_right wider, ← rest_iff]
      simp only [Converts, execOps_cons exec]
    · rw [if_neg wider] at exec
      obtain ⟨new, ops', _⟩ := ((lowerStms cfg prog lf _ _).tracks later).ip.ops
      refine ⟨extOp conv.signed v (nextInt b.ip conv.dst) :: new, by rw [ops', ops]; simp, ?_⟩
      rw [Widens]
      refine ⟨fun ⟨E', u, all, _⟩ => ?_, fun h => absurd h.1 wider⟩
      rw [← List.singleton_append, execOps_append, exec] at all
      cases all

/-- Conversions, one after the other, are lowered to valid operations that compute what they
mean just where every one of them is to a wider type. -/
theorem conversions_iff (convs : List Conversion) {x : VName} {t : IntType}
    {a : BitVec t.getWidth} {v : Value} (bound : ctx x = some v)
    (rep : Represents E v (.prim (.int t a))) {b b' : Builder} {c : Ctx}
    (run : (lowerStms cfg prog lf (convStms x t convs) ctx).run b = .ok (c, b'))
    (below : E.Below b.ip.next) :
    (∃ new, b'.ip.ops = b.ip.ops ++ new ∧
      Converts W point E new c (lastName x convs) (convertAll t a convs)) ↔ Widens t convs := by
  obtain ⟨new, ops, converts⟩ : ∃ new, b'.ip.ops = b.ip.ops ++ new ∧
      (Converts W point E new c (lastName x convs) (convertAll t a convs) ↔ Widens t convs) :=
    convStms_runs cfg prog lf convs bound rep run below
  rw [← converts]
  constructor
  · rintro ⟨new', ops', holds⟩
    rwa [List.append_cancel_left (ops.symm.trans ops')]
  · exact fun holds => ⟨new, ops, holds⟩

end Runs

section Examples

def intValue (t : IntType) : Value := { func := "f", id := 0, ty := .int t.getWidth }

def intEnv (t : IntType) (a : BitVec t.getWidth) : Env Unit :=
  Binding.empty.insert (intValue t) (.scalar (.int t.getWidth a))

def intCtx (t : IntType) : Ctx := Ctx.empty.insert "x" (intValue t)

/-- The builder in which it is the only value so far. -/
def afterInt : Builder := { ip := ⟨"f", 1, [], []⟩, functions := [], module := [] }

theorem intEnv_below (t : IntType) (a : BitVec t.getWidth) : (intEnv t a).Below 1 := by
  intro v x hx
  by_cases eq : v = intValue t
  · rw [eq]
    exact Nat.zero_lt_one
  · rw [intEnv, Binding.insert_of_ne _ _ eq] at hx
    cases hx

theorem intEnv_represents (t : IntType) (a : BitVec t.getWidth) :
    Represents (intEnv t a) (intValue t) (.prim (.int t a)) :=
  ⟨Binding.insert_self _ _ _, rfl⟩

theorem conversions_widening : ∃ c b' new,
    (lowerStms releaseConfig ⟨[], []⟩ (fun _ => Lower.undefined)
      (convStms "x" .int8 [⟨true, .int32, "y"⟩, ⟨false, .int64, "z"⟩]) (intCtx .int8)).run afterInt =
      .ok (c, b') ∧ b'.ip.ops = [] ++ new ∧
    Converts ⟨unitMachine, fun _ _ => none⟩ [] (intEnv .int8 (-3)) new c "z"
      (.int .int64 (4294967293 : BitVec 64)) := by
  obtain ⟨⟨c, b'⟩, run⟩ := Except.exists_ok (x := (lowerStms releaseConfig ⟨[], []⟩
    (fun _ => Lower.undefined) (convStms "x" .int8 [⟨true, .int32, "y"⟩, ⟨false, .int64, "z"⟩])
    (intCtx .int8)).run afterInt) (by decide +kernel)
  obtain ⟨new, ops, converts⟩ := (conversions_iff releaseConfig ⟨[], []⟩ _ _
    (Ctx.insert_self _ _ _) (intEnv_represents .int8 (-3)) run (intEnv_below _ _)).mpr
    ⟨by decide, by decide, trivial⟩
  exact ⟨c, b', new, run, ops, converts⟩

/-- A conversion to a narrower type is an operation that is not valid. -/
theorem conversions_narrowing : ¬ ∀ (cfg : Config) (prog : Prog) (lf : FunDef → Lower Callee)
    (W : World Unit) (E : Env Unit) (ctx : Ctx) (convs : List Conversion) (x : VName) (t : IntType)
    (a : BitVec t.getWidth) (v : Value) (b b' : Builder) (c : Ctx), ctx x = some v →
      Represents E v (.prim (.int t a)) →
      (lowerStms cfg prog lf (convStms x t convs) ctx).run b = .ok (c, b') → E.Below b.ip.next →
      ∃ new, b'.ip.ops = b.ip.ops ++ new ∧
        Converts W [] E new c (lastName x convs) (convertAll t a convs) := by
  intro claim
  let W : World Unit := ⟨unitMachine, fun _ _ => none⟩
  obtain ⟨⟨c, b'⟩, run⟩ := Except.exists_ok (x := (lowerStms releaseConfig ⟨[], []⟩
    (fun _ => Lower.undefined) (convStms "x" .int64 [⟨true, .int32, "y"⟩])
    (intCtx .int64)).run afterInt) (by decide +kernel)
  have bound : intCtx .int64 "x" = some (intValue .int64) := Ctx.insert_self _ _ _
  obtain ⟨new, ops, converts⟩ := claim releaseConfig ⟨[], []⟩ _ W _ _ _ _ _ _ _ _ _ _ bound
    (intEnv_represents .int64 5) run (intEnv_below _ _)
  obtain ⟨new', ops', widens⟩ := convStms_runs releaseConfig ⟨[], []⟩ _ _ bound
    (intEnv_represents .int64 5) run (intEnv_below _ _)
  cases List.append_cancel_left (ops.symm.trans ops')
  exact absurd (widens.mp converts).1 (by decide)

end Examples

end FutharkMlir
