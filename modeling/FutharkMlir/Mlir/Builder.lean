import FutharkMlir.Lib.Tracked
import FutharkMlir.Mlir.Ir
import Mathlib.Data.List.Infix

/-! The builder: where the next operation goes, and what the compiler has registered so
far. `Emit` is code that only inserts operations; `Lower` may lower other functions too. -/
namespace FutharkMlir

/-- How a lowering ends without a result. `ub` is what a release build does where an
assertion would have failed: it goes on with memory it was not given. -/
inductive Err where
  | undefined
  | unbound (name : String)
  | runtime (msg : String)
  | outOfRange
  | assertion
  | ub
  deriving DecidableEq, Repr

/-- Lowering a program can also nest calls deeper than the depth it was given. -/
inductive Stop where
  | thrown (e : Err)
  | outOfFuel
  deriving DecidableEq, Repr

/-- `Env<std::string, mlir::Value>`. -/
abbrev Ctx := String → Option Value

namespace Ctx

def empty : Ctx := fun _ => none

def insert (ctx : Ctx) (name : String) (v : Value) : Ctx :=
  fun y => if y = name then some v else ctx y

def insertAll (ctx : Ctx) : List (String × Value) → Ctx
  | [] => ctx
  | (name, v) :: rest => insertAll (ctx.insert name v) rest

theorem insertAll_append (ctx : Ctx) (xs ys : List (String × Value)) :
    ctx.insertAll (xs ++ ys) = (ctx.insertAll xs).insertAll ys := by
  induction xs generalizing ctx with
  | nil => rfl
  | cons x xs ih => exact ih _

@[simp] theorem insert_self (ctx : Ctx) (x : String) (v : Value) : ctx.insert x v x = some v := by
  simp [insert]

theorem insert_of_ne (ctx : Ctx) {x y : String} (v : Value) (h : y ≠ x) :
    ctx.insert x v y = ctx y := by
  simp [insert, h]

end Ctx

/-- One statement the compiler has lowered: the environment `LowerExp` was called in and
the one it left, the values it returned and the operations it inserted in the block. The
compiler keeps no such record; it is here so that runs can be spoken about. -/
structure StmEvent where
  stm : Stm
  before : Ctx
  after : Ctx
  values : List Value
  ops : List Op

/-- The insertion point: the end of a block under construction in a function. -/
structure Insertion where
  func : String
  next : Nat
  ops : List Op
  trace : List StmEvent

/-- A value numbered from `lo` up to but not including `hi` in `func`. -/
def Value.Within (v : Value) (func : String) (lo hi : Nat) : Prop :=
  v.func = func ∧ lo ≤ v.id ∧ v.id < hi

theorem Value.Within.widen {v : Value} {f : String} {lo hi lo' hi' : Nat}
    (h : v.Within f lo hi) (hlo : lo' ≤ lo) (hhi : hi ≤ hi') : v.Within f lo' hi' :=
  ⟨h.1, le_trans hlo h.2.1, lt_of_lt_of_le h.2.2 hhi⟩

/-- Building only appends, and every new result has a new number. -/
structure Insertion.Grows (a b : Insertion) : Prop where
  func : b.func = a.func
  next : a.next ≤ b.next
  ops : ∃ new, b.ops = a.ops ++ new ∧
    ∀ op ∈ new, ∀ v ∈ op.results, v.Within a.func a.next b.next
  trace : a.trace <+: b.trace

namespace Insertion.Grows

theorem refl (a : Insertion) : Grows a a :=
  ⟨rfl, le_refl _, ⟨[], by simp⟩, List.prefix_rfl⟩

theorem trans {a b c : Insertion} (h : Grows a b) (k : Grows b c) : Grows a c := by
  obtain ⟨n₁, e₁, f₁⟩ := h.ops
  obtain ⟨n₂, e₂, f₂⟩ := k.ops
  refine ⟨k.func.trans h.func, h.next.trans k.next, ⟨n₁ ++ n₂, ?_, ?_⟩, h.trace.trans k.trace⟩
  · rw [e₂, e₁, List.append_assoc]
  intro op member v result
  rcases List.mem_append.mp member with m | m
  · exact (f₁ op m v result).widen (le_refl _) k.next
  · have w := f₂ op m v result
    rw [h.func] at w
    exact w.widen h.next (le_refl _)

theorem snoc (a : Insertion) (n : Nat) (op : Op)
    (fresh : ∀ v ∈ op.results, v.Within a.func a.next (a.next + n)) :
    Grows a { a with next := a.next + n, ops := a.ops ++ [op] } := by
  refine ⟨rfl, Nat.le_add_right _ _, ⟨[op], rfl, ?_⟩, List.prefix_rfl⟩
  intro o member
  rw [List.mem_singleton.mp member]
  exact fresh

/-- Back from a block built inside: only numbers and the record have moved. -/
theorem resume {a inner b : Insertion} (h : Grows inner b) (start : inner.func = a.func)
    (later : a.next ≤ inner.next) (same : inner.trace = a.trace) :
    Grows a { b with ops := a.ops } :=
  ⟨h.func.trans start, later.trans h.next, ⟨[], by simp⟩, same ▸ h.trace⟩

end Insertion.Grows

structure Insertion.Extends (a b : Insertion) : Prop extends Insertion.Grows a b where
  same : b.trace = a.trace

instance : IsPreorder Insertion Insertion.Extends where
  refl a := ⟨.refl a, rfl⟩
  trans _ _ _ h k := ⟨h.toGrows.trans k.toGrows, k.same.trans h.same⟩

/-- What the callers of a function see of its `FuncOp`. -/
structure FuncSig where
  name : String
  argTypes : List MlirTy
  retTypes : List MlirTy
  deriving DecidableEq, Repr

structure FuncOp where
  sig : FuncSig
  isPrivate : Bool
  sizeArgs : List (Option (List Int))
  body : Option Block
  trace : List StmEvent

def fillBody (module : List FuncOp) (name : String) (body : Block) (trace : List StmEvent) :
    List FuncOp :=
  module.map fun f => if f.sig.name = name then { f with body := some body, trace } else f

structure Builder where
  ip : Insertion
  functions : List FuncSig
  module : List FuncOp

/-- Lowering moves the insertion point forward and never forgets a function. -/
structure Builder.Grows (a b : Builder) : Prop where
  ip : a.ip.Grows b.ip
  functions : a.functions <+: b.functions

instance : IsPreorder Builder Builder.Grows where
  refl a := ⟨.refl a.ip, List.prefix_rfl⟩
  trans _ _ _ h k := ⟨h.ip.trans k.ip, h.functions.trans k.functions⟩

abbrev Emit := Tracked Insertion.Extends Err
abbrev Lower := Tracked Builder.Grows Stop

def freshValues (func : String) : Nat → List MlirTy → List Value
  | _, [] => []
  | next, ty :: tys => { func, id := next, ty } :: freshValues func (next + 1) tys

theorem freshValues_within (func : String) (next : Nat) (tys : List MlirTy) :
    ∀ v ∈ freshValues func next tys, v.Within func next (next + tys.length) := by
  induction tys generalizing next with
  | nil => simp [freshValues]
  | cons ty tys ih =>
    intro v member
    rcases List.mem_cons.mp member with rfl | member
    · exact ⟨rfl, le_refl _, by simp⟩
    · refine (ih (next + 1) v member).widen (by omega) ?_
      simp only [List.length_cons]
      omega

@[simp] theorem freshValues_types (func : String) (next : Nat) (tys : List MlirTy) :
    (freshValues func next tys).map Value.ty = tys := by
  induction tys generalizing next with
  | nil => rfl
  | cons ty tys ih => simp [freshValues, ih]

@[simp] theorem freshValues_length (func : String) (next : Nat) (tys : List MlirTy) :
    (freshValues func next tys).length = tys.length := by
  rw [← List.length_map (f := Value.ty), freshValues_types]

namespace Emit

def undefined {α : Type} : Emit α := Tracked.throw .undefined
def ub {α : Type} : Emit α := Tracked.throw .ub

def create (code : OpCode) (operands : List Value) (resTys : List MlirTy)
    (regions : List Block) : Emit (List Value) where
  run ip :=
    let res := freshValues ip.func ip.next resTys
    .ok (res, { ip with next := ip.next + resTys.length
                        ops := ip.ops ++ [.mk code operands res regions] })
  tracks {ip a ip'} h := by
    cases h
    exact ⟨.snoc ip resTys.length _ (freshValues_within _ _ _), rfl⟩

def create1 (code : OpCode) (operands : List Value) (ty : MlirTy) : Emit Value where
  run ip :=
    let res : Value := { func := ip.func, id := ip.next, ty }
    .ok (res, { ip with next := ip.next + 1, ops := ip.ops ++ [.mk code operands [res] []] })
  tracks {ip a ip'} h := by
    cases h
    refine ⟨.snoc ip 1 _ ?_, rfl⟩
    intro v result
    rw [List.mem_singleton.mp result]
    exact ⟨rfl, le_refl _, Nat.lt_succ_self _⟩

def createConstant (attr : ConstAttr) (ty : MlirTy) : Emit Value where
  run ip :=
    let res : Value := { func := ip.func, id := ip.next, ty, const := some attr }
    .ok (res, { ip with next := ip.next + 1, ops := ip.ops ++ [.mk (.constant attr) [] [res] []] })
  tracks {ip a ip'} h := by
    cases h
    refine ⟨.snoc ip 1 _ ?_, rfl⟩
    intro v result
    rw [List.mem_singleton.mp result]
    exact ⟨rfl, le_refl _, Nat.lt_succ_self _⟩

/-- Build a region's block: an `InsertionGuard`, the insertion point at the end of a new
block, the body, and back. The body returns the operands of the terminator. -/
def inBlock (argTys : List MlirTy) (body : List Value → Emit (List Value)) : Emit Block where
  run ip :=
    let args := freshValues ip.func ip.next argTys
    match (body args).run { ip with next := ip.next + argTys.length, ops := [] } with
    | .ok (yield, inner) => .ok (.mk args inner.ops yield, { inner with ops := ip.ops })
    | .error e => .error e
  tracks {ip a ip'} h := by
    dsimp only at h
    split at h
    · rename_i yield inner hb
      cases h
      have g := Tracked.tracks _ hb
      exact ⟨g.resume rfl (Nat.le_add_right _ _) rfl, g.same⟩
    · cases h

theorem inBlock_ops {argTys : List MlirTy} {body : List Value → Emit (List Value)}
    {ip ip' : Insertion} {block : Block} (run : (inBlock argTys body).run ip = .ok (block, ip')) :
    ip'.ops = ip.ops := by
  simp only [inBlock] at run
  split at run
  · cases run
    rfl
  · cases run

end Emit

namespace Lower

def undefined {α : Type} : Lower α := Tracked.throw (.thrown .undefined)
def ub {α : Type} : Lower α := Tracked.throw (.thrown .ub)

def ofEmit {α : Type} (m : Emit α) : Lower α where
  run b := match m.run b.ip with
    | .ok (a, ip) => .ok (a, { b with ip })
    | .error e => .error (.thrown e)
  tracks {b a b'} h := by
    split at h
    · rename_i a ip hm
      cases h
      exact ⟨(m.tracks hm).toGrows, List.prefix_rfl⟩
    · cases h

instance : MonadLift Emit Lower := ⟨ofEmit⟩

theorem run_ofEmit {α : Type} {m : Emit α} {b b' : Builder} {a : α}
    (h : (ofEmit m).run b = .ok (a, b')) :
    ∃ ip, m.run b.ip = .ok (a, ip) ∧ b' = { b with ip } := by
  simp only [ofEmit] at h
  split at h
  · rename_i x ip run
    cases h
    exact ⟨ip, run, rfl⟩
  · cases h

/-- As `Emit.inBlock`, with a further result of the body. -/
def inBlock {α : Type} (argTys : List MlirTy) (body : List Value → Lower (List Value × α)) :
    Lower (Block × α) where
  run b :=
    let args := freshValues b.ip.func b.ip.next argTys
    let inner := { b.ip with next := b.ip.next + argTys.length, ops := [] }
    match (body args).run { b with ip := inner } with
    | .ok ((yield, a), b') =>
      .ok ((.mk args b'.ip.ops yield, a), { b' with ip := { b'.ip with ops := b.ip.ops } })
    | .error e => .error e
  tracks {b p b'} h := by
    dsimp only at h
    split at h
    · rename_i yield a inner hb
      cases h
      have g := Tracked.tracks _ hb
      exact ⟨g.ip.resume rfl (Nat.le_add_right _ _) rfl, g.functions⟩
    · cases h

theorem inBlock_ops {α : Type} {argTys : List MlirTy} {body : List Value → Lower (List Value × α)}
    {b b' : Builder} {p : Block × α} (run : (inBlock argTys body).run b = .ok (p, b')) :
    b'.ip.ops = b.ip.ops := by
  simp only [inBlock] at run
  split at run
  · cases run
    rfl
  · cases run

def recording (stm : Stm) (ctx : Ctx) (m : Lower (List Value × Ctx)) :
    Lower (List Value × Ctx) where
  run b := match m.run b with
    | .ok ((values, after), b') =>
      let event : StmEvent :=
        { stm, before := ctx, after, values, ops := b'.ip.ops.drop b.ip.ops.length }
      .ok ((values, after), { b' with ip := { b'.ip with trace := b'.ip.trace ++ [event] } })
    | .error e => .error e
  tracks {b p b'} h := by
    dsimp only at h
    split at h
    · rename_i values after inner hm
      cases h
      have g := m.tracks hm
      exact ⟨⟨g.ip.func, g.ip.next, g.ip.ops, g.ip.trace.trans (List.prefix_append _ _)⟩,
        g.functions⟩
    · cases h

/-- The body of a function: an `InsertionGuard`, an entry block with the insertion point
at its start, the body, and the caller's insertion point again. -/
def inFunction (name : String) (argTys : List MlirTy) (body : List Value → Lower (List Value)) :
    Lower (Block × List StmEvent) where
  run b :=
    let args := freshValues name 0 argTys
    match (body args).run { b with ip := ⟨name, argTys.length, [], []⟩ } with
    | .ok (yield, b') => .ok ((.mk args b'.ip.ops yield, b'.ip.trace), { b' with ip := b.ip })
    | .error e => .error e
  tracks {b p b'} h := by
    dsimp only at h
    split at h
    · rename_i yield inner hb
      cases h
      exact ⟨.refl _, (Tracked.tracks _ hb).functions⟩
    · cases h

def functions : Lower (List FuncSig) where
  run b := .ok (b.functions, b)
  tracks {b a b'} h := by cases h; exact refl_of Builder.Grows _

def register (f : FuncOp) : Lower Unit where
  run b := .ok ((), { b with functions := b.functions ++ [f.sig], module := b.module ++ [f] })
  tracks {b a b'} h := by cases h; exact ⟨.refl _, List.prefix_append _ _⟩

def setBody (name : String) (body : Block) (trace : List StmEvent) : Lower Unit where
  run b := .ok ((), { b with module := fillBody b.module name body trace })
  tracks {b a b'} h := by cases h; exact ⟨.refl _, List.prefix_rfl⟩

end Lower

end FutharkMlir
