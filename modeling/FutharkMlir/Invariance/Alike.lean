import FutharkMlir.Invariance.Renaming
import FutharkMlir.Lib.Alike

/-! Two builds of one program: the second has its variables renamed, and may leave the
assertions out. -/
namespace FutharkMlir

structure Change where
  rename : VName → VName
  injective : Function.Injective rename
  lax : Prop

namespace Change

structure Builds (c : Change) (cfg cfg' : Config) : Prop where
  reshapes : cfg'.getReassociationIndicesForReshape = cfg.getReassociationIndicesForReshape
  asserts : cfg'.asserts = cfg.asserts ∨ c.lax ∧ cfg'.asserts = false

def Errors (c : Change) (e e' : Err) : Prop :=
  e' = e ∨ ∃ x, e = .unbound x ∧ e' = .unbound (c.rename x)

/-- Where the second build may go on. -/
def Stops (c : Change) (e : Err) : Prop := c.lax ∧ e = .assertion

def Ends (c : Change) : Stop → Stop → Prop
  | .thrown e, .thrown e' => c.Errors e e'
  | .outOfFuel, .outOfFuel => True
  | _, _ => False

def Halts (c : Change) : Stop → Prop
  | .thrown e => c.Stops e
  | .outOfFuel => False

/-- The second environment binds the new names to the same values. -/
def Renames (c : Change) (ctx ctx' : Ctx) : Prop := ∀ x, ctx' (c.rename x) = ctx x

def bindings (c : Change) (xs : List (String × Value)) : List (String × Value) :=
  xs.map fun p => (c.rename p.1, p.2)

end Change

/-- The insertion points differ in what is recorded only. -/
structure Insertion.Same (a b : Insertion) : Prop where
  func : b.func = a.func
  next : b.next = a.next
  ops : b.ops = a.ops

/-- The insertion points are the same, and the tables related. -/
structure Builder.Same (T : List FuncSig × List FuncOp → List FuncSig × List FuncOp → Prop)
    (b b' : Builder) : Prop where
  ip : b.ip.Same b'.ip
  table : T (b.functions, b.module) (b'.functions, b'.module)

/-- The second computation inserts what the first does. -/
abbrev Emit.Alike (c : Change) {α β : Type} (R : α → β → Prop) (m : Emit α) (n : Emit β) : Prop :=
  Tracked.Alike Insertion.Same c.Errors c.Stops R m n

abbrev Lower.Alike (c : Change)
    (T : List FuncSig × List FuncOp → List FuncSig × List FuncOp → Prop) {α β : Type}
    (R : α → β → Prop) (m : Lower α) (n : Lower β) : Prop :=
  Tracked.Alike (Builder.Same T) c.Ends c.Halts R m n

def WithSame {γ α β : Type} (R : α → β → Prop) (p : γ × α) (q : γ × β) : Prop :=
  p.1 = q.1 ∧ R p.2 q.2

variable {c : Change} {α β : Type} {R : α → β → Prop}

theorem Change.Errors.refl (e : Err) : c.Errors e e := .inl rfl

namespace Change.Renames

variable {ctx ctx' : Ctx}

theorem empty : c.Renames Ctx.empty Ctx.empty := fun _ => rfl

theorem insert (h : c.Renames ctx ctx') (x : VName) (v : Value) :
    c.Renames (ctx.insert x v) (ctx'.insert (c.rename x) v) := by
  intro y
  by_cases same : y = x
  · rw [same, Ctx.insert_self, Ctx.insert_self]
  · rw [Ctx.insert_of_ne _ _ same, Ctx.insert_of_ne _ _ (c.injective.ne same), h]

theorem insertAll (h : c.Renames ctx ctx') (xs : List (String × Value)) :
    c.Renames (ctx.insertAll xs) (ctx'.insertAll (c.bindings xs)) := by
  induction xs generalizing ctx ctx' with
  | nil => exact h
  | cons x xs ih => exact ih (h.insert x.1 x.2)

end Change.Renames

end FutharkMlir

namespace Tracked.Alike

open FutharkMlir

variable {c : Change} {α β : Type} {R : α → β → Prop}

theorem undefined : Emit.Alike c R (Emit.undefined : Emit α) (Emit.undefined : Emit β) :=
  .throw (.refl _)

theorem ub : Emit.Alike c R (Emit.ub : Emit α) (Emit.ub : Emit β) := .throw (.refl _)

theorem lift {x : Except Err α} {y : Except Err β} (h : Agree c.Errors c.Stops R x y) :
    Emit.Alike c R (liftM x) (liftM y) :=
  .ofExcept h

theorem except (x : Except Err α) : Emit.Alike c Eq (liftM x) (liftM x) :=
  lift (.same Change.Errors.refl x)

theorem create (code : OpCode) (operands : List Value) (tys : List MlirTy) (regions : List Block) :
    Emit.Alike c Eq (Emit.create code operands tys regions)
      (Emit.create code operands tys regions) := by
  intro a b same
  simp only [Emit.create, same.func, same.next, same.ops]
  exact .ok ⟨rfl, rfl, rfl, rfl⟩

theorem create1 (code : OpCode) (operands : List Value) (ty : MlirTy) :
    Emit.Alike c Eq (Emit.create1 code operands ty) (Emit.create1 code operands ty) := by
  intro a b same
  simp only [Emit.create1, same.func, same.next, same.ops]
  exact .ok ⟨rfl, rfl, rfl, rfl⟩

theorem createConstant (attr : ConstAttr) (ty : MlirTy) :
    Emit.Alike c Eq (Emit.createConstant attr ty) (Emit.createConstant attr ty) := by
  intro a b same
  simp only [Emit.createConstant, same.func, same.next, same.ops]
  exact .ok ⟨rfl, rfl, rfl, rfl⟩

theorem block (argTys : List MlirTy) {f g : List Value → Emit (List Value)}
    (h : ∀ args, Emit.Alike c Eq (f args) (g args)) :
    Emit.Alike c Eq (Emit.inBlock argTys f) (Emit.inBlock argTys g) := by
  intro a b same
  have agree := h (freshValues a.func a.next argTys)
    { a with next := a.next + argTys.length, ops := [] }
    { b with next := b.next + argTys.length, ops := [] }
    ⟨same.func, by rw [same.next], rfl⟩
  simp only [Emit.inBlock, same.func, same.next] at agree ⊢
  generalize (f _).run _ = x at agree ⊢
  generalize (g _).run _ = y at agree ⊢
  cases agree with
  | ok h =>
    obtain ⟨yields, inner⟩ := h
    refine .ok ⟨?_, inner.func, inner.next, same.ops⟩
    rw [yields, inner.ops]
  | error h => exact .error h
  | stopped h => exact .stopped h

theorem lookup {ctx ctx' : Ctx} (h : c.Renames ctx ctx') (x : VName) :
    Emit.Alike c Eq (ctx.lookup x) (ctx'.lookup (c.rename x)) := by
  rw [Ctx.lookup, Ctx.lookup, h x]
  cases ctx x with
  | some v => exact .pure rfl
  | none => exact .throw (.inr ⟨x, rfl, rfl⟩)

variable {T : List FuncSig × List FuncOp → List FuncSig × List FuncOp → Prop}

theorem lowerUndefined : Lower.Alike c T R (Lower.undefined : Lower α) (Lower.undefined : Lower β) :=
  .throw (.refl _)

theorem lowerUb : Lower.Alike c T R (Lower.ub : Lower α) (Lower.ub : Lower β) := .throw (.refl _)

theorem emit {m : Emit α} {n : Emit β} (h : Emit.Alike c R m n) :
    Lower.Alike c T R (Lower.ofEmit m) (Lower.ofEmit n) := by
  intro b b' same
  have agree := h b.ip b'.ip same.ip
  simp only [Lower.ofEmit]
  generalize m.run b.ip = x at agree ⊢
  generalize n.run b'.ip = y at agree ⊢
  cases agree with
  | ok h => exact .ok ⟨h.1, h.2, same.table⟩
  | error h => exact .error h
  | stopped h => exact .stopped h

theorem lowerBlock (argTys : List MlirTy) {f : List Value → Lower (List Value × α)}
    {g : List Value → Lower (List Value × β)}
    (h : ∀ args, Lower.Alike c T (WithSame R) (f args) (g args)) :
    Lower.Alike c T (WithSame R) (Lower.inBlock argTys f) (Lower.inBlock argTys g) := by
  intro b b' same
  have agree := h (freshValues b.ip.func b.ip.next argTys)
    { b with ip := { b.ip with next := b.ip.next + argTys.length, ops := [] } }
    { b' with ip := { b'.ip with next := b'.ip.next + argTys.length, ops := [] } }
    ⟨⟨same.ip.func, by rw [same.ip.next], rfl⟩, same.table⟩
  simp only [Lower.inBlock, same.ip.func, same.ip.next] at agree ⊢
  generalize (f _).run _ = x at agree ⊢
  generalize (g _).run _ = y at agree ⊢
  cases agree with
  | ok h =>
    obtain ⟨⟨yields, results⟩, inner⟩ := h
    refine .ok ⟨⟨?_, results⟩, ⟨inner.ip.func, inner.ip.next, same.ip.ops⟩, inner.table⟩
    rw [yields, inner.ip.ops]
  | error h => exact .error h
  | stopped h => exact .stopped h

/-- What is recorded differs, but not what is inserted. -/
theorem recording {stm stm' : Stm} {ctx ctx' : Ctx} {m n : Lower (List Value × Ctx)}
    {R : List Value × Ctx → List Value × Ctx → Prop} (h : Lower.Alike c T R m n) :
    Lower.Alike c T R (Lower.recording stm ctx m) (Lower.recording stm' ctx' n) := by
  intro b b' same
  have agree := h b b' same
  simp only [Lower.recording]
  generalize m.run b = x at agree ⊢
  generalize n.run b' = y at agree ⊢
  cases agree with
  | ok h => exact .ok ⟨h.1, ⟨h.2.ip.func, h.2.ip.next, h.2.ip.ops⟩, h.2.table⟩
  | error h => exact .error h
  | stopped h => exact .stopped h

end Tracked.Alike
