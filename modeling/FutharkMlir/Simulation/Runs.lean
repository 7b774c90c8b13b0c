import FutharkMlir.Compiler.Exp
import FutharkMlir.Semantics.Futhark

/-! Running what a computation inserts: rules that compose with the computation, so that
what the inserted operations compute is established along the way they are built. -/
namespace FutharkMlir

variable {F : Type}

/-- The machine, and what the functions of the module compute. -/
structure World (F : Type) where
  machine : Machine F
  call : String → List (MVal F) → Option (List (MVal F))

/-- Every value with a meaning was numbered before `n`. -/
def Env.Below (E : Env F) (n : Nat) : Prop := ∀ v x, E v = some x → v.id < n

namespace Env.Below

variable {E E' : Env F} {n m : Nat}

theorem mono (h : E.Below n) (le : n ≤ m) : E.Below m := fun v x hx => lt_of_lt_of_le (h v x hx) le

theorem fresh (h : E.Below n) {v : Value} (new : n ≤ v.id) : E v = none := by
  cases eq : E v with
  | none => rfl
  | some x => exact absurd (h v x eq) (Nat.not_lt.mpr new)

theorem bind (h : E.Below n) {vs : List Value} {xs : List (MVal F)} (eq : E.bind vs xs = some E')
    (le : n ≤ m) (bound : ∀ v ∈ vs, v.id < m) : E'.Below m := by
  intro v x hx
  rcases Binding.bind_some eq hx with member | ⟨_, old⟩
  · exact bound v (List.of_mem_zip member).1
  · exact lt_of_lt_of_le (h v x old) le

end Env.Below

theorem freshValues_nodup (func : String) (next : Nat) (tys : List MlirTy) :
    (freshValues func next tys).Nodup := by
  induction tys generalizing next with
  | nil => exact List.nodup_nil
  | cons ty tys ih =>
    refine List.nodup_cons.mpr ⟨fun member => ?_, ih (next + 1)⟩
    have later := (freshValues_within _ _ _ _ member).2.1
    exact absurd later (Nat.not_succ_le_self next)

theorem freshValues_fresh {E : Env F} {func : String} {next : Nat} (below : E.Below next)
    (tys : List MlirTy) : ∀ v ∈ freshValues func next tys, E v = none :=
  fun v hv => below.fresh (freshValues_within _ _ _ v hv).2.1

theorem execOps_append (W : World F) (xs ys : List Op) (point : List Nat) (E : Env F) :
    execOps W.machine W.call (xs ++ ys) point E = do
      let (E', ws) ← execOps W.machine W.call xs point E
      let (E'', ws') ← execOps W.machine W.call ys point E'
      return (E'', ws ++ ws') := by
  induction xs generalizing E with
  | nil =>
    simp only [List.nil_append, execOps, Option.bind_eq_bind, Option.bind_some]
    cases execOps W.machine W.call ys point E <;> rfl
  | cons op xs ih =>
    simp only [List.cons_append, execOps, ih]
    cases execOp W.machine W.call op point E with
    | none => rfl
    | some p =>
      simp only [Option.bind_eq_bind, Option.bind_some, Option.bind_assoc, Option.pure_def]
      cases execOps W.machine W.call xs point p.1 with
      | none => rfl
      | some q =>
        simp only [Option.bind_some]
        cases execOps W.machine W.call ys point q.1 with
        | none => rfl
        | some r => simp [List.append_assoc]

/-- What running the inserted operations from `E` leads to: the values that have a meaning
then, the insertions asked for, and the result of the computation. -/
def Emit.Effects {α : Type} (W : World F) (point : List Nat) (E : Env F) (m : Emit α)
    (Q : Env F → List (Write F) → α → Prop) : Prop :=
  ∀ ip a ip', m.run ip = .ok (a, ip') → E.Below ip.next →
    ∃ new E' ws, ip'.ops = ip.ops ++ new ∧ execOps W.machine W.call new point E = some (E', ws) ∧
      E.Sub E' ∧ E'.Below ip'.next ∧ Q E' ws a

abbrev Emit.Runs {α : Type} (W : World F) (point : List Nat) (E : Env F) (m : Emit α)
    (Q : Env F → α → Prop) : Prop :=
  Emit.Effects W point E m fun E' ws a => ws = [] ∧ Q E' a

def Lower.Effects {α : Type} (W : World F) (point : List Nat) (E : Env F) (m : Lower α)
    (Q : Env F → List (Write F) → α → Prop) : Prop :=
  ∀ b a b', m.run b = .ok (a, b') → E.Below b.ip.next →
    ∃ new E' ws, b'.ip.ops = b.ip.ops ++ new ∧
      execOps W.machine W.call new point E = some (E', ws) ∧
      E.Sub E' ∧ E'.Below b'.ip.next ∧ Q E' ws a

abbrev Lower.Runs {α : Type} (W : World F) (point : List Nat) (E : Env F) (m : Lower α)
    (Q : Env F → α → Prop) : Prop :=
  Lower.Effects W point E m fun E' ws a => ws = [] ∧ Q E' a

/-- What running a block at a point on values leads to, for each way `i` in which they are
what they should be. -/
def BlockRuns {ι : Type} (W : World F) (E : Env F) (block : Block)
    (Pre : ι → List Nat → List (MVal F) → Prop)
    (Post : ι → List (MVal F) → List (Write F) → Prop) : Prop :=
  ∀ i point vals, Pre i point vals → ∃ outs ws,
    execBlock W.machine W.call block point E vals = some (outs, ws) ∧ Post i outs ws

theorem execOps_one {W : World F} {point : List Nat} {E : Env F} {code : OpCode}
    {operands results : List Value} {regions : List Block} {args vals : List (MVal F)}
    {ws : List (Write F)} (seen : operands.mapM E = some args)
    (eval : evalOp W.machine W.call point code operands args (results.map Value.ty)
      (regionsOf W.machine W.call regions E) = some (vals, ws)) {E' : Env F}
    (bound : E.bind results vals = some E') :
    execOps W.machine W.call [.mk code operands results regions] point E = some (E', ws) := by
  simp [execOps, execOp, seen, eval, bound]

section Create

variable {W : World F} {point : List Nat} {E : Env F}

theorem create_effects {code : OpCode} {operands : List Value} {resTys : List MlirTy}
    {regions : List Block} {args vals : List (MVal F)} {ws : List (Write F)}
    (seen : operands.mapM E = some args)
    (eval : evalOp W.machine W.call point code operands args resTys
      (regionsOf W.machine W.call regions E) = some (vals, ws))
    (length : vals.length = resTys.length) :
    Emit.Effects W point E (Emit.create code operands resTys regions) fun E' ws' vs =>
      ws' = ws ∧ vs.mapM E' = some vals ∧ vs.map Value.ty = resTys := by
  intro ip a ip' run below
  cases run
  have within := freshValues_within ip.func ip.next resTys
  have same : (freshValues ip.func ip.next resTys).length = vals.length := by
    rw [freshValues_length, length]
  obtain ⟨E', bound⟩ := E.bind_exists same
  refine ⟨_, E', ws, rfl, execOps_one seen (by rwa [freshValues_types]) bound,
    .bind bound (freshValues_fresh below resTys), ?_, rfl, ?_, freshValues_types _ _ _⟩
  · exact below.bind bound (Nat.le_add_right _ _) fun v hv => (within v hv).2.2
  · exact Binding.bind_mapM bound (freshValues_nodup _ _ _)

theorem create_runs {code : OpCode} {operands : List Value} {resTys : List MlirTy}
    {regions : List Block} {args vals : List (MVal F)} (seen : operands.mapM E = some args)
    (eval : evalOp W.machine W.call point code operands args resTys
      (regionsOf W.machine W.call regions E) = some (vals, []))
    (length : vals.length = resTys.length) :
    Emit.Runs W point E (Emit.create code operands resTys regions) fun E' vs =>
      vs.mapM E' = some vals ∧ vs.map Value.ty = resTys :=
  create_effects seen eval length

theorem insert_runs {code : OpCode} {operands : List Value} {v : Value} {args : List (MVal F)}
    {x : MVal F} {n : Nat} (below : E.Below n) (new : v.id = n)
    (seen : operands.mapM E = some args)
    (eval : evalOp W.machine W.call point code operands args [v.ty] [] = some ([x], [])) :
    execOps W.machine W.call [.mk code operands [v] []] point E = some (E.insert v x, []) ∧
      E.Sub (E.insert v x) ∧ Env.Below (E.insert v x) (n + 1) := by
  have fresh : E v = none := below.fresh (le_of_eq new.symm)
  have eval' : evalOp W.machine W.call point code operands args ([v].map Value.ty)
      (regionsOf W.machine W.call [] E) = some ([x], []) := by
    simpa [regionsOf] using eval
  refine ⟨execOps_one seen eval' rfl, .insert fresh x, ?_⟩
  · intro w y hy
    by_cases eq : w = v
    · rw [eq, new]
      exact Nat.lt_succ_self n
    · rw [Binding.insert_of_ne _ _ eq] at hy
      exact Nat.lt_succ_of_lt (below w y hy)

theorem create1_runs {code : OpCode} {operands : List Value} {ty : MlirTy}
    {args : List (MVal F)} {x : MVal F} (seen : operands.mapM E = some args)
    (eval : evalOp W.machine W.call point code operands args [ty] [] = some ([x], [])) :
    Emit.Runs W point E (Emit.create1 code operands ty) fun E' v =>
      E' v = some x ∧ v.ty = ty := by
  intro ip a ip' run below
  cases run
  obtain ⟨exec, sub, below'⟩ := insert_runs (v := { func := ip.func, id := ip.next, ty }) below rfl
    seen eval
  exact ⟨_, _, [], rfl, exec, sub, below', rfl, Binding.insert_self _ _ _, rfl⟩

theorem createConstant_runs {a : TypedAttr} {ty : MlirTy} :
    Emit.Runs W point E (Emit.createConstant (.scalar a) ty) fun E' v =>
      E' v = some (.scalar (a.value W.machine.toFloatOps)) ∧ v.ty = ty := by
  intro ip v ip' run below
  cases run
  have eval : evalOp W.machine W.call point (.constant (.scalar a)) [] [] [ty] [] =
      some ([.scalar (a.value W.machine.toFloatOps)], []) := rfl
  obtain ⟨exec, sub, below'⟩ := insert_runs
    (v := { func := ip.func, id := ip.next, ty, const := some (.scalar a) }) below rfl rfl eval
  exact ⟨_, _, [], rfl, exec, sub, below', rfl, Binding.insert_self _ _ _, rfl⟩

end Create

namespace Emit.Effects

variable {α β : Type} {W : World F} {point : List Nat} {E : Env F}
  {Q : Env F → List (Write F) → α → Prop}

theorem pure {a : α} (h : Q E [] a) : Emit.Effects W point E (Pure.pure a) Q := by
  intro ip c ip' run below
  obtain ⟨rfl, rfl⟩ := Tracked.pure_ok.mp run
  exact ⟨[], E, [], by simp, rfl, .refl _, below, h⟩

theorem bindWrites {m : Emit β} {f : β → Emit α} {P : Env F → List (Write F) → β → Prop}
    (hm : Emit.Effects W point E m P)
    (hf : ∀ a E' ws, E.Sub E' → P E' ws a →
      Emit.Effects W point E' (f a) fun E'' ws' c => Q E'' (ws ++ ws') c) :
    Emit.Effects W point E (m >>= f) Q := by
  intro ip c ip' run below
  obtain ⟨a, mid, first, rest⟩ := Tracked.bind_ok.mp run
  obtain ⟨new, E₁, ws, ops, exec, sub, below₁, holds⟩ := hm ip a mid first below
  obtain ⟨new', E₂, ws', ops', exec', sub', below₂, holds'⟩ :=
    hf a E₁ ws sub holds mid c ip' rest below₁
  refine ⟨new ++ new', E₂, ws ++ ws', by rw [ops', ops, List.append_assoc], ?_, sub.trans sub',
    below₂, holds'⟩
  simp [execOps_append, exec, exec']

theorem bind {m : Emit β} {f : β → Emit α} {P : Env F → β → Prop}
    (hm : Emit.Runs W point E m P)
    (hf : ∀ a E', E.Sub E' → P E' a → Emit.Effects W point E' (f a) Q) :
    Emit.Effects W point E (m >>= f) Q := by
  refine bindWrites hm fun a E' ws sub h => ?_
  obtain ⟨rfl, holds⟩ := h
  exact hf a E' sub holds

theorem weaken {m : Emit α} {P : Env F → List (Write F) → α → Prop}
    (hm : Emit.Effects W point E m P) (h : ∀ E' ws a, E.Sub E' → P E' ws a → Q E' ws a) :
    Emit.Effects W point E m Q := by
  intro ip a ip' run below
  obtain ⟨new, E', ws, ops, exec, sub, below', holds⟩ := hm ip a ip' run below
  exact ⟨new, E', ws, ops, exec, sub, below', h E' ws a sub holds⟩

theorem returns {m : Emit α} {P : Env F → α → Prop} {R : α → Prop}
    (hm : Emit.Runs W point E m P) (hr : m.Returns R) :
    Emit.Runs W point E m fun E' a => P E' a ∧ R a := by
  intro ip a ip' run below
  obtain ⟨new, E', ws, ops, exec, sub, below', none, holds⟩ := hm ip a ip' run below
  exact ⟨new, E', ws, ops, exec, sub, below', none, holds, hr ip a ip' run⟩

theorem liftExcept (x : Except Err α) :
    Emit.Runs W point E (liftM x : Emit α) fun E' a => E' = E ∧ x = .ok a := by
  intro ip a ip' run below
  obtain ⟨h, rfl⟩ := Tracked.ofExcept_ok.mp run
  exact ⟨[], E, [], by simp, rfl, .refl _, below, rfl, rfl, h⟩

end Emit.Effects

/-- What it inserts does not run: an operation is not valid, or undefined. -/
def Emit.Stuck {α : Type} (W : World F) (point : List Nat) (E : Env F) (m : Emit α) : Prop :=
  ∀ ip a ip', m.run ip = .ok (a, ip') → E.Below ip.next →
    ∃ new, ip'.ops = ip.ops ++ new ∧ execOps W.machine W.call new point E = none

namespace Emit.Stuck

variable {α β : Type} {W : World F} {point : List Nat} {E : Env F}

theorem create1 {code : OpCode} {operands : List Value} {ty : MlirTy} {args : List (MVal F)}
    (seen : operands.mapM E = some args)
    (eval : evalOp W.machine W.call point code operands args [ty] [] = none) :
    Emit.Stuck W point E (Emit.create1 code operands ty) := by
  intro ip v ip' run _
  cases run
  refine ⟨_, rfl, ?_⟩
  simp [execOps, execOp, seen, eval, regionsOf]

theorem bind {m : Emit β} {f : β → Emit α} {P : Env F → β → Prop}
    (hm : Emit.Runs W point E m P)
    (hf : ∀ a E', E.Sub E' → P E' a → Emit.Stuck W point E' (f a)) :
    Emit.Stuck W point E (m >>= f) := by
  intro ip c ip' run below
  obtain ⟨a, mid, first, rest⟩ := Tracked.bind_ok.mp run
  obtain ⟨new, E₁, _, ops, exec, sub, below₁, _, holds⟩ := hm ip a mid first below
  obtain ⟨new', ops', exec'⟩ := hf a E₁ sub holds mid c ip' rest below₁
  refine ⟨new ++ new', by rw [ops', ops, List.append_assoc], ?_⟩
  simp [execOps_append, exec, exec']

end Emit.Stuck

namespace Lower.Effects

variable {α β : Type} {W : World F} {point : List Nat} {E : Env F}
  {Q : Env F → List (Write F) → α → Prop}

theorem pure {a : α} (h : Q E [] a) : Lower.Effects W point E (Pure.pure a) Q := by
  intro b c b' run below
  obtain ⟨rfl, rfl⟩ := Tracked.pure_ok.mp run
  exact ⟨[], E, [], by simp, rfl, .refl _, below, h⟩

theorem throw {e : Stop} : Lower.Effects W point E (Tracked.throw e) Q := by
  intro b a b' run
  exact (Tracked.throw_ok.mp run).elim

theorem bindWrites {m : Lower β} {f : β → Lower α} {P : Env F → List (Write F) → β → Prop}
    (hm : Lower.Effects W point E m P)
    (hf : ∀ a E' ws, E.Sub E' → P E' ws a →
      Lower.Effects W point E' (f a) fun E'' ws' c => Q E'' (ws ++ ws') c) :
    Lower.Effects W point E (m >>= f) Q := by
  intro b c b' run below
  obtain ⟨a, mid, first, rest⟩ := Tracked.bind_ok.mp run
  obtain ⟨new, E₁, ws, ops, exec, sub, below₁, holds⟩ := hm b a mid first below
  obtain ⟨new', E₂, ws', ops', exec', sub', below₂, holds'⟩ :=
    hf a E₁ ws sub holds mid c b' rest below₁
  refine ⟨new ++ new', E₂, ws ++ ws', by rw [ops', ops, List.append_assoc], ?_, sub.trans sub',
    below₂, holds'⟩
  simp [execOps_append, exec, exec']

theorem bind {m : Lower β} {f : β → Lower α} {P : Env F → β → Prop}
    (hm : Lower.Runs W point E m P)
    (hf : ∀ a E', E.Sub E' → P E' a → Lower.Effects W point E' (f a) Q) :
    Lower.Effects W point E (m >>= f) Q := by
  refine bindWrites hm fun a E' ws sub h => ?_
  obtain ⟨rfl, holds⟩ := h
  exact hf a E' sub holds

theorem weaken {m : Lower α} {P : Env F → List (Write F) → α → Prop}
    (hm : Lower.Effects W point E m P) (h : ∀ E' ws a, E.Sub E' → P E' ws a → Q E' ws a) :
    Lower.Effects W point E m Q := by
  intro b a b' run below
  obtain ⟨new, E', ws, ops, exec, sub, below', holds⟩ := hm b a b' run below
  exact ⟨new, E', ws, ops, exec, sub, below', h E' ws a sub holds⟩

theorem lift {m : Emit α} (hm : Emit.Effects W point E m Q) :
    Lower.Effects W point E (Lower.ofEmit m) Q := by
  intro b a b' run below
  simp only [Lower.ofEmit] at run
  split at run
  · rename_i x ip hrun
    cases run
    exact hm b.ip a ip hrun below
  · cases run

theorem liftExcept (x : Except Err α) :
    Lower.Runs W point E (liftM x : Lower α) fun E' a => E' = E ∧ x = .ok a :=
  lift (.liftExcept x)

theorem returns {m : Lower α} {P : Env F → α → Prop} {R : α → Prop}
    (hm : Lower.Runs W point E m P) (hr : m.Returns R) :
    Lower.Runs W point E m fun E' a => P E' a ∧ R a := by
  intro b a b' run below
  obtain ⟨new, E', ws, ops, exec, sub, below', none, holds⟩ := hm b a b' run below
  exact ⟨new, E', ws, ops, exec, sub, below', none, holds, hr b a b' run⟩

/-- Recording a statement inserts nothing. -/
theorem recording {stm : Stm} {ctx : Ctx} {m : Lower (List Value × Ctx)}
    {Q : Env F → List (Write F) → List Value × Ctx → Prop} (hm : Lower.Effects W point E m Q) :
    Lower.Effects W point E (Lower.recording stm ctx m) Q := by
  intro b p b' run below
  simp only [Lower.recording] at run
  split at run
  · rename_i values after inner hrun
    cases run
    exact hm b _ inner hrun below
  · cases run

end Lower.Effects

section Inserted

variable {W : World F} {point : List Nat} {E : Env F}

/-- What was inserted in between runs, and leads to this environment. -/
def Inserts (W : World F) (point : List Nat) (E : Env F) (ip ip' : Insertion) (E' : Env F) :
    Prop :=
  ∃ new, ip'.ops = ip.ops ++ new ∧ execOps W.machine W.call new point E = some (E', [])

theorem Inserts.unique {ip ip' : Insertion} {E₁ E₂ : Env F} (h : Inserts W point E ip ip' E₁)
    (h' : Inserts W point E ip ip' E₂) : E₁ = E₂ := by
  obtain ⟨new, ops, exec⟩ := h
  obtain ⟨new', ops', exec'⟩ := h'
  rw [ops, List.append_cancel_left_eq] at ops'
  subst ops'
  exact congrArg Prod.fst (Option.some.inj (exec.symm.trans exec'))

end Inserted

section Blocks

variable {ι : Type} {W : World F} {point : List Nat} {E : Env F}
  (Pre : ι → List Nat → List (MVal F) → Prop)
  (Post : ι → List (MVal F) → List (Write F) → Prop)

/-- Run on its arguments, a block runs its operations and yields. -/
theorem execBlock_args {args : List Value} {ops : List Op} {yield : List Value} {E₀ E' : Env F}
    {vals outs : List (MVal F)} {ws : List (Write F)} (bound : E.bind args vals = some E₀)
    (exec : execOps W.machine W.call ops point E₀ = some (E', ws))
    (yields : yield.mapM E' = some outs) :
    execBlock W.machine W.call (.mk args ops yield) point E vals = some (outs, ws) := by
  simp [execBlock, bound, exec, yields]

theorem Emit.Effects.inBlock {argTys : List MlirTy} {body : List Value → Emit (List Value)}
    (h : ∀ i point vals, Pre i point vals → vals.length = argTys.length ∧
      ∀ args E₀, E.Sub E₀ → args.map Value.ty = argTys → args.mapM E₀ = some vals →
        Emit.Effects W point E₀ (body args) fun E' ws ys =>
          ∃ outs, ys.mapM E' = some outs ∧ Post i outs ws) :
    Emit.Runs W point E (Emit.inBlock argTys body) fun E' block =>
      E' = E ∧ BlockRuns W E block Pre Post := by
  intro ip block ip' run below
  simp only [Emit.inBlock] at run
  split at run
  · rename_i yield inner hrun
    cases run
    have grown := (body _).tracks hrun
    refine ⟨[], E, [], by simp, rfl, .refl _, ?_, rfl, rfl, ?_⟩
    · exact below.mono ((Nat.le_add_right _ _).trans grown.toGrows.next)
    intro i point vals pre
    obtain ⟨length, runs⟩ := h i point vals pre
    have same : (freshValues ip.func ip.next argTys).length = vals.length := by
      rw [freshValues_length, length]
    obtain ⟨E₀, bound⟩ := E.bind_exists same
    have below₀ : Env.Below E₀ (ip.next + argTys.length) :=
      below.bind bound (Nat.le_add_right _ _) fun v hv => (freshValues_within _ _ _ v hv).2.2
    obtain ⟨new, E', ws, ops, exec, _, _, outs, yields, post⟩ :=
      runs _ E₀ (.bind bound (freshValues_fresh below argTys)) (freshValues_types _ _ _)
        (Binding.bind_mapM bound (freshValues_nodup _ _ _)) _ _ _ hrun below₀
    rw [List.nil_append] at ops
    exact ⟨outs, ws, execBlock_args bound (ops ▸ exec) yields, post⟩
  · cases run

/-- What a block does may be stated by its arguments, which are distinct. -/
theorem Lower.Effects.inBlockArgs {α : Type} {argTys : List MlirTy}
    {body : List Value → Lower (List Value × α)}
    (Post : List Value → ι → List (MVal F) → List (Write F) → Prop)
    (h : ∀ i point vals, Pre i point vals → vals.length = argTys.length ∧
      ∀ args E₀, E.Sub E₀ → args.map Value.ty = argTys → args.mapM E₀ = some vals →
        Lower.Effects W point E₀ (body args) fun E' ws p =>
          ∃ outs, p.1.mapM E' = some outs ∧ Post args i outs ws) :
    Lower.Runs W point E (Lower.inBlock argTys body) fun E' p => E' = E ∧ p.1.args.Nodup ∧
      p.1.args.length = argTys.length ∧ BlockRuns W E p.1 Pre (Post p.1.args) := by
  intro b p b' run below
  simp only [Lower.inBlock] at run
  split at run
  · rename_i yield a inner hrun
    cases run
    have grown := (body _).tracks hrun
    refine ⟨[], E, [], by simp, rfl, .refl _, ?_, rfl, rfl, freshValues_nodup _ _ _,
      freshValues_length _ _ _, ?_⟩
    · exact below.mono ((Nat.le_add_right _ _).trans grown.ip.next)
    intro i point vals pre
    obtain ⟨length, runs⟩ := h i point vals pre
    have same : (freshValues b.ip.func b.ip.next argTys).length = vals.length := by
      rw [freshValues_length, length]
    obtain ⟨E₀, bound⟩ := E.bind_exists same
    have below₀ : Env.Below E₀ (b.ip.next + argTys.length) :=
      below.bind bound (Nat.le_add_right _ _) fun v hv => (freshValues_within _ _ _ v hv).2.2
    obtain ⟨new, E', ws, ops, exec, _, _, outs, yields, post⟩ :=
      runs _ E₀ (.bind bound (freshValues_fresh below argTys)) (freshValues_types _ _ _)
        (Binding.bind_mapM bound (freshValues_nodup _ _ _)) _ _ _ hrun below₀
    rw [List.nil_append] at ops
    exact ⟨outs, ws, execBlock_args bound (ops ▸ exec) yields, post⟩
  · cases run

theorem Lower.Effects.inBlock {α : Type} {argTys : List MlirTy}
    {body : List Value → Lower (List Value × α)}
    (h : ∀ i point vals, Pre i point vals → vals.length = argTys.length ∧
      ∀ args E₀, E.Sub E₀ → args.map Value.ty = argTys → args.mapM E₀ = some vals →
        Lower.Effects W point E₀ (body args) fun E' ws p =>
          ∃ outs, p.1.mapM E' = some outs ∧ Post i outs ws) :
    Lower.Runs W point E (Lower.inBlock argTys body) fun E' p =>
      E' = E ∧ BlockRuns W E p.1 Pre Post :=
  (inBlockArgs Pre (fun _ => Post) h).weaken fun _ _ _ _ h => ⟨h.1, h.2.1, h.2.2.2.2⟩

end Blocks

section Builds

variable {α β : Type} {W : World F} {point : List Nat} {E : Env F} {P : Env F → Op → Prop}

theorem Lower.Effects.inBlock_any {argTys : List MlirTy}
    {body : List Value → Lower (List Value × α)} :
    Lower.Runs W point E (Lower.inBlock argTys body) fun E' _ => E' = E :=
  (Lower.Effects.inBlock (ι := Unit) (fun _ _ _ => False) (fun _ _ _ => True)
    fun _ _ _ h => h.elim).weaken fun _ _ _ _ h => ⟨h.1, h.2.1⟩

/-- The last operation that is inserted, and the values there are before it. -/
def Lower.Builds (W : World F) (point : List Nat) (E : Env F) (m : Lower α)
    (P : Env F → Op → Prop) : Prop :=
  ∀ b a b', m.run b = .ok (a, b') → E.Below b.ip.next →
    ∃ before op E', b'.ip.ops = b.ip.ops ++ before ++ [op] ∧
      execOps W.machine W.call before point E = some (E', []) ∧ P E' op

theorem Lower.Builds.bind {m : Lower β} {f : β → Lower α} {Q : Env F → β → Prop}
    (hm : Lower.Runs W point E m Q)
    (hf : ∀ a E', E.Sub E' → Q E' a → Lower.Builds W point E' (f a) P) :
    Lower.Builds W point E (m >>= f) P := by
  intro b c b' run below
  obtain ⟨a, mid, first, rest⟩ := Tracked.bind_ok.mp run
  obtain ⟨new, E₁, ws, ops, exec, sub, below₁, rfl, holds⟩ := hm b a mid first below
  obtain ⟨before, op, E₂, ops', exec', holds'⟩ := hf a E₁ sub holds mid c b' rest below₁
  refine ⟨new ++ before, op, E₂, by rw [ops', ops, List.append_assoc b.ip.ops], ?_, holds'⟩
  simp [execOps_append, exec, exec']

theorem Lower.Builds.weaken {m : Lower α} {Q : Env F → Op → Prop}
    (hm : Lower.Builds W point E m Q) (h : ∀ E' op, Q E' op → P E' op) :
    Lower.Builds W point E m P := by
  intro b a b' run below
  obtain ⟨before, op, E', ops, exec, holds⟩ := hm b a b' run below
  exact ⟨before, op, E', ops, exec, h E' op holds⟩

theorem Lower.Builds.throw {e : Stop} : Lower.Builds W point E (Tracked.throw e : Lower α) P := by
  intro b a b' run
  exact (Tracked.throw_ok.mp run).elim

theorem Lower.Builds.create {code : OpCode} {operands : List Value} {resTys : List MlirTy}
    {regions : List Block} (h : ∀ results, P E (.mk code operands results regions)) :
    Lower.Builds W point E (Emit.create code operands resTys regions : Lower (List Value)) P := by
  intro b a b' run below
  cases run
  exact ⟨[], _, E, by rw [List.append_nil], rfl, h _⟩

/-- One of the operations that are inserted, the values there are before it, and what all of
them lead to. -/
def Lower.Passes (W : World F) (point : List Nat) (E : Env F) (m : Lower α)
    (P : Env F → Op → Prop) (Q : Env F → α → Prop) : Prop :=
  ∀ b a b', m.run b = .ok (a, b') → E.Below b.ip.next →
    ∃ before op after E₁ E', b'.ip.ops = b.ip.ops ++ before ++ op :: after ∧
      execOps W.machine W.call before point E = some (E₁, []) ∧ P E₁ op ∧
      execOps W.machine W.call (op :: after) point E₁ = some (E', []) ∧ Q E' a

theorem Lower.Passes.throw {e : Stop} {Q : Env F → α → Prop} :
    Lower.Passes W point E (Tracked.throw e : Lower α) P Q := by
  intro b a b' run
  exact (Tracked.throw_ok.mp run).elim

theorem Lower.Passes.bind {m : Lower β} {f : β → Lower α} {R : Env F → β → Prop}
    {Q : Env F → α → Prop} (hm : Lower.Runs W point E m R)
    (hf : ∀ a E', E.Sub E' → R E' a → Lower.Passes W point E' (f a) P Q) :
    Lower.Passes W point E (m >>= f) P Q := by
  intro b c b' run below
  obtain ⟨a, mid, first, rest⟩ := Tracked.bind_ok.mp run
  obtain ⟨new, E₁, ws, ops, exec, sub, below₁, rfl, holds⟩ := hm b a mid first below
  obtain ⟨before, op, after, E₂, E', ops', exec', here, exec'', holds'⟩ :=
    hf a E₁ sub holds mid c b' rest below₁
  refine ⟨new ++ before, op, after, E₂, E', by rw [ops', ops, List.append_assoc b.ip.ops], ?_, here,
    exec'', holds'⟩
  simp [execOps_append, exec, exec']

theorem Lower.Passes.create {code : OpCode} {operands : List Value} {resTys : List MlirTy}
    {regions : List Block} {f : List Value → Lower α} {R : Env F → List Value → Prop}
    {Q : Env F → α → Prop} (here : ∀ results, P E (.mk code operands results regions))
    (hm : Emit.Runs W point E (Emit.create code operands resTys regions) R)
    (hf : ∀ vs E', E.Sub E' → R E' vs → Lower.Runs W point E' (f vs) Q) :
    Lower.Passes W point E
      ((Emit.create code operands resTys regions : Lower (List Value)) >>= f) P Q := by
  intro b c b' run below
  obtain ⟨vs, mid, first, rest⟩ := Tracked.bind_ok.mp run
  obtain ⟨new, E₁, _, ops, exec, sub, below₁, rfl, holds⟩ :=
    (Lower.Effects.lift hm) b vs mid first below
  obtain ⟨after, E', _, ops', exec', _, _, rfl, holds'⟩ := hf vs E₁ sub holds mid c b' rest below₁
  cases first
  obtain rfl := List.append_cancel_left ops
  refine ⟨[], .mk code operands (freshValues b.ip.func b.ip.next resTys) regions, after, E, E', ?_,
    rfl, here _, ?_, holds'⟩
  · rw [ops', List.append_nil, List.append_assoc]
    rfl
  · rw [← List.singleton_append, execOps_append, exec]
    simp [exec']

end Builds

end FutharkMlir
