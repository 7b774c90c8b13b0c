import FutharkMlir.Arrays.Reshape
import FutharkMlir.Kernels.Map

namespace FutharkMlir

variable {F : Type}

def iotaElement (t : IntType) (x s : BitVec t.getWidth) (p : List Nat) : PVal F :=
  .int t (x + BitVec.ofNat t.getWidth (p.headD 0) * s)

def evalIota (fl : FloatOps F) (ρ : Store F) (n x s : SubExp) (t : IntType) :
    Option (FVal F) := do
  let n ← (evalPrim fl ρ n).bind PVal.toIndex
  let x ← (evalPrim fl ρ x).bind (PVal.asInt t)
  let s ← (evalPrim fl ρ s).bind (PVal.asInt t)
  return .array ⟨[n], iotaElement t x s⟩

variable {W : World F} {point : List Nat} {E : Env F} {ctx : Ctx} {ρ : Store F} {t : IntType}
  {x s : BitVec t.getWidth} {n : Nat}

theorem arithInt_runs {op : ArithOp} {a b c : BitVec t.getWidth} {v w : Value}
    (hv : Represents E v (.prim (.int t a))) (hw : Represents E w (.prim (.int t b)))
    (eval : arithInt op a b = some c) :
    Emit.Runs W point E (arithOp op v w) fun E' u => Represents E' u (.prim (.int t c)) := by
  have stands : List.Forall₂ (Represents E) [v, w] ([.int t a, .int t b].map .prim) :=
    .cons hv (.cons hw .nil)
  refine scalarOp_runs stands (evalOp_arith ?_) hv.2
  simp [PVal.lower, arithScalar, eval]

theorem iotaBody_runs {vx vs : Value} (hx : Represents E vx (.prim (.int t x)))
    (hs : Represents E vs (.prim (.int t s))) :
    Emit.Runs W point E (Emit.inBlock [.scalar (.int t.getWidth)] fun _ => do
      let idx ← Emit.create1 (.linalgIndex 0) [] .index
      let i ← indexCast idx (.scalar (.int t.getWidth))
      let offset ← arithOp .muli i vs
      let result ← arithOp .addi vx offset
      return [result]) fun E' block => E' = E ∧ BlockRuns W E block (AtArgs [n] [] 1)
        fun i outs _ => outs = [.scalar (iotaElement (F := F) t x s i.1).lower] := by
  refine .inBlock _ _ fun i at' vals enter => ?_
  obtain ⟨rfl, inside, length, rfl⟩ := enter
  refine ⟨by simpa [inputsAt] using length, fun args E₀ sub₀ _ _ => ?_⟩
  obtain ⟨k, _, lt, rest, eq⟩ := List.forall₂_cons_left_iff.mp inside
  cases rest
  rw [eq]
  have idx : Emit.Runs W [k] E₀ (Emit.create1 (.linalgIndex 0) [] .index)
      fun E' v => E' v = some (.ofIndex k) ∧ v.ty = .index := create1_runs rfl (by simp [evalOp])
  refine .bind idx fun idx E₁ sub₁ hidx => ?_
  refine .bind (counter_runs hidx.1) fun counter E₂ sub₂ hcounter => ?_
  have hs' := ((hs.mono sub₀).mono sub₁).mono sub₂
  refine .bind (arithInt_runs hcounter hs' rfl) fun offset E₃ sub₃ hoffset => ?_
  have hx' := (((hx.mono sub₀).mono sub₁).mono sub₂).mono sub₃
  refine .bind (arithInt_runs hx' hoffset rfl) fun result E₄ sub₄ hresult => .pure ?_
  refine ⟨[.scalar (PVal.int t (x + BitVec.ofNat t.getWidth k * s)).lower], ?_, rfl⟩
  simp [hresult.1]

theorem iota_domain : genericDomain 1 [.identity 1] [[n]] = some [n] := by
  simp [genericDomain, mapsFit, AffineMap.identity, extentsAt, commonExtent]

theorem iotaGeneric_runs {body : Block} {output : Value} {ty : MlirTy}
    (empty : IsEmpty W [n] E output ty)
    (runs : BlockRuns W E body (AtArgs [n] [] 1)
      fun i outs _ => outs = [.scalar (iotaElement (F := F) t x s i.1).lower]) :
    Emit.Runs W point E (Emit.create (.generic 0 [.identity 1] [.parallel]) [output] [output.ty]
      [body]) fun E' vs => ∃ v r, vs = [v] ∧ v.ty = ty ∧ E' v = some (.tensor r) ∧ r.shape = [n] ∧
        ∀ p, InBounds [n] p → r.get p = (iotaElement (F := F) t x s p).lower := by
  let out : Tensor (Scalar F) := ⟨[n], W.machine.contents ty⟩
  let f (_ : Option (PVal F)) (p : List Nat) : Option (Option (PVal F)) :=
    some (some (iotaElement t x s p))
  let R (b : Option (PVal F)) (ys : List (Scalar F)) : Prop := ∀ q, b = some q → ys = [q.lower]
  have steps : BodySteps R f ⟨body.args, fun p vals => execBlock W.machine W.call body p E vals⟩
      [] 1 [n] := by
    intro p inside b b' accs next length _
    obtain ⟨_, ws, exec, rfl⟩ := runs (p, accs) p _ ⟨rfl, inside, length, rfl⟩
    refine ⟨[(iotaElement (F := F) t x s p).lower], ws, exec, rfl, fun q eq => ?_⟩
    cases next
    cases eq
    rfl
  have fold : ∀ p, InBounds [n] p → ((points [n]).filter fun q =>
      (AffineMap.identity 1).project q = p).foldlM f none = some (some (iotaElement t x s p)) := by
    intro p inside
    have only : (points [n]).filter (fun q => (AffineMap.identity 1).project q = p) = [p] :=
      filter_identity inside
    rw [only]
    rfl
  have defined : ∀ p, InBounds [n] p → ∃ b b',
      R b (elementsAt [out] ((AffineMap.identity 1).project p)) ∧ ((points [n]).filter fun q =>
        (AffineMap.identity 1).project q = (AffineMap.identity 1).project p).foldlM f b =
          some b' := by
    intro p inside
    have same : (AffineMap.identity 1).project p = p := identity_project inside.length
    rw [same]
    exact ⟨none, _, fun _ h => (by cases h), fold p inside⟩
  have seen : [output].mapM E = some ([out].map .tensor) := by simp [empty.1, out]
  have generic : Emit.Runs W point E (Emit.create (.generic ([] : List Value).length
      ([] ++ List.replicate [output].length (.identity 1)) [.parallel]) ([] ++ [output])
      [output.ty] [body]) _ :=
    generic_runs rfl seen rfl rfl iota_domain steps defined
  refine generic.weaken fun E' ws vs _ h => ?_
  obtain ⟨noWrites, tys, results, hresults, shapes, holds⟩ := h
  obtain ⟨r, rfl, shape⟩ := List.map_eq_singleton_iff.mp shapes
  obtain ⟨v, rfl, type⟩ := List.map_eq_singleton_iff.mp tys
  have value : E' v = some (.tensor r) := by
    have each := List.mapM_eq_some.mp hresults
    exact (List.forall₂_cons.mp each).1
  refine ⟨noWrites, v, r, rfl, type.trans empty.2, value, shape, fun p inside => ?_⟩
  have values : elementsAt [r] p = _ := holds p none _ (fun _ h => (by cases h)) (fold p inside) _ rfl
  simpa [elementsAt] using values

theorem createIota_runs {vn vx vs : Value} (hn : IsIndex E vn n)
    (hx : Represents E vx (.prim (.int t x))) (hs : Represents E vs (.prim (.int t s))) {d : Int}
    (fits : isDynamic d = false → d = n) :
    Emit.Runs W point E (createIota vn vx vs (.int t.getWidth) d) fun E' u =>
      Represents E' u (.array ⟨[n], iotaElement t x s⟩) ∧
        u.ty = .tensor [d] (.int t.getWidth) := by
  have sizes : SizesOf E (if isDynamic d then [vn] else []) [d] [n] := by
    cases dyn : isDynamic d with
    | true => exact ⟨[n], .cons hn .nil, by simp [resolveShape, dyn]⟩
    | false =>
      obtain rfl := fits dyn
      refine ⟨[], .nil, ?_⟩
      rw [resolveShape.eq_def]
      simp [dyn, resolveShape]
  unfold createIota
  refine .bind (tensorEmpty_runs sizes _) fun output E₁ sub₁ hempty => ?_
  refine .bind (iotaBody_runs (n := n) (hx.mono sub₁) (hs.mono sub₁)) fun body E₂ sub₂ hbody => ?_
  obtain ⟨rfl, runs⟩ := hbody
  refine .bind (iotaGeneric_runs hempty runs) fun res E₃ sub₃ hres => ?_
  obtain ⟨v, r, rfl, type, value, shape, elements⟩ := hres
  refine .pure ⟨rfl, ⟨r, [d], _, value, type, ?_, shape, fun p inside => ⟨elements p inside, rfl⟩⟩,
    type⟩
  rw [shape]
  refine .cons ?_ .nil
  cases dyn : isDynamic d with
  | true => exact .inl dyn
  | false => exact .inr (fits dyn)

theorem lowerIota_runs (rep : ctx.Represents E ρ) {n x s : SubExp} {t : IntType} {val : FVal F}
    (h : evalIota W.machine.toFloatOps ρ n x s t = some val) {d : Int}
    (shape : toShapeDim n = .ok d) :
    Emit.Runs W point E (lowerIota n x s t ctx) fun E' u => Represents E' u val ∧
      u.ty = .tensor [d] (.int t.getWidth) := by
  simp only [evalIota, Option.bind_eq_bind, Option.bind_eq_some_iff, Option.pure_def,
    Option.some.injEq] at h
  obtain ⟨count, ⟨pn, hn, position⟩, a, ⟨px, hx, start⟩, b, ⟨ps, hs, stride⟩, rfl⟩ := h
  rw [PVal.asInt_eq_some] at start stride
  subst start stride
  have fits := toShapeDim_fits shape (Option.bind_eq_some_iff.mpr ⟨pn, hn, position⟩)
  unfold lowerIota
  refine .bind (lowerPrim_runs rep hn) fun n' E₁ sub₁ hn' => ?_
  refine .bind (indexCast_runs hn' position) fun c E₂ sub₂ hc => ?_
  have rep₂ := (rep.mono sub₁).mono sub₂
  refine .bind (lowerPrim_runs rep₂ hx) fun x' E₃ sub₃ hx' => ?_
  refine .bind (lowerPrim_runs (rep₂.mono sub₃) hs) fun s' E₄ sub₄ hs' => ?_
  refine .bind (.liftExcept _) fun d' E₅ sub₅ hd => ?_
  obtain ⟨rfl, hd⟩ := hd
  cases shape.symm.trans hd
  refine createIota_runs ((hc.1.mono sub₃).mono sub₄) (hx'.mono sub₄) hs' fun static => ?_
  rcases fits with dynamic | same
  · rw [static] at dynamic
    cases dynamic
  · exact same

end FutharkMlir
