import FutharkMlir.Lib.KeyedFold
import FutharkMlir.Simulation.Runs

/-! What a `linalg.generic` leaves in its outputs: at each point of an output, the fold of its
body over the points of the domain that are mapped there. -/
namespace FutharkMlir

variable {F β : Type} {R : β → List (Scalar F) → Prop} {f : β → List Nat → Option β}

def elementsAt (outs : List (Tensor (Scalar F))) (q : List Nat) : List (Scalar F) :=
  outs.map fun t => t.get q

/-- The elements of the inputs that the body sees at a point. -/
def inputsAt (inputs : List (AffineMap × MVal F)) (p : List Nat) : List (MVal F) :=
  inputs.map fun q => .scalar (q.2.element (q.1.project p))

def setAll (outs : List (Tensor (Scalar F))) (q : List Nat) (ys : List (Scalar F)) :
    List (Tensor (Scalar F)) :=
  List.zipWith (fun t y => t.set q y) outs ys

section SetAll

variable {outs : List (Tensor (Scalar F))} {q : List Nat} {ys : List (Scalar F)}

theorem setAll_shapes (length : ys.length = outs.length) :
    (setAll outs q ys).map Tensor.shape = outs.map Tensor.shape := by
  induction outs generalizing ys with
  | nil => rfl
  | cons t outs ih =>
    cases ys with
    | nil => cases length
    | cons y ys =>
      rw [setAll, List.zipWith_cons_cons, List.map_cons, List.map_cons]
      exact congrArg _ (ih (Nat.succ.inj length))

theorem elementsAt_setAll (length : ys.length = outs.length) :
    elementsAt (setAll outs q ys) q = ys := by
  induction outs generalizing ys with
  | nil => exact (List.eq_nil_of_length_eq_zero length).symm
  | cons t outs ih =>
    cases ys with
    | nil => cases length
    | cons y ys =>
      have rest := ih (Nat.succ.inj length)
      simp only [elementsAt, setAll, List.zipWith_cons_cons, List.map_cons] at rest ⊢
      rw [rest]
      simp [Tensor.set]

theorem elementsAt_setAll_of_ne (length : ys.length = outs.length) {r : List Nat} (ne : r ≠ q) :
    elementsAt (setAll outs q ys) r = elementsAt outs r := by
  induction outs generalizing ys with
  | nil => rfl
  | cons t outs ih =>
    cases ys with
    | nil => cases length
    | cons y ys =>
      have rest := ih (Nat.succ.inj length)
      simp only [elementsAt, setAll, List.zipWith_cons_cons, List.map_cons] at rest ⊢
      rw [rest]
      simp [Tensor.set, ne]

end SetAll

theorem zip_replicate_map {α γ : Type} (x : α) (ys : List γ) :
    (List.replicate ys.length x).zip ys = ys.map (x, ·) := by
  induction ys with
  | nil => rfl
  | cons y ys ih => rw [List.length_cons, List.replicate_succ, List.zip_cons_cons, ih]; rfl

theorem genericStep_eq {body : Region F} {inputs : List (AffineMap × MVal F)} {m : AffineMap}
    {outs : List (Tensor (Scalar F))} {p : List Nat} {ys : List (Scalar F)} {ws : List (Write F)}
    (run : body.run p (inputsAt inputs p ++ (elementsAt outs (m.project p)).map .scalar) =
      some (ys.map .scalar, ws)) (length : ys.length = outs.length) :
    genericStep body inputs (List.replicate outs.length m) outs p =
      some (setAll outs (m.project p) ys) := by
  have accs : ((List.replicate outs.length m).zip outs).map
      (fun q => MVal.scalar (q.2.get (q.1.project p))) =
        (elementsAt outs (m.project p)).map .scalar := by
    rw [zip_replicate_map, List.map_map, elementsAt, List.map_map]
    rfl
  have scalars : (ys.map MVal.scalar).mapM MVal.toScalar = some ys := by
    rw [List.mapM_eq_some, List.forall₂_map_left_iff, List.forall₂_same]
    exact fun _ _ => rfl
  have sets : (((List.replicate outs.length m).zip outs).zip ys).map
      (fun q => q.1.2.set (q.1.1.project p) q.2) = setAll outs (m.project p) ys := by
    rw [zip_replicate_map, List.zip_map_left, List.map_map, List.map_zip_eq_zipWith]
    rfl
  unfold genericStep
  rw [inputsAt, ← accs] at run
  dsimp only
  rw [run]
  simp only [Option.bind_eq_bind, Option.bind_some, scalars, if_pos length, sets,
    Option.pure_def]

/-- The body takes what is read of the accumulators at a point to what they are after it. -/
def BodySteps (R : β → List (Scalar F) → Prop) (f : β → List Nat → Option β) (body : Region F)
    (inputs : List (AffineMap × MVal F)) (n : Nat) (bounds : List Nat) : Prop :=
  ∀ p, InBounds bounds p → ∀ b b' accs, f b p = some b' → accs.length = n → R b accs →
    ∃ ys ws, body.run p (inputsAt inputs p ++ accs.map .scalar) = some (ys.map .scalar, ws) ∧
      ys.length = n ∧ R b' ys

/-- A `linalg.generic` whose outputs are mapped alike leaves there, at each point, the fold of
its body over the points of the domain that are mapped to it. -/
theorem runGeneric_folds {body : Region F} {numInputs rank : Nat} {maps : List AffineMap}
    {args : List (MVal F)} {bounds : List Nat} {m : AffineMap} {outs : List (Tensor (Scalar F))}
    (domain : genericDomain rank maps (args.map MVal.extents) = some bounds)
    (tensors : (args.drop numInputs).mapM MVal.toTensor = some outs)
    (outMaps : maps.drop numInputs = List.replicate outs.length m)
    (steps : BodySteps R f body ((maps.zip args).take numInputs) outs.length bounds)
    (defined : ∀ p, InBounds bounds p → ∃ b b', R b (elementsAt outs (m.project p)) ∧
      ((points bounds).filter fun q => m.project q = m.project p).foldlM f b = some b') :
    ∃ results, runGeneric body numInputs maps rank args = some (results.map .tensor) ∧
      results.map Tensor.shape = outs.map Tensor.shape ∧
      ∀ q b b', R b (elementsAt outs q) →
        ((points bounds).filter fun p => m.project p = q).foldlM f b = some b' →
        R b' (elementsAt results q) := by
  have stepsAt : List.StepsAt (fun s => s.map Tensor.shape = outs.map Tensor.shape)
      (fun s q b => R b (elementsAt s q))
      (genericStep body ((maps.zip args).take numInputs) (maps.drop numInputs)) f m.project
      (points bounds) := by
    intro p hp s b b' same reads next
    have count : s.length = outs.length := by simpa using congrArg List.length same
    have length : (elementsAt s (m.project p)).length = outs.length := by
      rw [elementsAt, List.length_map, count]
    obtain ⟨ys, ws, run, hys, after⟩ :=
      steps p (mem_points.mp hp) b b' _ next length reads
    rw [outMaps, ← count]
    rw [← count] at hys
    refine ⟨_, genericStep_eq run hys, (setAll_shapes hys).trans same, ?_, ?_⟩
    · change R b' (elementsAt (setAll s (m.project p) ys) (m.project p))
      rwa [elementsAt_setAll hys]
    · intro q ne c hc
      rwa [elementsAt_setAll_of_ne hys ne]
  obtain ⟨results, folds, shapes, holds⟩ := List.foldlM_keyed stepsAt rfl fun p hp =>
    defined p (mem_points.mp hp)
  refine ⟨results, ?_, shapes, holds⟩
  unfold runGeneric
  simp only [domain, tensors, Option.bind_eq_bind, Option.bind_some, folds, Option.pure_def]

/-- The operation whose inputs have these maps and whose outputs are all mapped by `m`. -/
theorem generic_runs {W : World F} {point : List Nat} {E : Env F} {body : Block}
    {inMaps : List AffineMap} {m : AffineMap} {inputs outputs : List Value} {xs : List (MVal F)}
    {outs : List (Tensor (Scalar F))} {tys : List MlirTy} {iterTypes : List IteratorType}
    {bounds : List Nat} (seen : inputs.mapM E = some xs)
    (seenOuts : outputs.mapM E = some (outs.map .tensor)) (inCount : inMaps.length = inputs.length)
    (count : tys.length = outputs.length)
    (domain : genericDomain iterTypes.length (inMaps ++ List.replicate outputs.length m)
      (xs.map MVal.extents ++ outs.map Tensor.shape) = some bounds)
    (steps : BodySteps R f ⟨body.args, fun p vals => execBlock W.machine W.call body p E vals⟩
      (inMaps.zip xs) outputs.length bounds)
    (defined : ∀ p, InBounds bounds p → ∃ b b', R b (elementsAt outs (m.project p)) ∧
      ((points bounds).filter fun q => m.project q = m.project p).foldlM f b = some b') :
    Emit.Runs W point E (Emit.create (.generic inputs.length
      (inMaps ++ List.replicate outputs.length m) iterTypes) (inputs ++ outputs) tys [body])
      fun E' vs => vs.map Value.ty = tys ∧ ∃ results : List (Tensor (Scalar F)),
        vs.mapM E' = some (results.map .tensor) ∧
        results.map Tensor.shape = outs.map Tensor.shape ∧
        ∀ q b b', R b (elementsAt outs q) →
          ((points bounds).filter fun p => m.project p = q).foldlM f b = some b' →
          R b' (elementsAt results q) := by
  have width : xs.length = inputs.length := (List.mapM_eq_some.mp seen).length_eq.symm
  have outCount : outs.length = outputs.length := by
    rw [(List.mapM_eq_some.mp seenOuts).length_eq, List.length_map]
  have all : (inputs ++ outputs).mapM E = some (xs ++ outs.map .tensor) := by
    rw [List.mapM_append, seen, seenOuts]
    rfl
  have shapes : (xs ++ outs.map MVal.tensor).map MVal.extents =
      xs.map MVal.extents ++ outs.map Tensor.shape := by
    rw [List.map_append, List.map_map]
    rfl
  have tensors : ((xs ++ outs.map MVal.tensor).drop inputs.length).mapM MVal.toTensor =
      some outs := by
    rw [← width, List.drop_left, List.mapM_eq_some, List.forall₂_map_left_iff, List.forall₂_same]
    exact fun _ _ => rfl
  have outMaps : (inMaps ++ List.replicate outputs.length m).drop inputs.length =
      List.replicate outs.length m := by
    rw [List.drop_left' inCount, outCount]
  have ins : ((inMaps ++ List.replicate outputs.length m).zip (xs ++ outs.map MVal.tensor)).take
      inputs.length = inMaps.zip xs := by
    rw [List.zip_append (inCount.trans width.symm), List.take_left']
    rw [List.length_zip, inCount, width, Nat.min_self]
  rw [← shapes] at domain
  have steps' : BodySteps R f ⟨body.args, fun p vals => execBlock W.machine W.call body p E vals⟩
      (((inMaps ++ List.replicate outputs.length m).zip (xs ++ outs.map MVal.tensor)).take
        inputs.length) outs.length bounds := by
    rwa [ins, outCount]
  obtain ⟨results, run, same, holds⟩ := runGeneric_folds domain tensors outMaps steps' defined
  have length : (results.map MVal.tensor).length = tys.length := by
    have := congrArg List.length same
    rw [List.length_map, List.length_map] at this
    rw [List.length_map, this, outCount, count]
  refine (create_runs all ?_ length).weaken fun E' ws vs _ h =>
    ⟨h.1, h.2.2, results, h.2.1, same, holds⟩
  simp only [evalOp, regionsOf, run, Option.bind_eq_bind, Option.bind_some, Option.pure_def]

end FutharkMlir
