import FutharkMlir.Kernels.Accepts

namespace FutharkMlir

variable {F : Type}

section Block

/-- A point of the domain and the accumulators, as the block of a `linalg.generic` sees them. -/
def AtArgs (extents : List Nat) (inputs : List (AffineMap × MVal F)) (n : Nat)
    (i : List Nat × List (Scalar F)) (point : List Nat) (vals : List (MVal F)) : Prop :=
  point = i.1 ∧ InBounds extents i.1 ∧ i.2.length = n ∧
    vals = inputsAt inputs i.1 ++ i.2.map .scalar

variable {W : World F} {E E' : Env F} {Γ : Types} {ρ : Store F} {extents p : List Nat}
  {reads : List AffineRead} {inputs : List Value} {xs : List (MVal F)}

theorem inputsAt_length (loaded : List.Forall₂ (Loaded Γ ρ extents E) reads inputs)
    (seen : inputs.mapM E = some xs) (p : List Nat) :
    (inputsAt ((reads.map AffineRead.indexMap).zip xs) p).length = inputs.length := by
  rw [inputsAt, List.length_map, List.length_zip, List.length_map, loaded.length_eq,
    ← (List.mapM_eq_some.mp seen).length_eq, Nat.min_self]

/-- The first arguments of the block hold the elements of the loads. -/
theorem hoisted_block (loaded : List.Forall₂ (Loaded Γ ρ extents E) reads inputs)
    (seen : inputs.mapM E = some xs) (inside : InBounds extents p)
    (dims : ∀ read ∈ reads, ∀ d ∈ read.indexMap.results, d < extents.length)
    {args outputs : List Value} {accs : List (MVal F)}
    (types : args.map Value.ty = (inputs ++ outputs).map fun v => v.ty.elemOrSelf)
    (values : args.mapM E' =
      some (inputsAt ((reads.map AffineRead.indexMap).zip xs) p ++ accs)) :
    List.Forall₂ (fun read v => Hoisted Γ ρ p E' v read) reads (args.take reads.length) := by
  have length := inputsAt_length loaded seen p
  have types' : (args.take reads.length).map Value.ty =
      inputs.map fun v => v.ty.elemOrSelf := by
    rw [List.map_take, types, List.map_append, List.take_left']
    rw [List.length_map, loaded.length_eq]
  refine hoisted_args loaded seen inside dims types' ?_
  rw [List.mapM_eq_some] at values ⊢
  have first := List.forall₂_take reads.length values
  rwa [List.take_left' (length.trans loaded.length_eq.symm)] at first

end Block

section Map

variable (cfg : Config) {prog : Prog} {W : World F} {point : List Nat} {E : Env F} {ctx : Ctx}
  {Γ : Types} {ρ : Store F} {call : String → List (FVal F) → Option (List (FVal F))}
  {space : SegSpace} {bounds : List (IntType × Nat)} {stms : List Stm} {result : List SubExp}
  {ts : List PrimType} {K : List Nat → List (FVal F)}

/-- The block of a map yields the results of the kernel at its point. -/
theorem mapBlock_runs (calls : CallsAgree W prog call) {ds : IterationSpace}
    (type : typeKernel prog Γ space (.mk stms result) = some ts)
    (hspace : evalSpace W.machine.toFloatOps ρ space = some bounds)
    (kernel : ∀ p, InBounds (bounds.map Prod.snd) p → evalKernel W.machine.toFloatOps call space
      bounds (.mk stms result) ρ p = some (K p))
    (stands : Stands E ctx Γ ρ) (spans : Spans E 0 space.dims bounds ds)
    (fresh : FreshNames Γ (space.dims.map Prod.fst ++ stmsBinders stms))
    (single : ∀ stm ∈ stms, ∃ elem exp, stm = .mk [elem] exp) {inputs outputs : List Value}
    {xs : List (MVal F)}
    (loaded : List.Forall₂ (Loaded Γ ρ (bounds.map Prod.snd) E) (space.affineReads stms) inputs)
    (seen : inputs.mapM E = some xs) :
    Lower.Runs W point E (Lower.inBlock ((inputs ++ outputs).map fun v => v.ty.elemOrSelf)
      fun args => do
        let (results, _) ← lowerSegOpKernelBody cfg args (space.affineReads stms) ds
          (lowerKernelStms cfg prog calleeOf stms) result ctx
        assertThat cfg (results.length == outputs.length)
        return (results, ())) fun E' r => E' = E ∧ BlockRuns W E r.1
          (AtArgs (bounds.map Prod.snd)
            (((space.affineReads stms).map AffineRead.indexMap).zip xs) outputs.length)
          fun i outs _ => ∃ ps, K i.1 = ps.map .prim ∧ outs = lowerAll ps ∧
            List.Forall₂ PVal.HasType ps ts := by
  refine .inBlock _ _ fun i q vals pre => ?_
  obtain ⟨p, accs⟩ := i
  obtain ⟨rfl, inside, count, rfl⟩ := pre
  refine ⟨?_, fun args E₀ sub types values => ?_⟩
  · rw [List.length_append, inputsAt_length loaded seen, List.length_map, List.length_map,
      List.length_append, count]
  have dims : ∀ read ∈ space.affineReads stms, ∀ d ∈ read.indexMap.results,
      d < (bounds.map Prod.snd).length := by
    intro read hread d hd
    rw [List.length_map, spans.length.2]
    exact (affineReads_inside hread).2 d hd
  obtain ⟨Γ₁, Γ₂, ρ₁, ρ₂, k⟩ := kernel_at stands type hspace (kernel _ inside)
  have loads := hoisted_block loaded seen inside dims types values
  refine .bind (lowerSegOpKernelBody_runs cfg calls k hspace inside (stands.mono sub)
    (spans.mono sub) fresh single loads) fun r E₁ sub₁ hr => ?_
  refine .bind (.liftExcept _) fun _ E₂ sub₂ h => .pure ?_
  obtain ⟨⟨ps, eq, computes⟩, _⟩ := hr
  obtain ⟨rfl, _⟩ := h
  exact ⟨_, computes.values, ps, eq, rfl, computes.types⟩

/-- What the kernel yields as its result `k`, as an array over the space. -/
def IsResult (K : List Nat → List (FVal F)) (ts : List PrimType) (extents : List Nat) (k : Nat)
    (a : Tensor (PVal F)) : Prop :=
  a.shape = extents ∧ ∀ p, InBounds extents p → (K p)[k]? = some (.prim (a.get p)) ∧
    ∃ t, ts[k]? = some t ∧ (a.get p).HasType t

theorem identity_project {rank : Nat} {p : List Nat} (length : p.length = rank) :
    (AffineMap.identity rank).project p = p := by
  rw [AffineMap.identity, KernelShape.project_range (le_of_eq length.symm),
    List.take_of_length_le (le_of_eq length)]

theorem map_domain (rank : bounds.length = space.dims.length) {n : Nat} (results : 0 < n)
    {shapes : List (List Nat)}
    (loads : shapes = (space.affineReads stms).map fun r => r.indexMap.project (bounds.map Prod.snd)) :
    genericDomain space.dims.length
      ((space.affineReads stms).map AffineRead.indexMap ++
        List.replicate n (.identity space.dims.length))
      (shapes ++ List.replicate n (bounds.map Prod.snd)) = some (bounds.map Prod.snd) := by
  have length : (bounds.map Prod.snd).length = space.dims.length := by rw [List.length_map, rank]
  have domain := KernelShape.domain_of_covered ⟨space, stms, space.dims.length, n⟩ length
    (le_of_eq length.symm) fun d lt => .inl ⟨lt, results⟩
  rwa [List.take_of_length_le (le_of_eq length), ← loads] at domain

theorem filter_identity {extents p : List Nat} (inside : InBounds extents p) :
    (points extents).filter (fun q => (AffineMap.identity extents.length).project q = p) = [p] := by
  have same : ∀ q ∈ points extents,
      decide ((AffineMap.identity extents.length).project q = p) = (q == p) := by
    intro q hq
    rw [identity_project (mem_points.mp hq).length]
    exact (beq_eq_decide q p).symm
  rw [List.filter_congr same]
  rw [List.filter_beq, List.count_eq_one_of_mem (nodup_points extents) (mem_points.mpr inside)]
  rfl

theorem isEmpty_tensors {extents : List Nat} {vs : List Value} {tys : List MlirTy}
    (h : List.Forall₂ (IsEmpty W extents E) vs tys) :
    ∃ outs : List (Tensor (Scalar F)), vs.mapM E = some (outs.map .tensor) ∧
      outs.length = vs.length ∧ ∀ t ∈ outs, t.shape = extents := by
  induction h with
  | nil => exact ⟨[], rfl, rfl, by simp⟩
  | cons hv _ ih =>
    obtain ⟨outs, seen, length, shapes⟩ := ih
    refine ⟨⟨extents, _⟩ :: outs, by simp [hv.1, seen]; rfl, by simp [length], ?_⟩
    exact List.forall_mem_cons.mpr ⟨rfl, shapes⟩

theorem loaded_shapes {extents : List Nat} {reads : List AffineRead} {inputs : List Value}
    (h : List.Forall₂ (Loaded Γ ρ extents E) reads inputs) :
    ∃ xs, inputs.mapM E = some xs ∧
      xs.map MVal.extents = reads.map fun r => r.indexMap.project extents := by
  induction h with
  | nil => exact ⟨[], rfl, rfl⟩
  | cons hv _ ih =>
    obtain ⟨a, _, _, _, _, same, ⟨t, _, _, value, _, _, shape, _⟩, _⟩ := hv
    obtain ⟨xs, seen, extents⟩ := ih
    exact ⟨.tensor t :: xs, by simp [value, seen], by simp [MVal.extents, shape, same, extents]⟩

def KernelAtEach (K : List Nat → List (FVal F)) (extents : List Nat) (ts : List PrimType)
    (P : List Nat → List (PVal F) → Prop) : Prop :=
  ∀ p, InBounds extents p → ∃ ps, K p = ps.map .prim ∧ List.Forall₂ PVal.HasType ps ts ∧ P p ps

/-- What is known of an output at a point: nothing before it is written. -/
def Holding (b : Option (List (PVal F))) (xs : List (Scalar F)) : Prop :=
  ∀ ps, b = some ps → xs = ps.map PVal.lower

theorem toPrims_prims (ps : List (PVal F)) : (ps.map FVal.prim).mapM FVal.toPrim = some ps := by
  rw [List.mapM_eq_some, List.forall₂_map_left_iff, List.forall₂_same]
  exact fun _ _ => rfl

theorem toScalars_lowerAll (ps : List (PVal F)) :
    lowerAll ps = (ps.map PVal.lower).map MVal.scalar := by
  rw [lowerAll, List.map_map]
  rfl

/-- The `linalg.generic` of a map leaves the results of the kernel in its outputs. -/
theorem mapGeneric_runs {body : Block} {inputs outputs : List Value} {xs : List (MVal F)}
    {tys : List MlirTy} (rank : bounds.length = space.dims.length) (nonempty : ts ≠ [])
    (loaded : List.Forall₂ (Loaded Γ ρ (bounds.map Prod.snd) E) (space.affineReads stms) inputs)
    (seen : inputs.mapM E = some xs) {tys' : List MlirTy}
    (empty : List.Forall₂ (IsEmpty W (bounds.map Prod.snd) E) outputs tys')
    (count : outputs.length = ts.length) (types : tys.length = outputs.length)
    (runs : BlockRuns W E body (AtArgs (bounds.map Prod.snd)
      (((space.affineReads stms).map AffineRead.indexMap).zip xs) outputs.length)
      fun i outs _ => ∃ ps, K i.1 = ps.map .prim ∧ outs = lowerAll ps ∧
        List.Forall₂ PVal.HasType ps ts) :
    Emit.Runs W point E (Emit.create (.generic inputs.length
      ((space.affineReads stms).map AffineRead.indexMap ++
        List.replicate outputs.length (.identity space.dims.length))
      (List.replicate space.dims.length .parallel)) (inputs ++ outputs) tys [body]) fun E' vs =>
        vs.map Value.ty = tys ∧ ∃ results, vs.mapM E' = some (results.map .tensor) ∧
          (∀ t ∈ results, t.shape = bounds.map Prod.snd) ∧
          KernelAtEach K (bounds.map Prod.snd) ts fun p ps =>
            elementsAt results p = ps.map PVal.lower := by
  obtain ⟨outs, seenOuts, outCount, outShapes⟩ := isEmpty_tensors empty
  obtain ⟨xs', seen', inShapes⟩ := loaded_shapes loaded
  cases seen.symm.trans seen'
  have outExtents : outs.map Tensor.shape =
      List.replicate outputs.length (bounds.map Prod.snd) := by
    rw [← outCount]
    exact List.map_eq_replicate_iff.mpr outShapes
  have domain := map_domain rank (count ▸ List.length_pos_of_ne_nil nonempty) inShapes
  rw [← outExtents] at domain
  let f (_ : Option (List (PVal F))) (p : List Nat) : Option (Option (List (PVal F))) :=
    ((K p).mapM FVal.toPrim).map some
  have steps : BodySteps Holding f
      ⟨body.args, fun p vals => execBlock W.machine W.call body p E vals⟩
      (((space.affineReads stms).map AffineRead.indexMap).zip xs) outputs.length
      (bounds.map Prod.snd) := by
    intro p inside b b' accs next length _
    obtain ⟨_, ws, exec, ps, eq, rfl, hasTypes⟩ := runs (p, accs) p _ ⟨rfl, inside, length, rfl⟩
    refine ⟨ps.map PVal.lower, ws, toScalars_lowerAll ps ▸ exec, ?_, fun qs hqs => ?_⟩
    · rw [List.length_map, hasTypes.length_eq, count]
    · have known : f b p = some (some ps) := by simp only [f, eq, toPrims_prims, Option.map_some]
      rw [known, hqs] at next
      rw [Option.some.inj (Option.some.inj next)]
  have each : KernelAtEach K (bounds.map Prod.snd) ts fun p ps =>
      ((points (bounds.map Prod.snd)).filter fun q =>
        (AffineMap.identity space.dims.length).project q = p).foldlM f none = some (some ps) := by
    intro p inside
    obtain ⟨_, _, _, ps, eq, _, hasTypes⟩ := runs (p, elementsAt outs p) p _
      ⟨rfl, inside, by rw [elementsAt, List.length_map, outCount], rfl⟩
    refine ⟨ps, eq, hasTypes, ?_⟩
    have width : (bounds.map Prod.snd).length = space.dims.length := by rw [List.length_map, rank]
    dsimp only at eq ⊢
    rw [← width, filter_identity inside]
    simp only [List.foldlM_cons, List.foldlM_nil, f, eq, toPrims_prims, Option.map_some,
      Option.bind_eq_bind, Option.bind_some, Option.pure_def]
  have defined : ∀ p, InBounds (bounds.map Prod.snd) p → ∃ b b',
      Holding b (elementsAt outs ((AffineMap.identity space.dims.length).project p)) ∧
      ((points (bounds.map Prod.snd)).filter fun q =>
        (AffineMap.identity space.dims.length).project q =
          (AffineMap.identity space.dims.length).project p).foldlM f b = some b' := by
    intro p inside
    obtain ⟨ps, _, _, fold⟩ := each p inside
    rw [identity_project (by rw [inside.length, List.length_map, rank])]
    exact ⟨none, some ps, fun _ h => (by cases h), fold⟩
  refine (generic_runs seen seenOuts ?_ types ?_ steps defined).weaken fun E' ws vs _ h => ?_
  · rw [List.length_map, loaded.length_eq]
  · rw [List.length_replicate]
    exact domain
  · obtain ⟨noWrites, tys, results, seen'', shapes, holds⟩ := h
    refine ⟨noWrites, tys, results, seen'', ?_, fun p inside => ?_⟩
    · intro t ht
      have member := List.mem_map_of_mem (f := Tensor.shape) ht
      rw [shapes, outExtents] at member
      exact (List.mem_replicate.mp member).2
    · obtain ⟨ps, eq, hasTypes, fold⟩ := each p inside
      exact ⟨ps, eq, hasTypes, holds p none _ (fun _ h => (by cases h)) fold ps rfl⟩

theorem results_represent {extents : List Nat} {shape : List Int} {elems : List ElemTy}
    {vs : List Value} {results : List (Tensor (Scalar F))}
    (types : vs.map Value.ty = tensorTypes shape elems) (fits : Fits shape extents)
    (seen : vs.mapM E = some (results.map .tensor)) (shapes : ∀ t ∈ results, t.shape = extents)
    (lowered : List.Forall₂ (fun t e => lowerPrimType t = .ok e) ts elems)
    (each : KernelAtEach K extents ts fun p ps => elementsAt results p = ps.map PVal.lower) :
    vs.length = ts.length ∧ ∀ k v, vs[k]? = some v →
      ∃ a, Represents E v (.array a) ∧ IsResult K ts extents k a := by
  have count : vs.length = elems.length := by
    have lengths := congrArg List.length types
    rwa [tensorTypes, List.length_map, List.length_map] at lengths
  refine ⟨count.trans lowered.length_eq.symm, fun k v hv => ?_⟩
  rw [List.mapM_eq_some, List.forall₂_map_right_iff] at seen
  obtain ⟨t, ht, value⟩ := List.forall₂_getElem? seen hv
  have elemTy : ∃ e, elems[k]? = some e ∧ v.ty = .tensor shape e := by
    have tyAt : (vs.map Value.ty)[k]? = some v.ty := by rw [List.getElem?_map, hv]; rfl
    rw [types, tensorTypes, List.getElem?_map] at tyAt
    obtain ⟨e, he, eq⟩ := Option.map_eq_some_iff.mp tyAt
    exact ⟨e, he, eq.symm⟩
  obtain ⟨e, he, ty⟩ := elemTy
  have at' : ∀ p, InBounds extents p → ∃ q : PVal F,
      ((K p)[k]? = some (.prim q) ∧ ∃ t, ts[k]? = some t ∧ q.HasType t) ∧
        t.get p = q.lower ∧ q.elemTy = e := by
    intro p inside
    obtain ⟨ps, eq, hasTypes, elements⟩ := each p inside
    have element : (elementsAt results p)[k]? = some (t.get p) := by
      rw [elementsAt, List.getElem?_map, ht]
      rfl
    rw [elements, List.getElem?_map] at element
    obtain ⟨q, hq, lower⟩ := Option.map_eq_some_iff.mp element
    obtain ⟨t', ht', hasType⟩ := List.forall₂_getElem? hasTypes hq
    obtain ⟨e', he', lowers⟩ := List.forall₂_getElem? lowered ht'
    cases he.symm.trans he'
    refine ⟨q, ⟨by rw [eq, List.getElem?_map, hq]; rfl, t', ht', hasType⟩, lower.symm, ?_⟩
    exact Except.ok.inj (hasType.symm.trans lowers)
  have : Nonempty (PVal F) := ⟨.bool false⟩
  choose! q hq using at'
  refine ⟨⟨extents, q⟩, ⟨t, shape, e, value, ty, ?_, ?_, fun p inside => (hq p inside).2⟩, rfl,
    fun p inside => (hq p inside).1⟩
  · rwa [shapes t (List.mem_of_getElem? ht)]
  · exact shapes t (List.mem_of_getElem? ht)

/-- A map yields, for each result of its kernel, the array of the values it has at the points
of the space. -/
theorem lowerSegMap_runs (calls : CallsAgree W prog call) {lvl : SegLevel} {ret : List Ty}
    (type : typeKernel prog Γ space (.mk stms result) = some ts)
    (returns : ret = ts.map .prim) (nonempty : ts ≠ [])
    (hspace : evalSpace W.machine.toFloatOps ρ space = some bounds)
    (kernel : ∀ p, InBounds (bounds.map Prod.snd) p → evalKernel W.machine.toFloatOps call space
      bounds (.mk stms result) ρ p = some (K p))
    (stands : Stands E ctx Γ ρ)
    (fresh : FreshNames Γ (space.dims.map Prod.fst ++ stmsBinders stms))
    (fill : ReadsFill space bounds stms Γ ρ) :
    Lower.Runs W point E (lowerSegMap cfg lvl space stms result ret
      (lowerKernelStms cfg prog calleeOf stms) ctx) fun E' vs =>
        vs.length = ts.length ∧ ∀ k v, vs[k]? = some v →
          ∃ a, Represents E' v (.array a) ∧ IsResult K ts (bounds.map Prod.snd) k a := by
  unfold lowerSegMap
  refine .bind (.liftExcept _) fun _ E₁ sub₁ _ => ?_
  refine .bind (.lift (lowerSegDims_runs (stands.mono sub₁).rep 0 hspace))
    fun ds E₂ sub₂ spans => ?_
  refine .bind (.liftExcept _) fun rs E₃ sub₃ hrs => ?_
  obtain ⟨rfl, hrs⟩ := hrs
  obtain ⟨rfl, single⟩ := spans.names.findSegOpAffineReads_eq hrs
  have stands₃ := (stands.mono sub₁).mono sub₂
  refine .bind (.lift (lookups_loaded stands₃ fill)) fun inputs E₄ sub₄ loaded => ?_
  refine .bind (.liftExcept _) fun tys E₅ sub₅ htys => ?_
  obtain ⟨rfl, htys⟩ := htys
  obtain ⟨shape, hshape⟩ := spans.shape
  obtain ⟨elems, helems, rfl⟩ := segOpTypes_eq htys hshape
  refine .bind (.lift (spaceSizes_runs (spans.mono sub₄) hshape)) fun sizes E₆ sub₆ hsizes => ?_
  refine .bind (.lift (tensorEmpties_runs hsizes elems)) fun outputs E₇ sub₇ houtputs => ?_
  have later := sub₄.trans (sub₆.trans sub₇)
  have loaded₇ := loaded.imp fun _ _ h => h.mono (sub₆.trans sub₇)
  obtain ⟨xs, seen, _⟩ := loaded_shapes loaded₇
  refine .bind (mapBlock_runs cfg calls type hspace kernel (stands₃.mono later)
    (spans.mono later) fresh single loaded₇ seen) fun r E₈ sub₈ hr => ?_
  obtain ⟨rfl, runs⟩ := hr
  have rank : bounds.length = space.dims.length := spans.length.2
  have lowered : List.Forall₂ (fun t e => lowerPrimType t = .ok e) ts elems := by
    rw [returns, Except.mapM_eq_ok, List.forall₂_map_left_iff] at helems
    exact helems
  have types : (tensorTypes shape elems).length = outputs.length := houtputs.length_eq.symm
  have count : outputs.length = ts.length := by
    rw [← types, tensorTypes, List.length_map, lowered.length_eq]
  have op : Emit.Runs W point _ _ _ :=
    mapGeneric_runs rank nonempty loaded₇ seen houtputs count types runs
  rw [spans.length.1]
  refine (Lower.Effects.lift op).weaken fun E' ws vs _ h => ?_
  obtain ⟨noWrites, tys, results, seen', shapes, each⟩ := h
  obtain ⟨ns, _, resolved⟩ := hsizes
  exact ⟨noWrites, results_represent tys (resolveShape_fits resolved) seen' shapes lowered each⟩

theorem typeKernel_parts (type : typeKernel prog Γ space (.mk stms result) = some ts) :
    ∃ gs Γ₁ Γ₂, typeSpace Γ space = some gs ∧
      Γ.bind (space.dims.map Prod.fst) ((gs.map .int).map .prim) = some Γ₁ ∧
      typeStms prog stms Γ₁ = some Γ₂ ∧ result.mapM (typeSubExp Γ₂) = some ts := by
  rw [typeKernel] at type
  obtain ⟨gs, hgs, type⟩ := Option.bind_eq_some_iff.mp type
  obtain ⟨Γ₁, gtidTypes, type⟩ := Option.bind_eq_some_iff.mp type
  rw [typeBody] at type
  obtain ⟨Γ₂, stmTypes, resultTypes⟩ := Option.bind_eq_some_iff.mp type
  exact ⟨gs, Γ₁, Γ₂, hgs, gtidTypes, stmTypes, resultTypes⟩

theorem lowerSegMap_accepts (type : typeKernel prog Γ space (.mk stms result) = some ts)
    (typed : ctx.Related HasTy Γ)
    (fresh : FreshNames Γ (space.dims.map Prod.fst ++ stmsBinders stms))
    (single : ∀ stm ∈ stms, ∃ elem exp, stm = .mk [elem] exp)
    (arrays : ∀ read ∈ space.affineReads stms, ∃ elem shape,
      Γ read.array = some (.array elem shape)) :
    (lowerSegMap releaseConfig .thread space stms result (ts.map .prim)
      (lowerKernelStms releaseConfig prog calleeOf stms) ctx).Accepts fun vs =>
        vs.length = ts.length := by
  obtain ⟨gs, Γ₁, Γ₂, hgs, gtidTypes, stmTypes, resultTypes⟩ := typeKernel_parts type
  obtain ⟨shape, hshape⟩ := toShapeType_typed hgs
  obtain ⟨tys, htys, length⟩ := segOpTypes_accepts hshape (typeSubExps_ne_unit resultTypes)
  unfold lowerSegMap
  refine .bind (.liftExcept (Q := fun _ => True) rfl trivial) fun _ _ => ?_
  refine .bind (.lift ((lowerSegDims_accepts typed 0 hgs).andReturns
    (lowerSegDims_returns 0 space.dims))) fun ds hds => ?_
  obtain ⟨dimsTyped, names⟩ := hds
  have found : ∃ reads, findSegOpAffineReads ds stms = .ok reads :=
    findSegOpAffineReads_exists single
  obtain ⟨reads, hreads⟩ := found
  obtain ⟨rfl, _⟩ := names.findSegOpAffineReads_eq hreads
  refine .bind (.liftExcept hreads rfl) fun _ eq => ?_
  subst eq
  refine .bind (.lift (lookups_accepts typed arrays)) fun inputs hinputs => ?_
  refine .bind (.liftExcept htys rfl) fun _ eq => ?_
  subst eq
  refine .bind (.lift (spaceSizes_accepts ds)) fun sizes _ => ?_
  refine .bind (.lift (tensorEmpties_accepts tys sizes)) fun outputs houtputs => ?_
  refine .bind (.inBlock (P := fun _ => True) fun args types => ?_) fun p _ => ?_
  · refine .bind (lowerSegOpKernelBody_accepts typed gtidTypes stmTypes resultTypes names dimsTyped
      fresh single (elements_typed hinputs types)) fun r _ => ?_
    exact .bind (.liftExcept (Q := fun _ => True) rfl trivial) fun _ _ => .pure trivial
  · refine .lift (Emit.Accepts.create.weaken fun vs hvs => ?_)
    have same := congrArg List.length hvs
    rwa [List.length_map, length] at same

/-- A map over a space of any rank is accepted, and its result `k` holds at every point the
result `k` of the kernel, whose statements are run in order there. -/
theorem segMap_computes (calls : CallsAgree W prog call) (stands : Stands E ctx Γ ρ)
    (type : typeKernel prog Γ space (.mk stms result) = some ts)
    (single : ∀ stm ∈ stms, ∃ elem exp, stm = .mk [elem] exp)
    (fresh : FreshNames Γ (space.dims.map Prod.fst ++ stmsBinders stms))
    (hspace : evalSpace W.machine.toFloatOps ρ space = some bounds)
    (fill : ReadsFill space bounds stms Γ ρ)
    (kernel : ∀ p, InBounds (bounds.map Prod.snd) p → evalKernel W.machine.toFloatOps call space
      bounds (.mk stms result) ρ p = some (K p)) :
    (∀ b, ∃ vs b', (lowerSegOp releaseConfig prog calleeOf
      (.segMap .thread space (ts.map .prim) (.mk stms result)) ctx).run b = .ok (vs, b')) ∧
    ∀ k < ts.length, Lower.Runs W point E (lowerSegOp releaseConfig prog calleeOf
      (.segMap .thread space (ts.map .prim) (.mk stms result)) ctx) fun E' vs => ∃ v a,
        vs[k]? = some v ∧ Represents E' v (.array a) ∧ IsResult K ts (bounds.map Prod.snd) k a := by
  rw [lowerSegOp]
  constructor
  · have arrays : ∀ read ∈ space.affineReads stms, ∃ elem shape,
        Γ read.array = some (.array elem shape) := by
      intro read hread
      obtain ⟨_, elem, shape, _, array, _⟩ := fill read hread
      exact ⟨elem, shape, array⟩
    intro b
    obtain ⟨vs, b', run, _⟩ := lowerSegMap_accepts type stands.typed fresh single arrays b
    exact ⟨vs, b', run⟩
  · intro k lt
    refine (lowerSegMap_runs releaseConfig calls type rfl (List.ne_nil_of_length_pos (by omega))
      hspace kernel stands fresh fill).weaken fun E' ws vs _ h => ⟨h.1, ?_⟩
    have lt' : k < vs.length := by rwa [h.2.1]
    obtain ⟨a, represents, isResult⟩ := h.2.2 k _ (List.getElem?_eq_getElem lt')
    exact ⟨_, a, List.getElem?_eq_getElem lt', represents, isResult⟩

end Map

section Examples

def numbersTypes (n : Nat) : Types :=
  Binding.empty.insert "xs" (.array (.int .int64) [.const (.createInt n 64)])

theorem numbers_stands (n : Nat) :
    Stands (numbersEnv n) (numbersCtx n) (numbersTypes n) (numbersStore n) := by
  refine ⟨fun x ty hx => ?_, numbers_represents n, fun x hx => ?_⟩
  · by_cases eq : x = "xs"
    · rw [eq, numbersTypes, Binding.insert_self] at hx
      cases hx
      exact ⟨arrayValue [n], by rw [eq]; rfl, [n], .int 64, rfl, rfl, rfl⟩
    · rw [numbersTypes, Binding.insert_of_ne _ _ eq] at hx
      cases hx
  · by_cases eq : x = "xs"
    · rw [eq, numbersTypes, Binding.insert_self]
      exact Option.some_ne_none _
    · rw [numbersStore, Binding.insert_of_ne _ _ eq] at hx
      exact (hx rfl).elim

theorem emptyProg_calls (W : World F) (call : String → List (FVal F) → Option (List (FVal F))) :
    CallsAgree W emptyProg call := by
  intro fname sig h
  cases h

def doubled (p : List Nat) : List (FVal Unit) :=
  [.prim (.int .int64 (BitVec.ofNat 64 (linear [4] p) + BitVec.ofNat 64 (linear [4] p)))]

theorem doubling_kernel {p : List Nat} (inside : InBounds [4] p) :
    evalKernel unitMachine.toFloatOps (fun _ _ => none) doublingKernel.space [(.int64, 4)]
      (.mk doublingKernel.stms [.var "y"]) (numbersStore 4) p = some (doubled p) := by
  obtain ⟨i, _, lt, rest, rfl⟩ := List.forall₂_cons_left_iff.mp inside
  cases rest
  match i, lt with
  | 0, _ => rfl
  | 1, _ => rfl
  | 2, _ => rfl
  | 3, _ => rfl

def loadStms : List Stm :=
  [.mk [⟨"x", .prim (.int .int64)⟩] (.basicOp (.index "xs" [.fix (.var "i")]))]

def sumParams : List Param := [⟨"a", .prim (.int .int64)⟩, ⟨"b", .prim (.int .int64)⟩]

def sumBody : Body :=
  .mk [.mk [⟨"c", .prim (.int .int64)⟩]
    (.basicOp (.binOp (.add .int64 .wrap) (.var "a") (.var "b")))] [.var "c"]

theorem loadStms_affineReads :
    doublingKernel.space.affineReads loadStms = [⟨"x", "xs", ⟨1, [0]⟩⟩] := by
  decide

theorem numbersTypes_fresh {m : Nat} {names : List VName} (nodup : names.Nodup)
    (other : "xs" ∉ names) : FreshNames (numbersTypes m) names :=
  ⟨nodup, fun _ hx => Binding.insert_of_ne _ _ fun eq => other (eq ▸ hx)⟩

theorem segMap_computes_doubling : ∃ vs b' new E' v a,
    (lowerSegOp releaseConfig emptyProg calleeOf doubling (numbersCtx 4)).run afterArray =
      .ok (vs, b') ∧ b'.ip.ops = [] ++ new ∧
    execOps unitMachine (fun _ _ => none) new [] (numbersEnv 4) = some (E', []) ∧
    vs[0]? = some v ∧ Represents E' v (.array a) ∧ IsResult doubled [.int .int64] [4] 0 a := by
  let W : World Unit := ⟨unitMachine, fun _ _ => none⟩
  have calls : CallsAgree W emptyProg fun _ _ => none := emptyProg_calls W _
  have single : ∀ stm ∈ doublingKernel.stms, ∃ elem exp, stm = .mk [elem] exp := by
    intro stm hstm
    simp only [doublingKernel, List.mem_cons, List.not_mem_nil, or_false] at hstm
    rcases hstm with rfl | rfl <;> exact ⟨_, _, rfl⟩
  have fresh : FreshNames (numbersTypes 4)
      (doublingKernel.space.dims.map Prod.fst ++ stmsBinders doublingKernel.stms) := by
    refine ⟨by decide, fun x hx => ?_⟩
    simp only [doublingKernel, stmsBinders, Exp.binders, List.map_cons, List.map_nil,
      List.append_nil, List.cons_append, List.nil_append, List.mem_cons, List.not_mem_nil,
      or_false] at hx
    rcases hx with rfl | rfl | rfl <;> exact Binding.insert_of_ne _ _ (by decide)
  have fill : ReadsFill doublingKernel.space [(.int64, 4)] doublingKernel.stms (numbersTypes 4)
      (numbersStore 4) := by
    intro read hread
    rw [doubling_affineReads] at hread
    cases List.mem_singleton.mp hread
    exact ⟨numbers 4, _, _, Binding.insert_self _ _ _, Binding.insert_self _ _ _, rfl⟩
  have type : typeKernel emptyProg (numbersTypes 4) doublingKernel.space
      (.mk doublingKernel.stms [.var "y"]) = some [.int .int64] := rfl
  have computes : (∀ b, ∃ vs b', (lowerSegOp releaseConfig emptyProg calleeOf doubling
      (numbersCtx 4)).run b = .ok (vs, b')) ∧ ∀ k < 1, Lower.Runs W [] (numbersEnv 4)
        (lowerSegOp releaseConfig emptyProg calleeOf doubling (numbersCtx 4)) fun E' vs =>
          ∃ v a, vs[k]? = some v ∧ Represents E' v (.array a) ∧
            IsResult doubled [.int .int64] [4] k a := by
    have spelled : doubling = .segMap .thread doublingKernel.space ([.int .int64].map .prim)
        (.mk doublingKernel.stms [.var "y"]) := rfl
    rw [spelled]
    exact segMap_computes calls (numbers_stands 4) type single fresh (doubling_space 4) fill
      fun p => doubling_kernel
  obtain ⟨vs, b', run⟩ := computes.1 afterArray
  obtain ⟨new, E', _, ops, exec, _, _, rfl, v, a, hv, represents, isResult⟩ :=
    computes.2 0 Nat.zero_lt_one afterArray vs b' run (numbers_below 4)
  exact ⟨vs, b', new, E', v, a, run, ops, exec, hv, represents, isResult⟩

end Examples

end FutharkMlir
