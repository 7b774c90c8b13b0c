import FutharkMlir.Arrays.Reshape
import FutharkMlir.Kernels.Space
import FutharkMlir.Simulation.Accepts

namespace FutharkMlir

variable {F : Type}

namespace FVal

/-- A primitive value is an array of rank zero. -/
def extents : FVal F → List Nat
  | .prim _ => []
  | .array a => a.shape

def element : FVal F → List Nat → PVal F
  | .prim p, _ => p
  | .array a, q => a.get q

/-- The value at every point of a shape; with the empty shape it is the value. -/
def replicate (ns : List Nat) (v : FVal F) : FVal F :=
  if ns = [] then v else .array ⟨ns ++ v.extents, fun p => v.element (p.drop ns.length)⟩

theorem replicate_of_ne {ns : List Nat} (h : ns ≠ []) (v : FVal F) :
    v.replicate ns = .array ⟨ns ++ v.extents, fun p => v.element (p.drop ns.length)⟩ := if_neg h

theorem replicate_extents (ns : List Nat) (v : FVal F) :
    (v.replicate ns).extents = ns ++ v.extents := by
  unfold replicate
  split
  · rename_i empty
    rw [empty]
    rfl
  · rfl

theorem replicate_element (ns : List Nat) (v : FVal F) (p : List Nat) :
    (v.replicate ns).element p = v.element (p.drop ns.length) := by
  unfold replicate
  split
  · rename_i empty
    rw [empty]
    rfl
  · rfl

theorem replicate_replicate (ns ms : List Nat) (v : FVal F) :
    (v.replicate ms).replicate ns = v.replicate (ns ++ ms) := by
  by_cases outer : ns = []
  · rw [outer, List.nil_append]
    exact if_pos rfl
  have both : ns ++ ms ≠ [] := fun h => outer (List.append_eq_nil_iff.mp h).1
  rw [replicate_of_ne outer (v.replicate ms), replicate_of_ne both, replicate_extents,
    List.append_assoc]
  congr 2
  funext p
  rw [replicate_element, List.drop_drop, List.length_append]

end FVal

/-- The rank and the extents of a tensor are numbers of type `index`. -/
structure Indexable (extents : List Nat) : Prop where
  rank : extents.length < 2 ^ 63
  below : ∀ n ∈ extents, n < 2 ^ 63

section Broadcast

theorem others_range (k m : Nat) :
    others (k + m) ((List.range k).map Int.ofNat) = (List.range m).map (k + ·) := by
  have selected : ∀ i : Nat, (i : Int) ∈ (List.range k).map Int.ofNat ↔ i < k := by
    intro i
    simp only [List.mem_map, List.mem_range]
    constructor
    · rintro ⟨j, lt, eq⟩
      rwa [← Int.ofNat_inj.mp eq]
    · exact fun lt => ⟨i, lt, rfl⟩
  unfold others
  rw [List.range_add, List.filter_append, List.filter_eq_nil_iff.mpr, List.nil_append,
    List.filter_eq_self.mpr]
  · intro i hi
    obtain ⟨j, _, rfl⟩ := List.mem_map.mp hi
    rw [decide_eq_true_eq, selected]
    omega
  · intro i hi
    rw [decide_eq_true_eq, selected, not_not]
    exact List.mem_range.mp hi

theorem map_getD_drop {α : Type} (xs : List α) (d : α) {k m : Nat} (length : xs.length = k + m) :
    ((List.range m).map (k + ·)).map (xs.getD · d) = xs.drop k := by
  refine List.ext_getElem (by simp [length]) fun i h₁ h₂ => ?_
  have lt : k + i < xs.length := by
    simp only [List.length_map, List.length_range] at h₁
    omega
  simp [lt]

theorem broadcast_outer {α : Type} (t : Tensor α) (ns : List Nat) :
    ∃ r, t.broadcast (List.range ns.length) (ns ++ t.shape) = some r ∧ r.shape = ns ++ t.shape ∧
      ∀ p, InBounds (ns ++ t.shape) p → r.get p = t.get (p.drop ns.length) := by
  have positions : Positions (ns ++ t.shape).length ((List.range ns.length).map Int.ofNat) := by
    refine ⟨List.Nodup.map (fun i j eq => Int.ofNat_inj.mp eq) List.nodup_range, fun i hi => ?_⟩
    obtain ⟨j, hj, rfl⟩ := List.mem_map.mp hi
    have lt := List.mem_range.mp hj
    rw [List.length_append]
    exact ⟨Int.natCast_nonneg j, by simp only [Int.ofNat_eq_natCast]; omega⟩
  have kept := others_range ns.length t.shape.length
  rw [← List.length_append] at kept
  have shape : t.shape = (others (ns ++ t.shape).length ((List.range ns.length).map Int.ofNat)).map
      ((ns ++ t.shape).getD · 0) := by
    rw [kept, map_getD_drop _ _ List.length_append, List.drop_left]
  refine ⟨_, if_pos ⟨positions, shape⟩, rfl, fun p hp => ?_⟩
  have length : p.length = ns.length + t.shape.length := by
    rw [hp.length, List.length_append]
  change t.get ((others _ _).map (p.getD · 0)) = _
  rw [kept, map_getD_drop _ _ length]

end Broadcast

section Sizes

variable {W : World F} {point : List Nat} {E : Env F} {ctx : Ctx} {ρ : Store F}

theorem SizesOf.nil : SizesOf E [] [] [] := ⟨[], .nil, rfl⟩

theorem SizesOf.dynamic {sizes : List Value} {shape : List Int} {extents : List Nat} {v : Value}
    {d : Int} {n : Nat} (h : SizesOf E sizes shape extents) (dyn : isDynamic d = true)
    (size : IsIndex E v n) : SizesOf E (v :: sizes) (d :: shape) (n :: extents) := by
  obtain ⟨ns, indices, resolved⟩ := h
  refine ⟨n :: ns, .cons size indices, ?_⟩
  rw [resolveShape, if_pos dyn]
  simp [resolved]

theorem SizesOf.static {sizes : List Value} {shape : List Int} {extents : List Nat} {d : Int}
    {n : Nat} (h : SizesOf E sizes shape extents) (known : ¬ isDynamic d = true)
    (fits : dimFits d n) : SizesOf E sizes (d :: shape) (n :: extents) := by
  obtain ⟨ns, indices, resolved⟩ := h
  cases fits.resolve_left known
  refine ⟨ns, indices, ?_⟩
  rw [resolveShape.eq_def]
  simp [known, resolved]

theorem SizesOf.append {sizes sizes' : List Value} {shape shape' : List Int}
    {extents extents' : List Nat} (h : SizesOf E sizes shape extents)
    (h' : SizesOf E sizes' shape' extents') :
    SizesOf E (sizes ++ sizes') (shape ++ shape') (extents ++ extents') := by
  obtain ⟨ns, indices, resolved⟩ := h
  obtain ⟨ns', indices', resolved'⟩ := h'
  refine ⟨ns ++ ns', List.rel_append indices indices', ?_⟩
  clear indices indices'
  induction shape generalizing ns extents with
  | nil =>
    cases ns with
    | nil =>
      cases resolved
      exact resolved'
    | cons n ns => cases resolved
  | cons d shape ih =>
    rw [resolveShape.eq_def] at resolved
    rw [List.cons_append, resolveShape.eq_def]
    by_cases dyn : isDynamic d = true
    · simp only [dyn, if_true] at resolved ⊢
      cases ns with
      | nil => cases resolved
      | cons n ns =>
        obtain ⟨rest, hrest, rfl⟩ := Option.map_eq_some_iff.mp resolved
        rw [List.cons_append]
        simp only [ih ns hrest, Option.map_some, List.cons_append]
    · simp only [dyn] at resolved ⊢
      by_cases neg : d < 0
      · simp [neg] at resolved
      · simp only [neg, if_false] at resolved ⊢
        obtain ⟨rest, hrest, rfl⟩ := Option.map_eq_some_iff.mp resolved
        simp [ih ns hrest]

/-- The sizes of the dimensions of a shape that its type does not know. -/
theorem dynamicShapeSizes_runs (rep : ctx.Represents E ρ) {dims : List SubExp} {shape : List Int}
    {ns : List Nat} (types : List.Forall₂ (fun d s => toShapeDim d = .ok s) dims shape)
    (values : List.Forall₂ (fun d n =>
      (evalPrim W.machine.toFloatOps ρ d).bind PVal.toIndex = some n) dims ns) :
    Emit.Runs W point E (dynamicShapeSizes ctx (dims.zip shape)) fun E' sizes =>
      SizesOf E' sizes shape ns := by
  induction types generalizing E ns with
  | nil =>
    cases values
    exact .pure ⟨rfl, .nil⟩
  | @cons d s dims shape hs _ ih =>
    cases values with
    | @cons _ n _ ns hn hns =>
      rw [List.zip_cons_cons]
      unfold dynamicShapeSizes
      split
      · rename_i dyn
        obtain ⟨p, hp, position⟩ := Option.bind_eq_some_iff.mp hn
        refine .bind (lowerPrim_runs rep hp) fun v E₁ sub₁ hv => ?_
        refine .bind (indexCast_runs hv position) fun size E₂ sub₂ hsize => ?_
        refine .bind (ih (rep.mono (sub₁.trans sub₂)) hns) fun sizes E₃ sub₃ h => ?_
        exact .pure ⟨rfl, h.dynamic dyn (hsize.1.mono sub₃)⟩
      · rename_i known
        exact (ih rep hns).weaken fun E' ws sizes _ h =>
          ⟨h.1, h.2.static known (toShapeDim_fits hs hn)⟩

/-- A position or an extent is what the constant or the `tensor.dim` yields. -/
theorem ofIndex_position {n : Nat} (below : n < 2 ^ 63) :
    (MVal.ofIndex n : MVal F).toIndex = some n := by
  have toNat : (BitVec.ofNat 64 n).toNat = n := by
    rw [BitVec.toNat_ofNat, Nat.mod_eq_of_lt (lt_trans below (by decide))]
  have nonneg : (BitVec.ofNat 64 n).msb = false := by
    rw [BitVec.msb_eq_decide, toNat]
    exact decide_eq_false (Nat.not_le.mpr below)
  simp [MVal.ofIndex, MVal.toIndex, nonneg, toNat]

theorem tensorDim_runs {v : Value} {t : Tensor (Scalar F)} (value : E v = some (.tensor t)) {i n : Nat}
    (small : i < 2 ^ 63) (extent : t.shape[i]? = some n) (below : n < 2 ^ 63) :
    Emit.Runs W point E (tensorDim v i) fun E' size => IsIndex E' size n := by
  unfold tensorDim constantIndex
  refine .bind createConstant_runs fun idx E₁ sub₁ hidx => ?_
  have position : (BitVec.ofInt 64 (i : Int)).toNat = i := by
    rw [BitVec.ofInt_natCast, BitVec.toNat_ofNat, Nat.mod_eq_of_lt (lt_trans small (by decide))]
  have seen : [v, idx].mapM E₁ = some [.tensor t, .scalar (.index (BitVec.ofInt 64 i))] := by
    simp [sub₁ _ _ value, hidx.1, TypedAttr.value]
  refine (create1_runs (x := .ofIndex n) seen ?_).weaken fun E' ws size _ h =>
    ⟨h.1, _, h.2.1, ofIndex_position below⟩
  simp only [evalOp, evalTensorOp, List.head?_cons, position, extent, Option.bind_eq_bind,
    Option.bind_some, Option.pure_def]

/-- The extents that are not known from the type are asked of the value. -/
theorem dynamicDimSizes_runs {v : Value} {t : Tensor (Scalar F)} (value : E v = some (.tensor t))
    (indexable : Indexable t.shape) {dims : List Int} {i : Nat} {extents : List Nat}
    (rest : t.shape.drop i = extents) (fits : Fits dims extents) :
    Emit.Runs W point E (dynamicDimSizes v i dims) fun E' sizes => SizesOf E' sizes dims extents := by
  induction dims generalizing E i extents with
  | nil =>
    cases fits
    exact .pure ⟨rfl, .nil⟩
  | cons d dims ih =>
    cases fits with
    | @cons _ n _ extents fit fits =>
      have extent : t.shape[i]? = some n := by
        rw [← List.getElem?_cons_zero, ← rest, List.getElem?_drop]
        rfl
      have later : t.shape.drop (i + 1) = extents := by
        rw [← List.drop_drop, rest]
        rfl
      obtain ⟨lt, eq⟩ := List.getElem?_eq_some_iff.mp extent
      have below : n < 2 ^ 63 := indexable.below n (eq ▸ List.getElem_mem lt)
      unfold dynamicDimSizes
      split
      · rename_i dyn
        refine .bind (tensorDim_runs value (lt_trans lt indexable.rank) extent below)
          fun size E₁ sub₁ hsize => ?_
        refine .bind (ih (sub₁ _ _ value) later fits) fun sizes E₂ sub₂ h => ?_
        exact .pure ⟨rfl, h.dynamic dyn (hsize.mono sub₂)⟩
      · rename_i known
        exact (ih value later fits).weaken fun E' ws sizes _ h => ⟨h.1, h.2.static known fit⟩

end Sizes

section Lowering

variable (cfg : Config) {W : World F} {point : List Nat} {E : Env F} {ctx : Ctx} {ρ : Store F}

/-- A tensor with the extents and the elements of the value. -/
def Holds (E : Env F) (source : Value) (elem : ElemTy) (v : FVal F) : Prop :=
  ∃ t, E source = some (.tensor t) ∧ t.shape = v.extents ∧
    ∀ p, InBounds v.extents p → t.get p = (v.element p).lower ∧ (v.element p).elemTy = elem

theorem Holds.mono {E' : Env F} {source : Value} {elem : ElemTy} {v : FVal F}
    (h : Holds E source elem v) (sub : E.Sub E') : Holds E' source elem v := by
  obtain ⟨t, value, rest⟩ := h
  exact ⟨t, sub _ _ value, rest⟩

theorem fromElements_runs {u : Value} {p : PVal F} (h : Represents E u (.prim p)) :
    Emit.Runs W point E (Emit.create1 .fromElements [u] (.tensor [] p.elemTy)) fun E' source =>
      Holds E' source p.elemTy (.prim p) := by
  have seen : [u].mapM E = some [.scalar p.lower] := by simp [h.1]
  refine (create1_runs (x := .tensor ⟨[], fun q => [p.lower].getD (linear [] q) (.index 0)⟩) seen
    rfl).weaken fun E' ws source _ hs => ⟨hs.1, _, hs.2.1, rfl, fun q hq => ?_⟩
  cases hq
  exact ⟨rfl, rfl⟩

theorem replicatedValue_runs {u : Value} {v : FVal F} (h : Represents E u v)
    (indexable : Indexable v.extents) :
    Emit.Runs W point E (replicatedValue u) fun E' r =>
      SizesOf E' r.2.2.1 r.1 v.extents ∧ Fits r.1 v.extents ∧ Holds E' r.2.2.2 r.2.1 v := by
  unfold replicatedValue
  cases v with
  | prim p =>
    rw [h.2]
    exact .bind (fromElements_runs h) fun source E₁ _ holds => .pure ⟨rfl, .nil, .nil, holds⟩
  | array a =>
    obtain ⟨t, shape, elem, value, type, fits, same, elements⟩ := h
    rw [type]
    have extents : t.shape.drop 0 = a.shape := same
    rw [same] at fits
    exact .bind (dynamicDimSizes_runs value (same ▸ indexable) extents fits)
      fun sizes E₁ sub₁ h => .pure ⟨rfl, h, fits, t, sub₁ _ _ value, same, elements⟩

theorem broadcast_runs {source destination : Value} {elem : ElemTy} {v : FVal F} {ns : List Nat}
    {contents : List Nat → Scalar F} {shape : List Int} (holds : Holds E source elem v)
    (empty : E destination = some (.tensor ⟨ns ++ v.extents, contents⟩)) (nonempty : ns ≠ [])
    (fits : Fits shape (ns ++ v.extents)) :
    Emit.Runs W point E (Emit.create1 (.broadcast (List.range ns.length)) [source, destination]
      (.tensor shape elem)) fun E' r => Represents E' r (v.replicate ns) := by
  obtain ⟨t, value, extents, elements⟩ := holds
  obtain ⟨r, broadcast, rshape, rget⟩ := broadcast_outer t ns
  rw [extents] at broadcast rshape rget
  have seen : [source, destination].mapM E =
      some [.tensor t, .tensor ⟨ns ++ v.extents, contents⟩] := by
    simp [value, empty]
  refine (create1_runs (x := .tensor r) seen ?eval).weaken fun E' ws u _ h => ?denotes
  case eval => simp [evalOp, evalTensorOp, broadcast]
  case denotes =>
    rw [FVal.replicate_of_ne nonempty]
    refine ⟨h.1, r, shape, elem, h.2.1, h.2.2, rshape ▸ fits, rshape, fun p hp => ?_⟩
    have inner : InBounds v.extents (p.drop ns.length) := by
      have drop := List.forall₂_drop ns.length hp
      rwa [List.drop_left] at drop
    rw [rget p hp]
    exact elements _ inner

section Accepts

variable {fl : FloatOps F}

theorem represented_accepts (rep : ctx.Represents E ρ) {se : SubExp} {v : FVal F}
    (hval : evalSubExp fl ρ se = some v) : (lowerSubExp ctx se).Accepts fun _ => True := by
  cases se with
  | var x =>
    obtain ⟨u, bound, _⟩ := rep x v hval
    rw [lowerSubExp, Ctx.lookup, bound]
    exact .pure trivial
  | const c =>
    unfold lowerSubExp lowerPrimValue
    cases c with
    | unit => cases hval
    | _ => exact .bindExcept rfl (Emit.Accepts.createConstant.weaken fun _ _ => trivial)

/-- An extent is an integer, so that its dimension has a type. -/
theorem toShapeType_ok {dims : List SubExp} {ns : List Nat} (hdims : evalDims fl ρ dims = some ns) :
    ∃ shape, toShapeType dims = .ok shape := by
  rw [evalDims, List.mapM_eq_some] at hdims
  induction hdims with
  | nil => exact ⟨[], rfl⟩
  | @cons d n dims ns hd _ ih =>
    obtain ⟨shape, hshape⟩ := ih
    have known : ∃ s, toShapeDim d = .ok s := by
      cases d with
      | var x => exact ⟨_, rfl⟩
      | const c =>
        cases c with
        | int c => exact ⟨_, rfl⟩
        | _ => cases hd
    obtain ⟨s, hs⟩ := known
    rw [toShapeType] at hshape
    refine ⟨s :: shape, ?_⟩
    rw [toShapeType, List.mapM_cons, hs, hshape]
    rfl

theorem dynamicShapeSizes_accepts (rep : ctx.Represents E ρ) {dims : List SubExp} {ns : List Nat}
    (hdims : evalDims fl ρ dims = some ns) (shape : List Int) :
    (dynamicShapeSizes ctx (dims.zip shape)).Accepts fun _ => True := by
  rw [evalDims, List.mapM_eq_some] at hdims
  induction hdims generalizing shape with
  | nil => exact .pure trivial
  | @cons d n dims ns hd _ ih =>
    cases shape with
    | nil => exact .pure trivial
    | cons s shape =>
      rw [List.zip_cons_cons, dynamicShapeSizes]
      split
      · obtain ⟨p, hp, _⟩ := Option.bind_eq_some_iff.mp hd
        obtain ⟨v, hv, _⟩ := Option.bind_eq_some_iff.mp hp
        refine .bind (represented_accepts rep hv) fun u _ => .bind .create1 fun size _ => ?_
        exact .bind (ih shape) fun sizes _ => .pure trivial
      · exact ih shape

theorem dynamicDimSizes_accepts (u : Value) (i : Nat) (shape : List Int) :
    (dynamicDimSizes u i shape).Accepts fun _ => True := by
  induction shape generalizing i with
  | nil => exact .pure trivial
  | cons d shape ih =>
    rw [dynamicDimSizes]
    split
    · refine .bind (.bind .createConstant fun idx _ => .create1) fun size _ => ?_
      exact .bind (ih (i + 1)) fun sizes _ => .pure trivial
    · exact ih (i + 1)

/-- Every replicate of a value by evaluated dimensions is accepted. -/
theorem lowerReplicate_accepts (rep : ctx.Represents E ρ) {dims : List SubExp} {val : SubExp}
    {ns : List Nat} {v : FVal F} (hdims : evalDims fl ρ dims = some ns)
    (hval : evalSubExp fl ρ val = some v) :
    (lowerReplicate cfg dims val ctx).Accepts fun _ => True := by
  obtain ⟨shape, hshape⟩ := toShapeType_ok hdims
  have length : dims.length = shape.length := (Except.mapM_eq_ok.mp hshape).length_eq
  unfold lowerReplicate
  refine .bind (represented_accepts rep hval) fun u _ => ?_
  split
  · exact .pure trivial
  refine .bindExcept hshape (.bindExcept (zipEqual_of_length cfg length) ?_)
  refine .bind (dynamicShapeSizes_accepts rep hdims shape) fun outer _ => ?_
  have inner : (replicatedValue u).Accepts fun _ => True := by
    unfold replicatedValue
    split
    · exact .bind (dynamicDimSizes_accepts u 0 _) fun sizes _ => .pure trivial
    · exact .bind .create1 fun t _ => .pure trivial
  refine .bind inner fun r _ => .bind .create1 fun destination _ => ?_
  exact Emit.Accepts.create1.weaken fun _ _ => trivial

end Accepts

theorem lowerReplicate_runs (rep : ctx.Represents E ρ) {dims : List SubExp} {val : SubExp}
    {ns : List Nat} {v : FVal F} (hdims : evalDims W.machine.toFloatOps ρ dims = some ns)
    (hval : evalSubExp W.machine.toFloatOps ρ val = some v) (indexable : Indexable v.extents) :
    Emit.Runs W point E (lowerReplicate cfg dims val ctx) fun E' r =>
      Represents E' r (v.replicate ns) := by
  rw [evalDims, List.mapM_eq_some] at hdims
  unfold lowerReplicate
  refine .bind (lowerSubExp_runs rep hval) fun u E₁ sub₁ hu => ?_
  split
  · rename_i empty
    rw [empty] at hdims
    cases hdims
    exact .pure ⟨rfl, hu⟩
  rename_i nonempty
  refine .bind (.liftExcept _) fun shape E₂ sub₂ hshape => ?_
  obtain ⟨rfl, hshape⟩ := hshape
  refine .bind (.liftExcept _) fun pairs E₃ sub₃ hpairs => ?_
  obtain ⟨rfl, hpairs⟩ := hpairs
  rw [zipEqual_eq cfg hpairs]
  have types := Except.mapM_eq_ok.mp hshape
  refine .bind (dynamicShapeSizes_runs (rep.mono sub₁) types hdims) fun outer E₄ sub₄ houter => ?_
  refine .bind (replicatedValue_runs (hu.mono sub₄) indexable) fun inner E₅ sub₅ hinner => ?_
  obtain ⟨innerShape, elem, innerSizes, source⟩ := inner
  obtain ⟨hsizes, hfits, hholds⟩ := hinner
  dsimp only
  refine .bind (tensorEmpty_runs ((houter.mono sub₅).append hsizes) elem)
    fun destination E₆ sub₆ hdest => ?_
  have outerFits : Fits shape ns := toShapeType_fits hshape (List.mapM_eq_some.mpr hdims)
  rw [hdest.2, List.Forall₂.length_eq outerFits]
  refine broadcast_runs (hholds.mono sub₆) hdest.1 ?_ (List.rel_append outerFits hfits)
  rintro rfl
  exact nonempty (List.eq_nil_of_length_eq_zero hdims.length_eq)

theorem Ctx.Represents.insert (rep : ctx.Represents E ρ) {u : Value} {v : FVal F}
    (hu : FutharkMlir.Represents E u v) (y : VName) : (ctx.insert y u).Represents E (ρ.insert y v) := by
  intro x val hx
  by_cases eq : x = y
  · rw [eq, Binding.insert_self] at hx
    cases hx
    exact ⟨u, by rw [eq, Ctx.insert_self], hu⟩
  · rw [Binding.insert_of_ne _ _ eq] at hx
    rw [Ctx.insert_of_ne _ _ eq]
    exact rep x val hx

theorem FVal.replicate_append (ns : List Nat) (v : FVal F) {i : List Nat} (h : i.length = ns.length)
    (j : List Nat) : (v.replicate ns).element (i ++ j) = v.element j := by
  rw [FVal.replicate_element, ← h, List.drop_left]

/-- A replicate is lowered to the array of the shape and then the value's shape that holds the
value at every point of the shape, and to the value itself for the empty shape. Replicating
what was replicated is replicating by both shapes. -/
theorem replicate_denotes (rep : ctx.Represents E ρ) {val : SubExp} {v : FVal F}
    (hval : evalSubExp W.machine.toFloatOps ρ val = some v) (indexable : Indexable v.extents) :
    (∀ dims ns, evalDims W.machine.toFloatOps ρ dims = some ns →
      ((v.replicate ns).extents = ns ++ v.extents ∧
        (∀ i j, InBounds ns i → (v.replicate ns).element (i ++ j) = v.element j) ∧
        (ns = [] → v.replicate ns = v)) ∧
      Emit.Runs W point E (lowerReplicate cfg dims val ctx) fun E' r =>
        Represents E' r (v.replicate ns)) ∧
    ∀ y dims₁ dims₂ ns₁ ns₂, evalDims W.machine.toFloatOps ρ dims₂ = some ns₂ →
      evalDims W.machine.toFloatOps (ρ.insert y (v.replicate ns₂)) dims₁ = some ns₁ →
      Indexable (ns₂ ++ v.extents) →
      Emit.Runs W point E (do
        let u ← lowerReplicate cfg dims₂ val ctx
        lowerReplicate cfg dims₁ (.var y) (ctx.insert y u)) fun E' r =>
          Represents E' r (v.replicate (ns₁ ++ ns₂)) := by
  refine ⟨fun dims ns hdims => ⟨⟨v.replicate_extents ns, ?_, fun h => if_pos h⟩,
    lowerReplicate_runs cfg rep hdims hval indexable⟩, ?_⟩
  · exact fun i j hi => v.replicate_append ns hi.length j
  · intro y dims₁ dims₂ ns₁ ns₂ h₂ h₁ both
    refine .bind (lowerReplicate_runs cfg rep h₂ hval indexable) fun u E₁ sub₁ hu => ?_
    rw [← FVal.replicate_replicate]
    refine lowerReplicate_runs cfg ((rep.mono sub₁).insert hu y) h₁ (Binding.insert_self _ _ _) ?_
    rwa [FVal.replicate_extents]

end Lowering

section Examples

/-- Two rows of four numbers each. -/
theorem replicate_denotes_rows : ∃ u ip new E',
    (lowerReplicate releaseConfig [.const (.createInt 2 64)] (.var "xs") (numbersCtx 4)).run
      afterArray.ip = .ok (u, ip) ∧ ip.ops = [] ++ new ∧
    execOps unitMachine (fun _ _ => none) new [] (numbersEnv 4) = some (E', []) ∧
    Represents E' u ((FVal.array (numbers 4)).replicate [2]) := by
  let W : World Unit := ⟨unitMachine, fun _ _ => none⟩
  have indexable : Indexable (FVal.array (numbers 4)).extents :=
    ⟨by decide, by decide⟩
  have value : evalSubExp unitMachine.toFloatOps (numbersStore 4) (.var "xs") =
      some (.array (numbers 4)) := rfl
  have extent : evalDims unitMachine.toFloatOps (numbersStore 4) [.const (.createInt 2 64)] =
      some [2] := rfl
  obtain ⟨u, ip, run, _⟩ :=
    lowerReplicate_accepts releaseConfig (numbers_represents 4) extent value afterArray.ip
  have runs : Emit.Runs W [] _ _ _ :=
    ((replicate_denotes releaseConfig (numbers_represents 4) value indexable).1 _ _ extent).2
  obtain ⟨new, E', _, ops, exec, _, _, rfl, represents⟩ := runs afterArray.ip u ip run
    (numbers_below 4)
  exact ⟨u, ip, new, E', run, ops, exec, represents⟩

end Examples

end FutharkMlir
