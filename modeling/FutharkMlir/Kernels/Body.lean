import FutharkMlir.Kernels.Space
import FutharkMlir.Simulation.Functions

/-! The body of a kernel at a point of its space: the loads at gtids are hoisted into block
arguments and their statements skipped, which changes no value. -/
namespace FutharkMlir

variable {F : Type}

def gtidValue (bound : IntType × Nat) (i : Nat) : PVal F :=
  .int bound.1 (BitVec.ofNat bound.1.getWidth i)

def gtidValues (bounds : List (IntType × Nat)) (p : List Nat) : List (PVal F) :=
  List.zipWith gtidValue bounds p

/-- The body of a kernel at a point: the gtids are bound, the statements are run in order. -/
def evalKernel (fl : FloatOps F) (call : String → List (FVal F) → Option (List (FVal F)))
    (space : SegSpace) (bounds : List (IntType × Nat)) (body : Body) (ρ : Store F)
    (p : List Nat) : Option (List (FVal F)) := do
  let ρ ← ρ.bind (space.dims.map Prod.fst) ((gtidValues bounds p).map .prim)
  evalBody fl call body ρ

def typeSpace (Γ : Types) (space : SegSpace) : Option (List IntType) :=
  (space.dims.map Prod.snd).mapM fun se => typeFixed Γ (.fix se)

def typeKernel (prog : Prog) (Γ : Types) (space : SegSpace) (body : Body) :
    Option (List PrimType) := do
  let ts ← typeSpace Γ space
  let Γ ← Γ.bind (space.dims.map Prod.fst) ((ts.map .int).map .prim)
  typeBody prog body Γ

section Loads

/-- The array a load at gtids reads is bound outside the kernel, and has the bounds of the
gtids as extents. -/
def ReadsFill (space : SegSpace) (bounds : List (IntType × Nat)) (stms : List Stm) (Γ : Types)
    (ρ : Store F) : Prop :=
  ∀ read ∈ space.affineReads stms, ∃ a elem shape, ρ read.array = some (.array a) ∧
    Γ read.array = some (.array elem shape) ∧
    a.shape = read.indexMap.project (bounds.map Prod.snd)

/-- The value stands for the element that a load at gtids reads at a point. -/
def Hoisted (Γ : Types) (ρ : Store F) (p : List Nat) (E : Env F) (v : Value)
    (read : AffineRead) : Prop :=
  ∃ a elem shape, ρ read.array = some (.array a) ∧ Γ read.array = some (.array elem shape) ∧
    Represents E v (.prim (a.get (read.indexMap.project p))) ∧ HasType v elem

theorem Hoisted.mono {Γ : Types} {ρ : Store F} {p : List Nat} {E E' : Env F} {v : Value}
    {read : AffineRead} (h : Hoisted Γ ρ p E v read) (sub : E.Sub E') : Hoisted Γ ρ p E' v read := by
  obtain ⟨a, elem, shape, ha, hΓ, rep, type⟩ := h
  exact ⟨a, elem, shape, ha, hΓ, rep.mono sub, type⟩

/-- The bounds fit into their types as numbers that are not negative. -/
theorem evalSpace_small {fl : FloatOps F} {ρ : Store F} {space : SegSpace}
    {bounds : List (IntType × Nat)} (h : evalSpace fl ρ space = some bounds) :
    ∀ b ∈ bounds, b.2 ≤ 2 ^ (b.1.getWidth - 1) := by
  rw [evalSpace, List.mapM_eq_some] at h
  generalize space.dims.map Prod.snd = ses at h
  induction h with
  | nil => simp
  | @cons se b _ _ hb _ ih =>
    refine List.forall_mem_cons.mpr ⟨?_, ih⟩
    obtain ⟨v, _, nonneg, eq⟩ := evalBound_some.mp hb
    rw [← eq]
    exact Nat.le_of_lt (BitVec.toNat_lt_of_msb_false nonneg)

theorem gtidValue_position {b : IntType × Nat} {i : Nat} (h : i < 2 ^ (b.1.getWidth - 1)) :
    (gtidValue b i : PVal F).toIndex = some i := by
  have whole : i < 2 ^ b.1.getWidth :=
    lt_of_lt_of_le h (Nat.pow_le_pow_right (by decide) (Nat.sub_le _ _))
  have toNat : (BitVec.ofNat b.1.getWidth i).toNat = i := by
    rw [BitVec.toNat_ofNat, Nat.mod_eq_of_lt whole]
  have nonneg : (BitVec.ofNat b.1.getWidth i).msb = false := by
    rw [BitVec.msb_eq_decide, toNat]
    exact decide_eq_false (Nat.not_le.mpr h)
  rw [gtidValue, PVal.toIndex, nonneg, toNat]
  rfl

/-- The gtid at a position of the space has the coordinate of the point. -/
theorem gtid_value {fl : FloatOps F} {names : List VName} {bounds : List (IntType × Nat)}
    {p : List Nat} {ρ ρ' : Store F} (small : ∀ b ∈ bounds, b.2 ≤ 2 ^ (b.1.getWidth - 1))
    (inside : InBounds (bounds.map Prod.snd) p) (nodup : names.Nodup)
    (bound : ρ.bind names ((gtidValues bounds p).map .prim) = some ρ') {j : Nat} {x : VName}
    (named : names[j]? = some x) : evalPosition fl ρ' (.fix (.var x)) = some (p.getD j 0) := by
  have values := List.mapM_eq_some.mp (Binding.bind_mapM bound nodup)
  obtain ⟨lt, rfl⟩ := List.getElem?_eq_some_iff.mp named
  have lt' : j < ((gtidValues bounds p).map (FVal.prim (F := F))).length := by
    rw [← values.length_eq]
    exact lt
  have value := (List.forall₂_iff_get.mp values).2 j lt lt'
  simp only [gtidValues, List.length_map, List.length_zipWith] at lt'
  have ltBounds : j < bounds.length := by omega
  have ltPoint : j < p.length := by omega
  simp only [List.get_eq_getElem, gtidValues, List.getElem_map, List.getElem_zipWith] at value
  have below : p[j] < (bounds[j]).2 := by
    have h := (List.forall₂_iff_get.mp inside).2 j (by simpa using ltBounds) ltPoint
    simpa using h
  have position := gtidValue_position (F := F)
    (lt_of_lt_of_le below (small _ (List.getElem_mem ltBounds)))
  simp only [evalPosition, evalPrim, evalSubExp, value, FVal.toPrim, Option.bind_some, position,
    List.getD_eq_getElem?_getD, List.getElem?_eq_getElem ltPoint, Option.getD_some]

/-- The positions of a load at gtids are the coordinates its map projects to. -/
theorem gtids_positions {fl : FloatOps F} {space : SegSpace} {p : List Nat} {ρ : Store F}
    (gtids : ∀ j x, (space.dims.map Prod.fst)[j]? = some x →
      evalPosition fl ρ (.fix (.var x)) = some (p.getD j 0))
    {dims : List DimIndex} {used : List Nat} (h : dims.mapM space.gtid = some used) :
    dims.mapM (evalPosition fl ρ) = some (used.map fun d => p.getD d 0) := by
  rw [List.mapM_eq_some] at h ⊢
  rw [List.forall₂_map_right_iff]
  refine h.imp fun d j hd => ?_
  obtain ⟨x, rfl, named⟩ := gtid_some hd
  exact gtids j x named

end Loads

section Bindings

variable {W : World F} {point : List Nat} {E : Env F} {ctx : Ctx} {Γ Γ' : Types} {ρ ρ' : Store F}

/-- A name that is bound already is bound in the types and in the store. -/
theorem Stands.bound (h : Stands E ctx Γ ρ) {x : VName} {v : Value} {p : PVal F} {t : PrimType}
    (hv : ctx x = some v) (rep : Represents E v (.prim p)) (type : HasType v t) :
    Stands E ctx (Γ.insert x (.prim t)) (ρ.insert x (.prim p)) := by
  obtain ⟨q, eq, hasType, value⟩ := rep.prim type
  cases eq
  have computes : Computes E [v] [p] [t] :=
    ⟨by simp [value, lowerAll], .cons hasType .nil, .cons type .nil⟩
  have same : ctx.insertAll ([x].zip [v]) = ctx := by
    funext y
    by_cases eq : y = x
    · rw [eq, hv]
      exact Ctx.insert_self _ _ _
    · exact Ctx.insert_of_ne _ _ eq
  have bound : Stands E (ctx.insertAll ([x].zip [v])) (Γ.insert x (.prim t))
      (ρ.insert x (.prim p)) := h.bind computes rfl rfl
  rwa [same] at bound

theorem Stands.hasType (h : Stands E ctx Γ ρ) {fl : FloatOps F} {se : SubExp} {t : PrimType}
    {p : PVal F} (type : typeSubExp Γ se = some t) (value : evalPrim fl ρ se = some p) :
    p.HasType t := by
  cases se with
  | const c =>
    cases c <;> cases type <;> cases value <;> rfl
  | var x =>
    obtain ⟨ty, bound, scalar⟩ := Option.bind_eq_some_iff.mp type
    obtain ⟨val, stored, prim⟩ := Option.bind_eq_some_iff.mp value
    obtain ⟨v, hv, hasTy⟩ := h.typed x ty bound
    obtain ⟨w, hw, rep⟩ := h.rep x val stored
    cases hv.symm.trans hw
    rw [Ty.scalar_eq scalar] at hasTy
    obtain ⟨q, rfl, hasType, _⟩ := rep.prim hasTy
    cases prim
    exact hasType

theorem IntType.getWidth_inj {t t' : IntType} (h : t.getWidth = t'.getWidth) : t = t' := by
  cases t <;> cases t' <;> first | rfl | cases h

theorem PVal.HasType.int_eq {t t' : IntType} {v : BitVec t.getWidth}
    (h : (PVal.int t v : PVal F).HasType (.int t')) : t' = t :=
  IntType.getWidth_inj (ElemTy.int.inj (Except.ok.inj h))

theorem typeFixed_some {se : SubExp} {t : IntType} (h : typeFixed Γ (.fix se) = some t) :
    typeSubExp Γ se = some (.int t) := by
  simp only [typeFixed] at h
  split at h
  · rename_i t' type
    cases h
    exact type
  · cases h

theorem Stands.space_types (h : Stands E ctx Γ ρ) {fl : FloatOps F} {space : SegSpace}
    {ts : List IntType} {bounds : List (IntType × Nat)} (types : typeSpace Γ space = some ts)
    (eval : evalSpace fl ρ space = some bounds) : ts = bounds.map Prod.fst := by
  rw [typeSpace, List.mapM_eq_some] at types
  rw [evalSpace, List.mapM_eq_some] at eval
  generalize space.dims.map Prod.snd = ses at types eval
  induction types generalizing bounds with
  | nil =>
    cases eval
    rfl
  | @cons se t _ _ ht _ ih =>
    cases eval with
    | cons hb hbs =>
      obtain ⟨v, value, _⟩ := evalBound_some.mp hb
      have type := h.hasType (typeFixed_some ht) value
      rw [List.map_cons, ← ih hbs, type.int_eq]

/-- The gtids are bound to the coordinates of the point the block is run at. -/
theorem bindGtids_runs {i : Nat} {dims : List (VName × SubExp)} {bounds : List (IntType × Nat)}
    {ds : IterationSpace} (spans : Spans E i dims bounds ds) (stands : Stands E ctx Γ ρ)
    {q : List Nat} (here : point.drop i = q) (length : q.length = bounds.length)
    (types : Γ.bind (dims.map Prod.fst) (((bounds.map Prod.fst).map .int).map .prim) = some Γ')
    (values : ρ.bind (dims.map Prod.fst) ((gtidValues bounds q).map .prim) = some ρ') :
    Emit.Runs W point E (bindGtids ds ctx) fun E' c =>
      Stands E' c Γ' ρ' ∧ ∀ x ∉ dims.map Prod.fst, c x = ctx x := by
  induction ds generalizing i dims bounds E ctx Γ ρ q with
  | nil =>
    cases dims with
    | nil =>
      cases bounds with
      | nil =>
        cases types
        cases values
        exact .pure ⟨rfl, stands, fun _ _ => rfl⟩
      | cons b bounds => exact spans.elim
    | cons p dims => cases bounds <;> exact spans.elim
  | cons d ds ih =>
    cases dims with
    | nil => cases bounds <;> exact spans.elim
    | cons p dims =>
      cases bounds with
      | nil => exact spans.elim
      | cons b bounds =>
        cases q with
        | nil => cases length
        | cons n q =>
          obtain ⟨⟨id, index, _, v, _, _, rep⟩, rest⟩ := spans
          have coordinate : point[i]? = some n := by
            rw [← List.getElem?_cons_zero, ← here, List.getElem?_drop]
            rfl
          have later : point.drop (i + 1) = q := by
            rw [← List.drop_drop, here]
            rfl
          unfold bindGtids
          have idx : Emit.Runs W point E (Emit.create1 (.linalgIndex d.index) [] .index)
              fun E' v => E' v = some (.ofIndex n) ∧ v.ty = .index :=
            create1_runs rfl (by simp [evalOp, index, coordinate])
          refine .bind idx fun idx E₁ sub₁ hidx => ?_
          rw [rep.2]
          refine .bind (counter_runs hidx.1) fun val E₂ sub₂ hval => ?_
          have computes : Computes E₂ [val] [gtidValue b n] [.int b.1] :=
            ⟨by simp [hval.1, lowerAll, gtidValue], .cons rfl .nil, .cons (hasType_of rfl hval.2) .nil⟩
          have bound : Stands E₂ (ctx.insertAll ([p.1].zip [val])) (Γ.insert p.1 (.prim (.int b.1)))
              (ρ.insert p.1 (.prim (gtidValue b n))) :=
            ((stands.mono sub₁).mono sub₂).bind computes rfl rfl
          refine (ih (rest.mono (sub₁.trans sub₂)) (id ▸ bound) later (Nat.succ.inj length) types
            values).weaken fun E' ws c _ hc => ⟨hc.1, hc.2.1, fun x hx => ?_⟩
          rw [List.map_cons, List.mem_cons, not_or] at hx
          rw [hc.2.2 x hx.2, id, Ctx.insert_of_ne _ _ hx.1]

end Bindings

end FutharkMlir
