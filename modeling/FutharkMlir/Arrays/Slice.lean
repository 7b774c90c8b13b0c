import FutharkMlir.Lib.Except
import FutharkMlir.Simulation.Scalars

namespace FutharkMlir

variable {F : Type}

/-- One dimension of an index expression: a position, or a slice of positions. -/
inductive IndexVal where
  | fix (i : Int)
  | slice (start : Int) (length : Nat) (stride : Int)

namespace IndexVal

def isSlice : IndexVal → Bool
  | .fix _ => false
  | .slice _ _ _ => true

def length? : IndexVal → Option Nat
  | .fix _ => none
  | .slice _ n _ => some n

def lengths (ds : List IndexVal) : List Nat := ds.filterMap length?

/-- The position in the source of a point of what is read. -/
def coords : List IndexVal → List Nat → List Int
  | [], _ => []
  | .fix i :: ds, p => i :: coords ds p
  | .slice start _ stride :: ds, j :: p => (start + j * stride) :: coords ds p
  | .slice _ _ _ :: _, [] => []

def element {α : Type} (ds : List IndexVal) (a : Tensor α) (p : List Nat) : α :=
  a.get ((coords ds p).map Int.toNat)

/-- One position for each dimension of the source, and all that are read exist. -/
def InSource {α : Type} (ds : List IndexVal) (a : Tensor α) : Prop :=
  ds.length = a.shape.length ∧ ∀ p ∈ points (lengths ds), Reads a.shape (coords ds p)

instance {α : Type} (ds : List IndexVal) (a : Tensor α) : Decidable (InSource ds a) :=
  inferInstanceAs (Decidable (_ ∧ _))

end IndexVal

section Meaning

variable (fl : FloatOps F) (ρ : Store F)

def evalInt (se : SubExp) : Option Int :=
  match evalPrim fl ρ se with
  | some (.int _ v) => some v.toInt
  | _ => none

def evalDimIndex : DimIndex → Option IndexVal
  | .fix i => (evalInt fl ρ i).map .fix
  | .slice start length stride => do
    let i ← evalInt fl ρ start
    let n ← evalInt fl ρ length
    let s ← evalInt fl ρ stride
    if 0 ≤ n then return .slice i n.toNat s else none

/-- What an index expression denotes: an element, or an array of the slices' lengths. -/
def evalSlice (arr : VName) (dims : List DimIndex) : Option (FVal F) :=
  match ρ arr with
  | some (.array a) => do
    let ds ← dims.mapM (evalDimIndex fl ρ)
    if IndexVal.InSource ds a then
      if ds.any IndexVal.isSlice then return .array ⟨IndexVal.lengths ds, IndexVal.element ds a⟩
      else return .prim (IndexVal.element ds a [])
    else none
  | _ => none

end Meaning

section Units

/-- A dimension as it is sliced: by its offset, its size and its stride. -/
def IndexVal.start : IndexVal → Int
  | .fix i => i
  | .slice start _ _ => start

def IndexVal.size : IndexVal → Nat
  | .fix _ => 1
  | .slice _ n _ => n

def IndexVal.step : IndexVal → Int
  | .fix _ => 1
  | .slice _ _ stride => stride

/-- What is read is the source sliced in every dimension, at the points where the fixed
dimensions, which have size one, are zero. -/
theorem IndexVal.coords_slice {ds : List IndexVal} {q : List Nat} (h : InBounds (lengths ds) q) :
    ∃ p, Restores (ds.map size) (lengths ds) q p ∧
      sliceAt ((ds.map start).zip (ds.map step)) p = coords ds q := by
  induction ds generalizing q with
  | nil =>
    cases h
    exact ⟨[], .nil, rfl⟩
  | cons d ds ih =>
    cases d with
    | fix i =>
      obtain ⟨p, restores, coords⟩ := ih h
      exact ⟨0 :: p, .drop restores, by simp [sliceAt, IndexVal.coords, start, step, coords]⟩
    | slice s n stride =>
      cases h with
      | @cons _ j _ q lt h =>
        obtain ⟨p, restores, coords⟩ := ih h
        exact ⟨j :: p, .keep lt restores, by simp [sliceAt, IndexVal.coords, start, step, coords]⟩

/-- Every point of the sliced dimensions is read at some point of the result. -/
theorem IndexVal.slice_coords {ds : List IndexVal} {p : List Nat} (h : InBounds (ds.map size) p) :
    ∃ q, InBounds (lengths ds) q ∧
      sliceAt ((ds.map start).zip (ds.map step)) p = coords ds q := by
  induction ds generalizing p with
  | nil =>
    cases h
    exact ⟨[], .nil, rfl⟩
  | cons d ds ih =>
    cases h with
    | @cons _ j _ p lt h =>
      obtain ⟨q, inside, coords⟩ := ih h
      cases d with
      | fix i =>
        rw [Nat.lt_one_iff.mp lt]
        exact ⟨q, inside, by simp [sliceAt, IndexVal.coords, start, step, coords]⟩
      | slice s n stride =>
        exact ⟨j :: q, .cons lt inside, by simp [sliceAt, IndexVal.coords, start, step, coords]⟩

end Units

section Lowering

variable {W : World F} {point : List Nat} {E : Env F} {ctx : Ctx} {ρ : Store F}

theorem evalInt_some {fl : FloatOps F} {se : SubExp} {i : Int} :
    evalInt fl ρ se = some i ↔ ∃ t v, evalPrim fl ρ se = some (.int t v) ∧ v.toInt = i := by
  unfold evalInt
  constructor
  · intro h
    split at h
    · rename_i t v value
      exact ⟨t, v, value, Option.some.inj h⟩
    · cases h
  · rintro ⟨t, v, value, rfl⟩
    rw [value]

/-- An attribute that is the integer, or a value that holds it. -/
def StandsForInt (E : Env F) : Int ⊕ Value → Int → Prop
  | .inl n, i => n = i
  | .inr v, i => ∃ x, E v = some x ∧ x.toInt = some i

theorem StandsForInt.mono {E' : Env F} {o : Int ⊕ Value} {i : Int} (h : StandsForInt E o i)
    (sub : E.Sub E') : StandsForInt E' o i := by
  cases o with
  | inl n => exact h
  | inr v =>
    obtain ⟨x, hx, value⟩ := h
    exact ⟨x, sub _ _ hx, value⟩

theorem toIndex_runs (rep : ctx.Represents E ρ) {se : SubExp} {i : Int}
    (h : evalInt W.machine.toFloatOps ρ se = some i) :
    Emit.Runs W point E (toIndex ctx se) fun E' o => StandsForInt E' o i := by
  obtain ⟨t, v, value, rfl⟩ := evalInt_some.mp h
  have le : t.getWidth ≤ 64 := by cases t <;> decide
  cases se with
  | const c =>
    unfold toIndex
    refine .bind (.liftExcept _) fun n E₁ _ hn => .pure ⟨rfl, ?_⟩
    cases c with
    | int c =>
      cases value
      cases hn.2
      exact BitVec.toInt_signExtend_of_le le
    | float c => cases value
    | bool b => cases value
    | unit => cases value
  | var x =>
    obtain ⟨val, stored, prim⟩ := Option.bind_eq_some_iff.mp value
    cases val with
    | array a => cases prim
    | prim p =>
      cases prim
      unfold toIndex
      refine .bind (lookup_runs rep stored) fun w E₁ sub₁ hw => ?_
      refine .bind (indexCast_int_runs (hw.1 ▸ hw.2)) fun u E₂ sub₂ hu => .pure ⟨rfl, ?_⟩
      exact ⟨_, hu.1, congrArg some (BitVec.toInt_signExtend_of_le le)⟩

/-- What is known of an offset or a size statically is what the shape of a type knows. -/
theorem toIndex_returns (se : SubExp) :
    (toIndex ctx se).Returns fun o => toShapeDim se = .ok ((staticPart o).getD kDynamic) := by
  cases se with
  | const c =>
    unfold toIndex
    refine .bind (Emit.liftExcept_returns _) fun n hn => .pure ?_
    rw [toShapeDim, hn]
    rfl
  | var x =>
    unfold toIndex
    exact .bind (.any _) fun v _ => .bind (.any _) fun u _ => .pure rfl

structure SliceDim.StandsFor (E : Env F) (sd : SliceDim) (d : IndexVal) : Prop where
  offset : StandsForInt E sd.offset d.start
  size : StandsForInt E sd.size d.size
  stride : sd.stride = d.step

theorem SliceDim.StandsFor.mono {E' : Env F} {sd : SliceDim} {d : IndexVal}
    (h : sd.StandsFor E d) (sub : E.Sub E') : sd.StandsFor E' d :=
  ⟨h.offset.mono sub, h.size.mono sub, h.stride⟩

theorem constantStride_eq {fl : FloatOps F} {se : SubExp} {n i : Int}
    (h : constantStride se = .ok n) (denotes : evalInt fl ρ se = some i) : n = i := by
  obtain ⟨t, v, value, rfl⟩ := evalInt_some.mp denotes
  cases se with
  | var x => cases h
  | const c =>
    cases c with
    | int c =>
      cases value
      have le : c.t.getWidth ≤ 64 := by cases c.t <;> decide
      have known : (if c.getValue.toInt < 1 then .error .undefined else .ok c.getValue.toInt :
          Except Err Int) = .ok n := h
      split at known
      · cases known
      · cases known
        exact BitVec.toInt_signExtend_of_le le
    | float c => cases h
    | bool b => cases h
    | unit => cases h

theorem lowerSliceDim_runs (rep : ctx.Represents E ρ) {d : DimIndex} {iv : IndexVal}
    (h : evalDimIndex W.machine.toFloatOps ρ d = some iv) :
    Emit.Runs W point E (lowerSliceDim ctx d) fun E' sd => sd.StandsFor E' iv := by
  cases d with
  | fix i =>
    obtain ⟨n, value, rfl⟩ := Option.map_eq_some_iff.mp h
    unfold lowerSliceDim
    refine .bind (toIndex_runs rep value) fun offset E₁ _ ho => .pure ⟨rfl, ?_⟩
    exact ⟨ho, rfl, rfl⟩
  | slice start length stride =>
    simp only [evalDimIndex, Option.bind_eq_bind, Option.bind_eq_some_iff] at h
    obtain ⟨i, hi, n, hn, k, hk, h⟩ := h
    split at h
    · rename_i nonneg
      cases h
      unfold lowerSliceDim
      refine .bind (toIndex_runs rep hi) fun offset E₁ sub₁ ho => ?_
      refine .bind (toIndex_runs (rep.mono sub₁) hn) fun size E₂ sub₂ hs => ?_
      refine .bind (.liftExcept _) fun s E₃ sub₃ stride => ?_
      refine .bind (.liftExcept _) fun extent E₄ sub₄ _ => .pure ⟨rfl, ?_⟩
      refine ⟨ho.mono (sub₂.trans (sub₃.trans sub₄)), ?_, constantStride_eq stride.2 hk⟩
      have size : ((n.toNat : Nat) : Int) = n := Int.toNat_of_nonneg nonneg
      rw [IndexVal.size, size]
      exact hs.mono (sub₃.trans sub₄)
    · cases h

/-- The extent a dimension has in the result, and what is known of its size. -/
def ExtentOf (d : DimIndex) (sd : SliceDim) : Prop :=
  match d with
  | .fix _ => sd.extent = none ∧ sd.size = .inl 1
  | .slice _ length _ => sd.extent = some ((staticPart sd.size).getD kDynamic) ∧
      toShapeDim length = .ok ((staticPart sd.size).getD kDynamic)

theorem lowerSliceDim_returns (d : DimIndex) :
    (lowerSliceDim ctx d).Returns fun sd => ExtentOf d sd := by
  cases d with
  | fix i =>
    unfold lowerSliceDim
    exact .bind (.any _) fun offset _ => .pure ⟨rfl, rfl⟩
  | slice start length stride =>
    unfold lowerSliceDim
    refine .bind (.any _) fun offset _ => .bind (toIndex_returns length) fun size known => ?_
    refine .bind (.any _) fun s _ => .bind (Emit.liftExcept_returns _) fun extent hextent => .pure ?_
    rw [known] at hextent
    cases hextent
    exact ⟨rfl, known⟩

/-- The dynamic parts are the operands, and with them the integers are resolved. -/
theorem resolveInts_runs {os : List (Int ⊕ Value)} {is : List Int}
    (h : List.Forall₂ (StandsForInt E) os is) :
    ∃ args dyn, (os.filterMap dynamicPart).mapM E = some args ∧ args.mapM MVal.toInt = some dyn ∧
      ∀ rest, resolveInts (os.map staticPart) (dyn ++ rest) = some (is, rest) := by
  induction h with
  | nil => exact ⟨[], [], rfl, rfl, fun _ => rfl⟩
  | @cons o i os is ho _ ih =>
    obtain ⟨args, dyn, seen, ints, resolved⟩ := ih
    cases o with
    | inl n =>
      cases ho
      exact ⟨args, dyn, seen, ints, fun rest => by simp [staticPart, resolveInts, resolved]⟩
    | inr v =>
      obtain ⟨x, hx, value⟩ := ho
      refine ⟨x :: args, i :: dyn, ?_, ?_, fun rest => ?_⟩
      · simp [dynamicPart, hx, seen]
      · simp [value, ints]
      · simp [staticPart, resolveInts, resolved]

theorem resolveInts_static (is rest : List Int) :
    resolveInts (is.map some) rest = some (is, rest) := by
  induction is with
  | nil => rfl
  | cons i is ih => simp [resolveInts, ih]

def SliceDim.known (sd : SliceDim) : Int := (staticPart sd.size).getD kDynamic

/-- A dimension that is sliced keeps its extent, a fixed one has none. -/
def SliceDim.Keeps (sd : SliceDim) : IndexVal → Prop
  | .fix _ => sd.extent = none ∧ sd.size = .inl 1
  | .slice _ _ _ => sd.extent = some sd.known

/-- The result is the sliced dimensions without those of the fixed indices. -/
theorem sliceDims_reduce {sds : List SliceDim} {ivs : List IndexVal}
    (h : List.Forall₂ (fun sd iv => SliceDim.StandsFor E sd iv ∧ sd.Keeps iv) sds ivs) :
    ∃ ds es, ds.map Prod.fst = sds.map SliceDim.known ∧ ds.map Prod.snd = ivs.map IndexVal.size ∧
      es.map Prod.fst = sds.filterMap SliceDim.extent ∧ es.map Prod.snd = IndexVal.lengths ivs ∧
      Reduces ds es ∧ ∀ d ∈ ds, dimFits d.1 d.2 := by
  induction h with
  | nil => exact ⟨[], [], rfl, rfl, rfl, rfl, .nil, by simp⟩
  | @cons sd iv sds ivs hd _ ih =>
    obtain ⟨ds, es, known, sizes, extents, lengths, reduces, fits⟩ := ih
    obtain ⟨stands, keeps⟩ := hd
    cases iv with
    | fix i =>
      obtain ⟨extent, size⟩ := keeps
      have one : sd.known = 1 := by rw [SliceDim.known, size]; rfl
      refine ⟨(1, 1) :: ds, es, ?_, ?_, ?_, ?_, .drop reduces, ?_⟩
      · rw [List.map_cons, List.map_cons, known, one]
      · rw [List.map_cons, List.map_cons, sizes]
        rfl
      · rw [List.filterMap_cons, extent]
        exact extents
      · exact lengths
      · exact List.forall_mem_cons.mpr ⟨.inr rfl, fits⟩
    | slice start n stride =>
      have extent : sd.extent = some sd.known := keeps
      refine ⟨(sd.known, n) :: ds, (sd.known, n) :: es, ?_, ?_, ?_, ?_, .keep _ reduces, ?_⟩
      · rw [List.map_cons, List.map_cons, known]
      · rw [List.map_cons, List.map_cons, sizes]
        rfl
      · rw [List.filterMap_cons, extent, List.map_cons, extents]
      · rw [List.map_cons, lengths]
        rfl
      · refine List.forall_mem_cons.mpr ⟨?_, fits⟩
        have size : StandsForInt E sd.size (n : Int) := stands.size
        unfold SliceDim.known
        cases eq : sd.size with
        | inl m =>
          rw [eq] at size
          exact .inr size
        | inr v => exact .inl rfl

/-- The slice that is taken has the lengths and the elements that are meant. -/
theorem slice_some {sds : List SliceDim} {ivs : List IndexVal}
    (h : List.Forall₂ (fun sd iv => SliceDim.StandsFor E sd iv ∧ sd.Keeps iv) sds ivs)
    {t : Tensor (Scalar F)} (inside : IndexVal.InSource ivs t) :
    ∃ args dyn r, ((sds.map SliceDim.offset).filterMap dynamicPart ++
        (sds.map SliceDim.size).filterMap dynamicPart).mapM E = some args ∧
      args.mapM MVal.toInt = some dyn ∧
      t.slice ((sds.map SliceDim.offset).map staticPart) ((sds.map SliceDim.size).map staticPart)
        ((sds.map SliceDim.stride).map some) dyn (sds.filterMap SliceDim.extent) = some r ∧
      r.shape = IndexVal.lengths ivs ∧
      ∀ q, InBounds (IndexVal.lengths ivs) q → r.get q = IndexVal.element ivs t q := by
  have starts : List.Forall₂ (StandsForInt E) (sds.map SliceDim.offset) (ivs.map IndexVal.start) := by
    rw [List.forall₂_map_left_iff, List.forall₂_map_right_iff]
    exact h.imp fun _ _ hd => hd.1.offset
  have sizes : List.Forall₂ (StandsForInt E) (sds.map SliceDim.size)
      ((ivs.map IndexVal.size).map Int.ofNat) := by
    rw [List.forall₂_map_left_iff, List.map_map, List.forall₂_map_right_iff]
    exact h.imp fun _ _ hd => hd.1.size
  have strides : sds.map SliceDim.stride = ivs.map IndexVal.step := by
    rw [← List.forall₂_eq_eq_eq, List.forall₂_map_left_iff, List.forall₂_map_right_iff]
    exact h.imp fun _ _ hd => hd.1.stride
  obtain ⟨args, dyn, seen, ints, resolved⟩ := resolveInts_runs starts
  obtain ⟨args', dyn', seen', ints', resolved'⟩ := resolveInts_runs sizes
  obtain ⟨ds, es, known, full, extents, lengths, reduces, fits⟩ := sliceDims_reduce h
  have units : ∀ d ∈ ds, d.1 = 1 → d.2 = 1 := by
    intro d hd unit
    rcases fits d hd with dynamic | same
    · rw [unit] at dynamic
      cases dynamic
    · exact Int.ofNat_inj.mp (same.symm.trans unit)
  obtain ⟨kept, hkept, shape, restored⟩ := reduces.keptDims_some units
  rw [full, lengths] at restored
  rw [full, lengths] at shape
  have mask : keptDims (((sds.map SliceDim.size).map staticPart).map fun size => size.getD kDynamic)
      (sds.filterMap SliceDim.extent) = some kept := by
    rw [← extents, List.map_map, List.map_map, ← hkept, known]
    rfl
  have again := resolved' []
  rw [List.append_nil] at again
  have toNat : ((ivs.map IndexVal.size).map Int.ofNat).map Int.toNat = ivs.map IndexVal.size := by
    rw [List.map_map]
    simp
  refine ⟨args ++ args', dyn ++ dyn', ⟨IndexVal.lengths ivs, fun q => t.get ((sliceAt
    ((ivs.map IndexVal.start).zip (ivs.map IndexVal.step)) (restoreDims kept q)).map Int.toNat)⟩,
    ?_, ?_, ?_, rfl, fun q hq => ?_⟩
  · rw [List.mapM_append, seen, seen']
    rfl
  · rw [List.mapM_append, ints, ints']
    rfl
  · simp only [Tensor.slice, resolved, again, strides, resolveInts_static, mask, toNat, shape,
      Option.bind_eq_bind, Option.bind_some, Option.pure_def]
    refine if_pos ⟨trivial, ?_, ?_, ?_, ?_, ?_⟩
    · rw [List.length_map, inside.1]
    · rw [List.length_map, List.length_map, inside.1]
    · rw [List.length_map, inside.1]
    · simp
    · intro p hp
      obtain ⟨q, hq, coords⟩ := IndexVal.slice_coords (mem_points.mp hp)
      rw [coords]
      exact inside.2 q (mem_points.mpr hq)
  · obtain ⟨p, restores, coords⟩ := IndexVal.coords_slice hq
    have same : restoreDims kept q = p := (restored q hq).unique restores
    rw [IndexVal.element, ← coords, ← same]

theorem sliceDims_fits {sds : List SliceDim} {ivs : List IndexVal}
    (h : List.Forall₂ (fun sd iv => SliceDim.StandsFor E sd iv ∧ sd.Keeps iv) sds ivs) :
    Fits (sds.filterMap SliceDim.extent) (IndexVal.lengths ivs) := by
  obtain ⟨ds, es, _, _, extents, lengths, reduces, fits⟩ := sliceDims_reduce h
  rw [← extents, ← lengths, Fits, List.forall₂_map_left_iff, List.forall₂_map_right_iff]
  exact List.forall₂_same.mpr fun e he => fits e (reduces.subset he)

theorem Reads.inBounds {shape : List Nat} {c : List Int} (h : Reads shape c) :
    InBounds shape (c.map Int.toNat) := by
  rw [InBounds, List.forall₂_map_right_iff]
  exact List.Forall₂.imp (fun n i hi => (Int.toNat_lt hi.1).mpr hi.2) h

theorem evalDimIndex_isSlice {fl : FloatOps F} {d : DimIndex} {iv : IndexVal}
    (h : evalDimIndex fl ρ d = some iv) : d.isSlice = iv.isSlice := by
  cases d with
  | fix i =>
    obtain ⟨n, _, rfl⟩ := Option.map_eq_some_iff.mp h
    rfl
  | slice start length stride =>
    simp only [evalDimIndex, Option.bind_eq_bind, Option.bind_eq_some_iff] at h
    obtain ⟨i, _, n, _, k, _, h⟩ := h
    split at h
    · cases h
      rfl
    · cases h

theorem any_isSlice {fl : FloatOps F} {dims : List DimIndex} {ivs : List IndexVal}
    (values : List.Forall₂ (fun d iv => evalDimIndex fl ρ d = some iv) dims ivs) :
    dims.any DimIndex.isSlice = ivs.any IndexVal.isSlice := by
  induction values with
  | nil => rfl
  | cons hd _ ih => rw [List.any_cons, List.any_cons, evalDimIndex_isSlice hd, ih]

/-- The extents of the slices, as the result type knows them. -/
def sliceLengths (dims : List DimIndex) : List SubExp :=
  dims.filterMap fun d => match d with
    | .fix _ => none
    | .slice _ length _ => some length

theorem sliceDims_keep {dims : List DimIndex} {sds : List SliceDim} {ivs : List IndexVal}
    {fl : FloatOps F} (values : List.Forall₂ (fun d iv => evalDimIndex fl ρ d = some iv) dims ivs)
    (extents : List.Forall₂ ExtentOf dims sds) :
    List.Forall₂ SliceDim.Keeps sds ivs ∧
      List.Forall₂ (fun se s => toShapeDim se = .ok s) (sliceLengths dims)
        (sds.filterMap SliceDim.extent) := by
  induction values generalizing sds with
  | nil =>
    cases extents
    exact ⟨.nil, .nil⟩
  | @cons d iv dims ivs hd _ ih =>
    cases extents with
    | @cons _ sd _ sds hsd hsds =>
      obtain ⟨keeps, shape⟩ := ih hsds
      cases d with
      | fix i =>
        obtain ⟨n, _, rfl⟩ := Option.map_eq_some_iff.mp hd
        refine ⟨.cons hsd keeps, ?_⟩
        rw [List.filterMap_cons, hsd.1]
        exact shape
      | slice start length stride =>
        have sliced := evalDimIndex_isSlice hd
        obtain ⟨extent, known⟩ := hsd
        cases iv with
        | fix i => cases sliced
        | slice i n k =>
          refine ⟨.cons extent keeps, ?_⟩
          rw [List.filterMap_cons, extent]
          exact .cons known shape

theorem IndexVal.coords_fixed {ivs : List IndexVal} (fixed : ivs.any isSlice = false) :
    lengths ivs = [] ∧ coords ivs [] = ivs.map start := by
  induction ivs with
  | nil => exact ⟨rfl, rfl⟩
  | cons iv ivs ih =>
    rw [List.any_cons, Bool.or_eq_false_iff] at fixed
    obtain ⟨lengths, coords⟩ := ih fixed.2
    cases iv with
    | fix i => exact ⟨lengths, by rw [IndexVal.coords, coords]; rfl⟩
    | slice => cases fixed.1

theorem evalPosition_fixed {fl : FloatOps F} {d : DimIndex} {iv : IndexVal}
    (h : evalDimIndex fl ρ d = some iv) (fixed : iv.isSlice = false) (nonneg : 0 ≤ iv.start) :
    evalPosition fl ρ d = some iv.start.toNat := by
  rw [← evalDimIndex_isSlice h] at fixed
  cases d with
  | fix i =>
    obtain ⟨n, hn, rfl⟩ := Option.map_eq_some_iff.mp h
    obtain ⟨t, v, value, rfl⟩ := evalInt_some.mp hn
    have msb : v.msb = false := by
      rw [BitVec.msb_eq_toInt]
      exact decide_eq_false (not_lt.mpr nonneg)
    have toNat : v.toInt.toNat = v.toNat := by
      rw [BitVec.toInt_eq_toNat_of_msb msb, Int.toNat_natCast]
    simp [evalPosition, value, PVal.toIndex, msb, IndexVal.start, toNat]
  | slice start length stride => cases fixed

theorem evalSlice_fixed {fl : FloatOps F} {arr : VName} {dims : List DimIndex} {ivs : List IndexVal}
    {a : Tensor (PVal F)} (bound : ρ arr = some (.array a))
    (values : List.Forall₂ (fun d iv => evalDimIndex fl ρ d = some iv) dims ivs)
    (fixed : ivs.any IndexVal.isSlice = false) (inside : IndexVal.InSource ivs a) :
    evalIndex fl ρ arr dims = some (IndexVal.element ivs a []) := by
  obtain ⟨lengths, coords⟩ := IndexVal.coords_fixed fixed
  have reads : Reads a.shape (IndexVal.coords ivs []) :=
    inside.2 [] (by rw [lengths]; exact List.mem_singleton_self _)
  have nonneg : ∀ iv ∈ ivs, 0 ≤ iv.start := by
    intro iv hiv
    have member : iv.start ∈ IndexVal.coords ivs [] := coords ▸ List.mem_map_of_mem hiv
    obtain ⟨i, lt, eq⟩ := List.mem_iff_getElem.mp member
    have read := (List.forall₂_iff_get.mp reads).2 i
      (by rw [(List.forall₂_iff_get.mp reads).1]; exact lt) lt
    rw [← eq]
    exact read.1
  have positions : dims.mapM (evalPosition fl ρ) =
      some ((IndexVal.coords ivs []).map Int.toNat) := by
    rw [List.mapM_eq_some, coords, List.map_map, List.forall₂_map_right_iff]
    rw [List.any_eq_false] at fixed
    refine List.forall₂_iff_zip.mpr ⟨values.length_eq, fun {d iv} member => ?_⟩
    have hiv := (List.of_mem_zip member).2
    exact evalPosition_fixed (List.forall₂_zip values member) (Bool.eq_false_iff.mpr (fixed iv hiv))
      (nonneg iv hiv)
  rw [evalIndex, bound]
  simp [positions, reads.inBounds, IndexVal.element]

/-- What the type of an array knows of its extents: the lengths that are constants. -/
def KnowsLengths (dims : List DimIndex) (ty : MlirTy) : Prop :=
  ∃ shape elem, ty = .tensor shape elem ∧
    List.Forall₂ (fun se s => toShapeDim se = .ok s) (sliceLengths dims) shape

theorem lowerIndex_slices (rep : ctx.Represents E ρ) {arr : VName} {dims : List DimIndex}
    {ivs : List IndexVal} {a : Tensor (PVal F)} (bound : ρ arr = some (.array a))
    (values : List.Forall₂ (fun d iv => evalDimIndex W.machine.toFloatOps ρ d = some iv) dims ivs)
    (slices : ivs.any IndexVal.isSlice = true) (inside : IndexVal.InSource ivs a) :
    Emit.Runs W point E (lowerIndex arr dims ctx) fun E' u =>
      Represents E' u (.array ⟨IndexVal.lengths ivs, IndexVal.element ivs a⟩) ∧
        KnowsLengths dims u.ty := by
  unfold lowerIndex
  refine .bind (lookup_runs rep bound) fun v E₁ sub₁ hv => ?_
  obtain ⟨rfl, t, shape, elem, value, type, _, same, elements⟩ := hv
  rw [any_isSlice values, slices]
  have lowered : List.Forall₂ (fun d iv => ∀ E', E₁.Sub E' →
      Emit.Runs W point E' (lowerSliceDim ctx d) fun E'' sd => SliceDim.StandsFor E'' sd iv)
      dims ivs :=
    values.imp fun d iv hd E' sub => lowerSliceDim_runs (rep.mono sub) hd
  have each := Emit.Effects.mapM (R := fun E sd iv => SliceDim.StandsFor E sd iv)
    (fun _ _ _ _ sub h => h.mono sub) lowered
  refine .bind (each.returns (.mapM lowerSliceDim_returns dims)) fun sds E₂ sub₂ hsds => ?_
  obtain ⟨stands, extents⟩ := hsds
  obtain ⟨keeps, known⟩ := sliceDims_keep values extents
  have both : List.Forall₂ (fun sd iv => SliceDim.StandsFor E₂ sd iv ∧ sd.Keeps iv) sds ivs :=
    List.forall₂_iff_zip.mpr ⟨keeps.length_eq, fun member =>
      ⟨List.forall₂_zip stands member, List.forall₂_zip keeps member⟩⟩
  refine .bind (.liftExcept _) fun ranked E₃ sub₃ hranked => ?_
  rw [type] at hranked
  obtain ⟨rfl, hranked⟩ := hranked
  cases hranked
  have inside' : IndexVal.InSource ivs t := by rwa [IndexVal.InSource, same]
  obtain ⟨args, dyn, r, seen, ints, sliced, lengths, get⟩ := slice_some both inside'
  have all : (v :: ((sds.map SliceDim.offset).filterMap dynamicPart ++
      (sds.map SliceDim.size).filterMap dynamicPart)).mapM E₃ = some (.tensor t :: args) := by
    rw [List.mapM_cons, sub₂ _ _ value, seen]
    rfl
  refine (create1_runs (x := .tensor r) all ?eval).weaken fun E' ws u _ hu => ?denotes
  case eval =>
    simp only [evalOp, evalTensorOp, List.head?_cons, ints, sliced, Option.bind_eq_bind,
      Option.bind_some, Option.pure_def]
  case denotes =>
    refine ⟨hu.1, ⟨r, _, elem, hu.2.1, hu.2.2, lengths ▸ sliceDims_fits both, lengths,
      fun p hp => ?_⟩, ⟨_, elem, hu.2.2, known⟩⟩
    rw [get p hp]
    exact elements _ (inside.2 p (mem_points.mpr hp)).inBounds

/-- An index expression is lowered to what it denotes, and the type knows the lengths that
are constants, and only these. -/
theorem lowerIndex_denotes (rep : ctx.Represents E ρ) {arr : VName} {dims : List DimIndex}
    {val : FVal F} (h : evalSlice W.machine.toFloatOps ρ arr dims = some val) :
    Emit.Runs W point E (lowerIndex arr dims ctx) fun E' u => Represents E' u val ∧
      (dims.any DimIndex.isSlice = true → KnowsLengths dims u.ty) := by
  unfold evalSlice at h
  split at h
  · rename_i a bound
    obtain ⟨ivs, hvalues, h⟩ := Option.bind_eq_some_iff.mp h
    have values := List.mapM_eq_some.mp hvalues
    split at h
    · rename_i inside
      split at h
      · rename_i slices
        cases h
        exact (lowerIndex_slices rep bound values slices inside).weaken
          fun E' ws u _ hu => ⟨hu.1, hu.2.1, fun _ => hu.2.2⟩
      · rename_i fixed
        have fixed := Bool.eq_false_iff.mpr fixed
        cases h
        rw [any_isSlice values, fixed]
        exact (lowerIndex_runs rep (evalSlice_fixed bound values fixed inside)).weaken
          fun E' ws u _ hu => ⟨hu.1, hu.2, fun h => by cases h⟩
    · cases h
  · cases h

end Lowering

section Examples

def oddElements : List DimIndex :=
  [.slice (.const (.createInt 1 64)) (.const (.createInt 3 64)) (.const (.createInt 2 64))]

theorem lowerIndex_denotes_odd : ∃ u ip new E',
    (lowerIndex "xs" oddElements (numbersCtx 6)).run afterArray.ip = .ok (u, ip) ∧
    ip.ops = [] ++ new ∧
    execOps unitMachine (fun _ _ => none) new [] (numbersEnv 6) = some (E', []) ∧
    Represents E' u (.array ⟨[3], IndexVal.element [.slice 1 3 2] (numbers 6)⟩) ∧
    KnowsLengths oddElements u.ty := by
  let W : World Unit := ⟨unitMachine, fun _ _ => none⟩
  obtain ⟨⟨u, ip⟩, run⟩ := Except.exists_ok
    (x := (lowerIndex "xs" oddElements (numbersCtx 6)).run afterArray.ip) (by decide +kernel)
  have denotes : evalSlice unitMachine.toFloatOps (numbersStore 6) "xs" oddElements =
      some (.array ⟨[3], IndexVal.element [.slice 1 3 2] (numbers 6)⟩) := rfl
  obtain ⟨new, E', _, ops, exec, _, _, rfl, represents, known⟩ :=
    (lowerIndex_denotes (numbers_represents 6) denotes : Emit.Runs W [] _ _ _) afterArray.ip u ip run
      (numbers_below 6)
  exact ⟨u, ip, new, E', run, ops, exec, represents, known rfl⟩

end Examples

end FutharkMlir
