import FutharkMlir.Kernels.Generic
import FutharkMlir.Lib.Zip
import FutharkMlir.Simulation.Scalars

/-! Rows that the iterations of a parallel loop insert: in whatever order they run, the result
has the row of each iteration. -/
namespace FutharkMlir

variable {F : Type}

namespace Write

def covers (w : Write F) (p : List Nat) : Bool := inSlice w.offsets w.sizes p

def value (w : Write F) (p : List Nat) : Scalar F :=
  w.source.get ((p.zipWith (· - ·) w.offsets).drop (p.length - w.source.shape.length))

theorem apply_get (w : Write F) (t : Tensor (Scalar F)) (p : List Nat) :
    (w.apply t).get p = if w.covers p then w.value p else t.get p := rfl

end Write

def insertInto (v : Value) (ws : List (Write F)) (t : Tensor (Scalar F)) : Tensor (Scalar F) :=
  ws.foldl (fun t w => if w.target = v then w.apply t else t) t

section Insertions

variable {v : Value} {ws : List (Write F)} {t : Tensor (Scalar F)}

theorem insertInto_shape : (insertInto v ws t).shape = t.shape := by
  unfold insertInto
  induction ws generalizing t with
  | nil => rfl
  | cons w ws ih =>
    rw [List.foldl_cons, ih]
    split <;> rfl

/-- Where all insertions that cover a point agree, one of them is enough. -/
theorem insertInto_get {p : List Nat} {s : Scalar F}
    (agree : ∀ w ∈ ws, w.target = v → w.covers p = true → w.value p = s)
    (some : t.get p = s ∨ ∃ w ∈ ws, w.target = v ∧ w.covers p = true) :
    (insertInto v ws t).get p = s := by
  unfold insertInto
  induction ws generalizing t with
  | nil =>
    rcases some with old | ⟨w, member, _⟩
    · exact old
    · cases member
  | cons w ws ih =>
    obtain ⟨head, tail⟩ := List.forall_mem_cons.mp agree
    rw [List.foldl_cons]
    refine ih tail ?_
    by_cases writes : w.target = v ∧ w.covers p = true
    · left
      rw [if_pos writes.1, Write.apply_get, if_pos writes.2]
      exact head writes.1 writes.2
    · have same : (if w.target = v then w.apply t else t).get p = t.get p := by
        split
        · rename_i target
          rw [Write.apply_get, if_neg fun covers => writes ⟨target, covers⟩]
        · rfl
      rw [same]
      rcases some with old | ⟨w', member, writes'⟩
      · exact .inl old
      · rcases List.mem_cons.mp member with rfl | later
        · exact (writes writes').elim
        · exact .inr ⟨w', later, writes'⟩

end Insertions

/-- The insertion of a row of `n` elements at an outer index. -/
def rowWrite (v : Value) (o : List Nat) (n : Nat) (row : Tensor (Scalar F)) : Write F :=
  { target := v, offsets := o ++ [0], sizes := List.replicate o.length 1 ++ [n], source := row }

def rowWrites (vs : List Value) (o : List Nat) (n : Nat) (rows : List (Tensor (Scalar F))) :
    List (Write F) :=
  (vs.zip rows).map fun q => rowWrite q.1 o n q.2

section Rows

variable {v : Value} {o q : List Nat} {n j : Nat} {row : Tensor (Scalar F)}

theorem inSlice_row (length : q.length = o.length) :
    inSlice (o ++ [0]) (List.replicate o.length 1 ++ [n]) (q ++ [j]) = true ↔ q = o ∧ j < n := by
  induction o generalizing q with
  | nil =>
    obtain rfl := List.eq_nil_of_length_eq_zero length
    simp [inSlice]
  | cons i o ih =>
    cases q with
    | nil => cases length
    | cons k q =>
      rw [List.length_cons, List.replicate_succ, List.cons_append, List.cons_append,
        List.cons_append, inSlice, Bool.and_eq_true, Bool.and_eq_true, decide_eq_true_eq,
        decide_eq_true_eq, ih (Nat.succ.inj length), List.cons.injEq]
      constructor
      · rintro ⟨⟨le, lt⟩, rest, below⟩
        exact ⟨⟨by omega, rest⟩, below⟩
      · rintro ⟨⟨rfl, rest⟩, below⟩
        exact ⟨⟨le_refl _, Nat.lt_succ_self _⟩, rest, below⟩

theorem rowWrite_covers (length : q.length = o.length) :
    (rowWrite v o n row).covers (q ++ [j]) = true ↔ q = o ∧ j < n :=
  inSlice_row length

theorem rowWrite_value (shape : row.shape = [n]) :
    (rowWrite v o n row).value (o ++ [j]) = row.get [j] := by
  have parts : (o ++ [j]).zipWith (· - ·) (o ++ [0]) = o.zipWith (· - ·) o ++ [j] := by
    rw [List.zipWith_append rfl]
    rfl
  have width : (o.zipWith (· - ·) o).length = o.length := by
    rw [List.length_zipWith, Nat.min_self]
  rw [Write.value, rowWrite, shape]
  dsimp only
  rw [parts, List.length_append, List.length_singleton, List.length_singleton,
    Nat.add_sub_cancel, List.drop_left' width]

end Rows

section Forall

variable {M : Machine F} {body : Region F} {point : List Nat} {outer : List Nat} {n : Nat}
  {outs : List (Tensor (Scalar F))} {ubs : List (MVal F)} {resTys : List MlirTy}
  {rows : List Nat → List (Tensor (Scalar F))}

/-- What the iteration at an outer index inserts: one row in each output. -/
def InsertsRows (body : Region F) (point : List Nat) (outer : List Nat) (n : Nat)
    (outs : List (Tensor (Scalar F))) (rows : List Nat → List (Tensor (Scalar F))) : Prop :=
  ∀ o, InBounds outer o →
    body.run point (o.map MVal.ofIndex ++ outs.map .tensor) =
      some ([], rowWrites (body.args.drop outer.length) o n (rows o)) ∧
    (rows o).length = outs.length ∧ ∀ row ∈ rows o, row.shape = [n]

theorem runForall_rows (upper : ubs.mapM MVal.toIndex = some outer)
    (count : resTys.length = outs.length)
    (targets : (body.args.drop outer.length).Nodup)
    (width : (body.args.drop outer.length).length = outs.length)
    (inserts : InsertsRows body point outer n outs rows) :
    ∃ results, runForall M body point resTys (ubs ++ outs.map .tensor) =
        some (results.map .tensor) ∧ results.map Tensor.shape = outs.map Tensor.shape ∧
      ∀ o j, InBounds outer o → j < n →
        elementsAt results (o ++ [j]) = elementsAt (rows o) [j] := by
  have rank : ubs.length = outer.length := (List.mapM_eq_some.mp upper).length_eq
  have bounds : (ubs ++ outs.map MVal.tensor).length - resTys.length = outer.length := by
    rw [List.length_append, List.length_map, count, rank, Nat.add_sub_cancel]
  have tensors : (outs.map MVal.tensor).mapM MVal.toTensor = some outs := by
    rw [List.mapM_eq_some, List.forall₂_map_left_iff, List.forall₂_same]
    exact fun _ _ => rfl
  let order := M.schedule (points outer)
  have all : ∀ o, o ∈ order ↔ InBounds outer o := fun o =>
    (M.schedule_perm _).mem_iff.trans mem_points
  let writes := order.map fun o => rowWrites (body.args.drop outer.length) o n (rows o)
  have ran : order.mapM (fun o => (body.run point (o.map MVal.ofIndex ++ outs.map .tensor)).map
      Prod.snd) = some writes := by
    rw [List.mapM_eq_some, List.forall₂_map_right_iff, List.forall₂_same]
    intro o member
    rw [(inserts o ((all o).mp member)).1]
    rfl
  let results := List.zipWith (fun v t => insertInto v writes.flatten t)
    (body.args.drop outer.length) outs
  refine ⟨results, ?_, ?_, ?_⟩
  · unfold runForall
    dsimp only
    rw [bounds, List.take_left' rank, List.drop_left' rank, upper, tensors]
    simp only [Option.bind_eq_bind, Option.bind_some, Option.pure_def]
    rw [ran]
    rw [Option.bind_some, List.map_zipWith, List.zip, List.map_zipWith]
    rfl
  · refine List.ext_getElem ?_ fun k h h' => ?_
    · simp [results, width]
    · simp [results, insertInto_shape]
  · intro o j inside lt
    obtain ⟨_, length, shapes⟩ := inserts o inside
    refine List.ext_getElem ?_ fun k h h' => ?_
    · simp [elementsAt, results, width, length]
    · simp only [elementsAt, results, List.getElem_map, List.getElem_zipWith]
      simp only [elementsAt, List.length_map] at h'
      have ltArgs : k < (body.args.drop outer.length).length := by omega
      apply insertInto_get
      · intro w member target covers
        obtain ⟨ws, hws, hw⟩ := List.mem_flatten.mp member
        obtain ⟨o', ho', rfl⟩ := List.mem_map.mp hws
        obtain ⟨q, hq, rfl⟩ := List.mem_map.mp hw
        have inside' := (all o').mp ho'
        have same : o.length = o'.length := by rw [inside.length, inside'.length]
        obtain ⟨rfl, _⟩ := (rowWrite_covers same).mp covers
        obtain ⟨i, hi, eq⟩ := List.mem_iff_getElem.mp hq
        have ltI : i < (rows o).length := by
          rw [List.length_zip] at hi
          exact lt_of_lt_of_le hi (Nat.min_le_right _ _)
        have ltI' : i < (body.args.drop outer.length).length := by omega
        have parts : q = ((body.args.drop outer.length)[i], (rows o)[i]) := by
          rw [← eq, List.getElem_zip]
        subst parts
        have index : i = k := (List.Nodup.getElem_inj_iff targets).mp target
        subst index
        exact rowWrite_value (shapes _ (List.getElem_mem ltI))
      · right
        refine ⟨rowWrite (body.args.drop outer.length)[k] o n (rows o)[k], ?_, rfl, ?_⟩
        · refine List.mem_flatten.mpr ⟨_, List.mem_map.mpr ⟨o, (all o).mpr inside, rfl⟩, ?_⟩
          refine List.mem_map.mpr ⟨((body.args.drop outer.length)[k], (rows o)[k]), ?_, rfl⟩
          have ltZip : k < ((body.args.drop outer.length).zip (rows o)).length := by
            rw [List.length_zip]
            omega
          exact List.mem_iff_getElem.mpr ⟨k, ltZip, by rw [List.getElem_zip]⟩
        · exact (rowWrite_covers rfl).mpr ⟨rfl, lt⟩

end Forall

section Lowering

variable {W : World F} {point : List Nat} {E : Env F} {ivs : List Value} {o outer : List Nat}
  {n : Nat}

theorem toIndex_ofIndex {i : Nat} (small : i < 2 ^ 63) :
    (MVal.ofIndex i : MVal F).toIndex = some i := by
  have toNat : (BitVec.ofNat 64 i).toNat = i := by
    rw [BitVec.toNat_ofNat]
    exact Nat.mod_eq_of_lt (by omega)
  have nonneg : (BitVec.ofNat 64 i).msb = false := by
    rw [BitVec.msb_eq_decide, toNat]
    exact decide_eq_false (Nat.not_le.mpr small)
  rw [MVal.ofIndex, MVal.toIndex, nonneg, toNat]
  rfl

theorem toIndex_eq_some {x : MVal F} (h : x.toIndex = some n) :
    ∃ v : BitVec 64, x = .scalar (.index v) ∧ v.msb = false ∧ v.toNat = n := by
  unfold MVal.toIndex at h
  split at h
  · rename_i v
    obtain ⟨nonneg, eq⟩ := Option.ite_none_left_eq_some.mp h
    exact ⟨v, rfl, Bool.eq_false_iff.mpr nonneg, Option.some.inj eq⟩
  · cases h

theorem toIndex_ofIndices (small : ∀ i ∈ o, i < 2 ^ 63) :
    (o.map MVal.ofIndex).mapM (MVal.toIndex (F := F)) = some o := by
  rw [List.mapM_eq_some, List.forall₂_map_left_iff, List.forall₂_same]
  exact fun i hi => toIndex_ofIndex (small i hi)

theorem resolvePositions_dynamic (length : ivs.length = o.length) (rest : List (Option Int))
    (dyn : List Nat) : resolvePositions (ivs.map (fun _ => none) ++ rest) (o ++ dyn) =
      (resolvePositions rest dyn).map fun r => (o ++ r.1, r.2) := by
  induction ivs generalizing o with
  | nil =>
    obtain rfl := List.eq_nil_of_length_eq_zero length.symm
    cases h : resolvePositions rest dyn <;> simp [h]
  | cons iv ivs ih =>
    cases o with
    | nil => cases length
    | cons i o =>
      rw [List.map_cons, List.cons_append, List.cons_append, resolvePositions,
        ih (Nat.succ.inj length), Option.map_map]
      rfl

theorem resolvePositions_ones (length : ivs.length = o.length) (rest : List (Option Int))
    (dyn : List Nat) : resolvePositions (ivs.map (fun _ => some 1) ++ rest) dyn =
      (resolvePositions rest dyn).map fun r => (List.replicate o.length 1 ++ r.1, r.2) := by
  induction ivs generalizing o with
  | nil =>
    obtain rfl := List.eq_nil_of_length_eq_zero length.symm
    cases h : resolvePositions rest dyn <;> simp [h]
  | cons iv ivs ih =>
    cases o with
    | nil => cases length
    | cons i o =>
      rw [List.map_cons, List.cons_append, resolvePositions, if_neg (by decide),
        ih (Nat.succ.inj length), Option.map_map]
      rfl

/-- The extent of a row, as a constant or as a value. -/
def IsRowSize (E : Env F) (n : Nat) : Int ⊕ Value → Prop
  | .inl s => s = n
  | .inr v => IsIndex E v n

theorem IsRowSize.mono {E' : Env F} {size : Int ⊕ Value} (h : IsRowSize E n size)
    (sub : E.Sub E') : IsRowSize E' n size := by
  cases size with
  | inl s => exact h
  | inr v => exact IsIndex.mono h sub

theorem IsRowSize.resolves {size : Int ⊕ Value} (h : IsRowSize E n size) :
    ∃ xs dyn, (dynamicPart size).toList.mapM E = some xs ∧ xs.mapM MVal.toIndex = some dyn ∧
      resolvePositions [staticPart size] dyn = some ([n], []) := by
  cases size with
  | inl s =>
    obtain rfl : s = n := h
    exact ⟨[], [], rfl, rfl, by simp [staticPart, resolvePositions]⟩
  | inr v =>
    obtain ⟨x, hx, toIndex⟩ := h
    exact ⟨[x], [n], by simp [dynamicPart, hx], by simp [toIndex], rfl⟩

theorem unit_slices (inside : InBounds outer o) :
    ((o.zip (List.replicate o.length 1)).zip outer).all (fun q => q.1.1 + q.1.2 ≤ q.2) = true := by
  induction inside with
  | nil => rfl
  | cons lt _ ih =>
    rw [List.length_cons, List.replicate_succ, List.zip_cons_cons, List.zip_cons_cons,
      List.all_cons, Bool.and_eq_true, decide_eq_true_eq]
    exact ⟨lt, ih⟩

theorem rowWrite_valid {v : Value} {row target : Tensor (Scalar F)} (shape : row.shape = [n])
    (fits : target.shape = outer ++ [n]) (inside : InBounds outer o) :
    (rowWrite v o n row).valid target = true := by
  have length := inside.length
  have slices : ((o ++ [0]).zip (List.replicate o.length 1 ++ [n])).zip (outer ++ [n]) =
      (o.zip (List.replicate o.length 1)).zip outer ++ [((0, n), n)] := by
    rw [List.zip_append (by rw [List.length_replicate]), List.zip_append]
    · rfl
    · rw [List.length_zip, List.length_replicate, Nat.min_self, length]
  have last : (List.replicate o.length 1 ++ [n]).length - [n].length =
      (List.replicate o.length 1).length := by
    rw [List.length_append, Nat.add_sub_cancel]
  simp only [Write.valid, rowWrite, Bool.and_eq_true, beq_iff_eq]
  rw [fits, shape, slices, last, List.take_left, List.drop_left, List.all_append,
    unit_slices inside]
  refine ⟨⟨⟨⟨?_, ?_⟩, ?_⟩, ?_⟩, rfl⟩
  · simp [length]
  · simp [length]
  · simp
  · simp

/-- One row is inserted in its output at the outer index. -/
theorem insertRow_effects {source target : Value} {row t : Tensor (Scalar F)}
    (indices : ivs.mapM E = some (o.map MVal.ofIndex)) (small : ∀ i ∈ o, i < 2 ^ 63)
    (inside : InBounds outer o) {size : Int ⊕ Value} (isSize : IsRowSize E n size)
    (hsource : E source = some (.tensor row)) (htarget : E target = some (.tensor t))
    (shape : row.shape = [n]) (fits : t.shape = outer ++ [n]) :
    Emit.Effects W point E (Emit.create
      (.parallelInsertSlice (ivs.map (fun _ => none) ++ [some 0])
        ((ivs.map fun _ => some (1 : Int)) ++ [staticPart size])
        ((ivs.map fun _ => some (1 : Int)) ++ [some 1]))
      (source :: target :: (ivs ++ (dynamicPart size).toList)) [] []) fun _ ws _ =>
        ws = [rowWrite target o n row] := by
  obtain ⟨xs, dyn, seen, toIndex, resolves⟩ := isSize.resolves
  have length : ivs.length = o.length := by
    rw [(List.mapM_eq_some.mp indices).length_eq, List.length_map]
  have all : (source :: target :: (ivs ++ (dynamicPart size).toList)).mapM E =
      some (.tensor row :: .tensor t :: (o.map MVal.ofIndex ++ xs)) := by
    rw [List.mapM_cons, List.mapM_cons, hsource, htarget, List.mapM_append, indices, seen]
    rfl
  have positions : (o.map MVal.ofIndex ++ xs).mapM (MVal.toIndex (F := F)) = some (o ++ dyn) := by
    rw [List.mapM_append, toIndex_ofIndices small, toIndex]
    rfl
  have units : ((ivs.map fun _ => some (1 : Int)) ++ [some 1]).all (· == some 1) = true := by
    simp
  have first : resolvePositions (ivs.map (fun _ => none) ++ [some 0]) (o ++ dyn) =
      some (o ++ [0], dyn) := by
    rw [resolvePositions_dynamic length]
    rfl
  have second : resolvePositions (ivs.map (fun _ => some 1) ++ [staticPart size]) dyn =
      some (List.replicate o.length 1 ++ [n], []) := by
    rw [resolvePositions_ones length, resolves]
    rfl
  have valid : (rowWrite target o n row).valid t = true := rowWrite_valid shape fits inside
  unfold rowWrite at valid
  have inserts : parallelInsert (source :: target :: (ivs ++ (dynamicPart size).toList))
      (ivs.map (fun _ => none) ++ [some 0]) (ivs.map (fun _ => some 1) ++ [staticPart size])
      (ivs.map (fun _ => some 1) ++ [some 1])
      (.tensor row :: .tensor t :: (o.map MVal.ofIndex ++ xs)) = some (rowWrite target o n row) := by
    simp only [parallelInsert, positions, first, second, Option.bind_eq_bind, Option.bind_some,
      Option.pure_def, List.getElem?_cons_succ, List.getElem?_cons_zero]
    rw [if_pos ⟨trivial, units, valid⟩]
    rfl
  have eval : evalOp W.machine W.call point
      (.parallelInsertSlice (ivs.map (fun _ => none) ++ [some 0])
        (ivs.map (fun _ => some 1) ++ [staticPart size]) (ivs.map (fun _ => some 1) ++ [some 1]))
      (source :: target :: (ivs ++ (dynamicPart size).toList))
      (.tensor row :: .tensor t :: (o.map MVal.ofIndex ++ xs)) []
      (regionsOf W.machine W.call [] E) = some ([], [rowWrite target o n row]) := by
    simp only [evalOp, regionsOf, inserts]
    rfl
  exact (create_effects all eval rfl).weaken fun _ _ _ _ h => h.1

theorem insertRows_effects (inside : InBounds outer o) (small : ∀ i ∈ o, i < 2 ^ 63)
    {size : Int ⊕ Value} {rows outputs : List Value} {ts outs : List (Tensor (Scalar F))}
    (indices : ivs.mapM E = some (o.map MVal.ofIndex)) (isSize : IsRowSize E n size)
    (hrows : rows.mapM E = some (ts.map .tensor)) (houts : outputs.mapM E = some (outs.map .tensor))
    (shapes : ∀ t ∈ ts, t.shape = [n]) (fits : ∀ t ∈ outs, t.shape = outer ++ [n]) :
    Emit.Effects W point E ((rows.zip outputs).mapM fun p => Emit.create
      (.parallelInsertSlice (ivs.map (fun _ => none) ++ [some 0])
        ((ivs.map fun _ => some (1 : Int)) ++ [staticPart size])
        ((ivs.map fun _ => some (1 : Int)) ++ [some 1]))
      (p.1 :: p.2 :: (ivs ++ (dynamicPart size).toList)) [] []) fun _ ws _ =>
        ws = rowWrites outputs o n ts := by
  rw [List.mapM_eq_some, List.forall₂_map_right_iff] at hrows houts
  induction rows generalizing E outputs ts outs with
  | nil =>
    cases hrows
    exact .pure (by rw [rowWrites, List.zip_nil_right]; rfl)
  | cons source rows ih =>
    cases hrows with
    | @cons _ row _ ts hrow hrows =>
      cases houts with
      | nil => exact .pure rfl
      | @cons target t outputs outs hout houts =>
        obtain ⟨shape, shapes⟩ := List.forall_mem_cons.mp shapes
        obtain ⟨fit, fits⟩ := List.forall_mem_cons.mp fits
        rw [List.zip_cons_cons, List.mapM_cons]
        refine .bindWrites (insertRow_effects indices small inside isSize hrow hout shape fit)
          fun _ E₁ ws sub hws => ?_
        subst hws
        have rest : Emit.Effects W point E₁ _ _ := ih (sub.mapM indices) (isSize.mono sub)
          (hrows.imp fun _ _ h => sub _ _ h) (houts.imp fun _ _ h => sub _ _ h) shapes fits
        refine .bindWrites rest fun _ E₂ ws' sub' hws' => .pure ?_
        rw [hws', List.append_nil]
        rfl

/-- The insertions of the rows of an iteration, as the region of an operation. -/
theorem insertRows_runs (inside : InBounds outer o) (small : ∀ i ∈ o, i < 2 ^ 63)
    {size : Int ⊕ Value} {rows outputs : List Value} {ts outs : List (Tensor (Scalar F))}
    (indices : ivs.mapM E = some (o.map MVal.ofIndex)) (isSize : IsRowSize E n size)
    (hrows : rows.mapM E = some (ts.map .tensor)) (houts : outputs.mapM E = some (outs.map .tensor))
    (shapes : ∀ t ∈ ts, t.shape = [n]) (fits : ∀ t ∈ outs, t.shape = outer ++ [n]) :
    Emit.Runs W point E (insertRows ivs rows outputs size) fun E' block => E' = E ∧
      execBlock W.machine W.call block point E [] = some ([], rowWrites outputs o n ts) := by
  unfold insertRows
  refine (Emit.Effects.inBlock (fun _ at' vals => at' = point ∧ vals = [])
    (fun (_ : Unit) vals ws => vals = [] ∧ ws = rowWrites outputs o n ts)
    fun _ at' vals pre => ?_).weaken fun E' ws block _ h => ?_
  · obtain ⟨rfl, rfl⟩ := pre
    refine ⟨rfl, fun args E₀ sub _ _ => ?_⟩
    refine .bindWrites (insertRows_effects inside small (sub.mapM indices) (isSize.mono sub)
      (sub.mapM hrows) (sub.mapM houts) shapes fits) fun _ E₁ ws _ hws => .pure ?_
    exact ⟨[], rfl, rfl, by rw [hws, List.append_nil]⟩
  · obtain ⟨noWrites, rfl, runs⟩ := h
    obtain ⟨_, _, exec, rfl, rfl⟩ := runs () point [] ⟨rfl, rfl⟩
    exact ⟨noWrites, rfl, exec⟩

end Lowering

end FutharkMlir
