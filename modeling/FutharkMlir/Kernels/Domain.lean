import FutharkMlir.Kernels.Space

namespace FutharkMlir

variable {F : Type}

/-- Every dimension of the iteration is one of an operand, and every operand has the
bounds of the dimensions its map mentions. -/
structure DomainIs (rank : Nat) (maps : List AffineMap) (shapes : List (List Nat))
    (bounds : List Nat) : Prop where
  covered : ∀ d < rank, ∃ m ∈ maps, d ∈ m.results
  agrees : List.Forall₂ (fun m shape => shape = m.project bounds) maps shapes

section Generic

variable {rank : Nat} {maps : List AffineMap} {shapes : List (List Nat)} {bounds : List Nat}

theorem commonExtent_eq_some {ns : List Nat} {n : Nat} :
    commonExtent ns = some n ↔ ns ≠ [] ∧ ∀ m ∈ ns, m = n := by
  cases ns with
  | nil => simp [commonExtent]
  | cons m ns =>
    simp only [commonExtent, Option.ite_none_right_eq_some, List.all_eq_true, beq_iff_eq,
      Option.some.injEq, ne_eq, List.cons_ne_nil, not_false_iff, true_and, List.forall_mem_cons]
    constructor
    · rintro ⟨same, rfl⟩
      exact ⟨rfl, same⟩
    · rintro ⟨rfl, same⟩
      exact ⟨same, rfl⟩

theorem mem_extentsAt {d n : Nat} : n ∈ extentsAt maps shapes d ↔
    ∃ q ∈ maps.zip shapes, (d, n) ∈ q.1.results.zip q.2 := by
  unfold extentsAt
  simp only [List.mem_flatMap, List.mem_map, List.mem_filter, beq_iff_eq]
  constructor
  · rintro ⟨q, hq, ⟨e, m⟩, ⟨member, rfl⟩, rfl⟩
    exact ⟨q, hq, member⟩
  · rintro ⟨q, hq, member⟩
    exact ⟨q, hq, (d, n), ⟨member, rfl⟩, rfl⟩

theorem extents_of_fit (fit : mapsFit rank maps shapes = true) :
    maps.length = shapes.length ∧ ∀ q ∈ maps.zip shapes, q.1.results.length = q.2.length := by
  simp only [mapsFit, Bool.and_eq_true, beq_iff_eq, List.all_eq_true] at fit
  exact ⟨fit.1, fun q hq => (fit.2 q hq).2⟩

/-- The operands agree on these bounds where they have them in every dimension they
mention. -/
theorem agrees_iff (fit : mapsFit rank maps shapes = true)
    (inside : ∀ m ∈ maps, ∀ d ∈ m.results, d < rank) :
    List.Forall₂ (fun m shape => shape = m.project bounds) maps shapes ↔
      ∀ d < rank, ∀ n ∈ extentsAt maps shapes d, n = bounds.getD d 0 := by
  obtain ⟨length, lengths⟩ := extents_of_fit fit
  rw [List.forall₂_iff_zip]
  constructor
  · rintro ⟨_, each⟩ d _ n hn
    obtain ⟨⟨m, shape⟩, hq, member⟩ := mem_extentsAt.mp hn
    have eq : shape = m.results.map fun d => bounds.getD d 0 := each hq
    rw [eq] at member
    exact List.eq_of_mem_zip_map (f := fun d => bounds.getD d 0) member
  · intro each
    refine ⟨length, fun {m shape} hq => ?_⟩
    refine List.ext_getElem (by rw [AffineMap.project, List.length_map, lengths _ hq]) ?_
    intro i h h'
    have lt : i < m.results.length := by rw [lengths _ hq]; exact h
    have member : (m.results[i], shape[i]) ∈ m.results.zip shape := by
      rw [← List.getElem_zip (h := by simp [lt, h])]
      exact List.getElem_mem _
    have small := inside m (List.of_mem_zip hq).1 _ (List.getElem_mem lt)
    rw [each _ small _ (mem_extentsAt.mpr ⟨_, hq, member⟩)]
    simp [AffineMap.project]

/-- The bounds the operation computes are these just where its domain is. -/
theorem genericDomain_eq_some (fit : mapsFit rank maps shapes = true)
    (inside : ∀ m ∈ maps, ∀ d ∈ m.results, d < rank) (length : bounds.length = rank) :
    genericDomain rank maps shapes = some bounds ↔ DomainIs rank maps shapes bounds := by
  have spelled : genericDomain rank maps shapes = some bounds ↔
      ∀ d < rank, commonExtent (extentsAt maps shapes d) = some (bounds.getD d 0) := by
    rw [genericDomain, if_pos fit, List.mapM_eq_some, List.forall₂_iff_get]
    constructor
    · rintro ⟨_, each⟩ d lt
      have at' := each d (by simpa using lt) (by rw [length]; exact lt)
      simpa [length, lt] using at'
    · intro each
      refine ⟨by simp [length], fun d h h' => ?_⟩
      have at' := each d (by simpa using h)
      rw [length] at h'
      simpa [length, h'] using at'
  rw [spelled]
  constructor
  · intro each
    refine ⟨fun d lt => ?_, (agrees_iff fit inside).mpr fun d lt => ?_⟩
    · obtain ⟨n, hn⟩ := List.exists_mem_of_ne_nil _ (commonExtent_eq_some.mp (each d lt)).1
      obtain ⟨q, hq, member⟩ := mem_extentsAt.mp hn
      exact ⟨q.1, (List.of_mem_zip hq).1, (List.of_mem_zip member).1⟩
    · exact (commonExtent_eq_some.mp (each d lt)).2
  · rintro ⟨covered, agrees⟩ d lt
    refine commonExtent_eq_some.mpr ⟨?_, (agrees_iff fit inside).mp agrees d lt⟩
    obtain ⟨m, hm, hd⟩ := covered d lt
    obtain ⟨same, lengths⟩ := extents_of_fit fit
    obtain ⟨shape, hq⟩ := List.exists_mem_zip same hm
    obtain ⟨n, hn⟩ := List.exists_mem_zip (lengths _ hq) hd
    exact List.ne_nil_of_mem (mem_extentsAt.mpr ⟨_, hq, hn⟩)

theorem genericDomain_of (ranks : ∀ m ∈ maps, m.rank = rank ∧ ∀ d ∈ m.results, d < rank)
    (length : bounds.length = rank) (domain : DomainIs rank maps shapes bounds) :
    genericDomain rank maps shapes = some bounds := by
  have fit : mapsFit rank maps shapes = true := by
    simp only [mapsFit, Bool.and_eq_true, beq_iff_eq, List.all_eq_true]
    refine ⟨domain.agrees.length_eq, fun q hq => ⟨(ranks q.1 (List.of_mem_zip hq).1).1, ?_⟩⟩
    have eq : q.2 = q.1.project bounds := (List.forall₂_iff_zip.mp domain.agrees).2 hq
    rw [eq, AffineMap.project, List.length_map]
  exact (genericDomain_eq_some fit (fun m hm => (ranks m hm).2) length).mpr domain

end Generic

/-- What decides the domain: the space, the statements, and the rank and the number of the
results. -/
structure KernelShape where
  space : SegSpace
  stms : List Stm
  outRank : Nat
  outCount : Nat

def SegOp.kernel : SegOp → Option KernelShape
  | .segMap _ space ret (.mk stms _) => some ⟨space, stms, space.dims.length, ret.length⟩
  | .segRed _ space _ (.mk stms _) [.mk (.mk _ ret _) _ _] =>
    some ⟨space, stms, space.dims.length - 1, ret.length⟩
  | _ => none

def SegOp.neutral : SegOp → List SubExp
  | .segRed _ _ _ _ [.mk _ neutral _] => neutral
  | _ => []

namespace KernelShape

/-- Every array that is loaded at gtids only ends where the space does in the dimensions
that index it, and every dimension of the space is one of a result or of such a load. -/
structure Filled (k : KernelShape) (ρ : Store F) (bounds : List Nat) : Prop where
  extents : ∀ read ∈ k.space.affineReads k.stms, ∀ a, ρ read.array = some (.array a) →
    a.shape = read.indexMap.project bounds
  covered : ∀ d < k.space.dims.length, d < k.outRank ∧ 0 < k.outCount ∨
    ∃ read ∈ k.space.affineReads k.stms, d ∈ read.indexMap.results

/-- The maps of the operands: of the loads, and of the results. -/
def maps (k : KernelShape) : List AffineMap :=
  (k.space.affineReads k.stms).map AffineRead.indexMap ++
    List.replicate k.outCount ⟨k.space.dims.length, List.range k.outRank⟩

theorem project_range {rank m : Nat} {bounds : List Nat} (le : m ≤ bounds.length) :
    (⟨rank, List.range m⟩ : AffineMap).project bounds = bounds.take m := by
  unfold AffineMap.project
  refine List.ext_getElem (by simp [le]) fun i h h' => ?_
  have lt : i < bounds.length := lt_of_lt_of_le (by simpa using h) le
  simp [lt]

theorem reads_agree {reads : List AffineRead} {ρ : Store F} {arrays : List (Tensor (PVal F))}
    {bounds : List Nat}
    (h : List.Forall₂ (fun read a => ρ read.array = some (.array a)) reads arrays) :
    List.Forall₂ (fun m shape => shape = m.project bounds) (reads.map AffineRead.indexMap)
        (arrays.map Tensor.shape) ↔
      ∀ read ∈ reads, ∀ a, ρ read.array = some (.array a) →
        a.shape = read.indexMap.project bounds := by
  induction h with
  | nil => simp
  | @cons read a reads arrays hr _ ih =>
    rw [List.map_cons, List.map_cons, List.forall₂_cons, ih, List.forall_mem_cons]
    refine and_congr_left fun _ => ⟨fun eq b hb => ?_, fun each => each a hr⟩
    cases hr.symm.trans hb
    exact eq

theorem domain_iff (k : KernelShape) {ρ : Store F} {bounds : List Nat}
    {arrays : List (Tensor (PVal F))}
    (reads : List.Forall₂ (fun read a => ρ read.array = some (.array a))
      (k.space.affineReads k.stms) arrays) (le : k.outRank ≤ bounds.length) :
    DomainIs k.space.dims.length k.maps
        (arrays.map Tensor.shape ++ List.replicate k.outCount (bounds.take k.outRank)) bounds ↔
      k.Filled ρ bounds := by
  have outputs : List.Forall₂ (fun m shape => shape = AffineMap.project m bounds)
      (List.replicate k.outCount ⟨k.space.dims.length, List.range k.outRank⟩)
      (List.replicate k.outCount (bounds.take k.outRank)) := by
    induction k.outCount with
    | zero => exact .nil
    | succ n ih => exact .cons (project_range le).symm ih
  have agrees : List.Forall₂ (fun m shape => shape = AffineMap.project m bounds) k.maps
      (arrays.map Tensor.shape ++ List.replicate k.outCount (bounds.take k.outRank)) ↔
      ∀ read ∈ k.space.affineReads k.stms, ∀ a, ρ read.array = some (.array a) →
        a.shape = read.indexMap.project bounds := by
    rw [← reads_agree reads, maps]
    constructor
    · intro h
      have first := List.forall₂_take (k.space.affineReads k.stms).length h
      rwa [List.take_left' (List.length_map _),
        List.take_left' ((List.length_map _).trans reads.length_eq.symm)] at first
    · exact fun h => List.rel_append h outputs
  have covered : (∀ d < k.space.dims.length, ∃ m ∈ k.maps, d ∈ m.results) ↔
      ∀ d < k.space.dims.length, d < k.outRank ∧ 0 < k.outCount ∨
        ∃ read ∈ k.space.affineReads k.stms, d ∈ read.indexMap.results := by
    refine forall₂_congr fun d _ => ?_
    simp only [maps, List.mem_append, List.mem_map, List.mem_replicate]
    constructor
    · rintro ⟨m, ⟨read, hread, rfl⟩ | ⟨some, rfl⟩, hd⟩
      · exact .inr ⟨read, hread, hd⟩
      · exact .inl ⟨List.mem_range.mp hd, Nat.pos_of_ne_zero some⟩
    · rintro (⟨lt, some⟩ | ⟨read, hread, hd⟩)
      · exact ⟨_, .inr ⟨Nat.ne_of_gt some, rfl⟩, List.mem_range.mpr lt⟩
      · exact ⟨_, .inl ⟨read, hread, rfl⟩, hd⟩
  exact ⟨fun h => ⟨agrees.mp h.agrees, covered.mp h.covered⟩,
    fun h => ⟨covered.mpr h.covered, agrees.mpr h.extents⟩⟩

/-- Where all loads fill the space and its dimensions are covered, it is the domain. -/
theorem domain_of_covered (k : KernelShape) {extents : List Nat}
    (rank : extents.length = k.space.dims.length) (le : k.outRank ≤ extents.length)
    (covered : ∀ d < k.space.dims.length, d < k.outRank ∧ 0 < k.outCount ∨
      ∃ read ∈ k.space.affineReads k.stms, d ∈ read.indexMap.results) :
    genericDomain k.space.dims.length k.maps
      (((k.space.affineReads k.stms).map fun r => r.indexMap.project extents) ++
        List.replicate k.outCount (extents.take k.outRank)) = some extents := by
  apply genericDomain_of
  · intro m hm
    rcases List.mem_append.mp hm with load | out
    · obtain ⟨read, hread, rfl⟩ := List.mem_map.mp load
      exact affineReads_inside hread
    · rw [(List.mem_replicate.mp out).2]
      refine ⟨rfl, fun d hd => ?_⟩
      have lt := List.mem_range.mp hd
      omega
  · exact rank
  · constructor
    · intro d lt
      rcases covered d lt with ⟨inside, some⟩ | ⟨read, hread, hd⟩
      · refine ⟨⟨k.space.dims.length, List.range k.outRank⟩, List.mem_append_right _ ?_,
          List.mem_range.mpr inside⟩
        exact List.mem_replicate.mpr ⟨Nat.ne_of_gt some, rfl⟩
      · exact ⟨_, List.mem_append_left _ (List.mem_map_of_mem hread), hd⟩
    · apply List.rel_append
      · rw [List.forall₂_map_left_iff, List.forall₂_map_right_iff, List.forall₂_same]
        exact fun _ _ => rfl
      · have same : AffineMap.project ⟨k.space.dims.length, List.range k.outRank⟩ extents =
            extents.take k.outRank := project_range le
        clear covered
        induction k.outCount with
        | zero => exact .nil
        | succ n ih => exact .cons same.symm ih

end KernelShape

section Lowering

variable {W : World F} {point : List Nat} {E : Env F} {ctx : Ctx} {ρ : Store F} {cfg : Config}
  {bounds : List (IntType × Nat)}

theorem lookups_runs (rep : ctx.Represents E ρ) {names : List VName}
    {arrays : List (Tensor (PVal F))}
    (h : List.Forall₂ (fun x a => ρ x = some (.array a)) names arrays) :
    Emit.Runs W point E (lookups ctx names) fun E' vs =>
      List.Forall₂ (fun v a => Represents E' v (.array a)) vs arrays := by
  refine Emit.Effects.mapM (fun _ _ _ _ sub h => h.mono sub) (h.imp fun x a hx E' sub => ?_)
  exact (lookup_runs (rep.mono sub) hx).weaken fun _ _ _ sub' hv => ⟨hv.1, hv.2.2.mono sub'⟩

theorem arrays_mapM {vs : List Value} {arrays : List (Tensor (PVal F))}
    (h : List.Forall₂ (fun v a => Represents E v (.array a)) vs arrays) :
    ∃ xs, vs.mapM E = some xs ∧ xs.map MVal.extents = arrays.map Tensor.shape := by
  induction h with
  | nil => exact ⟨[], rfl, rfl⟩
  | cons hv _ ih =>
    obtain ⟨t, _, _, value, _, _, shape, _⟩ := hv
    obtain ⟨xs, seen, extents⟩ := ih
    exact ⟨.tensor t :: xs, by simp [value, seen], by simp [MVal.extents, shape, extents]⟩

def HasExtents (extents : List Nat) (E : Env F) (v : Value) : Prop :=
  ∃ t, E v = some (.tensor t) ∧ t.shape = extents

theorem extents_mapM {extents : List Nat} {vs : List Value}
    (h : ∀ v ∈ vs, HasExtents extents E v) :
    ∃ xs, vs.mapM E = some xs ∧ xs.map MVal.extents = List.replicate vs.length extents := by
  induction vs with
  | nil => exact ⟨[], rfl, rfl⟩
  | cons v vs ih =>
    obtain ⟨t, value, shape⟩ := h v List.mem_cons_self
    obtain ⟨xs, seen, eq⟩ := ih fun w hw => h w (List.mem_cons_of_mem _ hw)
    refine ⟨.tensor t :: xs, by simp [value, seen], ?_⟩
    rw [List.map_cons, eq, MVal.extents, shape]
    rfl

theorem isEmpty_extents {extents : List Nat} {vs : List Value} {tys : List MlirTy}
    (h : List.Forall₂ (IsEmpty W extents E) vs tys) : ∀ v ∈ vs, HasExtents extents E v := by
  induction h with
  | nil => simp
  | cons hv _ ih => exact List.forall_mem_cons.mpr ⟨⟨_, hv.1, rfl⟩, ih⟩

def HasDomain (iff : Prop) (bounds : List Nat) (E : Env F) (op : Op) : Prop :=
  ∃ n maps iterTypes operands results body args,
    op = .mk (.generic n maps iterTypes) operands results [body] ∧ operands.mapM E = some args ∧
      (DomainIs iterTypes.length maps (args.map MVal.extents) bounds ↔ iff)

/-- A `linalg.generic` over the loads and the results of a kernel, with operands of these
extents. -/
def HasOperands (k : KernelShape) (shapes : List (List Nat)) (E : Env F) (op : Op) : Prop :=
  ∃ n iterTypes operands results body args,
    op = .mk (.generic n k.maps iterTypes) operands results [body] ∧ operands.mapM E = some args ∧
      iterTypes.length = k.space.dims.length ∧ args.map MVal.extents = shapes

def KernelShape.operands (k : KernelShape) (arrays : List (Tensor (PVal F)))
    (extents : List Nat) : List (List Nat) :=
  arrays.map Tensor.shape ++ List.replicate k.outCount (extents.take k.outRank)

theorem generic_operands {k : KernelShape} {extents : List Nat} {arrays : List (Tensor (PVal F))}
    {inputs outputs : List Value}
    (hinputs : List.Forall₂ (fun v a => Represents E v (.array a)) inputs arrays)
    (houtputs : ∀ v ∈ outputs, HasExtents (extents.take k.outRank) E v)
    (count : outputs.length = k.outCount) {iterTypes : List IteratorType}
    (rank : iterTypes.length = k.space.dims.length) {n : Nat} {resTys : List MlirTy} {body : Block} :
    Lower.Builds W point E (Emit.create (.generic n k.maps iterTypes) (inputs ++ outputs) resTys
      [body] : Lower (List Value)) (HasOperands k (k.operands arrays extents)) := by
  obtain ⟨xs, seen, shapes⟩ := arrays_mapM hinputs
  obtain ⟨ys, seen', shapes'⟩ := extents_mapM houtputs
  refine .create fun results => ⟨_, _, _, _, _, xs ++ ys, rfl, ?_, rank, ?_⟩
  · rw [List.mapM_append, seen, seen']
    rfl
  · rw [List.map_append, shapes, shapes', count]
    rfl

theorem HasOperands.domain {k : KernelShape} {extents : List Nat}
    {arrays : List (Tensor (PVal F))}
    (reads : List.Forall₂ (fun read a => ρ read.array = some (.array a))
      (k.space.affineReads k.stms) arrays) (le : k.outRank ≤ extents.length) {op : Op}
    (h : HasOperands k (k.operands arrays extents) E op) :
    HasDomain (k.Filled ρ extents) extents E op := by
  obtain ⟨n, iterTypes, operands, results, body, args, rfl, seen, rank, shapes⟩ := h
  refine ⟨n, k.maps, iterTypes, operands, results, body, args, rfl, seen, ?_⟩
  rw [shapes, rank]
  exact k.domain_iff reads le

/-- Where results have all dimensions of the space, no other domain is left. -/
theorem KernelShape.domain_unique {k : KernelShape} {extents bounds : List Nat}
    {arrays : List (Tensor (PVal F))}
    (reads : List.Forall₂ (fun read a => ρ read.array = some (.array a))
      (k.space.affineReads k.stms) arrays) (full : k.outRank = extents.length)
    (some : 0 < k.outCount) (length : bounds.length = extents.length) {rank : Nat}
    (domain : DomainIs rank k.maps (k.operands arrays extents) bounds) : bounds = extents := by
  have last := List.forall₂_drop (k.space.affineReads k.stms).length domain.agrees
  unfold KernelShape.maps KernelShape.operands at last
  rw [List.drop_left' (List.length_map _),
    List.drop_left' ((List.length_map _).trans reads.length_eq.symm)] at last
  cases count : k.outCount with
  | zero => omega
  | succ n =>
    rw [count, List.replicate_succ, List.replicate_succ, List.forall₂_cons,
      KernelShape.project_range (by omega), full, List.take_length,
      List.take_of_length_le (by omega)] at last
    exact last.1.symm

theorem HasOperands.stuck {k : KernelShape} {extents : List Nat}
    {arrays : List (Tensor (PVal F))}
    (reads : List.Forall₂ (fun read a => ρ read.array = some (.array a))
      (k.space.affineReads k.stms) arrays) (rank : extents.length = k.space.dims.length)
    (full : k.outRank = extents.length) (some : 0 < k.outCount)
    (unfilled : ¬ k.Filled ρ extents) {op : Op}
    (h : HasOperands k (k.operands arrays extents) E op) :
    execOps W.machine W.call [op] point E = none := by
  obtain ⟨n, iterTypes, operands, results, body, args, rfl, seen, rank', shapes⟩ := h
  have none : genericDomain iterTypes.length k.maps (args.map MVal.extents) = none := by
    rw [Option.eq_none_iff_forall_ne_some]
    intro bounds eq
    rw [shapes, rank'] at eq
    have fit : mapsFit k.space.dims.length k.maps (k.operands arrays extents) = true := by
      by_contra misfit
      rw [genericDomain, if_neg misfit] at eq
      cases eq
    have length : bounds.length = k.space.dims.length := by
      rw [genericDomain, if_pos fit] at eq
      rw [← (List.mapM_eq_some.mp eq).length_eq, List.length_range]
    have inside : ∀ m ∈ k.maps, ∀ d ∈ m.results, d < k.space.dims.length := by
      intro m hm d hd
      rcases List.mem_append.mp hm with load | out
      · obtain ⟨read, hread, rfl⟩ := List.mem_map.mp load
        exact (affineReads_inside hread).2 d hd
      · rw [(List.mem_replicate.mp out).2] at hd
        rw [← rank, ← full]
        exact List.mem_range.mp hd
    have domain := (genericDomain_eq_some fit inside length).mp eq
    cases KernelShape.domain_unique reads full some (length.trans rank.symm) domain
    exact unfilled ((k.domain_iff reads (le_of_eq full)).mp domain)
  simp [execOps, execOp, seen, evalOp, regionsOf, runGeneric, none]

theorem lowerSegMap_operands {space : SegSpace} {stms : List Stm} {result : List SubExp}
    {ret : List Ty} {ls : List VName → Ctx → Lower Ctx} (rep : ctx.Represents E ρ)
    (hspace : evalSpace W.machine.toFloatOps ρ space = some bounds)
    {arrays : List (Tensor (PVal F))}
    (reads : List.Forall₂ (fun read a => ρ read.array = some (.array a))
      (space.affineReads stms) arrays) {lvl : SegLevel} :
    Lower.Builds W point E (lowerSegMap cfg lvl space stms result ret ls ctx)
      (HasOperands ⟨space, stms, space.dims.length, ret.length⟩
        (KernelShape.operands ⟨space, stms, space.dims.length, ret.length⟩ arrays
          (bounds.map Prod.snd))) := by
  unfold lowerSegMap
  refine .bind (.liftExcept _) fun _ E₁ sub₁ _ => ?_
  refine .bind (.lift (lowerSegDims_runs (rep.mono sub₁) 0 hspace)) fun ds E₂ sub₂ spans => ?_
  refine .bind (.liftExcept _) fun rs E₃ sub₃ hrs => ?_
  obtain ⟨rfl, hrs⟩ := hrs
  obtain ⟨rfl, single⟩ := spans.names.findSegOpAffineReads_eq hrs
  have rep₃ := (rep.mono sub₁).mono sub₂
  refine .bind (.lift (lookups_runs rep₃ (List.forall₂_map_left_iff.mpr reads)))
    fun inputs E₄ sub₄ hinputs => ?_
  refine .bind (.liftExcept _) fun tys E₅ sub₅ htys => ?_
  obtain ⟨rfl, htys⟩ := htys
  obtain ⟨shape, hshape⟩ := spans.shape
  obtain ⟨elems, helems, rfl⟩ := segOpTypes_eq htys hshape
  refine .bind (.lift (spaceSizes_runs (spans.mono sub₄) hshape)) fun sizes E₆ sub₆ hsizes => ?_
  refine .bind (.lift (tensorEmpties_runs hsizes elems)) fun outputs E₇ sub₇ houtputs => ?_
  refine .bind .inBlock_any fun p E₈ sub₈ same => ?_
  subst same
  have rank : ds.length = space.dims.length := spans.length.1
  have extents : (bounds.map Prod.snd).length = space.dims.length := by
    rw [List.length_map, spans.length.2]
  have count : outputs.length = ret.length := by
    rw [houtputs.length_eq, tensorTypes, List.length_map, ← (Except.mapM_eq_ok.mp helems).length_eq]
  have full : ∀ v ∈ outputs,
      HasExtents ((bounds.map Prod.snd).take space.dims.length) E₈ v := by
    rw [List.take_of_length_le (le_of_eq extents)]
    exact isEmpty_extents houtputs
  rw [count, rank]
  let k : KernelShape := ⟨space, stms, space.dims.length, ret.length⟩
  have hinputs' := hinputs.imp fun _ _ h => h.mono (sub₆.trans sub₇)
  exact generic_operands (k := k) hinputs' full count (List.length_replicate ..)

theorem isFilled_extents {extents : List Nat} {vs : List Value} {ps : List (PVal F)}
    (h : List.Forall₂ (IsFilled extents E) vs ps) : ∀ v ∈ vs, HasExtents extents E v := by
  induction h with
  | nil => simp
  | cons hv _ ih => exact List.forall_mem_cons.mpr ⟨⟨_, hv, rfl⟩, ih⟩

theorem lowerSegRed_operands {space : SegSpace} {stms : List Stm} {result : List SubExp}
    {params : List Param} {ret : List Ty} {neutral shape : List SubExp}
    {ls : List VName → Ctx → Lower Ctx} {lb : Ctx → Lower (List Value × Ctx)}
    (rep : ctx.Represents E ρ)
    (hspace : evalSpace W.machine.toFloatOps ρ space = some bounds)
    {neutrals : List (PVal F)}
    (hneutral : neutral.mapM (evalPrim W.machine.toFloatOps ρ) = some neutrals)
    {arrays : List (Tensor (PVal F))}
    (reads : List.Forall₂ (fun read a => ρ read.array = some (.array a))
      (space.affineReads stms) arrays) {lvl : SegLevel} :
    Lower.Builds W point E
      (lowerSegRed cfg lvl space stms result params ret neutral shape ls lb ctx)
      (HasOperands ⟨space, stms, space.dims.length - 1, ret.length⟩
        (KernelShape.operands ⟨space, stms, space.dims.length - 1, ret.length⟩ arrays
          (bounds.map Prod.snd))) := by
  unfold lowerSegRed
  refine .bind (.liftExcept _) fun _ E₁ sub₁ _ => ?_
  split
  · exact .throw
  refine .bind (.lift (lowerPrims_runs (rep.mono sub₁) hneutral)) fun nvs E₂ sub₂ hnvs => ?_
  have rep₂ := (rep.mono sub₁).mono sub₂
  refine .bind (.lift (lowerSegDims_runs rep₂ 0 hspace)) fun ds E₃ sub₃ spans => ?_
  dsimp only
  split
  · exact .throw
  rename_i some
  refine .bind (.liftExcept _) fun rs E₄ sub₄ hrs => ?_
  obtain ⟨rfl, hrs⟩ := hrs
  obtain ⟨rfl, single⟩ := spans.names.findSegOpAffineReads_eq hrs
  refine .bind (.lift (lookups_runs (rep₂.mono sub₃) (List.forall₂_map_left_iff.mpr reads)))
    fun inputs E₅ sub₅ hinputs => ?_
  refine .bind (.liftExcept _) fun tys E₆ sub₆ htys => ?_
  obtain ⟨rfl, htys⟩ := htys
  have rank : ds.length = space.dims.length := spans.length.1
  have outer := (spans.mono sub₅).take (ds.length - 1)
  obtain ⟨shape, hshape⟩ := outer.shape
  rw [rank] at hshape
  obtain ⟨elems, helems, rfl⟩ := segOpTypes_eq (rank ▸ htys) hshape
  rw [spans.filter_outer some]
  refine .bind (.lift (spaceSizes_runs outer (rank ▸ hshape))) fun sizes E₇ sub₇ hsizes => ?_
  refine .bind (.liftExcept _) fun pairs E₈ sub₈ hpairs => ?_
  obtain ⟨rfl, hpairs⟩ := hpairs
  obtain ⟨rfl, fst⟩ := zipEqual_fst cfg hpairs
  have le : elems.length ≤ nvs.length := by
    have length := congrArg List.length fst
    simp [tensorTypes] at length
    exact length
  have stands := hnvs.imp fun _ _ h => h.mono ((sub₃.trans sub₅).trans sub₇)
  refine .bind (.lift (filledOutputs_runs hsizes stands le)) fun outputs E₉ sub₉ houtputs => ?_
  refine .bind .inBlock_any fun p E₁₀ sub₁₀ same => ?_
  subst same
  obtain ⟨filled, types⟩ := houtputs
  have count : outputs.length = ret.length := by
    rw [← List.length_map (f := Value.ty), types, tensorTypes, List.length_map,
      ← (Except.mapM_eq_ok.mp helems).length_eq]
  let k : KernelShape := ⟨space, stms, space.dims.length - 1, ret.length⟩
  have full : ∀ v ∈ outputs, HasExtents ((bounds.map Prod.snd).take k.outRank) E₁₀ v := by
    have outRank : k.outRank = ds.length - 1 := by rw [rank]
    rw [← List.map_take, outRank]
    exact isFilled_extents filled
  have hinputs' := hinputs.imp fun _ _ h => h.mono (sub₇.trans sub₉)
  rw [count, rank]
  refine generic_operands (k := k) hinputs' full count ?_
  rw [rank] at some
  simp only [List.length_append, List.length_replicate, List.length_singleton]
  exact Nat.sub_add_cancel (Nat.pos_of_ne_zero some)

theorem lowerSegOp_operands {prog : Prog} {lf : FunDef → Lower Callee} {op : SegOp}
    {k : KernelShape} (kernel : op.kernel = some k) (rep : ctx.Represents E ρ)
    (hspace : evalSpace W.machine.toFloatOps ρ k.space = some bounds)
    {neutrals : List (PVal F)}
    (hneutral : op.neutral.mapM (evalPrim W.machine.toFloatOps ρ) = some neutrals)
    {arrays : List (Tensor (PVal F))}
    (reads : List.Forall₂ (fun read a => ρ read.array = some (.array a))
      (k.space.affineReads k.stms) arrays) :
    Lower.Builds W point E (lowerSegOp cfg prog lf op ctx)
      (HasOperands k (k.operands arrays (bounds.map Prod.snd))) := by
  unfold SegOp.kernel at kernel
  split at kernel
  · cases kernel
    rw [lowerSegOp]
    exact lowerSegMap_operands rep hspace reads
  · cases kernel
    rw [lowerSegOp]
    exact lowerSegRed_operands rep hspace hneutral reads
  · cases kernel

theorem SegOp.kernel_rank {op : SegOp} {k : KernelShape} (kernel : op.kernel = some k) :
    k.outRank ≤ k.space.dims.length := by
  unfold SegOp.kernel at kernel
  split at kernel
  · cases kernel
    exact le_refl _
  · cases kernel
    exact Nat.sub_le _ _
  · cases kernel

theorem lowerSegOp_domain {prog : Prog} {lf : FunDef → Lower Callee} {op : SegOp}
    {k : KernelShape} (kernel : op.kernel = some k) (rep : ctx.Represents E ρ)
    (hspace : evalSpace W.machine.toFloatOps ρ k.space = some bounds)
    {neutrals : List (PVal F)}
    (hneutral : op.neutral.mapM (evalPrim W.machine.toFloatOps ρ) = some neutrals)
    {arrays : List (Tensor (PVal F))}
    (reads : List.Forall₂ (fun read a => ρ read.array = some (.array a))
      (k.space.affineReads k.stms) arrays) :
    Lower.Builds W point E (lowerSegOp cfg prog lf op ctx)
      (HasDomain (k.Filled ρ (bounds.map Prod.snd)) (bounds.map Prod.snd)) := by
  have length := (List.mapM_eq_some.mp hspace).length_eq
  rw [List.length_map] at length
  have le : k.outRank ≤ (bounds.map Prod.snd).length := by
    rw [List.length_map, ← length]
    exact op.kernel_rank kernel
  exact (lowerSegOp_operands kernel rep hspace hneutral reads).weaken fun _ _ h => h.domain reads le

/-- The domain of the `linalg.generic` is the space of the kernel just where its loads and
results fill the space. -/
theorem segOp_domain_iff {prog : Prog} {lf : FunDef → Lower Callee} {op : SegOp}
    {k : KernelShape} (kernel : op.kernel = some k) (rep : ctx.Represents E ρ)
    (hspace : evalSpace W.machine.toFloatOps ρ k.space = some bounds)
    {neutrals : List (PVal F)}
    (hneutral : op.neutral.mapM (evalPrim W.machine.toFloatOps ρ) = some neutrals)
    {arrays : List (Tensor (PVal F))}
    (reads : List.Forall₂ (fun read a => ρ read.array = some (.array a))
      (k.space.affineReads k.stms) arrays) {b b' : Builder} {vs : List Value}
    (run : (lowerSegOp cfg prog lf op ctx).run b = .ok (vs, b')) (below : E.Below b.ip.next) :
    ∃ before n maps iterTypes operands results body E' args,
      b'.ip.ops = b.ip.ops ++ before ++ [.mk (.generic n maps iterTypes) operands results [body]] ∧
      execOps W.machine W.call before point E = some (E', []) ∧ operands.mapM E' = some args ∧
      (DomainIs iterTypes.length maps (args.map MVal.extents) (bounds.map Prod.snd) ↔
        k.Filled ρ (bounds.map Prod.snd)) := by
  obtain ⟨before, _, E', ops, exec, n, maps, iterTypes, operands, results, body, args, rfl, seen,
    domain⟩ := lowerSegOp_domain kernel rep hspace hneutral reads b vs b' run below
  exact ⟨before, n, maps, iterTypes, operands, results, body, E', args, ops, exec, seen, domain⟩

end Lowering

section Runs

/-- A kernel over four points that doubles the elements of an array. -/
def doublingKernel : KernelShape :=
  { space := ⟨"flat", [("i", .const (.createInt 4 64))]⟩
    stms :=
      [.mk [⟨"x", .prim (.int .int64)⟩] (.basicOp (.index "xs" [.fix (.var "i")])),
       .mk [⟨"y", .prim (.int .int64)⟩] (.basicOp (.binOp (.add .int64 .wrap) (.var "x") (.var "x")))]
    outRank := 1
    outCount := 1 }

def doubling : SegOp :=
  .segMap .thread doublingKernel.space [.prim (.int .int64)] (.mk doublingKernel.stms [.var "y"])

def emptyProg : Prog := ⟨[], []⟩

theorem doubling_space (n : Nat) :
    evalSpace unitMachine.toFloatOps (numbersStore n) doublingKernel.space = some [(.int64, 4)] :=
  rfl

theorem doubling_affineReads :
    doublingKernel.space.affineReads doublingKernel.stms = [⟨"x", "xs", ⟨1, [0]⟩⟩] := by
  decide

theorem doubling_reads (n : Nat) : List.Forall₂
    (fun (read : AffineRead) a => numbersStore n read.array = some (.array a))
    (doublingKernel.space.affineReads doublingKernel.stms) [numbers n] := by
  rw [doubling_affineReads]
  exact .cons (Binding.insert_self _ _ _) .nil

theorem doubling_filled (n : Nat) :
    doublingKernel.Filled (numbersStore n) [4] ↔ n = 4 := by
  constructor
  · intro filled
    have extents := filled.extents ⟨"x", "xs", ⟨1, [0]⟩⟩ (by decide) (numbers n)
      (Binding.insert_self _ _ _)
    exact (List.cons.inj extents).1
  · rintro rfl
    refine ⟨fun read member a ha => ?_, fun d lt => .inl ⟨lt, Nat.zero_lt_one⟩⟩
    rw [doubling_affineReads] at member
    cases List.mem_singleton.mp member
    cases (Binding.insert_self _ _ _).symm.trans ha
    rfl

theorem doubling_domain : ∃ vs b', (lowerSegOp releaseConfig emptyProg (fun _ => Lower.undefined)
      doubling (numbersCtx 4)).run afterArray = .ok (vs, b') ∧
    ∃ before n maps iterTypes operands results body E' args,
      b'.ip.ops = before ++ [.mk (.generic n maps iterTypes) operands results [body]] ∧
      execOps unitMachine (fun _ _ => none) before [] (numbersEnv 4) = some (E', []) ∧
      operands.mapM E' = some args ∧
      DomainIs iterTypes.length maps (args.map MVal.extents) [4] := by
  obtain ⟨⟨vs, b'⟩, run⟩ := Except.exists_ok (x := (lowerSegOp releaseConfig emptyProg
    (fun _ => Lower.undefined) doubling (numbersCtx 4)).run afterArray) (by decide +kernel)
  have kernel : doubling.kernel = some doublingKernel := rfl
  obtain ⟨before, n, maps, iterTypes, operands, results, body, E', args, ops, exec, seen, domain⟩ :=
    @segOp_domain_iff _ ⟨unitMachine, fun _ _ => none⟩ [] _ _ _ _ _ _ _ _ _ kernel
      (numbers_represents 4) (doubling_space 4) _ rfl _ (doubling_reads 4) _ _ _ run
      (numbers_below 4)
  exact ⟨vs, b', run, before, n, maps, iterTypes, operands, results, body, E', args, ops, exec,
    seen, domain.mpr ((doubling_filled 4).mpr rfl)⟩

/-- The loop of a kernel over four points that loads from a longer array has the extent of
the array. -/
theorem doubling_longer : ¬ ∀ (cfg : Config) (prog : Prog) (lf : FunDef → Lower Callee)
    (W : World Unit) (E : Env Unit) (ctx : Ctx) (ρ : Store Unit) (op : SegOp) (k : KernelShape)
    (bounds : List (IntType × Nat)) (neutrals : List (PVal Unit)) (b b' : Builder)
    (vs : List Value), op.kernel = some k → ctx.Represents E ρ →
      evalSpace W.machine.toFloatOps ρ k.space = some bounds →
      op.neutral.mapM (evalPrim W.machine.toFloatOps ρ) = some neutrals →
      (∀ read ∈ k.space.affineReads k.stms, ∃ a, ρ read.array = some (.array a) ∧
        ∀ p, InBounds (bounds.map Prod.snd) p → InBounds a.shape (read.indexMap.project p)) →
      (lowerSegOp cfg prog lf op ctx).run b = .ok (vs, b') → E.Below b.ip.next →
      ∃ before n maps iterTypes operands results body E' args,
        b'.ip.ops =
          b.ip.ops ++ before ++ [.mk (.generic n maps iterTypes) operands results [body]] ∧
        execOps W.machine W.call before [] E = some (E', []) ∧ operands.mapM E' = some args ∧
        DomainIs iterTypes.length maps (args.map MVal.extents) (bounds.map Prod.snd) := by
  intro claim
  let W : World Unit := ⟨unitMachine, fun _ _ => none⟩
  obtain ⟨⟨vs, b'⟩, run⟩ := Except.exists_ok (x := (lowerSegOp releaseConfig emptyProg
    (fun _ => Lower.undefined) doubling (numbersCtx 6)).run afterArray) (by decide +kernel)
  have kernel : doubling.kernel = some doublingKernel := rfl
  have inBounds : ∀ read ∈ doublingKernel.space.affineReads doublingKernel.stms,
      ∃ a, numbersStore 6 read.array = some (.array a) ∧
        ∀ p, InBounds [4] p → InBounds a.shape (read.indexMap.project p) := by
    intro read member
    rw [doubling_affineReads] at member
    cases List.mem_singleton.mp member
    refine ⟨numbers 6, Binding.insert_self _ _ _, fun p hp => ?_⟩
    obtain - | ⟨lt, rest⟩ := hp
    cases rest
    exact .cons (Nat.lt_of_lt_of_le lt (by decide)) .nil
  obtain ⟨before, n, maps, iterTypes, operands, results, body, E', args, ops, exec, seen, domain⟩ :=
    claim releaseConfig emptyProg _ W (numbersEnv 6) (numbersCtx 6) (numbersStore 6) doubling
      doublingKernel _ [] afterArray b' vs kernel (numbers_represents 6) (doubling_space 6) rfl
      inBounds run (numbers_below 6)
  obtain ⟨before', _, E'', ops', exec', _, _, _, _, _, _, _, rfl, seen', domain'⟩ :=
    (lowerSegOp_domain kernel (numbers_represents 6) (doubling_space 6)
      (show doubling.neutral.mapM _ = some [] from rfl) (doubling_reads 6) :
      Lower.Builds W [] _ _ _) afterArray vs b' run (numbers_below 6)
  -- the two descriptions are of one list of operations
  obtain ⟨rfl, same⟩ := List.append_inj' (ops.symm.trans ops') rfl
  cases same
  cases (exec.symm.trans exec')
  cases (seen.symm.trans seen')
  exact absurd ((doubling_filled 6).mp (domain'.mp domain)) (by decide)

end Runs

end FutharkMlir
