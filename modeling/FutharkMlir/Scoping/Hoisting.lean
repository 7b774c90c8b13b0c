import FutharkMlir.Compiler.Function
import FutharkMlir.Scoping.Bound

namespace FutharkMlir

/-- The space and the statements of a kernel whose loads at gtids become operands. -/
def SegOp.hoisted : SegOp → Option (SegSpace × List Stm)
  | .segMap _ space _ (.mk stms _) => some (space, stms)
  | .segRed _ space _ (.mk stms _) _ => some (space, stms)
  | .segHist _ space _ (.mk stms _) _ => some (space, stms)
  | .segScan _ _ _ _ _ _ => none

def SegOp.body : SegOp → Body
  | .segMap _ _ _ body => body
  | .segRed _ _ _ body _ => body
  | .segScan _ _ _ body _ _ => body
  | .segHist _ _ _ body _ => body

/-- The kernel and the operators are sequential code. -/
def SegOp.sequential : SegOp → Bool
  | .segMap _ _ _ body => body.sequential
  | .segRed _ _ _ body ops => body.sequential &&
    ops.all fun | .mk (.mk _ _ lambda) _ _ => lambda.sequential
  | .segScan _ _ _ body ops (.mk _ _ post) => body.sequential && post.sequential &&
    ops.all fun | .mk (.mk _ _ lambda) _ _ => lambda.sequential
  | .segHist _ _ _ body ops => body.sequential &&
    ops.all fun | .mk _ (.mk _ _ lambda) => lambda.sequential

/-- A statement reads, at gtids only, an array that the kernel itself has bound. -/
def LoadsOwnArray (space : SegSpace) (stms : List Stm) : Prop :=
  ∃ before elem arr dims used after,
    stms = before ++ .mk [elem] (.basicOp (.index arr dims)) :: after ∧
    dims.mapM space.gtid = some used ∧ arr ∈ space.binders ++ before.flatMap Stm.patNames

section Free

/-- A name a statement uses is bound by the statements before it or free in all of them. -/
theorem stm_free {after : List VName} {before rest : List Stm} {stm : Stm} {x : VName}
    (used : x ∈ stm.exp.free) :
    x ∈ before.flatMap Stm.patNames ∨ x ∈ stmsFree after (before ++ stm :: rest) := by
  induction before with
  | nil =>
    obtain ⟨pat, exp⟩ := stm
    exact .inr (List.mem_append_left _ used)
  | cons s before ih =>
    obtain ⟨pat, exp⟩ := s
    rw [List.flatMap_cons, List.mem_append, List.cons_append, stmsFree, List.mem_append, mem_without]
    by_cases bound : x ∈ pat.map PatElem.name
    · exact .inl (.inl bound)
    · rcases ih with h | h
      · exact .inl (.inr h)
      · exact .inr (.inr ⟨h, bound⟩)

variable {ctx : Ctx} {op : SegOp} {space : SegSpace} {stms : List Stm}

theorem hoisted_kernel (h : op.hoisted = some (space, stms)) :
    op.body = .mk stms op.body.result ∧ space.names ⊆ op.free ∧
      without op.body.free space.binders ⊆ op.free := by
  cases op with
  | segMap _ _ _ body =>
    obtain ⟨_, result⟩ := body
    cases h
    exact ⟨rfl, List.subset_append_left _ _, List.subset_append_right _ _⟩
  | segRed _ _ _ body _ =>
    obtain ⟨_, result⟩ := body
    cases h
    exact ⟨rfl, fun x hx => List.mem_append_left _ (List.mem_append_left _ hx),
      fun x hx => List.mem_append_left _ (List.mem_append_right _ hx)⟩
  | segHist _ _ _ body _ =>
    obtain ⟨_, result⟩ := body
    cases h
    exact ⟨rfl, fun x hx => List.mem_append_left _ (List.mem_append_left _ hx),
      fun x hx => List.mem_append_left _ (List.mem_append_right _ hx)⟩
  | segScan => cases h

/-- In a kernel that is well scoped, the array of a hoisted load is bound outside the kernel
unless it is one of the kernel's own. -/
theorem hoisted_bound (kernel : op.hoisted = some (space, stms)) (inScope : ctx.Binds op.free)
    (none : ¬ LoadsOwnArray space stms) :
    ctx.Binds ((space.affineReads stms).map AffineRead.array) := by
  intro x hx
  obtain ⟨read, member, rfl⟩ := List.mem_map.mp hx
  obtain ⟨stm, hstm, hread⟩ := mem_affineReads.mp member
  obtain ⟨elem, arr, dims, used, rfl, gtids, rfl⟩ := affineRead_some hread
  obtain ⟨before, after, rfl⟩ := List.mem_iff_append.mp hstm
  have outside : arr ∉ space.binders ++ before.flatMap Stm.patNames :=
    fun own => none ⟨before, elem, arr, dims, used, after, rfl, gtids, own⟩
  rw [List.mem_append, not_or] at outside
  obtain ⟨body, _, sub⟩ := hoisted_kernel kernel
  have uses : arr ∈ (Stm.mk [elem] (.basicOp (.index arr dims))).exp.free := List.mem_cons_self
  have either : _ ∨ arr ∈ stmsFree (subExpNames op.body.result) (before ++ _ :: after) :=
    stm_free uses
  refine inScope arr (sub (mem_without.mpr ⟨?_, outside.1⟩))
  rw [body]
  exact either.resolve_left outside.2

/-- The loads that become operands are those at gtids only. -/
theorem loadsOwnArray_iff {iterSpace : IterationSpace} (names : Names 0 space.dims iterSpace) :
    LoadsOwnArray space stms ↔ ∃ before elem exp after read,
      stms = before ++ .mk [elem] exp :: after ∧ toAffineRead elem.name exp iterSpace = some read ∧
      read.array ∈ space.binders ++ before.flatMap Stm.patNames := by
  constructor
  · rintro ⟨before, elem, arr, dims, used, after, rfl, gtids, own⟩
    refine ⟨before, elem, _, after, ⟨elem.name, arr, ⟨space.dims.length, used⟩⟩, rfl, ?_, own⟩
    rw [names.toAffineRead_eq]
    simp [SegSpace.gtidRead, gtids]
  · rintro ⟨before, elem, exp, after, read, rfl, hoisted, own⟩
    rw [names.toAffineRead_eq] at hoisted
    have same : space.affineRead (.mk [elem] exp) = some read := hoisted
    obtain ⟨elem', arr, dims, used, eq, gtids, rfl⟩ := affineRead_some same
    cases eq
    exact ⟨before, elem, arr, dims, used, after, rfl, gtids, own⟩

end Free

section Lowering

variable {cfg : Config} {prog : Prog} {lf : FunDef → Lower Callee} {ctx : Ctx} {op : SegOp}
  {space : SegSpace} {stms : List Stm}

theorem lookups_exists {names : List VName} (bound : ctx.Binds names) (ip : Insertion) :
    ∃ vs, (lookups ctx names).run ip = .ok (vs, ip) := by
  unfold lookups
  induction names with
  | nil => exact ⟨[], rfl⟩
  | cons x names ih =>
    obtain ⟨v, hv⟩ := Option.ne_none_iff_exists'.mp (bound x List.mem_cons_self)
    obtain ⟨vs, rest⟩ := ih fun y hy => bound y (List.mem_cons_of_mem x hy)
    refine ⟨v :: vs, ?_⟩
    rw [List.mapM_cons, Tracked.run_bind, Ctx.lookup, hv]
    simp only [Tracked.run_pure, Tracked.run_bind, rest]

/-- A kernel that is well scoped is lowered without an unbound name, if the arrays of its
hoisted loads are bound outside. The flat index of the space is bound nowhere. -/
theorem lowerSegOp_finds (kernel : op.hoisted = some (space, stms)) (inScope : ctx.Binds op.free)
    (flat : space.flatId ∉ op.body.free) (seq : op.sequential = true)
    (arrays : ctx.Binds ((space.affineReads stms).map AffineRead.array)) :
    Finds lf (lowerSegOp cfg prog lf op ctx) := by
  obtain ⟨_, names, sub⟩ := hoisted_kernel kernel
  have dims : ctx.Binds space.names := fun x hx => inScope x (names hx)
  have bound : ctx.Binds (without op.body.free (space.dims.map Prod.fst)) := by
    intro x hx
    obtain ⟨used, gtid⟩ := mem_without.mp hx
    refine inScope x (sub (mem_without.mpr ⟨used, ?_⟩))
    rw [SegSpace.binders, List.mem_cons, not_or]
    exact ⟨fun same => flat (same ▸ used), gtid⟩
  cases op with
  | segMap _ _ _ body =>
    obtain ⟨_, result⟩ := body
    cases kernel
    unfold lowerSegOp
    exact lowerSegMap_finds seq dims arrays bound
  | segRed _ _ _ body ops =>
    obtain ⟨_, result⟩ := body
    cases kernel
    obtain ⟨seqKernel, seqOps⟩ := Bool.and_eq_true_iff.mp seq
    unfold lowerSegOp
    rcases ops with _ | ⟨⟨⟨params, lambdaRet, lambda⟩, neutral, shape⟩, _ | ⟨other, rest⟩⟩
    · exact .undefined
    · obtain ⟨both, _⟩ := Ctx.Binds.append.mp (Ctx.Binds.append.mp inScope).2
      obtain ⟨operands, _⟩ := Ctx.Binds.append.mp both
      obtain ⟨free, neutrals⟩ := Ctx.Binds.append.mp operands
      have seqLambda : lambda.sequential = true := by simpa using seqOps
      exact lowerSegRed_finds seqKernel dims arrays bound neutrals free fun c =>
        lowerBody_finds cfg prog lf lambda c seqLambda
    · exact .undefined
  | segHist lvl _ ret body ops =>
    obtain ⟨_, result⟩ := body
    cases kernel
    obtain ⟨seqKernel, seqOps⟩ := Bool.and_eq_true_iff.mp seq
    have other : Finds lf (lowerSegHist cfg lvl space stms result ret []
        (lowerKernelStms cfg prog lf stms) (fun _ => Lower.undefined) ctx) :=
      lowerSegHist_finds seqKernel dims arrays bound (by simp) (by simp)
        fun c (_ : c.Binds []) => .undefined
    unfold lowerSegOp
    rcases ops with _ | ⟨⟨dest, params, lambdaRet, lambda⟩, _ | ⟨next, rest⟩⟩
    · exact other
    · obtain ⟨operands, _⟩ := Ctx.Binds.append.mp (Ctx.Binds.append.mp inScope).2
      obtain ⟨dests, free⟩ := Ctx.Binds.append.mp operands
      have seqLambda : lambda.sequential = true := by simpa using seqOps
      exact lowerSegHist_finds seqKernel dims arrays bound (List.forall_mem_singleton.mpr dests)
        (List.forall_mem_singleton.mpr free) fun c => lowerBody_finds cfg prog lf lambda c seqLambda
    · exact other
  | segScan => cases kernel

/-- Every hoisted load keeps to the scope of its array: none is the kernel's own, and they are
all found outside. -/
structure HoistsInScope (space : SegSpace) (stms : List Stm) (ctx : Ctx)
    (iterSpace : IterationSpace) (reads : List AffineRead) (ip : Insertion) : Prop where
  outside : ∀ before elem exp after read, stms = before ++ .mk [elem] exp :: after →
    toAffineRead elem.name exp iterSpace = some read →
    read.array ∉ space.binders ++ before.flatMap Stm.patNames
  looked : ∃ inputs, (lookups ctx (reads.map AffineRead.array)).run ip = .ok (inputs, ip)

theorem hoistsInScope_iff {ip ip' : Insertion} {iterSpace : IterationSpace}
    {reads : List AffineRead} (kernel : op.hoisted = some (space, stms))
    (inScope : ctx.Binds op.free) (run : (lowerSegSpace space ctx).run ip = .ok (iterSpace, ip'))
    (found : findSegOpAffineReads iterSpace stms = .ok reads) :
    HoistsInScope space stms ctx iterSpace reads ip' ↔ ¬ LoadsOwnArray space stms := by
  have names := lowerSegDims_returns 0 space.dims ip iterSpace ip' run
  constructor
  · intro hoists own
    obtain ⟨before, elem, exp, after, read, split, hoisted, own⟩ := (loadsOwnArray_iff names).mp own
    exact hoists.outside before elem exp after read split hoisted own
  · intro none
    have arrays := hoisted_bound kernel inScope none
    obtain ⟨rfl, _⟩ := names.findSegOpAffineReads_eq found
    rw [loadsOwnArray_iff names] at none
    exact ⟨fun before elem exp after read split hoisted own =>
        none ⟨before, elem, exp, after, read, split, hoisted, own⟩, lookups_exists arrays ip'⟩

end Lowering

section Examples

def fourPoints : SegSpace := ⟨"flat", [("i", .const (.createInt 4 64))]⟩

/-- A kernel that reads one array, which it may have replicated itself. -/
def readRow (own : Bool) : List Stm :=
  (if own then [.mk [⟨"ys", .array (.int .int64) [.const (.createInt 4 64)]⟩]
    (.basicOp (.replicate [.const (.createInt 4 64)] (.const (.createInt 0 64))))] else []) ++
  [.mk [⟨"y", .prim (.int .int64)⟩] (.basicOp (.index "ys" [.fix (.var "i")]))]

def readRowMap (own : Bool) : SegOp :=
  .segMap .thread fourPoints [.prim (.int .int64)] (.mk (readRow own) [.var "y"])

theorem readRow_single (own : Bool) : ∀ stm ∈ readRow own, ∃ elem exp, stm = .mk [elem] exp := by
  cases own <;> simp [readRow]

def rowCtx : Ctx := Ctx.empty.insert "ys" { func := "f", id := 0, ty := .tensor [4] (.int 64) }

end Examples

end FutharkMlir
