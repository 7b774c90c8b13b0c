import FutharkMlir.Scoping.Calls
import FutharkMlir.Scoping.Kernels

/-! The lowering of an expression uses only values it can see, provided its free names are
bound to such values and no name it binds is bound twice. Bindings made inside a branch
leak into the environment that follows it; that is why the names must be distinct. -/
namespace FutharkMlir

/-- The binders are distinct from each other and from the free names, unless everything
is in scope anyway. -/
def Hygienic (S : Set Value) (free binders : List VName) : Prop :=
  (∀ v, v ∈ S) ∨ (binders.Nodup ∧ ∀ x ∈ free, x ∉ binders)

namespace Hygienic

variable {S : Set Value} {F B F' B' P K : List VName}

theorem mono {T : Set Value} (h : Hygienic S F B) (le : S ⊆ T) : Hygienic T F B :=
  h.imp_left fun total v => le (total v)

theorem inner (h : Hygienic S F B) (sub : (P ++ B').Sublist B) (free : ∀ x ∈ F', x ∈ F ∨ x ∈ P) :
    Hygienic S F' B' := by
  refine h.imp_right fun ⟨nodup, fresh⟩ => ?_
  obtain ⟨_, nodup', disjoint⟩ := List.nodup_append.mp (nodup.sublist sub)
  refine ⟨nodup', fun x hx hb => ?_⟩
  rcases free x hx with hx | hx
  · exact fresh x hx (sub.subset (List.mem_append_right _ hb))
  · exact disjoint x hx x hb rfl

/-- A part under the binders `P` does not mention what is bound before it in `K`. -/
theorem apart (h : Hygienic S F B) (sub : (K ++ (P ++ B')).Sublist B)
    (free : ∀ x ∈ F', x ∈ F ∨ x ∈ P) : Apart S (F' ++ B') K := by
  refine h.imp_right fun ⟨nodup, fresh⟩ x hx hk => ?_
  obtain ⟨_, _, disjoint⟩ := List.nodup_append.mp (nodup.sublist sub)
  rcases List.mem_append.mp hx with hx | hx
  · rcases free x hx with hx | hx
    · exact fresh x hx (sub.subset (List.mem_append_left _ hk))
    · exact disjoint x hk x (List.mem_append_left _ hx) rfl
  · exact disjoint x hk x (List.mem_append_right _ hx) rfl

end Hygienic

theorem Ctx.insertAll_of_not_mem {ctx : Ctx} {ps : List (String × Value)} {x : String}
    (h : x ∉ ps.map Prod.fst) : ctx.insertAll ps x = ctx x := by
  induction ps generalizing ctx with
  | nil => rfl
  | cons p ps ih =>
    rw [List.map_cons, List.mem_cons, not_or] at h
    rw [Ctx.insertAll, ih h.2, Ctx.insert_of_ne _ _ h.1]

theorem Ctx.insertAll_mem {ctx : Ctx} {ps : List (String × Value)} {x : String} {v : Value}
    (h : ctx.insertAll ps x = some v) (bound : x ∈ ps.map Prod.fst) : v ∈ ps.map Prod.snd := by
  induction ps generalizing ctx with
  | nil => cases bound
  | cons p ps ih =>
    by_cases later : x ∈ ps.map Prod.fst
    · exact List.mem_cons_of_mem _ (ih h later)
    · rw [List.map_cons, List.mem_cons] at bound
      have eq := bound.resolve_right later
      rw [Ctx.insertAll, insertAll_of_not_mem later, eq, Ctx.insert_self] at h
      cases h
      exact List.mem_cons_self

variable {R : Rules} {S : Set Value} (cfg : Config)

theorem loopInits_keeps {merge : List (Param × SubExp)} {ctx : Ctx}
    (shown : ctx.Shows S (subExpNames (merge.map Prod.snd))) :
    Emit.Keeps R S (loopInits merge ctx) fun s typed => ∀ p ∈ typed, p.2 ∈ s := by
  refine .mapM (Q := fun s (p : MlirTy × Value) => p.2 ∈ s) (fun _ _ _ le h => le h)
    fun m member S' le => ?_
  have names : ctx.Shows S' m.2.names :=
    (shown.flatMap (List.mem_map_of_mem member)).mono le
  refine .bind (.liftExcept _) fun ty S₁ le₁ _ => ?_
  refine .bind (lowerSubExp_keeps (names.mono le₁)) fun v S₂ _ hv => ?_
  exact .bind (castToType_keeps hv ty) fun init S₃ _ hinit => .pure fun _ le => le hinit

theorem castAll_keeps {pairs : List (Value × MlirTy)} (seen : AllSeen S (pairs.map Prod.fst)) :
    Emit.Keeps R S (castAll pairs) AllSeen :=
  .seenM fun _ member _ le => castToType_keeps (le (seen _ (List.mem_map_of_mem member))) _

theorem lowerCallArgs_keeps {ctx : Ctx} {pairs : List (SubExp × MlirTy)}
    (shown : ctx.Shows S (subExpNames (pairs.map Prod.fst))) :
    Emit.Keeps R S (lowerCallArgs ctx pairs) AllSeen := by
  refine .seenM fun p member S' le => ?_
  have names : ctx.Shows S' p.1.names := (shown.flatMap (List.mem_map_of_mem member)).mono le
  exact .bind (lowerSubExp_keeps names) fun v S₁ _ hv => castToType_keeps hv _

theorem lowerLoop_keeps {merge : List (Param × SubExp)} {form : LoopForm} {ctx : Ctx}
    {N L : List VName} {body : Ctx → Lower (List Value × Ctx)} (shown : ctx.Shows S N)
    (inits : subExpNames (merge.map Prod.snd) ⊆ N) (bound : form.names ⊆ N) (sub : L ⊆ N)
    (step : LambdaKeeps R.nested S L body) :
    Lower.Keeps R S (lowerLoop cfg merge form body ctx) AllSeen := by
  cases form with
  | whileLoop c => exact .throw
  | forLoop i t n =>
    unfold lowerLoop
    refine .bind (.lift (loopInits_keeps (shown.subset inits))) fun typed S₁ le₁ htyped => ?_
    refine .bind (.lift (constantIndex_keeps 0)) fun lb S₂ le₂ hlb => ?_
    refine .bind (.lift (lowerSubExp_keeps ((shown.subset bound).mono (le₁.trans le₂))))
      fun n S₃ le₃ hn => ?_
    refine .bind (.lift (indexCast_keeps hn _)) fun ub S₄ le₄ hub => ?_
    refine .bind (.lift (constantIndex_keeps 1)) fun one S₅ le₅ hone => ?_
    have le : S ⊆ S₅ := le₁.trans (le₂.trans (le₃.trans (le₄.trans le₅)))
    refine .bind (.inNested (Q := fun _ => True) fun args S' le' hargs _ => ?_) fun p S₆ le₆ hp => ?_
    · refine .bind (.liftExcept _) fun iv T₁ l₁ hiv => ?_
      refine .bind (.lift (indexCast_keeps (l₁ (hargs _ (indexed_mem hiv))) _))
        fun counter T₂ l₂ hcounter => ?_
      refine .bind (.liftExcept _) fun pairs T₃ l₃ zip => ?_
      rw [zipEqual_eq cfg zip]
      have start := le.trans (le'.trans (l₁.trans (l₂.trans l₃)))
      have iterArgs := (hargs.mono (l₁.trans (l₂.trans l₃))).subset (List.drop_subset 1 args)
      have first : ctx.Adds T₃ (ctx.insert i counter) := .insert (l₃ hcounter)
      have inner := first.trans
        (.insertZip _ (fun m : Param × SubExp => m.1.name) merge iterArgs)
      refine .bind (step T₃ _ start (inner.shows ((shown.subset sub).mono start)))
        fun results T₄ l₄ hresults => .bind (.liftExcept _) fun pairs' T₅ l₅ zip' => ?_
      have seen : AllSeen T₅ (pairs'.map Prod.fst) := by
        rw [(zipEqual_fst cfg zip').2]
        exact hresults.mono l₅
      exact .bind (.lift (castAll_keeps seen)) fun yield T₆ _ hyield =>
        .pure fun _ le => ⟨hyield.mono le, trivial⟩
    · refine .lift (.create ?_ (List.forall_mem_singleton.mpr hp.1) trivial)
      simp only [AllSeen.cons]
      refine ⟨le₆ (le₅ (le₄ (le₃ hlb))), le₆ (le₅ hub), le₆ hone, fun v hv => ?_⟩
      obtain ⟨q, hq, rfl⟩ := List.mem_map.mp hv
      exact le₆ (le₅ (le₄ (le₃ (le₂ (htyped q hq)))))

/-- Looking a callee up inserts nothing and records nothing here, keeps what is said of the
module, and what is found may be called. -/
def CalleesKeep (R : Rules) (prog : Prog) (lf : FunDef → Lower Callee) : Prop :=
  ∀ f ∈ prog.funs, ∀ b c b', (lf f).run b = .ok (c, b') →
    b'.ip = b.ip ∧ (R.state b.ip.trace b.module → R.state b.ip.trace b'.module) ∧
      ∀ sig, c = .func sig → R.call sig.name

variable {prog : Prog} {lf : FunDef → Lower Callee}

/-- The rules fit the way expressions are lowered: what a recorded statement inserts is
owned, looking callees up keeps to them, and so does recording a statement. -/
structure Rules.Lawful (R : Rules) (cfg : Config) (prog : Prog) (lf : FunDef → Lower Callee) :
    Prop where
  covers : R.Covers
  callees : CalleesKeep R prog lf
  records : ∀ pat exp ctx b values after b' new module,
    (lowerExp cfg prog lf exp ctx).run b = .ok ((values, after), b') →
    b'.ip.ops = b.ip.ops ++ new → R.state b'.ip.trace module →
    R.state (b'.ip.trace ++ [⟨.mk pat exp, ctx, after, values, new⟩]) module

theorem Rules.Lawful.nested (h : R.Lawful cfg prog lf) : R.nested.Lawful cfg prog lf :=
  ⟨h.covers, h.callees, h.records⟩

theorem Rules.Lawful.lenient (h : R.Lawful cfg prog lf) : R.lenient.Lawful cfg prog lf :=
  ⟨h.covers, h.callees, h.records⟩

theorem CalleesKeep.lookup (callees : CalleesKeep R prog lf) {f : FunDef}
    (member : f ∈ prog.funs) :
    Lower.Keeps R S (lf f) fun _ c => ∀ sig, c = .func sig → R.call sig.name := by
  intro D b c b' run own recorded le state
  obtain ⟨same, kept, called⟩ := callees f member b c b' run
  exact ⟨same ▸ kept state, [], by simp [same], by rw [opsValid]; trivial, called⟩

theorem lowerCallee_keeps (any : R.AnyEmpty) {callee : Callee} {args : List SubExp}
    {retTys : List MlirTy} {ctx : Ctx} (shown : ctx.Shows S (subExpNames args))
    (called : ∀ sig, callee = .func sig → R.call sig.name) :
    Emit.Keeps R S (lowerCallee cfg callee args retTys ctx) AllSeen := by
  cases callee with
  | func sig =>
    refine .bind (.liftExcept _) fun pairs S₁ le₁ zip => ?_
    have names : ctx.Shows S₁ (subExpNames (pairs.map Prod.fst)) := by
      rw [(zipEqual_fst cfg zip).2]
      exact shown.mono le₁
    exact .bind (lowerCallArgs_keeps names) fun vs S₂ _ hvs => .create hvs (by simp) (called sig rfl)
  | blackBox b =>
    exact .bind (lowerSubExps_keeps shown) fun vs S₁ _ hvs => lowerBlackBox_keeps cfg any b hvs _

theorem lowerApply_keeps (any : R.AnyEmpty) (callees : CalleesKeep R prog lf)
    {fname : String} {args : List SubExp} {retTypes : List Ty} {ctx : Ctx}
    (shown : ctx.Shows S (subExpNames args)) :
    Lower.Keeps R S (lowerApply cfg prog lf fname args retTypes ctx) AllSeen := by
  unfold lowerApply
  split
  · exact .bind (.lift (lowerSubExps_keeps shown)) fun vs S₁ _ hvs =>
      .lift (lowerIntrinsic_keeps fname hvs)
  · rename_i f found
    refine .bind (.liftExcept _) fun retTys S₁ le₁ _ => ?_
    refine .bind (callees.lookup (List.mem_of_find?_eq_some found)) fun callee S₂ le₂ called => ?_
    refine .bind (.lift (lowerCallee_keeps cfg any (shown.mono (le₁.trans le₂)) called))
      fun returns S₃ _ hreturns => .bind (.liftExcept _) fun pairs S₄ le₄ zip => ?_
    have seen : AllSeen S₄ (pairs.map Prod.fst) := by
      rw [(zipEqual_fst cfg zip).2]
      exact hreturns.mono le₄
    exact .lift (castAll_keeps seen)

/-- An array loaded in a kernel is a name of the kernel. -/
theorem index_mem_names (after : List VName) {stms : List Stm} {stm : Stm} (member : stm ∈ stms)
    {arr : VName} {dims : List DimIndex} (load : stm.exp = .basicOp (.index arr dims)) :
    arr ∈ stmsFree after stms ++ stmsBinders stms := by
  induction stms with
  | nil => cases member
  | cons s rest ih =>
    obtain ⟨pat, exp⟩ := s
    simp only [stmsFree, stmsBinders, List.mem_append, mem_without]
    rcases List.mem_cons.mp member with rfl | member
    · rw [Stm.exp] at load
      subst load
      exact .inl (.inl (by simp [Exp.free, BasicOp.names]))
    · rcases List.mem_append.mp (ih member) with h | h
      · by_cases bound : arr ∈ pat.map PatElem.name
        · exact .inr (.inl (.inl bound))
        · exact .inl (.inr ⟨h, bound⟩)
      · exact .inr (.inr h)

/-- The free names of a part under binders are free or among the binders. -/
theorem mem_or_bound {F bound : List VName} {names : List VName}
    (sub : without names bound ⊆ F) : ∀ x ∈ names, x ∈ F ∨ x ∈ bound := by
  intro x hx
  by_cases h : x ∈ bound
  · exact .inr h
  · exact .inl (sub (mem_without.mpr ⟨hx, h⟩))

/-- A statement binds the names of its pattern to the values of its expression. -/
theorem lowerStm_of_exp {exp : Exp} {ctx : Ctx} (pat : List PatElem) (lawful : R.Lawful cfg prog lf)
    (owned : ∀ sizes ty, R.owned sizes ty → R.empty sizes ty)
    (h : Lower.Keeps R.lenient S (lowerExp cfg prog lf exp ctx) fun s p =>
      AllSeen s p.1 ∧ ∀ x, x ∉ exp.binders → p.2 x = ctx x) :
    Lower.Keeps R S (lowerStm cfg prog lf (.mk pat exp) ctx) fun s c =>
      c.Shows s (pat.map PatElem.name) ∧
        ∀ x, x ∉ pat.map PatElem.name ++ exp.binders → c x = ctx x := by
  unfold lowerStm
  refine .bind (.recording lawful.covers owned h (lawful.records pat exp ctx)) fun p S₁ le₁ hp => ?_
  obtain ⟨vs, c⟩ := p
  obtain ⟨hvs, same⟩ := hp
  refine .bind (.liftExcept _) fun pairs S₂ le₂ zip => .pure fun _ le => ?_
  have fsts : pairs.map Prod.fst = pat := (zipEqual_fst cfg zip).2
  have names : (pairs.map fun p => (p.1.name, p.2)).map Prod.fst = pat.map PatElem.name := by
    rw [← fsts, List.map_map, List.map_map]
    rfl
  refine ⟨fun x hx v hv => ?_, fun x hx => ?_⟩
  · have member := Ctx.insertAll_mem hv (names ▸ hx)
    rw [List.map_map] at member
    obtain ⟨q, hq, rfl⟩ := List.mem_map.mp member
    rw [zipEqual_eq cfg zip] at hq
    exact le (le₂ (hvs _ (List.of_mem_zip hq).2))
  · rw [List.mem_append, not_or] at hx
    rw [Ctx.insertAll_of_not_mem (names ▸ hx.1)]
    exact same x hx.2

/-- What the lowering of an expression keeps: its results are in scope, and only the names
it binds are bound anew. -/
abbrev ExpKept (ctx : Ctx) (binders : List VName) (s : Set Value) (p : List Value × Ctx) : Prop :=
  AllSeen s p.1 ∧ ∀ x, x ∉ binders → p.2 x = ctx x

abbrev StmsKept (ctx : Ctx) (binders after : List VName) (s : Set Value) (c : Ctx) : Prop :=
  c.Shows s after ∧ ∀ x, x ∉ binders → c x = ctx x

theorem rest_shown {ctx c : Ctx} {S' : Set Value} {after pat inner : List VName}
    {rest : List Stm} {F : List VName} (le : S ⊆ S')
    (shown : ctx.Shows S (F ++ without (stmsFree after rest) pat ++
      (pat ++ inner ++ stmsBinders rest)))
    (hyg : Hygienic S (F ++ without (stmsFree after rest) pat) (pat ++ inner ++ stmsBinders rest))
    (bound : c.Shows S' pat) (same : ∀ x, x ∉ pat ++ inner → c x = ctx x) :
    c.Shows S' (stmsFree after rest ++ stmsBinders rest) ∧
      Hygienic S' (stmsFree after rest) (stmsBinders rest) := by
  constructor
  · rcases hyg with total | ⟨nodup, fresh⟩
    · exact fun _ _ v _ => le (total v)
    · intro x hx v hv
      by_cases hp : x ∈ pat
      · exact bound x hp v hv
      have new : x ∉ pat ++ inner := by
        intro old
        rcases List.mem_append.mp hx with hx | hx
        · refine fresh x (List.mem_append_right _ (mem_without.mpr ⟨hx, hp⟩)) ?_
          exact List.mem_append_left _ old
        · exact (List.nodup_append.mp nodup).2.2 x old x hx rfl
      rw [same x new] at hv
      refine le (shown x ?_ v hv)
      rcases List.mem_append.mp hx with hx | hx
      · exact List.mem_append_left _ (List.mem_append_right _ (mem_without.mpr ⟨hx, hp⟩))
      · exact List.mem_append_right _ (List.mem_append_right _ hx)
  · refine (hyg.inner (P := pat) ?_ (mem_or_bound (List.subset_append_right _ _))).mono le
    simp

section Parts

variable (prog lf)

/-- What is proved of every body, for the parts of an expression that contain one. -/
def BodyKeeps (body : Body) : Prop :=
  ∀ (R : Rules) (S : Set Value) (ctx : Ctx), R.Lawful cfg prog lf →
    (∀ sizes ty, R.owned sizes ty → R.empty sizes ty) →
    ctx.Shows S (body.free ++ body.binders) → Hygienic S body.free body.binders →
    Lower.Keeps R S (lowerBody cfg prog lf body ctx) (ExpKept ctx body.binders)

/-- What is proved of the statements of every kernel. -/
def KernelKeeps (stms : List Stm) : Prop :=
  ∀ (R : Rules) (S : Set Value) (skip : List VName) (ctx : Ctx) (after : List VName),
    R.Lawful cfg prog lf → (∀ sizes ty, R.owned sizes ty → R.empty sizes ty) →
    ctx.Shows S (stmsFree after stms ++ stmsBinders stms) →
    Hygienic S (stmsFree after stms) (stmsBinders stms) →
    Lower.Keeps R S (lowerKernelStms cfg prog lf stms skip ctx)
      (StmsKept ctx (stmsBinders stms) after)

variable {cfg prog lf} {F B P N : List VName}

theorem BodyKeeps.lambda {body : Body} (h : BodyKeeps cfg prog lf body)
    (lawful : R.Lawful cfg prog lf) (hyg : Hygienic S F B)
    (sub : (P ++ body.binders).Sublist B) (free : ∀ x ∈ body.free, x ∈ F ∨ x ∈ P) :
    LambdaKeeps R.nested S (body.free ++ body.binders) (lowerBody cfg prog lf body) := by
  intro S' ctx le shown
  have kept := h R.nested S' ctx lawful.nested (fun _ _ h => h) shown
    ((hyg.inner sub free).mono le)
  exact .weaken kept fun _ _ _ h => h.1

theorem KernelKeeps.stms {stms : List Stm} (h : KernelKeeps cfg prog lf stms)
    (lawful : R.Lawful cfg prog lf) (after : List VName) (hyg : Hygienic S F B)
    (sub : (P ++ stmsBinders stms).Sublist B)
    (free : ∀ x ∈ stmsFree after stms, x ∈ F ∨ x ∈ P)
    (names : stmsFree after stms ++ stmsBinders stms ⊆ N) :
    StmsKeep R.nested S N (stmsBinders stms) after (lowerKernelStms cfg prog lf stms) := by
  intro S' skip ctx le shown
  exact h R.nested S' skip ctx after lawful.nested (fun _ _ h => h) (shown.subset names)
    ((hyg.inner sub free).mono le)

/-- The names of a part are free names or binders of the whole. -/
theorem part_subset {xs ys : List VName} (sub : (P ++ ys).Sublist B)
    (free : ∀ x ∈ xs, x ∈ F ∨ x ∈ P) : xs ++ ys ⊆ F ++ B := by
  intro x hx
  rw [List.mem_append]
  rcases List.mem_append.mp hx with hx | hx
  · exact (free x hx).imp_right fun h => sub.subset (List.mem_append_left _ h)
  · exact .inr (sub.subset (List.mem_append_right _ hx))

section SegOps

variable {ctx : Ctx} {lvl : SegLevel} {space : SegSpace} {ret : List Ty} {stms : List Stm}
  {result : List SubExp} (kernel : KernelKeeps cfg prog lf stms) (lawful : R.Lawful cfg prog lf)
  (any : R.AnyEmpty)
include kernel lawful any

theorem segMap_keeps
    (hF : F = space.names ++ without (stmsFree (subExpNames result) stms) space.binders)
    (hB : B = space.binders ++ stmsBinders stms) (shown : ctx.Shows S (F ++ B))
    (hyg : Hygienic S F B) :
    Lower.Keeps R S (lowerSegMap cfg lvl space stms result ret
      (lowerKernelStms cfg prog lf stms) ctx) AllSeen := by
  have inside : without (stmsFree (subExpNames result) stms) space.binders ⊆ F := fun x hx => by
    simp [hF, hx]
  have free := mem_or_bound inside
  have sub : (space.binders ++ stmsBinders stms).Sublist B := by simp [hB]
  have names := part_subset sub free
  refine lowerSegMap_keeps cfg any shown (fun x hx => by simp [hF, hx]) ?_
    (kernel.stms lawful _ hyg sub free names)
  exact fun stm member arr dims load => names (index_mem_names _ member load)

theorem segRed_keeps {params : List Param} {lambdaRet : List Ty} {body : Body}
    {neutral shape : List SubExp} (op : BodyKeeps cfg prog lf body)
    (hF : F = space.names ++ without (stmsFree (subExpNames result) stms) space.binders ++
      segBinOpsFree [.mk (.mk params lambdaRet body) neutral shape])
    (hB : B = space.binders ++ stmsBinders stms ++
      segBinOpsBinders [.mk (.mk params lambdaRet body) neutral shape])
    (shown : ctx.Shows S (F ++ B)) (hyg : Hygienic S F B) :
    Lower.Keeps R S (lowerSegRed cfg lvl space stms result params lambdaRet neutral shape
      (lowerKernelStms cfg prog lf stms) (lowerBody cfg prog lf body) ctx) AllSeen := by
  simp only [segBinOpsFree, segBinOpsBinders, Lambda.free, Lambda.binders] at hF hB
  have inside : without (stmsFree (subExpNames result) stms) space.binders ⊆ F := fun x hx => by
    simp [hF, hx]
  have free := mem_or_bound inside
  have sub : (space.binders ++ stmsBinders stms).Sublist B := by simp [hB]
  have names := part_subset sub free
  have opFree : ∀ x ∈ body.free, x ∈ F ∨ x ∈ paramNames params := mem_or_bound fun x hx => by
    simp [hF, hx]
  have kernelThenOp : (stmsBinders stms ++ (paramNames params ++ body.binders)).Sublist B := by
    simp [hB]
  have opSub := (List.sublist_append_right _ _).trans kernelThenOp
  refine lowerSegRed_keeps cfg any shown (fun x hx => by simp [hF, hx])
    (fun x hx => by simp [hF, hx]) ?_ (kernel.stms lawful _ hyg sub free names)
    (op.lambda lawful hyg opSub opFree) (hyg.apart kernelThenOp opFree)
    (part_subset opSub opFree)
  exact fun stm member arr dims load => names (index_mem_names _ member load)

theorem segScan_keeps {params postParams : List Param} {lambdaRet postRet : List Ty}
    {body postBody : Body} {neutral shape : List SubExp} (op : BodyKeeps cfg prog lf body)
    (post : BodyKeeps cfg prog lf postBody)
    (hF : F = space.names ++ without (stmsFree (subExpNames result) stms) space.binders ++
      segBinOpsFree [.mk (.mk params lambdaRet body) neutral shape] ++
      (Lambda.mk postParams postRet postBody).free)
    (hB : B = space.binders ++ stmsBinders stms ++
      segBinOpsBinders [.mk (.mk params lambdaRet body) neutral shape] ++
      (Lambda.mk postParams postRet postBody).binders)
    (shown : ctx.Shows S (F ++ B)) (hyg : Hygienic S F B) :
    Lower.Keeps R S (lowerSegScan cfg lvl space result ret params neutral shape postParams
      (lowerKernelStms cfg prog lf stms) (lowerBody cfg prog lf body)
      (lowerBody cfg prog lf postBody) ctx) AllSeen := by
  simp only [segBinOpsFree, segBinOpsBinders, Lambda.free, Lambda.binders] at hF hB
  have inside : without (stmsFree (subExpNames result) stms) space.binders ⊆ F := fun x hx => by
    simp [hF, hx]
  have free := mem_or_bound inside
  have sub : (space.binders ++ stmsBinders stms).Sublist B := by simp [hB]
  have opFree : ∀ x ∈ body.free, x ∈ F ∨ x ∈ paramNames params := mem_or_bound fun x hx => by
    simp [hF, hx]
  have postFree : ∀ x ∈ postBody.free, x ∈ F ∨ x ∈ paramNames postParams :=
    mem_or_bound fun x hx => by simp [hF, hx]
  have kernelThenOp : (stmsBinders stms ++ (paramNames params ++ body.binders)).Sublist B := by
    simp [hB]
  have kernelThenPost :
      (stmsBinders stms ++ (paramNames postParams ++ postBody.binders)).Sublist B := by
    rw [hB]
    refine List.Sublist.append_right ?_ _
    exact (List.sublist_append_right _ _).trans (List.sublist_append_left _ _)
  have opSub := (List.sublist_append_right _ _).trans kernelThenOp
  have postSub := (List.sublist_append_right _ _).trans kernelThenPost
  exact lowerSegScan_keeps cfg any shown (fun x hx => by simp [hF, hx])
    (fun x hx => by simp [hF, hx])
    (kernel.stms lawful _ hyg sub free (part_subset sub free))
    (op.lambda lawful hyg opSub opFree) (hyg.apart kernelThenOp opFree)
    (part_subset opSub opFree) (post.lambda lawful hyg postSub postFree)
    (hyg.apart kernelThenPost postFree) (part_subset postSub postFree)

theorem segHist_keeps {dest : List VName} {params : List Param} {lambdaRet : List Ty} {body : Body}
    (op : BodyKeeps cfg prog lf body)
    (hF : F = space.names ++ without (stmsFree (subExpNames result) stms) space.binders ++
      histOpsFree [.mk dest (.mk params lambdaRet body)])
    (hB : B = space.binders ++ stmsBinders stms ++
      histOpsBinders [.mk dest (.mk params lambdaRet body)])
    (shown : ctx.Shows S (F ++ B)) (hyg : Hygienic S F B) :
    Lower.Keeps R S (lowerSegHist cfg lvl space stms result ret [(dest, params)]
      (lowerKernelStms cfg prog lf stms) (lowerBody cfg prog lf body) ctx) AllSeen := by
  simp only [histOpsFree, histOpsBinders, Lambda.free, Lambda.binders] at hF hB
  have inside : without (stmsFree (subExpNames result) stms) space.binders ⊆ F := fun x hx => by
    simp [hF, hx]
  have free := mem_or_bound inside
  have sub : (space.binders ++ stmsBinders stms).Sublist B := by simp [hB]
  have names := part_subset sub free
  have opFree : ∀ x ∈ body.free, x ∈ F ∨ x ∈ paramNames params := mem_or_bound fun x hx => by
    simp [hF, hx]
  have opSub : (paramNames params ++ body.binders).Sublist B := by simp [hB]
  refine lowerSegHist_keeps cfg any shown (fun x hx => by simp [hF, hx]) ?_ ?_
    (kernel.stms lawful _ hyg sub free names)
    (op.lambda lawful hyg opSub opFree) (part_subset opSub opFree)
  · intro op hop x hx
    rw [List.mem_singleton.mp hop] at hx
    simp [hF, hx]
  · exact fun stm member arr dims load => names (index_mem_names _ member load)

/-- Of several histograms, or none, only the map before them is lowered. -/
theorem segHist_none {ops : List HistOp}
    (hF : F = space.names ++ without (stmsFree (subExpNames result) stms) space.binders ++
      histOpsFree ops)
    (hB : B = space.binders ++ stmsBinders stms ++ histOpsBinders ops)
    (shown : ctx.Shows S (F ++ B)) (hyg : Hygienic S F B) :
    Lower.Keeps R S (lowerSegHist cfg lvl space stms result ret []
      (lowerKernelStms cfg prog lf stms) (fun _ => Lower.undefined) ctx) AllSeen := by
  have inside : without (stmsFree (subExpNames result) stms) space.binders ⊆ F := fun x hx => by
    simp [hF, hx]
  have free := mem_or_bound inside
  have sub : (space.binders ++ stmsBinders stms).Sublist B := by simp [hB]
  have names := part_subset sub free
  refine lowerSegHist_keeps (L := []) cfg any shown (fun x hx => by simp [hF, hx]) (by simp) ?_
    (kernel.stms lawful _ hyg sub free names) (fun _ _ _ _ => .throw) (by simp)
  exact fun stm member arr dims load => names (index_mem_names _ member load)

end SegOps

end Parts

section Syntax

mutual

theorem lowerStms_keeps : ∀ (stms : List Stm) (R : Rules) (S : Set Value) (ctx : Ctx)
    (after : List VName), R.Lawful cfg prog lf →
    (∀ sizes ty, R.owned sizes ty → R.empty sizes ty) →
    ctx.Shows S (stmsFree after stms ++ stmsBinders stms) →
    Hygienic S (stmsFree after stms) (stmsBinders stms) →
    Lower.Keeps R S (lowerStms cfg prog lf stms ctx) (StmsKept ctx (stmsBinders stms) after)
  | [], R, S, ctx, after, _, _, shown, _ => by
    unfold lowerStms
    refine .pure fun S' le => ⟨?_, fun x _ => rfl⟩
    exact (Ctx.Shows.append.mp shown).1.mono le
  | .mk pat exp :: rest, R, S, ctx, after, lawful, owned, shown, hyg => by
    unfold lowerStms
    rw [stmsFree, stmsBinders] at shown hyg
    refine .bind (lowerStm_keeps (.mk pat exp) R S ctx lawful owned ?_ ?_) fun c S₁ le₁ hc => ?_
    · refine shown.subset (List.append_subset.mpr ⟨?_, ?_⟩)
      · exact List.Subset.trans (List.subset_append_left _ _) (List.subset_append_left _ _)
      · exact List.Subset.trans (List.subset_append_left _ _) (List.subset_append_right _ _)
    · refine hyg.inner (P := []) (List.sublist_append_left _ _) ?_
      exact fun x hx => .inl (List.mem_append_left _ hx)
    · obtain ⟨shown', hyg'⟩ := rest_shown le₁ shown hyg hc.1 hc.2
      refine .weaken (lowerStms_keeps rest R S₁ c after lawful owned shown' hyg') ?_
      intro S' d le hd
      refine ⟨hd.1, fun x hx => ?_⟩
      rw [stmsBinders, List.mem_append, not_or] at hx
      rw [hd.2 x hx.2, hc.2 x hx.1]

theorem lowerKernelStms_keeps : ∀ (stms : List Stm) (R : Rules) (S : Set Value)
    (skip : List VName) (ctx : Ctx) (after : List VName), R.Lawful cfg prog lf →
    (∀ sizes ty, R.owned sizes ty → R.empty sizes ty) →
    ctx.Shows S (stmsFree after stms ++ stmsBinders stms) →
    Hygienic S (stmsFree after stms) (stmsBinders stms) →
    Lower.Keeps R S (lowerKernelStms cfg prog lf stms skip ctx)
      (StmsKept ctx (stmsBinders stms) after)
  | [], R, S, skip, ctx, after, _, _, shown, _ => by
    unfold lowerKernelStms
    refine .pure fun S' le => ⟨?_, fun x _ => rfl⟩
    exact (Ctx.Shows.append.mp shown).1.mono le
  | .mk pat exp :: rest, R, S, skip, ctx, after, lawful, owned, shown, hyg => by
    unfold lowerKernelStms
    rw [stmsFree, stmsBinders] at shown hyg
    split
    · have bound : ctx.Shows S (pat.map PatElem.name) := by
        refine shown.subset fun x hx => ?_
        simp only [List.mem_append]
        exact .inr (.inl (.inl hx))
      obtain ⟨shown', hyg'⟩ := rest_shown subset_rfl shown hyg bound fun x _ => rfl
      refine .weaken
        (lowerKernelStms_keeps rest R S skip ctx after lawful owned shown' hyg') ?_
      intro S' d le hd
      refine ⟨hd.1, fun x hx => ?_⟩
      rw [stmsBinders, List.mem_append, not_or] at hx
      exact hd.2 x hx.2
    · refine .bind (lowerStm_keeps (.mk pat exp) R S ctx lawful owned ?_ ?_)
        fun c S₁ le₁ hc => ?_
      · refine shown.subset (List.append_subset.mpr ⟨?_, ?_⟩)
        · exact List.Subset.trans (List.subset_append_left _ _) (List.subset_append_left _ _)
        · exact List.Subset.trans (List.subset_append_left _ _) (List.subset_append_right _ _)
      · refine hyg.inner (P := []) (List.sublist_append_left _ _) ?_
        exact fun x hx => .inl (List.mem_append_left _ hx)
      · obtain ⟨shown', hyg'⟩ := rest_shown le₁ shown hyg hc.1 hc.2
        refine .weaken
          (lowerKernelStms_keeps rest R S₁ skip c after lawful owned shown' hyg') ?_
        intro S' d le hd
        refine ⟨hd.1, fun x hx => ?_⟩
        rw [stmsBinders, List.mem_append, not_or] at hx
        rw [hd.2 x hx.2, hc.2 x hx.1]

theorem lowerStm_keeps : ∀ (stm : Stm) (R : Rules) (S : Set Value) (ctx : Ctx),
    R.Lawful cfg prog lf →
    (∀ sizes ty, R.owned sizes ty → R.empty sizes ty) →
    ctx.Shows S (stm.exp.free ++ (stm.patNames ++ stm.exp.binders)) →
    Hygienic S stm.exp.free (stm.patNames ++ stm.exp.binders) →
    Lower.Keeps R S (lowerStm cfg prog lf stm ctx)
      (StmsKept ctx (stm.patNames ++ stm.exp.binders) stm.patNames)
  | .mk pat exp, R, S, ctx, lawful, owned, shown, hyg => by
    refine lowerStm_of_exp cfg pat lawful owned ?_
    refine lowerExp_keeps exp R.lenient S ctx lawful.lenient (fun _ _ => trivial) ?_ ?_
    · refine shown.subset (List.append_subset.mpr ⟨List.subset_append_left _ _, ?_⟩)
      exact List.Subset.trans (List.subset_append_right _ _) (List.subset_append_right _ _)
    · exact hyg.inner (P := []) (List.sublist_append_right _ _) fun x hx => .inl hx

theorem lowerBody_keeps : ∀ (body : Body) (R : Rules) (S : Set Value) (ctx : Ctx),
    R.Lawful cfg prog lf →
    (∀ sizes ty, R.owned sizes ty → R.empty sizes ty) →
    ctx.Shows S (body.free ++ body.binders) → Hygienic S body.free body.binders →
    Lower.Keeps R S (lowerBody cfg prog lf body ctx) (ExpKept ctx body.binders)
  | .mk stms result, R, S, ctx, lawful, owned, shown, hyg => by
    unfold lowerBody
    rw [Body.free, Body.binders] at shown hyg
    refine .bind (lowerStms_keeps stms R S ctx _ lawful owned shown hyg) fun c S₁ le₁ hc => ?_
    refine .bind (.lift (lowerSubExps_keeps hc.1)) fun results S₂ le₂ hresults => ?_
    exact .pure fun S' le => ⟨hresults.mono le, fun x hx => hc.2 x (by rwa [Body.binders] at hx)⟩

theorem lowerExp_keeps : ∀ (exp : Exp) (R : Rules) (S : Set Value) (ctx : Ctx),
    R.Lawful cfg prog lf → R.AnyEmpty →
    ctx.Shows S (exp.free ++ exp.binders) → Hygienic S exp.free exp.binders →
    Lower.Keeps R S (lowerExp cfg prog lf exp ctx) (ExpKept ctx exp.binders)
  | .basicOp op, R, S, ctx, _, any, shown, _ => by
    unfold lowerExp
    rw [Exp.free] at shown
    refine .bind (.lift (lowerBasicOp_keeps cfg any (Ctx.Shows.append.mp shown).1)) ?_
    exact fun v S₁ _ hv => .pure fun _ le => ⟨by simp [le hv], fun x _ => rfl⟩
  | .subExp se, R, S, ctx, _, _, shown, _ => by
    unfold lowerExp
    rw [Exp.free] at shown
    refine .bind (.lift (lowerSubExp_keeps (Ctx.Shows.append.mp shown).1)) ?_
    exact fun v S₁ _ hv => .pure fun _ le => ⟨by simp [le hv], fun x _ => rfl⟩
  | .apply fname args retTypes, R, S, ctx, lawful, any, shown, _ => by
    unfold lowerExp
    rw [Exp.free] at shown
    refine .bind (lowerApply_keeps cfg any lawful.callees (Ctx.Shows.append.mp shown).1) ?_
    exact fun vs S₁ _ hvs => .pure fun _ le => ⟨hvs.mono le, fun x _ => rfl⟩
  | .ite cond thenBody elseBody ret, R, S, ctx, lawful, any, shown, hyg => by
    unfold lowerExp
    rw [Exp.free, Exp.binders] at shown hyg
    have sub : ∀ {xs : List VName}, xs ⊆ cond.names ++ thenBody.free ++ elseBody.free →
        xs ⊆ cond.names ++ thenBody.free ++ elseBody.free ++
          (thenBody.binders ++ elseBody.binders) :=
      fun h => List.Subset.trans h (List.subset_append_left _ _)
    have thenFree : thenBody.free ⊆ cond.names ++ thenBody.free ++ elseBody.free := by
      intro x hx
      simp [hx]
    have elseFree : elseBody.free ⊆ cond.names ++ thenBody.free ++ elseBody.free := by
      intro x hx
      simp [hx]
    refine .bind (.lift (lowerSubExp_keeps (shown.subset (sub fun x hx => by simp [hx]))))
      fun c S₁ le₁ hc => ?_
    refine .bind (.inNested (Q := fun c => ∀ x, x ∉ thenBody.binders → c x = ctx x)
      fun _ S' le' _ _ => ?_) fun p S₂ le₂ hp => ?_
    · refine lowerBody_keeps thenBody R.nested S' ctx lawful.nested (fun _ _ h => h) ?_ ?_
      · refine (shown.mono (le₁.trans le')).subset (List.append_subset.mpr ⟨sub thenFree, ?_⟩)
        exact fun x hx => by simp [hx]
      · exact (hyg.inner (P := []) (List.sublist_append_left _ _) fun x hx =>
          .inl (thenFree hx)).mono (le₁.trans le')
    obtain ⟨thenBlock, c₁⟩ := p
    obtain ⟨validThen, same₁⟩ := hp
    dsimp only at validThen same₁ ⊢
    have le : S ⊆ S₂ := le₁.trans le₂
    have elseShown : c₁.Shows S₂ (elseBody.free ++ elseBody.binders) := by
      refine (shown.mono le).frame same₁ ((hyg.apart (P := []) (by simp) fun x hx =>
        .inl (elseFree hx)).mono le) (List.append_subset.mpr ⟨sub elseFree, ?_⟩)
      exact fun x hx => by simp [hx]
    refine .bind (.inNested (Q := fun c => ∀ x, x ∉ elseBody.binders → c x = c₁ x)
      fun _ S' le' _ _ => ?_) fun q S₃ le₃ hq => ?_
    · refine lowerBody_keeps elseBody R.nested S' c₁ lawful.nested (fun _ _ h => h)
        (elseShown.mono le') ?_
      exact (hyg.inner (P := []) (List.sublist_append_right _ _) fun x hx =>
        .inl (elseFree hx)).mono (le.trans le')
    obtain ⟨elseBlock, c₂⟩ := q
    obtain ⟨validElse, same₂⟩ := hq
    dsimp only at validElse same₂ ⊢
    refine .bind (.lift (.create ?_ ?_ trivial)) fun vs S₄ _ hvs => .pure fun _ le => ?_
    · simp [le₃ (le₂ hc)]
    · intro b hb
      simp only [List.mem_cons, List.not_mem_nil, or_false] at hb
      rcases hb with rfl | rfl
      · exact validThen.mono le₃
      · exact validElse
    · refine ⟨hvs.mono le, fun x hx => ?_⟩
      rw [Exp.binders, List.mem_append, not_or] at hx
      dsimp only
      rw [same₂ x hx.2, same₁ x hx.1]
  | .loop merge form body, R, S, ctx, lawful, any, shown, hyg => by
    unfold lowerExp
    rw [Exp.free, Exp.binders] at shown hyg
    have inside : without body.free (form.binders ++ mergeNames merge) ⊆
        subExpNames (merge.map Prod.snd) ++ form.names ++
          without body.free (form.binders ++ mergeNames merge) :=
      List.subset_append_right _ _
    have outer := mem_or_bound inside
    refine .bind (lowerLoop_keeps cfg (L := body.free ++ body.binders) shown ?_ ?_ ?_ ?_) ?_
    · exact fun x hx => by simp [hx]
    · exact fun x hx => by simp [hx]
    · intro x hx
      rcases List.mem_append.mp hx with hx | hx
      · exact (outer x hx).elim (List.mem_append_left _) fun h =>
          List.mem_append_right _ (List.mem_append_left _ h)
      · exact List.mem_append_right _ (List.mem_append_right _ hx)
    · intro S' c le hc
      refine .weaken (lowerBody_keeps body R.nested S' c lawful.nested (fun _ _ h => h) hc ?_)
        fun _ _ _ h => h.1
      exact (hyg.inner (P := form.binders ++ mergeNames merge) (List.Sublist.refl _) outer).mono le
    · exact fun vs S₁ _ hvs => .pure fun _ le => ⟨hvs.mono le, fun x _ => rfl⟩
  | .hostOp op, R, S, ctx, lawful, any, shown, hyg => by
    unfold lowerExp
    rw [Exp.free, Exp.binders] at shown hyg
    refine .bind (lowerHostOp_keeps op R S ctx lawful any shown hyg) ?_
    exact fun vs S₁ _ hvs => .pure fun _ le => ⟨hvs.mono le, fun x _ => rfl⟩

theorem lowerHostOp_keeps : ∀ (op : HostOp) (R : Rules) (S : Set Value) (ctx : Ctx),
    R.Lawful cfg prog lf → R.AnyEmpty →
    ctx.Shows S (op.free ++ op.binders) → Hygienic S op.free op.binders →
    Lower.Keeps R S (lowerHostOp cfg prog lf op ctx) AllSeen
  | .segOp op, R, S, ctx, lawful, any, shown, hyg => by
    unfold lowerHostOp
    rw [HostOp.free, HostOp.binders] at shown hyg
    exact lowerSegOp_keeps op R S ctx lawful any shown hyg
  | .sizeOp, R, S, ctx, _, _, _, _ => by
    unfold lowerHostOp
    exact .throw
  | .gpuBody, R, S, ctx, _, _, _, _ => by
    unfold lowerHostOp
    exact .throw

theorem lowerSegOp_keeps : ∀ (op : SegOp) (R : Rules) (S : Set Value) (ctx : Ctx),
    R.Lawful cfg prog lf → R.AnyEmpty →
    ctx.Shows S (op.free ++ op.binders) → Hygienic S op.free op.binders →
    Lower.Keeps R S (lowerSegOp cfg prog lf op ctx) AllSeen
  | .segMap lvl space ret (.mk stms result), R, S, ctx, lawful, any, shown, hyg => by
    unfold lowerSegOp
    exact segMap_keeps (lowerKernelStms_keeps stms) lawful any rfl rfl shown hyg
  | .segRed lvl space ret (.mk stms result) ops, R, S, ctx, lawful, any, shown, hyg => by
    unfold lowerSegOp
    match ops with
    | [] => exact .throw
    | .mk (.mk _ _ _) _ _ :: _ :: _ => exact .throw
    | [.mk (.mk params lambdaRet body) neutral shape] =>
      exact segRed_keeps (lowerKernelStms_keeps stms) lawful any (lowerBody_keeps body)
        rfl rfl shown hyg
  | .segScan lvl space ret (.mk stms result) ops (.mk postParams _ postBody), R, S, ctx, lawful, any,
    shown, hyg => by
    unfold lowerSegOp
    match ops with
    | [] => exact .throw
    | .mk (.mk _ _ _) _ _ :: _ :: _ => exact .throw
    | [.mk (.mk params lambdaRet body) neutral shape] =>
      exact segScan_keeps (lowerKernelStms_keeps stms) lawful any (lowerBody_keeps body)
        (lowerBody_keeps postBody) rfl rfl shown hyg
  | .segHist lvl space ret (.mk stms result) ops, R, S, ctx, lawful, any, shown, hyg => by
    unfold lowerSegOp
    match ops with
    | [] => exact segHist_none (lowerKernelStms_keeps stms) lawful any rfl rfl shown hyg
    | .mk _ (.mk _ _ _) :: _ :: _ =>
      exact segHist_none (lowerKernelStms_keeps stms) lawful any rfl rfl shown hyg
    | [.mk dest (.mk params _ body)] =>
      exact segHist_keeps (lowerKernelStms_keeps stms) lawful any (lowerBody_keeps body)
        rfl rfl shown hyg

end

end Syntax

end FutharkMlir
