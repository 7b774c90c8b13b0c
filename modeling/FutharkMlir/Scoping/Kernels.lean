import FutharkMlir.Lib.Except
import FutharkMlir.Compiler.SegOp
import FutharkMlir.Scoping.Operations

namespace FutharkMlir

variable {R : Rules} {S : Set Value} {ctx : Ctx}

/-- Whatever `c` binds and `ctx` does not is in scope. -/
def Ctx.Adds (ctx : Ctx) (S : Set Value) (c : Ctx) : Prop :=
  ∀ x v, c x = some v → ctx x = some v ∨ v ∈ S

namespace Ctx.Adds

theorem refl (ctx : Ctx) (S : Set Value) : ctx.Adds S ctx := fun _ _ h => .inl h

theorem trans {c d : Ctx} (h : ctx.Adds S c) (k : c.Adds S d) : ctx.Adds S d := by
  intro x v hv
  rcases k x v hv with hv | hv
  · exact h x v hv
  · exact .inr hv

theorem shows {c : Ctx} (h : ctx.Adds S c) {names : List VName} (shown : ctx.Shows S names) :
    c.Shows S names := by
  intro x hx v hv
  rcases h x v hv with hv | hv
  · exact shown x hx v hv
  · exact hv

theorem insert {x : VName} {v : Value} (hv : v ∈ S) : ctx.Adds S (ctx.insert x v) := by
  intro y w hw
  by_cases eq : y = x
  · rw [eq, Ctx.insert_self] at hw
    cases hw
    exact .inr hv
  · rw [Ctx.insert_of_ne _ _ eq] at hw
    exact .inl hw

theorem insertAll {ps : List (String × Value)} (seen : AllSeen S (ps.map Prod.snd)) :
    ctx.Adds S (ctx.insertAll ps) := by
  induction ps generalizing ctx with
  | nil => exact .refl ctx S
  | cons p ps ih =>
    rw [List.map_cons, AllSeen.cons] at seen
    exact (insert seen.1).trans (ih seen.2)

/-- Names bound, one by one, to values that are in scope. -/
theorem insertZip {α : Type} (ctx : Ctx) (name : α → VName) (as : List α) {vs : List Value}
    (seen : AllSeen S vs) :
    ctx.Adds S (ctx.insertAll ((as.zip vs).map fun p => (name p.1, p.2))) := by
  refine insertAll fun v hv => ?_
  obtain ⟨q, hq, rfl⟩ := List.mem_map.mp hv
  obtain ⟨p, hp, rfl⟩ := List.mem_map.mp hq
  exact seen _ (List.of_mem_zip hp).2

end Ctx.Adds

section Space

theorem lowerSegDims_keeps (i : Nat) {dims : List (VName × SubExp)}
    (shown : ctx.Shows S (subExpNames (dims.map Prod.snd))) :
    Emit.Keeps R S (lowerSegDims ctx i dims) fun s space => ∀ d ∈ space, d.value ∈ s := by
  induction dims generalizing S i with
  | nil => exact .pure fun _ _ d hd => by cases hd
  | cons p rest ih =>
    obtain ⟨id, dim⟩ := p
    simp only [subExpNames, List.map_cons, List.flatMap_cons, Ctx.Shows.append] at shown
    unfold lowerSegDims
    refine .bind (lowerSubExp_keeps shown.1) fun v S₁ le₁ hv => ?_
    refine .bind (.liftExcept _) fun e S₂ le₂ _ => ?_
    refine .bind (ih (i + 1) (shown.2.mono (le₁.trans le₂))) fun space S₃ le₃ hspace => ?_
    refine .pure fun _ le d hd => ?_
    rcases List.mem_cons.mp hd with rfl | hd
    · exact le (le₃ (le₂ hv))
    · exact le (hspace d hd)

theorem spaceSizes_keeps {dims : List Dim} (seen : ∀ d ∈ dims, d.value ∈ S) :
    Emit.Keeps R S (spaceSizes dims) AllSeen :=
  .seenM fun d member _ le => indexCast_keeps (le (seen d (List.mem_of_mem_filter member))) _

theorem bindGtids_keeps (space : IterationSpace) :
    Emit.Keeps R S (bindGtids space ctx) fun s c => ctx.Adds s c := by
  induction space generalizing S ctx with
  | nil => exact .pure fun _ _ => .refl _ _
  | cons d rest ih =>
    unfold bindGtids
    refine .bind (.create1 .nil trivial) fun idx S₁ _ hidx => ?_
    refine .bind (indexCast_keeps hidx _) fun val S₂ _ hval => ?_
    exact .weaken ih fun S' c le h => (Ctx.Adds.insert (le hval)).trans h

theorem castUnlessEqual_keeps {v : Value} (hv : v ∈ S) (ty : MlirTy) :
    Emit.Keeps R S (castUnlessEqual v ty) Seen := by
  unfold castUnlessEqual
  split
  · exact .pure fun _ le => le hv
  · exact indexCast_keeps hv ty

theorem bindIndices_keeps {ps : List (Dim × Value)} (seen : AllSeen S (ps.map Prod.snd)) :
    Emit.Keeps R S (bindIndices ps ctx) fun s c => ctx.Adds s c := by
  induction ps generalizing S ctx with
  | nil => exact .pure fun _ _ => .refl _ _
  | cons p rest ih =>
    obtain ⟨d, iv⟩ := p
    rw [List.map_cons, AllSeen.cons] at seen
    unfold bindIndices
    refine .bind (castUnlessEqual_keeps seen.1 _) fun gtid S₁ le₁ hgtid => ?_
    exact .weaken (ih (seen.2.mono le₁)) fun S' c le h => (Ctx.Adds.insert (le hgtid)).trans h

theorem upperBounds_keeps {dims : List Dim} (seen : ∀ d ∈ dims, d.value ∈ S) :
    Emit.Keeps R S (upperBounds dims) AllSeen :=
  .seenM fun d member _ le => castUnlessEqual_keeps (le (seen d member)) _

theorem tieShapes_keeps {sizes vs : List Value} (hsizes : AllSeen S sizes) (hvs : AllSeen S vs) :
    Emit.Keeps R S (tieShapes sizes vs) AllSeen := by
  unfold tieShapes
  split
  · exact .pure fun _ le => hvs.mono le
  · refine .seenM fun v member _ le => .create1 ?_ trivial
    simp [le (hvs v member), hsizes.mono le]

theorem insertElements_keeps {i : Value} {elements rows : List Value} (hi : i ∈ S)
    (helements : AllSeen S elements) (hrows : AllSeen S rows) :
    Emit.Keeps R S (insertElements i elements rows) AllSeen := by
  refine .seenM fun p member _ le => .create1 ?_ trivial
  have h := List.of_mem_zip member
  simp [le (helements _ h.1), le (hrows _ h.2), le hi]

theorem filledOutputs_keeps (any : R.AnyEmpty) {sizes : List Value} (hsizes : AllSeen S sizes)
    {ps : List (MlirTy × Value)} (seen : AllSeen S (ps.map Prod.snd)) :
    Emit.Keeps R S (filledOutputs sizes ps) AllSeen := by
  refine .seenM fun p member S' le => ?_
  unfold filledOutput
  refine .bind (tensorEmpty_keeps any (hsizes.mono le)) fun e S₁ le₁ he => .create1 ?_ trivial
  simp [le₁ (le (seen _ (List.mem_map_of_mem member))), he]

theorem firstValues_subset {vs ws : List Value} {n : Nat} (h : firstValues vs n = .ok ws) :
    ws ⊆ vs := by
  unfold firstValues at h
  split at h
  · cases h
  · cases h
    exact List.take_subset n vs

theorem bindOperands_adds (cfg : Config) {params : List Param} {accs returns : List Value}
    {c : Ctx} (h : bindOperands cfg ctx params accs returns = .ok c) (haccs : AllSeen S accs)
    (hreturns : AllSeen S returns) : ctx.Adds S c := by
  simp only [bindOperands, Except.bind_eq_ok, Except.pure_eq_ok] at h
  obtain ⟨_, _, rest, _, pairs, zip, rfl⟩ := h
  rw [zipEqual_eq cfg zip]
  exact (Ctx.Adds.insertZip _ _ _ haccs).trans (.insertZip _ _ _ hreturns)

end Space

/-- Every affine read is the load of one of the statements. -/
theorem findSegOpAffineReads_array {space : IterationSpace} {stms : List Stm}
    {reads : List AffineRead} (h : findSegOpAffineReads space stms = .ok reads) :
    ∀ r ∈ reads, ∃ stm ∈ stms, ∃ dims, stm.exp = .basicOp (.index r.array dims) := by
  induction stms generalizing reads with
  | nil =>
    cases h
    intro r hr
    cases hr
  | cons stm stms ih =>
    match stm with
    | .mk [elem] exp =>
      simp only [findSegOpAffineReads, Except.bind_eq_ok, Except.pure_eq_ok] at h
      obtain ⟨rest, hrest, rfl⟩ := h
      intro r hr
      rcases List.mem_append.mp hr with hr | hr
      · refine ⟨_, List.mem_cons_self, ?_⟩
        rw [Option.mem_toList] at hr
        unfold toAffineRead at hr
        split at hr
        · obtain ⟨used, _, rfl⟩ := Option.map_eq_some_iff.mp hr
          exact ⟨_, rfl⟩
        · cases hr
      · obtain ⟨stm, member, load⟩ := ih hrest r hr
        exact ⟨stm, List.mem_cons_of_mem _ member, load⟩
    | .mk [] exp => cases h
    | .mk (_ :: _ :: _) exp => cases h

section Kernels

variable (cfg : Config)

/-- Statements that keep to the names `N`, leave the names outside `B` alone, and leave
the names used after them in scope. -/
def StmsKeep (R : Rules) (S : Set Value) (N B after : List VName)
    (lowerStms : List VName → Ctx → Lower Ctx) : Prop :=
  ∀ S' skip ctx, S ⊆ S' → ctx.Shows S' N →
    Lower.Keeps R S' (lowerStms skip ctx) fun s c => c.Shows s after ∧ ∀ x, x ∉ B → c x = ctx x

def LambdaKeeps (R : Rules) (S : Set Value) (L : List VName)
    (lowerLambda : Ctx → Lower (List Value × Ctx)) : Prop :=
  ∀ S' ctx, S ⊆ S' → ctx.Shows S' L →
    Lower.Keeps R S' (lowerLambda ctx) fun s p => AllSeen s p.1

theorem StmsKeep.mono {N B after : List VName} {lowerStms : List VName → Ctx → Lower Ctx}
    {T : Set Value} (h : StmsKeep R S N B after lowerStms) (le : S ⊆ T) :
    StmsKeep R T N B after lowerStms :=
  fun S' skip ctx le' => h S' skip ctx (le.trans le')

theorem LambdaKeeps.mono {L : List VName} {lowerLambda : Ctx → Lower (List Value × Ctx)}
    {T : Set Value} (h : LambdaKeeps R S L lowerLambda) (le : S ⊆ T) :
    LambdaKeeps R T L lowerLambda :=
  fun S' ctx le' => h S' ctx (le.trans le')

/-- Either the names in `L` are not among `B`, or everything is in scope. -/
def Apart (S : Set Value) (L B : List VName) : Prop := (∀ v, v ∈ S) ∨ ∀ x ∈ L, x ∉ B

theorem Apart.mono {T : Set Value} {L B : List VName} (h : Apart S L B) (le : S ⊆ T) :
    Apart T L B :=
  h.imp_left fun total v => le (total v)

/-- The names outside what has been rebound are still bound to what is in scope. -/
theorem Ctx.Shows.frame {c : Ctx} {N B L : List VName} (shown : ctx.Shows S N)
    (same : ∀ x, x ∉ B → c x = ctx x) (apart : Apart S L B) (sub : L ⊆ N) : c.Shows S L := by
  rcases apart with total | apart
  · exact fun _ _ v _ => total v
  · intro x hx v hv
    rw [same x (apart x hx)] at hv
    exact shown x (sub hx) v hv

variable {N B : List VName} {result : List SubExp} {lowerStms : List VName → Ctx → Lower Ctx}
  {lowerOp lowerPost : Ctx → Lower (List Value × Ctx)}

theorem lowerSegOpKernelBody_keeps {blockArgs : List Value} {reads : List AffineRead}
    {space : IterationSpace} (args : AllSeen S blockArgs) (shown : ctx.Shows S N)
    (stms : StmsKeep R S N B (subExpNames result) lowerStms) :
    Lower.Keeps R S (lowerSegOpKernelBody cfg blockArgs reads space lowerStms result ctx)
      fun s p => AllSeen s p.1 ∧ ∃ c : Ctx, c.Shows s N ∧ ∀ x, x ∉ B → p.2 x = c x := by
  unfold lowerSegOpKernelBody
  refine .bind (.liftExcept _) fun pairs S₁ le₁ zip => ?_
  rw [zipEqual_eq cfg zip]
  refine .bind (.lift (bindGtids_keeps space)) fun c S₂ le₂ gtids => ?_
  have bound : ctx.Adds S₂ c :=
    (Ctx.Adds.insertZip _ _ _ (args.mono (le₁.trans le₂))).trans gtids
  have shown₂ := bound.shows (shown.mono (le₁.trans le₂))
  refine .bind (stms S₂ _ c (le₁.trans le₂) shown₂) fun d S₃ le₃ after => ?_
  refine .bind (.lift (lowerSubExps_keeps after.1)) fun returns S₄ le₄ hreturns => ?_
  refine .pure fun _ le => ⟨hreturns.mono le, c, ?_, after.2⟩
  exact shown₂.mono (le₃.trans (le₄.trans le))

theorem lowerSegMap_keeps (any : R.AnyEmpty) {lvl : SegLevel} {space : SegSpace}
    {body : List Stm} {ret : List Ty} (shown : ctx.Shows S N) (bounds : space.names ⊆ N)
    (arrays : ∀ stm ∈ body, ∀ arr dims, stm.exp = .basicOp (.index arr dims) → arr ∈ N)
    (stms : StmsKeep R.nested S N B (subExpNames result) lowerStms) :
    Lower.Keeps R S (lowerSegMap cfg lvl space body result ret lowerStms ctx) AllSeen := by
  unfold lowerSegMap
  refine .bind (.liftExcept _) fun _ S₁ le₁ _ => ?_
  refine .bind (.lift (lowerSegDims_keeps 0 ((shown.subset bounds).mono le₁)))
    fun iter S₂ le₂ hiter => ?_
  refine .bind (.liftExcept _) fun reads S₃ le₃ hreads => ?_
  have loads : reads.map AffineRead.array ⊆ N := by
    intro x hx
    obtain ⟨r, hr, rfl⟩ := List.mem_map.mp hx
    obtain ⟨stm, member, dims, load⟩ := findSegOpAffineReads_array hreads r hr
    exact arrays stm member _ _ load
  refine .bind (.lift (lookups_keeps ((shown.subset loads).mono (le₁.trans (le₂.trans le₃)))))
    fun inputs S₄ le₄ hinputs => ?_
  refine .bind (.liftExcept _) fun returnTypes S₅ le₅ _ => ?_
  refine .bind (.lift (spaceSizes_keeps fun d hd => le₅ (le₄ (le₃ (hiter d hd)))))
    fun sizes S₆ le₆ hsizes => ?_
  refine .bind (.lift (tensorEmpties_keeps any hsizes)) fun outputs S₇ le₇ houtputs => ?_
  have le : S ⊆ S₇ := le₁.trans (le₂.trans (le₃.trans (le₄.trans (le₅.trans (le₆.trans le₇)))))
  refine .bind (.inNested (Q := fun _ => True) fun args S' le' hargs _ => ?_) fun p S₈ le₈ hp => ?_
  · refine .bind (lowerSegOpKernelBody_keeps cfg hargs (shown.mono (le.trans le'))
      (stms.mono (le.trans le'))) fun q S₉ le₉ hq => ?_
    exact .bind (.liftExcept _) fun _ S₁₀ le₁₀ _ => .pure fun _ le =>
      ⟨hq.1.mono (le₁₀.trans le), trivial⟩
  · refine .lift (.create ?_ (List.forall_mem_singleton.mpr hp.1) trivial)
    simp [hinputs.mono (le₅.trans (le₆.trans (le₇.trans le₈))), houtputs.mono le₈]

theorem lowerSegRed_keeps (any : R.AnyEmpty) {lvl : SegLevel} {space : SegSpace}
    {body : List Stm} {params : List Param} {lambdaRet : List Ty} {neutral shape : List SubExp}
    {L : List VName} (shown : ctx.Shows S N) (bounds : space.names ⊆ N)
    (neutrals : subExpNames neutral ⊆ N)
    (arrays : ∀ stm ∈ body, ∀ arr dims, stm.exp = .basicOp (.index arr dims) → arr ∈ N)
    (stms : StmsKeep R.nested S N B (subExpNames result) lowerStms)
    (op : LambdaKeeps R.nested S L lowerOp) (apart : Apart S L B) (sub : L ⊆ N) :
    Lower.Keeps R S (lowerSegRed cfg lvl space body result params lambdaRet neutral shape
      lowerStms lowerOp ctx) AllSeen := by
  unfold lowerSegRed
  refine .bind (.liftExcept _) fun _ S₁ le₁ _ => ?_
  split
  · exact .throw
  refine .bind (.lift (lowerSubExps_keeps ((shown.subset neutrals).mono le₁)))
    fun ne S₂ le₂ hne => ?_
  refine .bind (.lift (lowerSegDims_keeps 0 ((shown.subset bounds).mono (le₁.trans le₂))))
    fun iter S₃ le₃ hiter => ?_
  dsimp only
  split
  · exact .throw
  refine .bind (.liftExcept _) fun reads S₄ le₄ hreads => ?_
  have loads : reads.map AffineRead.array ⊆ N := by
    intro x hx
    obtain ⟨r, hr, rfl⟩ := List.mem_map.mp hx
    obtain ⟨stm, member, dims, load⟩ := findSegOpAffineReads_array hreads r hr
    exact arrays stm member _ _ load
  have start : S ⊆ S₄ := le₁.trans (le₂.trans (le₃.trans le₄))
  refine .bind (.lift (lookups_keeps ((shown.subset loads).mono start)))
    fun inputs S₅ le₅ hinputs => ?_
  refine .bind (.liftExcept _) fun returnTypes S₆ le₆ _ => ?_
  refine .bind (.lift (spaceSizes_keeps fun d hd =>
    le₆ (le₅ (le₄ (hiter d (List.mem_of_mem_filter hd)))))) fun sizes S₇ le₇ hsizes => ?_
  refine .bind (.liftExcept _) fun pairs S₈ le₈ zip => ?_
  have filled : AllSeen S₈ (pairs.map Prod.snd) := by
    intro v hv
    obtain ⟨p, hp, rfl⟩ := List.mem_map.mp hv
    rw [zipEqual_eq cfg zip] at hp
    exact le₈ (le₇ (le₆ (le₅ (le₄ (le₃ (hne _ (List.of_mem_zip hp).2))))))
  refine .bind (.lift (filledOutputs_keeps any (hsizes.mono le₈) filled))
    fun outputs S₉ le₉ houtputs => ?_
  have le : S ⊆ S₉ := start.trans (le₅.trans (le₆.trans (le₇.trans (le₈.trans le₉))))
  refine .bind (.inNested (Q := fun _ => True) fun args S' le' hargs _ => ?_) fun p T₁ l₁ hp => ?_
  · refine .bind (lowerSegOpKernelBody_keeps cfg hargs (shown.mono (le.trans le'))
      (stms.mono (le.trans le'))) fun q T₁ l₁ hq => ?_
    obtain ⟨returns, kernelCtx⟩ := q
    obtain ⟨hreturns, c, hc, same⟩ := hq
    dsimp only at hreturns same ⊢
    refine .bind (.liftExcept _) fun d T₂ l₂ hd => ?_
    have accs := (hargs.mono (l₁.trans l₂)).subset (List.drop_subset inputs.length args)
    have bound := bindOperands_adds cfg hd accs (hreturns.mono l₂)
    have kernel : kernelCtx.Shows T₂ L :=
      (hc.mono l₂).frame same (apart.mono (le.trans (le'.trans (l₁.trans l₂)))) sub
    refine .bind (op T₂ d (le.trans (le'.trans (l₁.trans l₂))) (bound.shows kernel))
      fun r T₃ l₃ hr => .pure fun _ le => ⟨hr.mono le, trivial⟩
  · refine .lift (.create ?_ (List.forall_mem_singleton.mpr hp.1) trivial)
    simp [hinputs.mono (le₆.trans (le₇.trans (le₈.trans (le₉.trans l₁)))), houtputs.mono l₁]

theorem lowerSegHist_keeps (any : R.AnyEmpty) {lvl : SegLevel} {space : SegSpace}
    {body : List Stm} {ret : List Ty} {ops : List (List VName × List Param)} {L : List VName}
    (shown : ctx.Shows S N) (bounds : space.names ⊆ N) (dests : ∀ op ∈ ops, op.1 ⊆ N)
    (arrays : ∀ stm ∈ body, ∀ arr dims, stm.exp = .basicOp (.index arr dims) → arr ∈ N)
    (stms : StmsKeep R.nested S N B (subExpNames result) lowerStms)
    (op : LambdaKeeps R.nested S L lowerOp) (sub : L ⊆ N) :
    Lower.Keeps R S (lowerSegHist cfg lvl space body result ret ops lowerStms lowerOp ctx)
      AllSeen := by
  unfold lowerSegHist
  refine .bind (.liftExcept _) fun _ S₁ le₁ _ => ?_
  refine .bind (lowerSegMap_keeps cfg any (shown.mono le₁) bounds arrays (stms.mono le₁))
    fun inputs S₂ le₂ hinputs => ?_
  split
  · rename_i indices values destNames params
    have names : destNames ⊆ N := dests (destNames, params) (by simp)
    refine .bind (.lift (lookups_keeps ((shown.subset names).mono (le₁.trans le₂))))
      fun found S₃ le₃ hfound => ?_
    split
    · rename_i dest
      refine .bind (.liftExcept _) fun p S₄ le₄ _ => ?_
      obtain ⟨indexShape, elem⟩ := p
      dsimp only
      split
      · exact .throw
      refine .bind (.liftExcept _) fun tys S₅ le₅ _ => ?_
      have le : S ⊆ S₅ := le₁.trans (le₂.trans (le₃.trans (le₄.trans le₅)))
      refine .bind (.inNested (Q := fun _ => True) fun blk S' le' hblk _ => ?_) fun p S₆ le₆ hp => ?_
      · refine .bind (.liftExcept _) fun pairs S₆ le₆ zip => ?_
        rw [zipEqual_eq cfg zip]
        have bound := (Ctx.Adds.insertZip ctx Param.name params (hblk.mono le₆)).shows
          ((shown.subset sub).mono (le.trans (le'.trans le₆)))
        exact .bind (op _ _ (le.trans (le'.trans le₆)) bound) fun r S₇ _ hr =>
          .pure fun _ le => ⟨hr.mono le, trivial⟩
      · refine .bind (.lift (.create ?_ (List.forall_mem_singleton.mpr hp.1) trivial))
          fun res S₇ le₇ hres => ?_
        · simp only [AllSeen.cons, AllSeen.nil, and_true] at hinputs hfound ⊢
          have le := le₄.trans (le₅.trans le₆)
          exact ⟨le (le₃ hinputs.2), le (le₃ hinputs.1), le hfound⟩
        · refine .bind (.liftExcept _) fun first S₈ le₈ hfirst => .pure fun _ le => ?_
          simp [le (le₈ (hres _ (indexed_mem hfirst)))]
    · exact .throw
  · exact .throw

theorem lowerScanStep_keeps {s : ScanParts} {L P : List VName} {args : List Value}
    (shown : ctx.Shows S N) (rowSizes : AllSeen S s.rowDynamicSizes) (hargs : AllSeen S args)
    (stms : StmsKeep R S N B (subExpNames s.result) lowerStms)
    (op : LambdaKeeps R S L lowerOp) (apart : Apart S L B) (sub : L ⊆ N)
    (post : LambdaKeeps R S P lowerPost) (apart' : Apart S P B) (sub' : P ⊆ N) :
    Lower.Keeps R S (lowerScanStep cfg s lowerStms lowerOp lowerPost ctx args) AllSeen := by
  unfold lowerScanStep
  refine .bind (.liftExcept _) fun scanIndex S₁ le₁ hindex => ?_
  have iterArgs : AllSeen S₁ (args.drop 1) := (hargs.mono le₁).subset (List.drop_subset 1 args)
  have index : scanIndex ∈ S₁ := le₁ (hargs _ (indexed_mem hindex))
  refine .bind (.lift (tieShapes_keeps (rowSizes.mono le₁)
    (iterArgs.subset (List.drop_subset _ _)))) fun rows S₂ le₂ hrows => ?_
  refine .bind (.lift (castUnlessEqual_keeps (le₂ index) _)) fun gtid S₃ le₃ hgtid => ?_
  have start : S ⊆ S₃ := le₁.trans (le₂.trans le₃)
  have opens : ctx.Adds S₃ (ctx.insert s.scanDim.id gtid) := .insert hgtid
  have inner := opens.shows (shown.mono start)
  refine .bind (stms S₃ [] _ start inner) fun kernelCtx S₄ le₄ after => ?_
  refine .bind (.lift (lowerSubExps_keeps after.1)) fun returns S₅ le₅ hreturns => ?_
  refine .bind (.liftExcept _) fun lambdaCtx S₆ le₆ hlambda => ?_
  have le : S ⊆ S₆ := start.trans (le₄.trans (le₅.trans le₆))
  have accs := (iterArgs.mono (le₂.trans (le₃.trans (le₄.trans (le₅.trans le₆))))).subset
    (List.take_subset s.scanValueCount _)
  have opened := bindOperands_adds cfg hlambda accs (hreturns.mono le₆)
  have kernel := inner.mono (le₄.trans (le₅.trans le₆))
  refine .bind (op S₆ _ le (opened.shows (kernel.frame after.2 (apart.mono le) sub)))
    fun next S₇ le₇ hnext => ?_
  refine .bind (.liftExcept _) fun bound S₈ le₈ hbound => ?_
  split
  · exact .throw
  have values := (hnext.mono le₈).subset (firstValues_subset hbound)
  have le' : S ⊆ S₈ := le.trans (le₇.trans le₈)
  have poster := (Ctx.Adds.insertZip kernelCtx Param.name s.postParams values).shows
    ((kernel.mono (le₇.trans le₈)).frame after.2 (apart'.mono le') sub')
  refine .bind (post S₈ _ le' poster) fun out S₉ le₉ hout => ?_
  refine .bind (.liftExcept _) fun elements T₁ l₁ helements => ?_
  have tail : S₂ ⊆ T₁ := le₃.trans (le₄.trans (le₅.trans (le₆.trans (le₇.trans (le₈.trans
    (le₉.trans l₁))))))
  refine .bind (.lift (insertElements_keeps (tail (le₂ index))
    ((hout.mono l₁).subset (firstValues_subset helements)) (hrows.mono tail)))
    fun nextRows T₂ l₂ hnextRows => .pure fun _ le => ?_
  simp [hnext.mono (le₈.trans (le₉.trans (l₁.trans (l₂.trans le)))), hnextRows.mono le]

theorem insertRows_keeps {ivs rows outputs : List Value} {rowSize : Int ⊕ Value}
    (hivs : AllSeen S ivs) (hrows : AllSeen S rows) (houtputs : AllSeen S outputs)
    (hsize : PartSeen S rowSize) :
    Emit.Keeps R S (insertRows ivs rows outputs rowSize) fun s b => b.Valid R.nested s := by
  unfold insertRows
  refine .inNested fun args S₁ le₁ _ _ => ?_
  refine .bind (.mapM (Q := AllSeen) (fun _ _ _ le h => h.mono le) fun p member S₂ le₂ => ?_)
    fun _ _ _ _ => .pure fun _ _ => .nil
  have h := List.of_mem_zip member
  have le := le₁.trans le₂
  refine .create ?_ (by simp) trivial
  simp only [AllSeen.cons, AllSeen.append]
  refine ⟨le (hrows _ h.1), le (houtputs _ h.2), hivs.mono le, fun v hv => ?_⟩
  exact le (hsize v (Option.mem_toList.mp hv))

theorem lowerSegScan_keeps (any : R.AnyEmpty) {lvl : SegLevel} {space : SegSpace}
    {ret : List Ty} {params postParams : List Param} {neutral shape : List SubExp}
    {L P : List VName} (shown : ctx.Shows S N) (bounds : space.names ⊆ N)
    (neutrals : subExpNames neutral ⊆ N)
    (stms : StmsKeep R.nested S N B (subExpNames result) lowerStms)
    (op : LambdaKeeps R.nested S L lowerOp) (apart : Apart S L B) (sub : L ⊆ N)
    (post : LambdaKeeps R.nested S P lowerPost) (apart' : Apart S P B) (sub' : P ⊆ N) :
    Lower.Keeps R S (lowerSegScan cfg lvl space result ret params neutral shape postParams
      lowerStms lowerOp lowerPost ctx) AllSeen := by
  unfold lowerSegScan
  refine .bind (.liftExcept _) fun _ S₁ le₁ _ => ?_
  split
  · exact .throw
  refine .bind (.lift (lowerSegDims_keeps 0 ((shown.subset bounds).mono le₁)))
    fun iter S₂ le₂ hiter => ?_
  split
  · exact .throw
  rename_i scanDim last
  have hscan := hiter scanDim (List.mem_of_getLast? last)
  have houter : ∀ d ∈ iter.dropLast, d.value ∈ S₂ := fun d hd =>
    hiter d (List.mem_of_mem_dropLast hd)
  refine .bind (.lift (lowerSubExps_keeps ((shown.subset neutrals).mono (le₁.trans le₂))))
    fun ne S₃ le₃ hne => ?_
  refine .bind (.liftExcept _) fun returnTypes S₄ le₄ _ => ?_
  refine .bind (.lift (spaceSizes_keeps fun d hd => le₄ (le₃ (hiter d hd))))
    fun sizes S₅ le₅ hsizes => ?_
  refine .bind (.lift (tensorEmpties_keeps any hsizes)) fun outputs S₆ le₆ houtputs => ?_
  refine .bind (.lift (constantIndex_keeps 0)) fun zero S₇ le₇ hzero => ?_
  refine .bind (.lift (constantIndex_keeps 1)) fun one S₈ le₈ hone => ?_
  have to8 : S₂ ⊆ S₈ := le₃.trans (le₄.trans (le₅.trans (le₆.trans (le₇.trans le₈))))
  refine .bind (.lift (castUnlessEqual_keeps (to8 hscan) _)) fun upper S₉ le₉ hupper => ?_
  refine .bind (.lift (upperBounds_keeps fun d hd => le₉ (to8 (houter d hd))))
    fun uppers T₁ l₁ huppers => ?_
  have le : S ⊆ T₁ := le₁.trans (le₂.trans (to8.trans (le₉.trans l₁)))
  have rowSizes : AllSeen T₁ (if scanDim.isDynamic then [upper] else []) := by
    split <;> simp [l₁ hupper]
  dsimp only
  have func : R.func = R.func := rfl
  refine .bind (.inBlock (Q := fun _ => True) func rfl rfl fun regionArgs T₂ l₂ hregion _ => ?_)
    fun p T₂ l₂ hp => ?_
  · have hivs := hregion.subset (List.take_subset uppers.length regionArgs)
    have hshared := hregion.subset (List.drop_subset uppers.length regionArgs)
    have zipped : AllSeen T₂ ((iter.dropLast.zip (regionArgs.take uppers.length)).map Prod.snd) := by
      intro v hv
      obtain ⟨q, hq, rfl⟩ := List.mem_map.mp hv
      exact hivs _ (List.of_mem_zip hq).2
    refine .bind (.lift (bindIndices_keeps zipped)) fun c T₃ l₃ added => ?_
    have shown₃ := added.shows (shown.mono (le.trans (l₂.trans l₃)))
    refine .bind (.lift (tensorEmpties_keeps any (rowSizes.mono (l₂.trans l₃))))
      fun rows T₄ l₄ hrows => ?_
    have start : S ⊆ T₄ := le.trans (l₂.trans (l₃.trans l₄))
    refine .bind (.inNested (Q := fun _ => True) fun args T₅ l₅ hargs _ => ?_) fun loop T₅ l₅ hloop => ?_
    · have le := start.trans l₅
      refine .bind (lowerScanStep_keeps cfg (shown₃.mono (l₄.trans l₅))
        (rowSizes.mono (l₂.trans (l₃.trans (l₄.trans l₅)))) hargs (stms.mono le) (op.mono le)
        (apart.mono le) sub (post.mono le) (apart'.mono le) sub')
        fun carry T₆ _ hcarry => .pure fun _ le => ⟨hcarry.mono le, trivial⟩
    have to5 : T₁ ⊆ T₅ := l₂.trans (l₃.trans (l₄.trans l₅))
    have to1 : S₉ ⊆ T₅ := l₁.trans to5
    refine .bind (.lift (.create ?_ (List.forall_mem_singleton.mpr hloop.1) trivial))
      fun results T₆ l₆ hresults => ?_
    · simp only [AllSeen.cons, AllSeen.append]
      refine ⟨to1 (le₉ (le₈ hzero)), to1 hupper, to1 (le₉ hone), ?_, hrows.mono l₅⟩
      exact hne.mono (le₄.trans (le₅.trans (le₆.trans (le₇.trans (le₈.trans (le₉.trans to1))))))
    refine .bind (.liftExcept _) fun firstRow T₇ l₇ _ => ?_
    refine .bind (.liftExcept _) fun ranked T₈ l₈ _ => ?_
    obtain ⟨rowShape, elem⟩ := ranked
    refine .bind (.liftExcept _) fun rowDim T₉ l₉ _ => ?_
    have tail : T₅ ⊆ T₉ := l₆.trans (l₇.trans (l₈.trans l₉))
    have size : PartSeen T₉ (if isDynamic rowDim then Sum.inr upper else Sum.inl rowDim) := by
      intro v hv
      split at hv
      · cases hv
        exact tail (to1 hupper)
      · cases hv
    have seen2 : T₂ ⊆ T₉ := l₃.trans (l₄.trans (l₅.trans tail))
    refine .bind (.lift (insertRows_keeps (hivs.mono seen2)
      ((hresults.mono (l₇.trans (l₈.trans l₉))).subset (List.drop_subset _ _))
      (hshared.mono seen2) size)) fun inserts U₁ u₁ hinserts => ?_
    refine .bind (.lift (.create .nil (List.forall_mem_singleton.mpr hinserts) trivial))
      fun _ _ _ _ => .pure fun _ _ => ⟨.nil, trivial⟩
  · refine .bind (.lift (.create ?_ (List.forall_mem_singleton.mpr hp.1) trivial))
      fun results T₃ l₃ hresults => ?_
    · simp only [AllSeen.append]
      exact ⟨huppers.mono l₂, houtputs.mono (le₇.trans (le₈.trans (le₉.trans (l₁.trans l₂))))⟩
    refine .lift (tieShapes_keeps ?_ hresults)
    exact hsizes.mono (le₆.trans (le₇.trans (le₈.trans (le₉.trans (l₁.trans (l₂.trans l₃))))))

end Kernels

end FutharkMlir
