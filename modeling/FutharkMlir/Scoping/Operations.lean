import FutharkMlir.Scoping.Valid
import FutharkMlir.Scoping.Names

namespace FutharkMlir

def Ctx.Shows (ctx : Ctx) (S : Set Value) (names : List VName) : Prop :=
  ∀ x ∈ names, ∀ v, ctx x = some v → v ∈ S

theorem Ctx.Shows.mono {ctx : Ctx} {S T : Set Value} {names : List VName}
    (h : ctx.Shows S names) (le : S ⊆ T) : ctx.Shows T names :=
  fun x hx v hv => le (h x hx v hv)

theorem Ctx.Shows.subset {ctx : Ctx} {S : Set Value} {names names' : List VName}
    (h : ctx.Shows S names) (sub : names' ⊆ names) : ctx.Shows S names' :=
  fun x hx => h x (sub hx)

theorem Ctx.Shows.append {ctx : Ctx} {S : Set Value} {xs ys : List VName} :
    ctx.Shows S (xs ++ ys) ↔ ctx.Shows S xs ∧ ctx.Shows S ys := by
  simp only [Ctx.Shows, List.mem_append, or_imp, forall_and]

theorem Ctx.Shows.cons {ctx : Ctx} {S : Set Value} {x : VName} {ys : List VName} :
    ctx.Shows S (x :: ys) ↔ ctx.Shows S [x] ∧ ctx.Shows S ys := by
  rw [← append, List.singleton_append]

theorem Ctx.Shows.flatMap {α : Type} {ctx : Ctx} {S : Set Value} {f : α → List VName}
    {as : List α} (h : ctx.Shows S (as.flatMap f)) {a : α} (ha : a ∈ as) : ctx.Shows S (f a) :=
  h.subset fun _ hx => List.mem_flatMap.mpr ⟨a, ha, hx⟩

variable {R : Rules} {S : Set Value} {ctx : Ctx}

section Values

theorem lowerPrimValue_keeps (c : PrimValue) : Emit.Keeps R S (lowerPrimValue c) Seen := by
  unfold lowerPrimValue
  exact .bind (.liftExcept _) fun attr S₁ _ _ => .createConstant

theorem lookup_keeps {x : VName} (shown : ctx.Shows S [x]) :
    Emit.Keeps R S (ctx.lookup x) Seen := by
  unfold Ctx.lookup
  split
  · rename_i v hv
    exact .pure fun _ le => le (shown x List.mem_cons_self v hv)
  · exact .throw

theorem lowerSubExp_keeps {se : SubExp} (shown : ctx.Shows S se.names) :
    Emit.Keeps R S (lowerSubExp ctx se) Seen := by
  cases se with
  | const c => exact lowerPrimValue_keeps c
  | var x => exact lookup_keeps shown

theorem lowerSubExps_keeps {ses : List SubExp} (shown : ctx.Shows S (subExpNames ses)) :
    Emit.Keeps R S (lowerSubExps ctx ses) AllSeen :=
  .seenM fun _ member _ le => lowerSubExp_keeps ((shown.flatMap member).mono le)

theorem lookups_keeps {names : List VName} (shown : ctx.Shows S names) :
    Emit.Keeps R S (lookups ctx names) AllSeen :=
  .seenM fun x member _ le =>
    lookup_keeps ((shown.subset (by simpa using member)).mono le)

theorem constantIndex_keeps (n : Int) : Emit.Keeps R S (constantIndex n) Seen := .createConstant

theorem indexCast_keeps {v : Value} (seen : v ∈ S) (ty : MlirTy) :
    Emit.Keeps R S (indexCast v ty) Seen :=
  .create1 (by simpa using seen) trivial

theorem tensorDim_keeps {v : Value} (seen : v ∈ S) (i : Nat) :
    Emit.Keeps R S (tensorDim v i) Seen := by
  unfold tensorDim
  refine .bind (constantIndex_keeps _) fun idx S₁ le hidx => .create1 ?_ trivial
  simp [le seen, hidx]

theorem tensorEmpty_keeps (any : R.AnyEmpty) {sizes : List Value} (seen : AllSeen S sizes)
    {ty : MlirTy} : Emit.Keeps R S (tensorEmpty ty sizes) Seen :=
  .create1 seen fun _ _ => any _ _

theorem tensorEmpties_keeps (any : R.AnyEmpty) {sizes : List Value} (seen : AllSeen S sizes)
    {tys : List MlirTy} : Emit.Keeps R S (tensorEmpties tys sizes) AllSeen :=
  .seenM fun _ _ _ le => tensorEmpty_keeps any (seen.mono le)

theorem tensorExtract_keeps {v : Value} {indices : List Value} (seen : AllSeen S (v :: indices)) :
    Emit.Keeps R S (tensorExtract v indices) Seen := by
  unfold tensorExtract
  split
  · exact .create1 seen trivial
  · exact .throw

theorem castToType_keeps {v : Value} (seen : v ∈ S) (ty : MlirTy) :
    Emit.Keeps R S (castToType v ty) Seen := by
  have operand : AllSeen S [v] := by simpa using seen
  unfold castToType
  split
  · exact .pure fun _ le => le seen
  split
  · exact .create1 operand trivial
  split
  · split
    · exact tensorExtract_keeps operand
    · exact .throw
  · exact .throw

end Values

section BasicOps

variable (cfg : Config)

theorem arithOp_keeps {op : ArithOp} {x y : Value} (hx : x ∈ S) (hy : y ∈ S) :
    Emit.Keeps R S (arithOp op x y) Seen :=
  .create1 (by simp [hx, hy]) trivial

theorem scalarArithOp_keeps {op : ArithOp} {x y : Value} (hx : x ∈ S) (hy : y ∈ S) :
    Emit.Keeps R S (scalarArithOp cfg op x y) Seen := by
  unfold scalarArithOp
  exact .bind (.liftExcept _) fun _ _ le _ => arithOp_keeps (le hx) (le hy)

theorem elementwiseOp_keeps {code : OpCode} {x y : Value} (hx : x ∈ S) (hy : y ∈ S)
    (any : R.AnyEmpty) (allowed : ∀ operands, R.Allow code operands [x.ty]) :
    Emit.Keeps R S (elementwiseOp code x y) Seen := by
  unfold elementwiseOp
  refine .bind (tensorEmpty_keeps any .nil) fun e S₁ le he => .create1 ?_ (allowed _)
  simp [le hx, le hy, he]

theorem lowerBinOp_keeps (op : BinOp) {x y : Value} (hx : x ∈ S) (hy : y ∈ S)
    (any : R.AnyEmpty) : Emit.Keeps R S (lowerBinOp cfg op x y) Seen := by
  unfold lowerBinOp
  split
  all_goals first
    | exact scalarArithOp_keeps cfg hx hy
    | exact .throw
    | skip
  · split
    · exact elementwiseOp_keeps hx hy any fun _ => trivial
    · exact arithOp_keeps hx hy
  · split
    · exact elementwiseOp_keeps hx hy any fun _ => trivial
    · exact arithOp_keeps hx hy
  · refine .bind (.liftExcept _) fun _ _ le _ => .create1 ?_ trivial
    simp [le hx, le hy]

theorem lowerCmpOp_keeps (op : CmpOp) {x y : Value} (hx : x ∈ S) (hy : y ∈ S) :
    Emit.Keeps R S (lowerCmpOp op x y) Seen := by
  have seen : AllSeen S [x, y] := by simp [hx, hy]
  unfold lowerCmpOp
  split
  all_goals first
    | exact .create1 seen trivial
    | exact .throw

theorem lowerConvOp_keeps (op : ConvOp) {x : Value} (hx : x ∈ S) :
    Emit.Keeps R S (lowerConvOp op x) Seen := by
  have seen : AllSeen S [x] := by simpa using hx
  unfold lowerConvOp
  split
  all_goals first
    | exact .create1 seen trivial
    | exact .throw

theorem lowerArrayLit_keeps {values : List SubExp} {t : Ty}
    (shown : ctx.Shows S (subExpNames values)) :
    Emit.Keeps R S (lowerArrayLit values t ctx) Seen := by
  unfold lowerArrayLit
  refine .bind (.liftExcept _) fun ty S₁ le₁ _ => .bind (.liftExcept _) fun p S₂ le₂ _ => ?_
  dsimp only
  split
  · exact .bind (.liftExcept _) fun _ _ _ _ => .createConstant
  · refine .bind (lowerSubExps_keeps ((shown.mono le₁).mono le₂)) fun vs S₃ _ hvs => ?_
    exact .create1 hvs trivial

theorem createIota_keeps (any : R.AnyEmpty) {n x s : Value} (hn : n ∈ S) (hx : x ∈ S) (hs : s ∈ S)
    {elem : ElemTy} {dim : Int} : Emit.Keeps R S (createIota n x s elem dim) Seen := by
  unfold createIota
  have sizes : AllSeen S (if isDynamic dim then [n] else []) := by split <;> simp [hn]
  refine .bind (tensorEmpty_keeps any sizes) fun out S₁ le₁ hout => ?_
  refine .bind (.inNested fun args S₂ le₂ _ _ => ?_) fun body S₂ le₂ hbody => ?_
  · refine .bind (.create1 (by simp) trivial) fun idx S₃ le₃ hidx => ?_
    refine .bind (indexCast_keeps hidx _) fun i S₄ le₄ hi => ?_
    refine .bind (arithOp_keeps hi (le₄ (le₃ (le₂ (le₁ hs))))) fun offset S₅ le₅ hoffset => ?_
    refine .bind (arithOp_keeps (le₅ (le₄ (le₃ (le₂ (le₁ hx))))) hoffset) fun res S₆ _ hres => ?_
    exact .pure fun _ le => by simp [le hres]
  · refine .bind (.create (by simp [le₂ hout]) (List.forall_mem_singleton.mpr hbody) trivial)
      fun res S₃ _ hres => ?_
    exact .weaken (.liftExcept _) fun S' v le h => le (hres v (indexed_mem h))

/-- A value the code may use in the place of an attribute. -/
def PartSeen (S : Set Value) (p : Int ⊕ Value) : Prop := ∀ v, dynamicPart p = some v → v ∈ S

theorem toIndex_keeps {se : SubExp} (shown : ctx.Shows S se.names) :
    Emit.Keeps R S (toIndex ctx se) PartSeen := by
  cases se with
  | const c =>
    refine .bind (.liftExcept _) fun n S₁ _ _ => .pure fun _ _ v hv => ?_
    cases hv
  | var x =>
    refine .bind (lookup_keeps shown) fun v S₁ _ hv => ?_
    refine .bind (indexCast_keeps hv _) fun i S₂ _ hi => .pure fun _ le w hw => ?_
    cases hw
    exact le hi

def SliceDim.Seen (S : Set Value) (d : SliceDim) : Prop :=
  PartSeen S d.offset ∧ PartSeen S d.size

theorem PartSeen.mono {S T : Set Value} {p : Int ⊕ Value} (h : PartSeen S p) (le : S ⊆ T) :
    PartSeen T p :=
  fun v hv => le (h v hv)

theorem lowerSliceDim_keeps {d : DimIndex} (shown : ctx.Shows S d.names) :
    Emit.Keeps R S (lowerSliceDim ctx d) SliceDim.Seen := by
  cases d with
  | fix i =>
    refine .bind (toIndex_keeps shown) fun offset S₁ _ hoffset => .pure fun _ le => ?_
    exact ⟨hoffset.mono le, fun v hv => by cases hv⟩
  | slice start length stride =>
    simp only [DimIndex.names, Ctx.Shows.append] at shown
    refine .bind (toIndex_keeps shown.1.1) fun offset S₁ le₁ hoffset => ?_
    refine .bind (toIndex_keeps (shown.1.2.mono le₁)) fun size S₂ le₂ hsize => ?_
    refine .bind (.liftExcept _) fun n S₃ le₃ _ => .bind (.liftExcept _) fun e S₄ le₄ _ => ?_
    exact .pure fun _ le => ⟨hoffset.mono (le₂.trans (le₃.trans (le₄.trans le))),
      hsize.mono (le₃.trans (le₄.trans le))⟩

theorem lowerFixed_keeps {d : DimIndex} (shown : ctx.Shows S d.names) :
    Emit.Keeps R S (lowerFixed ctx d) Seen := by
  cases d with
  | fix i => exact .bind (lowerSubExp_keeps shown) fun v S₁ _ hv => indexCast_keeps hv _
  | slice start length stride => exact .throw

theorem lowerIndex_keeps {arr : VName} {dims : List DimIndex}
    (shown : ctx.Shows S (arr :: dims.flatMap DimIndex.names)) :
    Emit.Keeps R S (lowerIndex arr dims ctx) Seen := by
  rw [Ctx.Shows.cons] at shown
  unfold lowerIndex
  refine .bind (lookup_keeps shown.1) fun t S₁ le₁ ht => ?_
  have inner : ∀ d ∈ dims, ∀ S', S₁ ⊆ S' → ctx.Shows S' d.names := fun d member S' le =>
    (shown.2.flatMap member).mono (le₁.trans le)
  split
  · refine .bind (.seenM fun d member S' le => lowerFixed_keeps (inner d member S' le)) ?_
    exact fun indices S₂ le₂ hindices => tensorExtract_keeps (by simp [le₂ ht, hindices])
  · refine .bind (.mapM (fun s t d le hd => ⟨hd.1.mono le, hd.2.mono le⟩)
      fun d member S' le => lowerSliceDim_keeps (inner d member S' le)) fun slices S₂ le₂ hs => ?_
    refine .bind (.liftExcept _) fun p S₃ le₃ _ => .create1 ?_ trivial
    simp only [AllSeen.cons, AllSeen.append]
    refine ⟨le₃ (le₂ ht), fun v hv => ?_, fun v hv => ?_⟩
    · obtain ⟨part, hpart, hv⟩ := List.mem_filterMap.mp hv
      obtain ⟨d, hd, rfl⟩ := List.mem_map.mp hpart
      exact le₃ ((hs d hd).1 v hv)
    · obtain ⟨part, hpart, hv⟩ := List.mem_filterMap.mp hv
      obtain ⟨d, hd, rfl⟩ := List.mem_map.mp hpart
      exact le₃ ((hs d hd).2 v hv)

theorem lowerConcat_keeps {dim : Int} {arrs : List VName} (shown : ctx.Shows S arrs) :
    Emit.Keeps R S (lowerConcat dim arrs ctx) Seen := by
  unfold lowerConcat
  refine .bind (lookups_keeps shown) fun operands S₁ _ hoperands => ?_
  refine .bind (.liftExcept _) fun tys S₂ le₂ _ => .bind (.liftExcept _) fun shape S₃ le₃ _ => ?_
  refine .bind (.liftExcept _) fun first S₄ le₄ _ => .create1 ?_ trivial
  exact hoperands.mono (le₂.trans (le₃.trans le₄))

theorem lowerReshape_keeps {op0 : SubExp} {remainder : List SubExp}
    (shown : ctx.Shows S op0.names) :
    Emit.Keeps R S (lowerReshape cfg op0 remainder ctx) Seen := by
  unfold lowerReshape
  refine .bind (lowerSubExp_keeps shown) fun src S₁ _ hsrc => ?_
  refine .bind (.liftExcept _) fun p S₂ le₂ _ => ?_
  obtain ⟨shape, elem⟩ := p
  refine .bind (.liftExcept _) fun result S₃ le₃ _ => ?_
  have operand : AllSeen S₃ [src] := by simp [le₃ (le₂ hsrc)]
  split
  · exact .pure fun _ le => le (le₃ (le₂ hsrc))
  split
  · exact .throw
  split
  · exact .create1 operand trivial
  · exact .create1 operand trivial

theorem lowerRearrange_keeps (any : R.AnyEmpty) {arr : VName} {perm : List Nat}
    (shown : ctx.Shows S [arr]) : Emit.Keeps R S (lowerRearrange arr perm ctx) Seen := by
  unfold lowerRearrange
  refine .bind (lookup_keeps shown) fun op S₁ _ hop => .bind (.liftExcept _) fun p S₂ le₂ _ => ?_
  obtain ⟨shape, elem⟩ := p
  dsimp only
  split
  · exact .throw
  refine .bind (.liftExcept _) fun dims S₃ le₃ _ => ?_
  refine .bind (tensorEmpty_keeps any .nil) fun dest S₄ le₄ hdest => .create1 ?_ trivial
  simp [le₄ (le₃ (le₂ hop)), hdest]

theorem dynamicShapeSizes_keeps {pairs : List (SubExp × Int)}
    (shown : ctx.Shows S (subExpNames (pairs.map Prod.fst))) :
    Emit.Keeps R S (dynamicShapeSizes ctx pairs) AllSeen := by
  induction pairs generalizing S with
  | nil => exact .pure fun _ _ => .nil
  | cons p rest ih =>
    obtain ⟨d, t⟩ := p
    simp only [subExpNames, List.map_cons, List.flatMap_cons, Ctx.Shows.append] at shown
    unfold dynamicShapeSizes
    split
    · refine .bind (lowerSubExp_keeps shown.1) fun v S₁ le₁ hv => ?_
      refine .bind (indexCast_keeps hv _) fun size S₂ le₂ hsize => ?_
      refine .bind (ih (shown.2.mono (le₁.trans le₂))) fun sizes S₃ le₃ hsizes => ?_
      exact .pure fun _ le => by simp [le (le₃ hsize), hsizes.mono le]
    · exact ih shown.2

theorem dynamicDimSizes_keeps {v : Value} (hv : v ∈ S) (i : Nat) (dims : List Int) :
    Emit.Keeps R S (dynamicDimSizes v i dims) AllSeen := by
  induction dims generalizing S i with
  | nil => exact .pure fun _ _ => .nil
  | cons d rest ih =>
    unfold dynamicDimSizes
    split
    · refine .bind (tensorDim_keeps hv i) fun size S₁ le₁ hsize => ?_
      refine .bind (ih (le₁ hv) (i + 1)) fun sizes S₂ le₂ hsizes => ?_
      exact .pure fun _ le => by simp [le (le₂ hsize), hsizes.mono le]
    · exact ih hv (i + 1)

theorem replicatedValue_keeps {op : Value} (hop : op ∈ S) :
    Emit.Keeps R S (replicatedValue op) fun s p => AllSeen s p.2.2.1 ∧ p.2.2.2 ∈ s := by
  unfold replicatedValue
  split
  · refine .bind (dynamicDimSizes_keeps hop 0 _) fun sizes S₁ le₁ hsizes => ?_
    exact .pure fun _ le => ⟨hsizes.mono le, le (le₁ hop)⟩
  · refine .bind (.create1 (by simpa using hop) trivial) fun t S₁ _ ht => ?_
    exact .pure fun _ le => ⟨.nil, le ht⟩

theorem lowerReplicate_keeps (any : R.AnyEmpty) {dims : List SubExp} {val : SubExp}
    (shown : ctx.Shows S (subExpNames dims ++ val.names)) :
    Emit.Keeps R S (lowerReplicate cfg dims val ctx) Seen := by
  rw [Ctx.Shows.append] at shown
  unfold lowerReplicate
  refine .bind (lowerSubExp_keeps shown.2) fun op S₁ le₁ hop => ?_
  split
  · exact .pure fun _ le => le hop
  refine .bind (.liftExcept _) fun shape S₂ le₂ _ => .bind (.liftExcept _) fun pairs S₃ le₃ zip => ?_
  have outer : ctx.Shows S₃ (subExpNames (pairs.map Prod.fst)) := by
    rw [(zipEqual_fst cfg zip).2]
    exact shown.1.mono (le₁.trans (le₂.trans le₃))
  refine .bind (dynamicShapeSizes_keeps outer) fun outerSizes S₄ le₄ houter => ?_
  refine .bind (replicatedValue_keeps (le₄ (le₃ (le₂ hop)))) fun p S₅ le₅ hp => ?_
  obtain ⟨innerShape, elem, innerSizes, source⟩ := p
  obtain ⟨hinner, hsource⟩ := hp
  dsimp only at hinner hsource ⊢
  refine .bind (tensorEmpty_keeps any ?_) fun dest S₆ le₆ hdest => .create1 ?_ trivial
  · simp [houter.mono le₅, hinner]
  · simp [le₆ hsource, hdest]

theorem lowerScratch_keeps (any : R.AnyEmpty) {type : PrimType} {dims : List SubExp}
    (shown : ctx.Shows S (subExpNames dims)) :
    Emit.Keeps R S (lowerScratch cfg type dims ctx) Seen := by
  unfold lowerScratch
  refine .bind (.liftExcept _) fun elem S₁ le₁ _ => .bind (.liftExcept _) fun shape S₂ le₂ _ => ?_
  refine .bind (.liftExcept _) fun pairs S₃ le₃ zip => ?_
  have outer : ctx.Shows S₃ (subExpNames (pairs.map Prod.fst)) := by
    rw [(zipEqual_fst cfg zip).2]
    exact shown.mono (le₁.trans (le₂.trans le₃))
  exact .bind (dynamicShapeSizes_keeps outer) fun sizes S₄ _ hsizes => tensorEmpty_keeps any hsizes

theorem lowerIota_keeps (any : R.AnyEmpty) {n x s : SubExp} {t : IntType}
    (shown : ctx.Shows S (n.names ++ x.names ++ s.names)) :
    Emit.Keeps R S (lowerIota n x s t ctx) Seen := by
  simp only [Ctx.Shows.append] at shown
  unfold lowerIota
  refine .bind (lowerSubExp_keeps shown.1.1) fun n' S₁ le₁ hn => ?_
  refine .bind (indexCast_keeps hn _) fun count S₂ le₂ hcount => ?_
  refine .bind (lowerSubExp_keeps (shown.1.2.mono (le₁.trans le₂))) fun x' S₃ le₃ hx => ?_
  refine .bind (lowerSubExp_keeps (shown.2.mono (le₁.trans (le₂.trans le₃)))) fun s' S₄ le₄ hs => ?_
  refine .bind (.liftExcept _) fun dim S₅ le₅ _ => ?_
  exact createIota_keeps any (le₅ (le₄ (le₃ hcount))) (le₅ (le₄ hx)) (le₅ hs)

theorem lowerBasicOp_keeps (any : R.AnyEmpty) {op : BasicOp} (shown : ctx.Shows S op.names) :
    Emit.Keeps R S (lowerBasicOp cfg op ctx) Seen := by
  cases op with
  | subExp se => exact lowerSubExp_keeps shown
  | arrayLit values t => exact lowerArrayLit_keeps shown
  | binOp op op0 op1 =>
    rw [BasicOp.names, Ctx.Shows.append] at shown
    refine .bind (lowerSubExp_keeps shown.1) fun x S₁ le₁ hx => ?_
    refine .bind (lowerSubExp_keeps (shown.2.mono le₁)) fun y S₂ le₂ hy => ?_
    exact lowerBinOp_keeps cfg op (le₂ hx) hy any
  | cmpOp op op0 op1 =>
    rw [BasicOp.names, Ctx.Shows.append] at shown
    refine .bind (lowerSubExp_keeps shown.1) fun x S₁ le₁ hx => ?_
    refine .bind (lowerSubExp_keeps (shown.2.mono le₁)) fun y S₂ le₂ hy => ?_
    exact lowerCmpOp_keeps op (le₂ hx) hy
  | convOp op op0 => exact .bind (lowerSubExp_keeps shown) fun x S₁ _ hx => lowerConvOp_keeps op hx
  | index arr dims => exact lowerIndex_keeps shown
  | concat dim arrs total => exact lowerConcat_keeps (Ctx.Shows.append.mp shown).1
  | iota n x s t => exact lowerIota_keeps any shown
  | replicate shape val => exact lowerReplicate_keeps cfg any shown
  | scratch type dims => exact lowerScratch_keeps cfg any shown
  | reshape op0 b e reshapedDim remainder =>
    exact lowerReshape_keeps cfg (Ctx.Shows.append.mp (Ctx.Shows.append.mp shown).1).1
  | rearrange arr perm => exact lowerRearrange_keeps any shown
  | opaqueOp | arrayVal | unOp | assert | update | flatIndex | flatUpdate | manifest =>
    exact .throw

end BasicOps

end FutharkMlir
