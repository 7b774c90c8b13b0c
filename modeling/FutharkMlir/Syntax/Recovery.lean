import FutharkMlir.Syntax.Visitor

/-! Trees with tokens thrown in. A parser that deletes a token to go on leaves it in the tree;
where no visitor reads tokens of its kind, the visitors see the tree without it. -/
namespace FutharkMlir.Visitor

/-- No visitor asks for a token of the kind. -/
def Kind.unread : Kind → Bool
  | .lit _ | .stringLiteral | .opaqueType | .opcode _ | .eof => true
  | _ => false

def readsText : Rule → Bool
  | .pPrimType | .pPrimValue | .binaryOpcode | .cmpOpcode | .convOpcode | .pSegVirt | .pComm => true
  | _ => false

mutual

/-- The first tree is the second, with such tokens thrown in. -/
inductive Alike : Node → Node → Prop where
  | same (t : Node) : Alike t t
  | node {ctx : Context} {ts us : List Node} : readsText ctx.rule = false → AllAlike ts us →
      Alike (.node ctx ts) (.node ctx us)

inductive AllAlike : List Node → List Node → Prop where
  | nil : AllAlike [] []
  | cons {t u : Node} {ts us : List Node} : Alike t u → AllAlike ts us →
      AllAlike (t :: ts) (u :: us)
  | skip {tok : Token} {ts us : List Node} : Kind.unread tok.kind = true → AllAlike ts us →
      AllAlike (.leaf tok :: ts) us

end

theorem AllAlike.refl (ts : List Node) : AllAlike ts ts := by
  induction ts with
  | nil => exact .nil
  | cons t ts ih => exact .cons (.same t) ih

theorem Alike.isRule {t u : Node} (h : Alike t u) (r : Rule) :
    Visitor.isRule r t = Visitor.isRule r u := by
  cases h with
  | same => rfl
  | node => rfl

theorem Alike.children {t u : Node} (h : Alike t u) : AllAlike (childrenOf t) (childrenOf u) := by
  cases h with
  | same => exact .refl _
  | node _ h => exact h

/-- A context whose text is read has no token thrown in. -/
theorem Alike.eq_of_text {t u : Node} (h : Alike t u) {r : Rule} (text : readsText r = true)
    (rule : Visitor.isRule r t = true) : t = u := by
  cases h with
  | same => rfl
  | node plain _ =>
    rw [eq_of_beq rule, text] at plain
    cases plain

theorem AllAlike.rulesOf {ts us : List Node} (h : AllAlike ts us) (r : Rule) :
    List.Forall₂ Alike (Visitor.rulesOf r ts) (Visitor.rulesOf r us) := by
  induction ts generalizing us with
  | nil =>
    cases h
    exact .nil
  | cons t ts ih =>
    cases h with
    | @cons _ u _ us head rest =>
      unfold Visitor.rulesOf
      rw [List.filter_cons, List.filter_cons, ← head.isRule r]
      split
      · exact .cons head (ih rest)
      · exact ih rest
    | skip _ rest => exact ih rest

theorem AllAlike.textRules {ts us : List Node} (h : AllAlike ts us) {r : Rule}
    (text : readsText r = true) : Visitor.rulesOf r ts = Visitor.rulesOf r us := by
  induction ts generalizing us with
  | nil =>
    cases h
    rfl
  | cons t ts ih =>
    cases h with
    | @cons _ u _ us head rest =>
      unfold Visitor.rulesOf
      rw [List.filter_cons, List.filter_cons, ← head.isRule r]
      split
      · next rule =>
        rw [head.eq_of_text text rule]
        exact congrArg _ (ih rest)
      · exact ih rest
    | skip _ rest => exact ih rest

theorem AllAlike.tokensOf {ts us : List Node} (h : AllAlike ts us) {k : Kind}
    (read : Kind.unread k = false) : Visitor.tokensOf k ts = Visitor.tokensOf k us := by
  induction ts generalizing us with
  | nil =>
    cases h
    rfl
  | cons t ts ih =>
    cases h with
    | @cons _ u _ us head rest =>
      unfold Visitor.tokensOf
      rw [List.filterMap_cons, List.filterMap_cons]
      have tail := ih rest
      unfold Visitor.tokensOf at tail
      cases head with
      | same => rw [tail]
      | node => exact tail
    | @skip tok _ _ unread rest =>
      have other : tok.kind ≠ k := by
        rintro rfl
        rw [unread] at read
        cases read
      simp only [Visitor.tokensOf, List.filterMap_cons, if_neg other]
      exact ih rest

/-- The same for what may be a null pointer. -/
def OptAlike (t u : Option Node) : Prop := Option.Rel Alike t u

theorem getElem?_alike {ts us : List Node} (h : List.Forall₂ Alike ts us) (i : Nat) :
    OptAlike ts[i]? us[i]? := by
  induction h generalizing i with
  | nil => exact .none
  | cons head _ ih =>
    cases i with
    | zero => exact .some head
    | succ i => exact ih i

theorem AllAlike.ruleAt {ts us : List Node} (h : AllAlike ts us) (r : Rule) (i : Nat) :
    OptAlike (Visitor.rulesOf r ts)[i]? (Visitor.rulesOf r us)[i]? :=
  getElem?_alike (h.rulesOf r) i

theorem AllAlike.ruleOf {ts us : List Node} (h : AllAlike ts us) (r : Rule) :
    OptAlike (Visitor.ruleOf r ts) (Visitor.ruleOf r us) := by
  unfold Visitor.ruleOf
  rw [List.head?_eq_getElem?, List.head?_eq_getElem?]
  exact h.ruleAt r 0

theorem AllAlike.tokenOf {ts us : List Node} (h : AllAlike ts us) {k : Kind}
    (read : Kind.unread k = false) : Visitor.tokenOf k ts = Visitor.tokenOf k us := by
  rw [Visitor.tokenOf, h.tokensOf read, Visitor.tokenOf]

theorem OptAlike.labelled {t u : Option Node} (h : OptAlike t u) :
    ∃ label ts us, Visitor.labelled t = (label, ts) ∧ Visitor.labelled u = (label, us) ∧
      AllAlike ts us := by
  cases h with
  | none => exact ⟨_, _, _, rfl, rfl, .nil⟩
  | some h =>
    cases h with
    | same => exact ⟨_, _, _, rfl, rfl, .refl _⟩
    | node _ h => exact ⟨_, _, _, rfl, rfl, h⟩

/-- The children of a context that is asked for, or the same error. -/
theorem AllAlike.derefRule {ts us : List Node} (h : AllAlike ts us) (r : Rule) {α : Type}
    {f g : List Node → Except Err α} (same : ∀ ts us, AllAlike ts us → f ts = g us) :
    (Visitor.derefRule r ts >>= f) = (Visitor.derefRule r us >>= g) := by
  unfold Visitor.derefRule
  have child := h.ruleOf r
  generalize Visitor.ruleOf r ts = t at child
  generalize Visitor.ruleOf r us = u at child
  cases child with
  | none => rfl
  | some child => exact same _ _ child.children

theorem AllAlike.derefText {ts us : List Node} (h : AllAlike ts us) {r : Rule}
    (text : readsText r = true) : Visitor.derefText r ts = Visitor.derefText r us := by
  rw [Visitor.derefText, Visitor.ruleOf, h.textRules text, Visitor.derefText, Visitor.ruleOf]

theorem mapM_alike {α β : Type} {R : α → α → Prop} {f : α → Except Err β} {xs ys : List α}
    (h : List.Forall₂ R xs ys) (same : ∀ x y, R x y → f x = f y) : xs.mapM f = ys.mapM f := by
  induction h with
  | nil => rfl
  | cons head _ ih => rw [List.mapM_cons, List.mapM_cons, same _ _ head, ih]

section Leaves

variable {conv : FloatConv} {ts us : List Node} {t u : Option Node}

theorem visitSubExp_alike (h : OptAlike t u) : visitSubExp conv t = visitSubExp conv u := by
  obtain ⟨label, ts, us, ht, hu, h⟩ := h.labelled
  have value : ruleOf .pPrimValue ts = ruleOf .pPrimValue us := by
    rw [ruleOf, h.textRules rfl, ruleOf]
  have name : tokenOf .id ts = tokenOf .id us := h.tokenOf rfl
  simp only [visitSubExp, ht, hu, value, name]

theorem visitSubExpAt_alike (h : AllAlike ts us) (i : Nat) :
    visitSubExpAt conv i ts = visitSubExpAt conv i us :=
  visitSubExp_alike (h.ruleAt .pSubExp i)

theorem visitSubExps_alike (h : AllAlike ts us) : visitSubExps conv ts = visitSubExps conv us :=
  mapM_alike (h.rulesOf .pSubExp) fun _ _ h => visitSubExp_alike (.some h)

theorem visitPrimType_alike (h : AllAlike ts us) (i : Nat) :
    visitPrimType ts i = visitPrimType us i := by
  unfold visitPrimType
  rw [h.textRules rfl]

theorem visitPExtShape_alike (h : AllAlike ts us) (i : Nat) :
    visitPExtShape conv i ts = visitPExtShape conv i us := by
  unfold visitPExtShape
  have child := h.ruleAt .pExtShape i
  generalize (rulesOf .pExtShape ts)[i]? = t at child
  generalize (rulesOf .pExtShape us)[i]? = u at child
  cases child with
  | none => rfl
  | some child => simp only [deref, bind, Except.bind, visitSubExps_alike child.children]

theorem visitShape_alike (h : AllAlike ts us) (i : Nat) :
    visitShape conv i ts = visitShape conv i us := by
  simp only [visitShape, visitPExtShape_alike h]

theorem visitPType_alike (h : OptAlike t u) : visitPType conv t = visitPType conv u := by
  obtain ⟨label, ts, us, ht, hu, h⟩ := h.labelled
  simp only [visitPType, ht, hu, visitPrimType_alike h, visitPExtShape_alike h]

theorem visitTypeOf_alike (h : OptAlike t u) : visitTypeOf conv t = visitTypeOf conv u := by
  simp only [visitTypeOf, visitPType_alike h]

theorem visitTypes_alike (h : AllAlike ts us) : visitTypes conv ts = visitTypes conv us :=
  mapM_alike (h.rulesOf .pType) fun _ _ h => visitTypeOf_alike (.some h)

theorem visitFParam_alike (h : AllAlike ts us) : visitFParam conv ts = visitFParam conv us := by
  have name : tokenOf .id ts = tokenOf .id us := h.tokenOf rfl
  simp only [visitFParam, name, visitTypeOf_alike (h.ruleOf .pType)]

theorem visitParams_alike (h : AllAlike ts us) (r : Rule) :
    visitParams conv r ts = visitParams conv r us :=
  mapM_alike (h.rulesOf r) fun _ _ h => visitFParam_alike h.children

theorem visitPat_alike (h : AllAlike ts us) : visitPat conv ts = visitPat conv us := by
  refine h.derefRule .pPat fun ts us h => mapM_alike (h.rulesOf .pPatElem) fun t u h => ?_
  have name : tokenOf .id (childrenOf t) = tokenOf .id (childrenOf u) := h.children.tokenOf rfl
  simp only [visitPatElem, name, visitTypeOf_alike (h.children.ruleOf .pType)]

theorem visitSizeClass_alike (h : OptAlike t u) : visitSizeClass t = visitSizeClass u := by
  obtain ⟨label, ts, us, ht, hu, h⟩ := h.labelled
  have number : tokenOf .number ts = tokenOf .number us := h.tokenOf rfl
  have name : tokenOf .id ts = tokenOf .id us := h.tokenOf rfl
  simp only [visitSizeClass, ht, hu, number, name]

theorem visitSizeOp_alike (h : OptAlike t u) : visitSizeOp conv t = visitSizeOp conv u := by
  obtain ⟨label, ts, us, ht, hu, h⟩ := h.labelled
  have name : tokenOf .id ts = tokenOf .id us := h.tokenOf rfl
  simp only [visitSizeOp, ht, hu, name, visitSizeClass_alike (h.ruleOf .pSizeClass),
    visitSubExpAt_alike h]

theorem visitApply_alike (h : AllAlike ts us) : visitApply conv ts = visitApply conv us := by
  have name : tokenOf .id ts = tokenOf .id us := h.tokenOf rfl
  unfold visitApply
  rw [name, visitSubExps_alike h]
  refine bind_congr fun fname => bind_congr fun args => h.derefRule .pRetTypes fun ts us h => ?_
  rw [visitTypes_alike h]

theorem visitBasicOpConcat_alike (h : AllAlike ts us) :
    visitBasicOpConcat conv ts = visitBasicOpConcat conv us := by
  have opcode : tokenOf .concat ts = tokenOf .concat us := h.tokenOf rfl
  have operands := h.rulesOf .pSubExp
  unfold visitBasicOpConcat
  generalize rulesOf .pSubExp ts = xs at operands
  generalize rulesOf .pSubExp us = ys at operands
  cases operands with
  | nil => rfl
  | cons total rest =>
    cases rest with
    | nil => rfl
    | @cons x y xs ys arr arrs =>
      have names : ∀ t u : Node, Alike t u →
          (visitSubExp conv (some t) >>= getVName) = (visitSubExp conv (some u) >>= getVName) :=
        fun t u h => by rw [visitSubExp_alike (.some h)]
      have all := mapM_alike (.cons arr arrs) names
      simp only [opcode, visitSubExp_alike (.some total), all]

theorem visitDimIndex_alike {t u : Node} (h : Alike t u) :
    visitDimIndex conv t = visitDimIndex conv u := by
  obtain ⟨label, ts, us, ht, hu, h⟩ := OptAlike.labelled (.some h)
  simp only [visitDimIndex, ht, hu, visitSubExpAt_alike h]

theorem visitBasicOpIndex_alike (h : AllAlike ts us) :
    visitBasicOpIndex conv ts = visitBasicOpIndex conv us := by
  have dims := mapM_alike (h.rulesOf .pDimIndex) fun _ _ => @visitDimIndex_alike conv _ _
  simp only [visitBasicOpIndex, visitSubExpAt_alike h, dims]

theorem visitBasicOpManifest_alike (h : AllAlike ts us) :
    visitBasicOpManifest conv ts = visitBasicOpManifest conv us := by
  have numbers : tokensOf .number ts = tokensOf .number us := h.tokensOf rfl
  simp only [visitBasicOpManifest, visitSubExpAt_alike h, numbers]

theorem visitBasicOpReshape_alike (h : AllAlike ts us) :
    visitBasicOpReshape conv ts = visitBasicOpReshape conv us := by
  have numbers : tokensOf .number ts = tokensOf .number us := h.tokensOf rfl
  simp only [visitBasicOpReshape, visitSubExpAt_alike h, numbers, visitShape_alike h]

theorem visitBasicOpRearrange_alike (h : AllAlike ts us) :
    visitBasicOpRearrange conv ts = visitBasicOpRearrange conv us := by
  have numbers : tokensOf .number ts = tokensOf .number us := h.tokensOf rfl
  simp only [visitBasicOpRearrange, visitSubExpAt_alike h, numbers]

theorem visitBasicOpIota_alike (h : AllAlike ts us) :
    visitBasicOpIota conv ts = visitBasicOpIota conv us := by
  have text : tokenOf .iota ts = tokenOf .iota us := h.tokenOf rfl
  simp only [visitBasicOpIota, visitSubExpAt_alike h, text]

theorem visitBasicOpScratch_alike (h : AllAlike ts us) :
    visitBasicOpScratch conv ts = visitBasicOpScratch conv us := by
  simp only [visitBasicOpScratch, visitPrimType_alike h, visitSubExps_alike h]

theorem visitBasicOpConvOp_alike (h : AllAlike ts us) :
    visitBasicOpConvOp conv ts = visitBasicOpConvOp conv us := by
  refine h.derefRule .pConvOp fun ts us h => ?_
  have opcode : derefText .convOpcode ts = derefText .convOpcode us := h.derefText rfl
  simp only [opcode, visitPrimType_alike h, visitSubExpAt_alike h]

theorem visitBasicOp_alike (h : OptAlike t u) : visitBasicOp conv t = visitBasicOp conv u := by
  obtain ⟨label, ts, us, ht, hu, h⟩ := h.labelled
  simp only [visitBasicOp, ht, hu]
  split
  · refine h.derefRule .pArrayLit fun ls ms hl => ?_
    rw [visitSubExps_alike hl, visitPType_alike (h.ruleOf .pType)]
  · refine h.derefRule .pBinOp fun ts us h => ?_
    have opcode : derefText .binaryOpcode ts = derefText .binaryOpcode us := h.derefText rfl
    simp only [opcode, visitSubExpAt_alike h]
  · exact visitBasicOpIota_alike h
  · exact visitBasicOpConvOp_alike h
  · exact visitBasicOpConcat_alike h
  · exact visitBasicOpIndex_alike h
  · exact visitBasicOpManifest_alike h
  · exact visitBasicOpReshape_alike h
  · simp only [visitBasicOpReplicate, visitSubExpAt_alike h, visitShape_alike h]
  · simp only [visitBasicOpCopy, visitSubExpAt_alike h]
  · exact visitBasicOpRearrange_alike h
  · exact visitBasicOpScratch_alike h
  · refine h.derefRule .pCmpOp fun ts us h => ?_
    have opcode : derefText .cmpOpcode ts = derefText .cmpOpcode us := h.derefText rfl
    simp only [opcode, visitSubExpAt_alike h]
  · rfl
  · rfl

theorem visitPTypes_alike (h : AllAlike ts us) : visitPTypes conv ts = visitPTypes conv us :=
  h.derefRule .pTypes fun _ _ h => visitTypes_alike h

theorem visitLoopForm_alike (h : OptAlike t u) : visitLoopForm conv t = visitLoopForm conv u := by
  obtain ⟨label, ts, us, ht, hu, h⟩ := h.labelled
  have name : tokenOf .id ts = tokenOf .id us := h.tokenOf rfl
  simp only [visitLoopForm, ht, hu, name, visitPrimType_alike h, visitSubExpAt_alike h]

theorem visitSegLevel_alike (h : OptAlike t u) : visitSegLevel t = visitSegLevel u := by
  obtain ⟨label, ts, us, ht, hu, h⟩ := h.labelled
  have virt : derefText .pSegVirt ts = derefText .pSegVirt us := h.derefText rfl
  simp only [visitSegLevel, ht, hu, virt]

theorem visitSpaceDims_alike (ids : List Text) (h : List.Forall₂ Alike ts us) :
    visitSpaceDims conv ids ts = visitSpaceDims conv ids us := by
  induction h generalizing ids with
  | nil => rfl
  | cons head _ ih => simp only [visitSpaceDims, visitSubExp_alike (.some head), ih]

theorem visitSegSpace_alike (h : AllAlike ts us) :
    visitSegSpace conv ts = visitSegSpace conv us := by
  refine h.derefRule .pSegSpace fun ts us h => ?_
  have ids : tokensOf .id ts = tokensOf .id us := h.tokensOf rfl
  have sizes := h.rulesOf .pSubExp
  simp only [ids, visitSpaceDims_alike _ sizes, sizes.length_eq]

end Leaves

/-- Children that are alike and that the visitors make the same of. -/
structure ChildrenAlike (cs ds : List Child) : Prop where
  trees : AllAlike (trees cs) (trees ds)
  visits : ∀ r, visitsOf r cs = visitsOf r ds

section Children

variable {conv : FloatConv} {cs ds : List Child}

theorem castVisit_alike (h : ChildrenAlike cs ds) {α : Type} (r : Rule) (i : Nat)
    (part : Visits → Except Err α) : castVisit r i part cs = castVisit r i part ds := by
  rw [castVisit, h.visits, castVisit]

theorem derefVisit_alike (h : ChildrenAlike cs ds) {α : Type} (r : Rule)
    (part : Visits → Except Err α) : derefVisit r part cs = derefVisit r part ds := by
  rw [derefVisit, h.visits, derefVisit]

theorem visitStm_alike (h : ChildrenAlike cs ds) : visitStm conv cs = visitStm conv ds := by
  simp only [visitStm, visitPat_alike h.trees, castVisit_alike h]

theorem visitStmsAndResult_alike (h : ChildrenAlike cs ds) :
    visitStmsAndResult conv cs = visitStmsAndResult conv ds := by
  simp only [visitStmsAndResult, visitStms, h.visits, visitSubExps_alike h.trees]

theorem visitResult_alike (h : ChildrenAlike cs ds) :
    visitResult conv cs = visitResult conv ds := by
  simp only [visitResult, visitSubExps_alike h.trees]

theorem visitExpIf_alike (h : ChildrenAlike cs ds) :
    visitExpIf conv cs = visitExpIf conv ds := by
  simp only [visitExpIf, visitSubExpAt_alike h.trees, castVisit_alike h, visitPTypes_alike h.trees]

theorem zip_alike {ps qs ts us : List Node} (hp : List.Forall₂ Alike ps qs)
    (ht : List.Forall₂ Alike ts us) :
    List.Forall₂ (fun p q => Alike p.1 q.1 ∧ Alike p.2 q.2) (ps.zip ts) (qs.zip us) := by
  induction hp generalizing ts us with
  | nil => exact .nil
  | cons head _ ih =>
    cases ht with
    | nil => exact .nil
    | cons head' rest => exact .cons ⟨head, head'⟩ (ih rest)

theorem visitMerge_alike {p q : Node × Node} (h : Alike p.1 q.1 ∧ Alike p.2 q.2) :
    visitMerge conv p = visitMerge conv q := by
  simp only [visitMerge, visitFParam_alike h.1.children, visitSubExp_alike (.some h.2)]

theorem visitExpLoop_alike (h : ChildrenAlike cs ds) :
    visitExpLoop conv cs = visitExpLoop conv ds := by
  have params := h.trees.rulesOf .pLoopParam
  have inits := h.trees.rulesOf .pSubExp
  have merge := mapM_alike (zip_alike params inits) fun _ _ => @visitMerge_alike conv _ _
  simp only [visitExpLoop, params.length_eq, inits.length_eq, merge,
    visitLoopForm_alike (h.trees.ruleOf .pLoopForm), castVisit_alike h]

theorem visitExp_alike (h : ChildrenAlike cs ds) (label : Label) :
    visitExp conv label cs = visitExp conv label ds := by
  unfold visitExp
  split
  · rw [castVisit_alike h]
  · exact h.trees.derefRule .pApply fun _ _ h => visitApply_alike h
  · rw [visitBasicOp_alike (h.trees.ruleOf .pBasicOp)]
  · rw [visitSizeOp_alike (h.trees.ruleOf .pSizeOp)]
  · exact visitExpIf_alike h
  · exact derefVisit_alike h _ _
  · simp only [visitExpGpuBody, visitPTypes_alike h.trees, castVisit_alike h]
  · rw [visitSubExpAt_alike h.trees]
  · rfl

theorem visitLambda_alike (h : ChildrenAlike cs ds) :
    visitLambda conv cs = visitLambda conv ds := by
  simp only [visitLambda, visitParams_alike h.trees, visitPTypes_alike h.trees, castVisit_alike h]

theorem visitSegBinOp_alike (h : ChildrenAlike cs ds) :
    visitSegBinOp conv cs = visitSegBinOp conv ds := by
  have comm : derefText .pComm (trees cs) = derefText .pComm (trees ds) := h.trees.derefText rfl
  have shape := h.trees.ruleOf .pExtShape
  unfold visitSegBinOp
  generalize ruleOf .pExtShape (trees cs) = t at shape
  generalize ruleOf .pExtShape (trees ds) = u at shape
  cases shape with
  | none => simp only [comm, derefVisit_alike h, visitSubExps_alike h.trees]
  | some _ =>
    simp only [comm, derefVisit_alike h, visitSubExps_alike h.trees, visitShape_alike h.trees]

theorem visitHistOp_alike (h : ChildrenAlike cs ds) :
    visitHistOp conv cs = visitHistOp conv ds := by
  have opShape := h.trees.ruleAt .pExtShape 1
  have dest : ∀ t u : Node, Alike t u →
      (visitSubExp conv (some t) >>= varOf) = (visitSubExp conv (some u) >>= varOf) :=
    fun t u h => by rw [visitSubExp_alike (.some h)]
  unfold visitHistOp
  rw [visitShape_alike h.trees, visitSubExpAt_alike h.trees]
  refine bind_congr fun shape => bind_congr fun raceFactor => ?_
  refine h.trees.derefRule .pHistDest fun ts us hd => ?_
  rw [mapM_alike (hd.rulesOf .pSubExp) dest]
  refine bind_congr fun dests => h.trees.derefRule .pHistNeutral fun ts us hn => ?_
  rw [visitSubExps_alike hn]
  generalize (rulesOf .pExtShape (trees cs))[1]? = t at opShape
  generalize (rulesOf .pExtShape (trees ds))[1]? = u at opShape
  cases opShape with
  | none => simp only [derefVisit_alike h]
  | some _ => simp only [derefVisit_alike h, visitShape_alike h.trees]

theorem visitSegHead_alike (h : ChildrenAlike cs ds) :
    visitSegHead conv cs = visitSegHead conv ds := by
  simp only [visitSegHead, visitSegLevel_alike (h.trees.ruleOf .pSegLevel),
    visitSegSpace_alike h.trees, visitPTypes_alike h.trees, castVisit_alike h]

theorem visitSegOp_alike (h : ChildrenAlike cs ds) (label : Label) :
    visitSegOp conv label cs = visitSegOp conv label ds := by
  simp only [visitSegOp, visitSegMap, visitSegRed, visitSegScan, visitSegHist,
    visitSegHead_alike h, h.visits, derefVisit_alike h]

theorem visitContext_alike (h : ChildrenAlike cs ds) (label : Label) :
    visitContext conv label cs = visitContext conv label ds := by
  simp only [visitContext, visitStm_alike h, visitExp_alike h, visitSegOp_alike h,
    visitExpLoop_alike h, visitBody, visitCaseBody, visitKernelBody, visitStmsAndResult_alike h,
    visitResult_alike h, visitLambda_alike h, derefVisit_alike h, visitSegBinOp_alike h,
    visitHistOp_alike h]

end Children

theorem trees_visitsAll (conv : FloatConv) (ts : List Node) : trees (visitsAll conv ts) = ts := by
  induction ts with
  | nil => rfl
  | cons t ts ih => exact congrArg (t :: ·) ih

theorem visitsOf_cons (r : Rule) (c : Child) (cs : List Child) : visitsOf r (c :: cs) =
    if isRule r c.tree then c.visits :: visitsOf r cs else visitsOf r cs := by
  unfold visitsOf
  rw [List.filter_cons]
  split <;> rfl

mutual

theorem visits_alike (conv : FloatConv) : ∀ {t u : Node}, Alike t u → visits conv t = visits conv u
  | _, _, .same _ => rfl
  | _, _, .node _ h => by
    unfold visits
    exact visitContext_alike (visitsAll_alike conv h) _

theorem visitsAll_alike (conv : FloatConv) : ∀ {ts us : List Node}, AllAlike ts us →
    ChildrenAlike (visitsAll conv ts) (visitsAll conv us)
  | _, _, .nil => ⟨.nil, fun _ => rfl⟩
  | t :: ts, u :: us, .cons head rest => by
    have same := visits_alike conv head
    have others := visitsAll_alike conv rest
    constructor
    · rw [trees_visitsAll, trees_visitsAll]
      exact .cons head rest
    · intro r
      simp only [visitsAll, visitsOf_cons, head.isRule r, same, others.visits r]
  | .leaf tok :: ts, us, .skip unread rest => by
    have others := visitsAll_alike conv rest
    constructor
    · rw [trees_visitsAll, trees_visitsAll]
      exact .skip unread rest
    · intro r
      rw [← others.visits r]
      simp only [visitsAll, visitsOf_cons, isRule, Bool.false_eq_true, if_false]

end

section Programs

variable {conv : FloatConv} {t u : Node}

theorem visitAttr_alike (h : Alike t u) : visitAttr t = visitAttr u := by
  have ids : tokensOf .id (childrenOf t) = tokensOf .id (childrenOf u) := h.children.tokensOf rfl
  simp only [visitAttr, ids]

theorem OptAlike.isSome {t u : Option Node} (h : OptAlike t u) : t.isSome = u.isSome := by
  cases h with
  | none => rfl
  | some _ => rfl

theorem visitFunDef_alike (h : Alike t u) : visitFunDef conv t = visitFunDef conv u := by
  have h := h.children
  have name : tokenOf .id (childrenOf t) = tokenOf .id (childrenOf u) := h.tokenOf rfl
  have attrs := mapM_alike (h.rulesOf .pAttr) fun _ _ h => visitAttr_alike h
  simp only [visitFunDef, (h.ruleOf .pEntry).isSome, name, visitTypes_alike h,
    visitParams_alike h, attrs, castVisit_alike (visitsAll_alike conv h)]

theorem visitProg_alike (h : Alike t u) : visitProg conv t = visitProg conv u := by
  have funs := mapM_alike (h.children.rulesOf .pFunDef)
    fun _ _ => @visitFunDef_alike conv _ _
  simp only [visitProg, visitStms, (visitsAll_alike conv h.children).visits, funs]

end Programs

end FutharkMlir.Visitor
