import FutharkMlir.Syntax.Derivations

namespace FutharkMlir.Unparse

open Visitor

def ruleHead : Node → Option Rule
  | .leaf _ => none
  | .node ctx _ => some ctx.rule

section Children

variable (r : Rule) (k : Kind) (t : Node) (ts us : List Node)

@[simp] theorem ruleHead_rule (l : Label) : ruleHead (rule r l ts) = some r := by
  rw [rule, ruleHead]

@[simp] theorem ruleHead_word (text : Text) : ruleHead (word k text) = none := rfl

@[simp] theorem ruleHead_lit (s : String) : ruleHead (lit s) = none := rfl

@[simp] theorem ruleHead_ident (x : String) : ruleHead (ident x) = none := rfl

theorem isRule_eq : isRule r t = decide (ruleHead t = some r) := by
  cases t with
  | leaf tok => rfl
  | node ctx ts =>
    rw [isRule, ruleHead, Bool.eq_iff_iff]
    simp

@[simp] theorem rulesOf_nil : rulesOf r [] = [] := rfl

@[simp] theorem rulesOf_cons :
    rulesOf r (t :: ts) = if ruleHead t = some r then t :: rulesOf r ts else rulesOf r ts := by
  rw [rulesOf, List.filter_cons, isRule_eq]
  simp [rulesOf]

@[simp] theorem rulesOf_append : rulesOf r (ts ++ us) = rulesOf r ts ++ rulesOf r us :=
  List.filter_append _ _

theorem rulesOf_flatMap {α : Type} (f : α → List Node) (xs : List α) :
    rulesOf r (xs.flatMap f) = xs.flatMap fun x => rulesOf r (f x) :=
  List.filter_flatMap

@[simp] theorem rulesOf_map {α : Type} (f : α → Node) (xs : List α) :
    rulesOf r (xs.map f) = (xs.filter fun x => ruleHead (f x) = some r).map f := by
  rw [rulesOf, List.filter_map]
  congr 1
  exact List.filter_congr fun x _ => isRule_eq r (f x)

@[simp] theorem rulesOf_joined (tss : List (List Node)) :
    rulesOf r (joined tss) = tss.flatMap (rulesOf r) := by
  cases tss with
  | nil => rfl
  | cons ts tss => simp [joined, rulesOf_flatMap]

@[simp] theorem rulesOf_separated : rulesOf r (separated ts) = rulesOf r ts := by
  rw [separated, rulesOf_joined, List.flatMap_map, ← rulesOf_flatMap, List.flatMap_singleton']

@[simp] theorem tokensOf_nil : tokensOf k [] = [] := rfl

@[simp] theorem tokensOf_append : tokensOf k (ts ++ us) = tokensOf k ts ++ tokensOf k us :=
  List.filterMap_append

@[simp] theorem tokensOf_word (k' : Kind) (text : Text) :
    tokensOf k (word k' text :: ts) =
      if k' = k then text :: tokensOf k ts else tokensOf k ts := by
  rw [tokensOf, List.filterMap_cons]
  by_cases h : k' = k <;> simp [word, tokensOf, h]

@[simp] theorem tokensOf_lit (s : String) :
    tokensOf k (lit s :: ts) = if .lit s = k then s.toList :: tokensOf k ts else tokensOf k ts :=
  tokensOf_word k ts (.lit s) s.toList

@[simp] theorem tokensOf_ident (x : String) :
    tokensOf k (ident x :: ts) = if .id = k then x.toList :: tokensOf k ts else tokensOf k ts :=
  tokensOf_word k ts .id x.toList

@[simp] theorem tokensOf_node (h : (ruleHead t).isSome = true) :
    tokensOf k (t :: ts) = tokensOf k ts := by
  cases t with
  | leaf tok => cases h
  | node ctx us => rfl

/-- Nothing among contexts and other words is a word of the kind. -/
theorem tokensOf_eq_nil {k : Kind} {ts : List Node} (h : ∀ t ∈ ts, tokensOf k [t] = []) :
    tokensOf k ts = [] := by
  induction ts with
  | nil => rfl
  | cons t ts ih =>
    obtain ⟨first, rest⟩ := List.forall_mem_cons.mp h
    rw [← List.singleton_append, tokensOf_append, first, ih rest, List.append_nil]

theorem tokensOf_joined {k : Kind} (comma : Kind.lit "," ≠ k) (tss : List (List Node)) :
    tokensOf k (joined tss) = tss.flatMap (tokensOf k) := by
  cases tss with
  | nil => rfl
  | cons ts tss =>
    rw [joined, tokensOf_append, List.flatMap_cons]
    induction tss with
    | nil => simp
    | cons us tss ih => simp_all

end Children

section Heads

variable (floatText : FloatValue → Text)

@[simp] theorem ruleHead_primValue (c : PrimValue) :
    ruleHead (primValue floatText c) = some .pPrimValue := by
  cases c <;> rfl

@[simp] theorem ruleHead_subExp (se : SubExp) :
    ruleHead (subExp floatText se) = some .pSubExp := by
  cases se <;> rfl

@[simp] theorem ruleHead_primType (t : PrimType) : ruleHead (primType t) = some .pPrimType := by
  cases t <;> rfl

@[simp] theorem ruleHead_extShape (dims : List SubExp) :
    ruleHead (extShape floatText dims) = some .pExtShape := by
  cases dims <;> rfl

@[simp] theorem ruleHead_ty (t : Ty) : ruleHead (ty floatText t) = some .pType := by
  unfold ty
  split <;> rfl

@[simp] theorem ruleHead_types (ts : List Ty) :
    ruleHead (types floatText ts) = some .pTypes := ruleHead_rule _ _ _

@[simp] theorem ruleHead_typed (r : Rule) (name : VName) (t : Ty) :
    ruleHead (typed floatText r name t) = some r := ruleHead_rule _ _ _

@[simp] theorem ruleHead_pat (es : List PatElem) : ruleHead (pat floatText es) = some .pPat :=
  ruleHead_rule _ _ _

@[simp] theorem ruleHead_dimIndex (i : DimIndex) :
    ruleHead (dimIndex floatText i) = some .pDimIndex := by
  cases i <;> rfl

@[simp] theorem ruleHead_basicOp (op : BasicOp) :
    ruleHead (basicOp floatText op) = some .pBasicOp := by
  unfold basicOp
  split <;> rfl

@[simp] theorem ruleHead_apply (fname : String) (args : List SubExp) (retTypes : List Ty) :
    ruleHead (apply floatText fname args retTypes) = some .pApply := ruleHead_rule _ _ _

@[simp] theorem ruleHead_loopForm (form : LoopForm) :
    ruleHead (loopForm floatText form) = some .pLoopForm := by
  cases form <;> rfl

@[simp] theorem ruleHead_segLevel (lvl : SegLevel) : ruleHead (segLevel lvl) = some .pSegLevel := by
  cases lvl <;> rfl

@[simp] theorem ruleHead_segSpace (space : SegSpace) :
    ruleHead (segSpace floatText space) = some .pSegSpace := ruleHead_rule _ _ _

@[simp] theorem ruleHead_body (stms : List Node) (result : List SubExp) :
    ruleHead (body floatText stms result) = some .pBody := ruleHead_rule _ _ _

@[simp] theorem ruleHead_caseBody (stms : List Node) (result : List SubExp) :
    ruleHead (caseBody floatText stms result) = some .pCaseBody := ruleHead_rule _ _ _

@[simp] theorem ruleHead_kernelBody (stms : List Node) (result : List SubExp) :
    ruleHead (kernelBody floatText stms result) = some .pKernelBody := ruleHead_rule _ _ _

end Heads

def intToken : Int → NumberToken
  | .ofNat n => ⟨false, false, Text.natText n, (Text.isDecimal_natText n).1,
      (Text.isDecimal_natText n).2⟩
  | .negSucc n => ⟨true, false, Text.natText (n + 1), (Text.isDecimal_natText (n + 1)).1,
      (Text.isDecimal_natText (n + 1)).2⟩

theorem intToken_hex (i : Int) : (intToken i).hex = false := by
  cases i <;> rfl

theorem intToken_text (i : Int) : (intToken i).text = Text.intText i := by
  cases i <;> rfl

theorem intToken_value (i : Int) : (intToken i).value = i := by
  cases i with
  | ofNat n =>
    change withSign false (Nat.ofDigitChars 10 (Text.natText n) 0) = _
    rw [Text.natText, Nat.ofDigitChars_ten_toDigits]
    rfl
  | negSucc n =>
    change withSign true (Nat.ofDigitChars 10 (Text.natText (n + 1)) 0) = _
    rw [Text.natText, Nat.ofDigitChars_ten_toDigits]
    rfl

theorem parseDecimal_intText (i : Int) : parseDecimal (Text.intText i) = some i := by
  rw [← intToken_text, parseDecimal_number, intToken_hex, intToken_value]
  rfl

theorem stoll_intText {i : Int} (range : InRange 64 i) : stoll (Text.intText i) = .ok i := by
  rw [← intToken_text, stoll_number, intToken_hex, intToken_value, if_neg Bool.false_ne_true,
    if_pos range]

theorem stoi_intText {i : Int} (range : InRange 32 i) : stoi (Text.intText i) = .ok i := by
  rw [stoi, stringToInt, parseDecimal_intText]
  exact if_pos range

theorem stoull_natText {n : Nat} (small : n < 2 ^ 64) : stoull (Text.natText n) = .ok n := by
  have read := parseDecimal_intText (.ofNat n)
  rw [Text.intText] at read
  rw [stoull, read]
  have whole : (Int.ofNat n % 2 ^ 64).toNat = n := by
    rw [Int.ofNat_eq_natCast]
    omega
  change (if n < 2 ^ 64 then Except.ok (Int.ofNat n % 2 ^ 64).toNat else _) = _
  rw [if_pos small, whole]

theorem intValue_range (c : IntValue) : InRange 64 c.v.toInt := by
  obtain ⟨_, le⟩ := IntType.width_le c.t
  have range : InRange c.t.getWidth c.v.toInt := ⟨BitVec.le_toInt c.v, BitVec.toInt_lt⟩
  exact range.wider le

/-- The width that an operator is written with is read back. -/
theorem width_read (name : Text) {w : Nat} (small : w < 2 ^ 31) :
    ∃ n : NumberToken, n.negative = false ∧ name ++ widthText w = name ++ n.text ∧
      stoi n.unsigned = .ok w := by
  have read : stoi (Text.intText w) = .ok w := stoi_intText ⟨by omega, by omega⟩
  exact ⟨intToken w, rfl, by rw [intToken_text]; rfl, read⟩

theorem intBinOps_read {name : Text} {make : IntType → BinOp}
    (known : (name, make) ∈ intBinOps) (t : IntType) :
    visitBinOp (make t).text = .ok (make t) := by
  obtain ⟨n, positive, text, read⟩ := width_read name t.getWidth_small
  rw [spells_iff.mp (intBinOps_spells t) name make known, text, visitBinOp_int known positive, read,
    Except.map, binIntType_getWidth]

theorem floatBinOps_read {name : Text} {make : FloatType → BinOp}
    (known : (name, make) ∈ floatBinOps) (t : FloatType) :
    visitBinOp (make t).text = .ok (make t) := by
  obtain ⟨n, positive, text, read⟩ := width_read name t.getWidth_small
  rw [spells_iff.mp (floatBinOps_spells t) name make known, text,
    visitBinOp_float known positive, read, Except.map, binFloatType_getWidth]

theorem intCmpOps_read {name : Text} {make : IntType → CmpOp}
    (known : (name, make) ∈ intCmpOps) (t : IntType) :
    visitCmpOp (make t).text = .ok (make t) := by
  obtain ⟨n, _, text, read⟩ := width_read name t.getWidth_small
  rw [spells_iff.mp (intCmpOps_spells t) name make known, text, visitCmpOp_int known, read,
    Except.map, cmpIntType_getWidth]

theorem floatCmpOps_read {name : Text} {make : FloatType → CmpOp}
    (known : (name, make) ∈ floatCmpOps) (t : FloatType) :
    visitCmpOp (make t).text = .ok (make t) := by
  obtain ⟨n, _, text, read⟩ := width_read name t.getWidth_small
  rw [spells_iff.mp (floatCmpOps_spells t) name make known, text, visitCmpOp_float known, read,
    Except.map, cmpFloatType_getWidth]

theorem binOp_known (op : BinOp) : op = .logAnd ∨ op = .logOr ∨
    (∃ p ∈ intBinOps, ∃ t, p.2 t = op) ∨ ∃ p ∈ floatBinOps, ∃ t, p.2 t = op := by
  simp only [intBinOps, floatBinOps, List.exists_mem_cons_iff]
  cases op with
  | add t ovf => cases ovf <;> simp
  | sub t ovf => cases ovf <;> simp
  | mul t ovf => cases ovf <;> simp
  | _ => simp

theorem visitBinOp_text (op : BinOp) : visitBinOp op.text = .ok op := by
  rcases binOp_known op with rfl | rfl | ⟨p, known, t, rfl⟩ | ⟨p, known, t, rfl⟩
  · exact logAnd_decoded
  · exact logOr_decoded
  · exact intBinOps_read known t
  · exact floatBinOps_read known t

theorem cmpOp_known {op : CmpOp} (h : Expressible.cmpOp op = true) :
    (∃ t ∈ PrimType.named, op = .eq t) ∨ (∃ p ∈ intCmpOps, ∃ t, p.2 t = op) ∨
      ∃ p ∈ floatCmpOps, ∃ t, p.2 t = op := by
  simp only [intCmpOps, floatCmpOps, List.exists_mem_cons_iff]
  cases op with
  | eq t =>
    refine .inl ⟨t, ?_, rfl⟩
    cases t with
    | int t => cases t <;> simp [PrimType.named]
    | float t => cases t <;> simp [PrimType.named]
    | bool => simp [PrimType.named]
    | unit => cases h
  | llt => cases h
  | lle => cases h
  | _ => simp

theorem visitCmpOp_text {op : CmpOp} (h : Expressible.cmpOp op = true) :
    visitCmpOp op.text = .ok op := by
  rcases cmpOp_known h with ⟨t, named, rfl⟩ | ⟨p, known, t, rfl⟩ | ⟨p, known, t, rfl⟩
  · exact visitCmpOp_eq named
  · exact intCmpOps_read known t
  · exact floatCmpOps_read known t

@[simp] theorem ok_bind {α β : Type} (a : α) (f : α → Except Err β) :
    (Except.ok a >>= f) = f a := rfl

@[simp] theorem pure_ok {α : Type} (a : α) : (pure a : Except Err α) = .ok a := rfl

@[simp] theorem deref_some {α : Type} (a : α) : deref (some a) = .ok a := rfl

@[simp] theorem labelled_rule (r : Rule) (l : Label) (ts : List Node) :
    labelled (some (rule r l ts)) = (l, ts) := rfl

@[simp] theorem childrenOf_rule (r : Rule) (l : Label) (ts : List Node) :
    childrenOf (rule r l ts) = ts := rfl

@[simp] theorem visitId_text (x : String) : visitId (some x.toList) = .ok x := by
  simp [visitId]

theorem mapM_read {α β : Type} {f : α → β} {g : β → Except Err α} {xs : List α}
    (h : ∀ x ∈ xs, g (f x) = .ok x) : (xs.map f).mapM g = .ok xs := by
  rw [Except.mapM_eq_ok, List.forall₂_map_left_iff, List.forall₂_same]
  exact h

variable {conv : FloatConv} {floatText : FloatValue → Text} {ts : List Node}

theorem visitPrimValue_read {c : PrimValue} (h : Expressible.primValue conv floatText c = true) :
    visitPrimValue conv (some (primValue floatText c)) = .ok c := by
  cases c with
  | int c =>
    have read := stoll_intText (intValue_range c)
    have value : visitPrimValueInteger (Text.intText c.v.toInt) c.t.text = .ok c := by
      rw [visitPrimValueInteger_type, read, Except.map, BitVec.ofInt_toInt]
    simp [primValue, visitPrimValue, tokenOf, read, value]
  | float v =>
    have value := of_decide_eq_true h
    obtain ⟨q, read, _⟩ := Except.bind_eq_ok.mp value
    simp [primValue, visitPrimValue, tokenOf, read, value]
  | bool b => cases b <;> rfl
  | unit => cases h

theorem visitSubExp_read {se : SubExp} (h : Expressible.subExp conv floatText se = true) :
    visitSubExp conv (some (subExp floatText se)) = .ok se := by
  cases se with
  | const c => simp [subExp, visitSubExp, ruleOf, visitPrimValue_read h]
  | var x => simp [subExp, visitSubExp, tokenOf]

theorem visitSubExps_read {ses : List SubExp} (h : Expressible.subExps conv floatText ses = true)
    (children : rulesOf .pSubExp ts = ses.map (subExp floatText)) :
    visitSubExps conv ts = .ok ses := by
  rw [visitSubExps, children]
  exact mapM_read fun se member => visitSubExp_read (List.all_eq_true.mp h se member)

theorem visitSubExpAt_read (ses : List SubExp) {se : SubExp} (i : Nat)
    (h : Expressible.subExp conv floatText se = true)
    (children : rulesOf .pSubExp ts = ses.map (subExp floatText)) (place : ses[i]? = some se) :
    visitSubExpAt conv i ts = .ok se := by
  rw [visitSubExpAt, children, List.getElem?_map, place]
  exact visitSubExp_read h

theorem visitPrimType_read {t : PrimType} (i : Nat) (named : t ≠ .unit)
    (child : (rulesOf .pPrimType ts)[i]? = some (primType t)) : visitPrimType ts i = .ok t := by
  rw [visitPrimType, child, deref_some, ok_bind]
  cases t with
  | int t => cases t <;> rfl
  | float t => cases t <;> rfl
  | bool => rfl
  | unit => exact absurd rfl named

theorem rulesOf_bracketed (r : Rule) (ts : List Node) :
    rulesOf r (bracketed ts) = rulesOf r ts := by
  simp [bracketed]

theorem rulesOf_braced (r : Rule) (ts : List Node) : rulesOf r (braced ts) = rulesOf r ts := by
  simp [braced]

theorem rulesOf_parens (r : Rule) (ts : List Node) : rulesOf r (parens ts) = rulesOf r ts := by
  simp [parens]

theorem rulesOf_subExps (ses : List SubExp) :
    rulesOf .pSubExp (subExps floatText ses) = ses.map (subExp floatText) := by
  simp [subExps]

theorem rulesOf_tys (tys : List Ty) :
    rulesOf .pType (Unparse.tys floatText tys) = tys.map (ty floatText) := by
  simp [Unparse.tys]

theorem rulesOf_extShape (dims : List SubExp) :
    rulesOf .pSubExp (childrenOf (extShape floatText dims)) = dims.map (subExp floatText) := by
  cases dims with
  | nil => rfl
  | cons d ds =>
    have rest : rulesOf .pSubExp (ds.flatMap fun d => bracketed [subExp floatText d]) =
        ds.map (subExp floatText) := by
      rw [rulesOf_flatMap, List.map_eq_flatMap]
      simp [rulesOf_bracketed]
    simp [extShape, rulesOf_bracketed, rest]

theorem visitPExtShape_read {dims : List SubExp} (i : Nat)
    (h : Expressible.subExps conv floatText dims = true)
    (child : (rulesOf .pExtShape ts)[i]? = some (extShape floatText dims)) :
    visitPExtShape conv i ts = .ok [dims] := by
  simp [visitPExtShape, child, visitSubExps_read h (rulesOf_extShape dims)]

theorem visitShape_read {dims : List SubExp} (i : Nat)
    (h : Expressible.subExps conv floatText dims = true)
    (child : (rulesOf .pExtShape ts)[i]? = some (extShape floatText dims)) :
    visitShape conv i ts = .ok dims := by
  simp [visitShape, visitPExtShape_read i h child, visitExtShape]

theorem visitPType_read {t : Ty} (h : Expressible.ty conv floatText t = true) :
    ∃ p, visitPType conv (some (ty floatText t)) = .ok p ∧ visitType p = t := by
  cases t with
  | prim t =>
    refine ⟨.prim t, ?_, rfl⟩
    by_cases named : t = .unit
    · subst named
      rfl
    · have read : visitPrimType [primType t] 0 = .ok t := visitPrimType_read 0 named (by simp)
      cases t with
      | unit => exact absurd rfl named
      | _ => simp [ty, visitPType, read]
  | array t dims =>
    refine ⟨.shape [dims] t, ?_, by simp [visitType, visitExtShape]⟩
    have shape (last : Node) : visitPExtShape conv 0 [extShape floatText dims, last] =
        .ok [dims] :=
      visitPExtShape_read 0 h (by simp)
    by_cases named : t = .unit
    · subst named
      simp [ty, visitPType, shape]
    · have read : visitPrimType [extShape floatText dims, primType t] 0 = .ok t :=
        visitPrimType_read 0 named (by simp)
      cases t with
      | unit => exact absurd rfl named
      | _ => simp [ty, visitPType, read, shape]
  | acc => cases h
  | mem => cases h

theorem visitTypeOf_read {t : Ty} (h : Expressible.ty conv floatText t = true) :
    visitTypeOf conv (some (ty floatText t)) = .ok t := by
  obtain ⟨p, read, rfl⟩ := visitPType_read h
  simp [visitTypeOf, read]

theorem visitTypes_read {tys : List Ty} (h : Expressible.tys conv floatText tys = true)
    (children : rulesOf .pType ts = tys.map (ty floatText)) : visitTypes conv ts = .ok tys := by
  rw [visitTypes, children]
  exact mapM_read fun t member => visitTypeOf_read (List.all_eq_true.mp h t member)

theorem visitFParam_read (r : Rule) {p : Param}
    (h : Expressible.ty conv floatText p.ty = true) :
    visitFParam conv (childrenOf (typed floatText r p.name p.ty)) = .ok p := by
  simp [visitFParam, typed, tokenOf, ruleOf, visitTypeOf_read h]

theorem visitParams_read {r : Rule} {ps : List Param}
    (h : Expressible.params conv floatText ps = true)
    (children : rulesOf r ts = ps.map fun p => typed floatText r p.name p.ty) :
    visitParams conv r ts = .ok ps := by
  rw [visitParams, children]
  refine mapM_read fun p member => visitFParam_read r ?_
  exact List.all_eq_true.mp h _ (List.mem_map_of_mem member)

theorem rulesOf_params (r : Rule) (ps : List Param) :
    rulesOf r (params floatText r ps) = ps.map fun p => typed floatText r p.name p.ty := by
  simp [params]

theorem visitPat_read {es : List PatElem} (h : Expressible.pat conv floatText es = true)
    (child : ruleOf .pPat ts = some (pat floatText es)) : visitPat conv ts = .ok es := by
  obtain ⟨_, tys⟩ := Bool.and_eq_true_iff.mp h
  have elems : rulesOf .pPatElem (childrenOf (pat floatText es)) =
      es.map fun e => typed floatText .pPatElem e.name e.ty := by
    simp [pat, rulesOf_braced]
  simp only [visitPat, derefRule, child, deref_some, ok_bind, pure_ok, elems]
  refine mapM_read fun e member => ?_
  have ok := List.all_eq_true.mp tys _ (List.mem_map_of_mem member)
  simp [visitPatElem, typed, tokenOf, ruleOf, visitTypeOf_read ok]

theorem visitApply_read (fname : String) {args : List SubExp} {retTypes : List Ty}
    (argsOk : Expressible.subExps conv floatText args = true)
    (typesOk : Expressible.tys conv floatText retTypes = true) :
    visitApply conv (childrenOf (apply floatText fname args retTypes)) =
      .ok (.apply fname args retTypes) := by
  have arguments : visitSubExps conv (childrenOf (apply floatText fname args retTypes)) =
      .ok args :=
    visitSubExps_read argsOk (by simp [apply, rulesOf_parens, rulesOf_subExps])
  have results : visitTypes conv (braced (tys floatText retTypes)) = .ok retTypes :=
    visitTypes_read typesOk (by simp [rulesOf_braced, rulesOf_tys])
  have name : tokenOf .id (childrenOf (apply floatText fname args retTypes)) =
      some fname.toList := by
    simp [apply, tokenOf]
  rw [visitApply, name, arguments]
  simp [apply, derefRule, ruleOf, rulesOf_parens, subExps, results]

theorem visitDimIndex_read {i : DimIndex} (h : Expressible.dimIndex conv floatText i = true) :
    visitDimIndex conv (dimIndex floatText i) = .ok i := by
  cases i with
  | fix i =>
    have read : visitSubExpAt conv 0 [subExp floatText i] = .ok i :=
      visitSubExpAt_read [i] 0 h (by simp) rfl
    simp [dimIndex, visitDimIndex, read]
  | slice start length stride =>
    have ok := List.all_eq_true.mp h
    have children : rulesOf .pSubExp [subExp floatText start, lit ":+", subExp floatText length,
        lit "*", subExp floatText stride] = [start, length, stride].map (subExp floatText) := by
      simp
    have read (i : Nat) {se : SubExp} (place : [start, length, stride][i]? = some se) :=
      visitSubExpAt_read _ i (ok se (List.mem_of_getElem? place)) children place
    simp [dimIndex, visitDimIndex, read 0 rfl, read 1 rfl, read 2 rfl]

theorem rulesOf_operands (ses : List SubExp) :
    rulesOf .pSubExp (operands floatText ses) = ses.map (subExp floatText) := by
  rw [operands, rulesOf_parens, rulesOf_subExps]

theorem tokensOf_numbers (ns : List Nat) :
    tokensOf .number (numbers ns) = ns.map Text.natText := by
  rw [numbers, separated, tokensOf_joined (by simp), List.map_map, List.flatMap_map]
  exact List.map_eq_flatMap.symm

theorem visitOperand_read {ses : List SubExp} (h : Expressible.subExps conv floatText ses = true)
    (children : rulesOf .pSubExp ts = ses.map (subExp floatText)) (i : Nat) {se : SubExp}
    (place : ses[i]? = some se) : visitSubExpAt conv i ts = .ok se :=
  visitSubExpAt_read ses i (List.all_eq_true.mp h se (List.mem_of_getElem? place)) children place

theorem visitVar_read {x : VName} (child : rulesOf .pSubExp ts = [subExp floatText (.var x)]) :
    visitSubExpAt conv 0 ts = .ok (.var x) := by
  rw [visitSubExpAt, child]
  exact @visitSubExp_read conv floatText (.var x) rfl

theorem visitBasicOpConcat_read {dim : Int} {arrs : List VName} {total : SubExp}
    (h : Expressible.basicOp conv floatText (.concat dim arrs total) = true) :
    visitBasicOp conv (some (basicOp floatText (.concat dim arrs total))) =
      .ok (.concat dim arrs total) := by
  simp only [Expressible.basicOp, Bool.and_eq_true, decide_eq_true_eq] at h
  obtain ⟨⟨range, nonempty⟩, size⟩ := h
  have children : rulesOf .pSubExp (childrenOf (basicOp floatText (.concat dim arrs total))) =
      subExp floatText total :: (arrs.map SubExp.var).map (subExp floatText) := by
    simp [basicOp, rulesOf_operands]
  have opcode : tokenOf .concat (childrenOf (basicOp floatText (.concat dim arrs total))) =
      some ("concat@".toList ++ Text.intText dim) := by
    simp [basicOp, tokenOf]
  have names : ((arrs.map SubExp.var).map (subExp floatText)).mapM (fun t => do
      let se ← visitSubExp conv (some t)
      getVName se) = .ok arrs := by
    rw [List.map_map]
    exact mapM_read fun x _ => by simp [subExp, visitSubExp, tokenOf, getVName]
  have number : stoi (Text.intText dim) = .ok dim := stoi_intText range
  change visitBasicOpConcat conv (childrenOf (basicOp floatText (.concat dim arrs total))) = _
  cases arrs with
  | nil => cases nonempty
  | cons x xs =>
    rw [List.map_cons, List.map_cons] at children names
    have digits : (if '@' ∈ "concat@".toList ++ Text.intText dim then
        (("concat@".toList ++ Text.intText dim).dropWhile (· != '@')).drop 1
        else "concat@".toList ++ Text.intText dim) = Text.intText dim := by
      rw [if_pos (by simp)]
      rfl
    simp only [visitBasicOpConcat, children, opcode, deref_some, ok_bind, digits, number,
      visitSubExp_read size, names, pure_ok]

theorem textOf_rule_word (r : Rule) (l : Label) (k : Kind) (text : Text) :
    textOf (rule r l [word k text]) = text := by
  simp [textOf, rule, word, ParseTree.yield, ParseTree.yields]

theorem visitBinary_read (op : BinOp) {a b : SubExp}
    (h : Expressible.subExps conv floatText [a, b] = true) :
    visitBasicOp conv (some (basicOp floatText (.binOp op a b))) = .ok (.binOp op a b) := by
  have read (i : Nat) {se : SubExp} (place : [a, b][i]? = some se) :
      visitSubExpAt conv i (rule .binaryOpcode .none [word (.opcode (binToken op)) op.text] ::
        operands floatText [a, b]) = .ok se :=
    visitOperand_read h (by simp [rulesOf_operands]) i place
  simp [basicOp, visitBasicOp, derefRule, derefText, ruleOf, read 0 rfl, read 1 rfl,
    textOf_rule_word, visitBinOp_text]

theorem visitCmp_read {op : CmpOp} {a b : SubExp} (known : Expressible.cmpOp op = true)
    (h : Expressible.subExps conv floatText [a, b] = true) :
    visitBasicOp conv (some (basicOp floatText (.cmpOp op a b))) = .ok (.cmpOp op a b) := by
  have read (i : Nat) {se : SubExp} (place : [a, b][i]? = some se) :
      visitSubExpAt conv i (rule .cmpOpcode .none [word (.opcode (cmpToken op)) op.text] ::
        operands floatText [a, b]) = .ok se :=
    visitOperand_read h (by simp [rulesOf_operands]) i place
  simp [basicOp, visitBasicOp, derefRule, derefText, ruleOf, read 0 rfl, read 1 rfl,
    textOf_rule_word, visitCmpOp_text known]

theorem visitConvOpcode_read (op : ConvOp) :
    visitConvOpcode (textOf (rule .convOpcode .none [lit (convParts op).1])) (convParts op).2.1
      (convParts op).2.2 = .ok op := by
  rw [lit, textOf_rule_word]
  cases op <;> simp [visitConvOpcode, convParts, asInt, asFloat]

theorem visitBasicOpConvOp_read (op : ConvOp) {a : SubExp}
    (h : Expressible.subExp conv floatText a = true) :
    visitBasicOpConvOp conv (childrenOf (basicOp floatText (.convOp op a))) =
      .ok (.convOp op a) := by
  obtain ⟨srcNamed, dstNamed⟩ := convParts_named op
  obtain ⟨ts, parts⟩ : ∃ ts, ts = [rule .convOpcode .none [lit (convParts op).1],
    primType (convParts op).2.1, subExp floatText a, lit "to", primType (convParts op).2.2] :=
    ⟨_, rfl⟩
  have whole : childrenOf (basicOp floatText (.convOp op a)) = [rule .pConvOp .none ts] := by
    simp [basicOp, parts]
  have src : visitPrimType ts 0 = .ok (convParts op).2.1 :=
    visitPrimType_read 0 srcNamed (by simp [parts])
  have dst : visitPrimType ts 1 = .ok (convParts op).2.2 :=
    visitPrimType_read 1 dstNamed (by simp [parts])
  have read : visitSubExpAt conv 0 ts = .ok a := visitSubExpAt_read [a] 0 h (by simp [parts]) rfl
  have opcode : derefText .convOpcode ts =
      .ok (textOf (rule .convOpcode .none [lit (convParts op).1])) := by
    simp [derefText, ruleOf, parts]
  simp [visitBasicOpConvOp, whole, derefRule, ruleOf, opcode, src, dst, read,
    visitConvOpcode_read]

theorem visitBasicOpArrayLit_read {values : List SubExp} {t : Ty}
    (elements : Expressible.results conv floatText values = true)
    (type : Expressible.literalTy conv floatText values t = true) :
    visitBasicOp conv (some (basicOp floatText (.arrayLit values t))) =
      .ok (.arrayLit values t) := by
  obtain ⟨_, all⟩ := Bool.and_eq_true_iff.mp elements
  obtain ⟨p, row, type_eq⟩ := visitPType_read (rowTy_expressible type)
  have read : visitSubExps conv (bracketed (subExps floatText values)) = .ok values :=
    visitSubExps_read all (by rw [rulesOf_bracketed, rulesOf_subExps])
  have literal : visitBasicOpArrayLit values p = .arrayLit values t := by
    rw [visitBasicOpArrayLit, type_eq]
    cases t with
    | prim t => rfl
    | array t dims =>
      cases dims with
      | nil => cases type
      | cons d dims =>
        obtain ⟨count, _⟩ := Bool.and_eq_true_iff.mp type
        rw [of_decide_eq_true count]
        rfl
    | acc => cases type
    | mem => cases type
  simp [basicOp, visitBasicOp, derefRule, ruleOf, read, row, literal]

theorem visitBasicOpIndex_read {arr : VName} {dims : List DimIndex}
    (h : dims.all (Expressible.dimIndex conv floatText) = true) :
    visitBasicOpIndex conv (childrenOf (basicOp floatText (.index arr dims))) =
      .ok (.index arr dims) := by
  have child : rulesOf .pSubExp (childrenOf (basicOp floatText (.index arr dims))) =
      [subExp floatText (.var arr)] := by
    simp [basicOp, rulesOf_bracketed]
  have children : rulesOf .pDimIndex (childrenOf (basicOp floatText (.index arr dims))) =
      dims.map (dimIndex floatText) := by
    simp [basicOp, rulesOf_bracketed]
  have read : (dims.map (dimIndex floatText)).mapM (visitDimIndex conv) = .ok dims :=
    mapM_read fun i member => visitDimIndex_read (List.all_eq_true.mp h i member)
  simp only [visitBasicOpIndex, visitVar_read child, ok_bind, getVName, children, read, pure_ok]

theorem visitBasicOpManifest_read :
    visitBasicOpManifest conv (childrenOf (basicOp floatText .manifest)) = .ok .manifest := by
  have child : rulesOf .pSubExp (childrenOf (basicOp floatText .manifest)) =
      [subExp floatText (.var "x")] := by
    simp [basicOp, rulesOf_parens, numbers]
  have numbers : tokensOf .number (childrenOf (basicOp floatText .manifest)) =
      [Text.natText 0] := by
    simp [basicOp, parens, tokensOf_numbers]
  have number : stoi (Text.natText 0) = .ok 0 := @stoi_intText (.ofNat 0) ⟨by decide, by decide⟩
  simp [visitBasicOpManifest, visitVar_read child, getVName, numbers, number]

theorem visitBasicOpIota_read {n x s : SubExp} {t : IntType} (wide : t ≠ .int8)
    (h : Expressible.subExps conv floatText [n, x, s] = true) :
    visitBasicOpIota conv (childrenOf (basicOp floatText (.iota n x s t))) =
      .ok (.iota n x s t) := by
  have read (i : Nat) {se : SubExp} (place : [n, x, s][i]? = some se) :
      visitSubExpAt conv i (childrenOf (basicOp floatText (.iota n x s t))) = .ok se :=
    visitOperand_read h (by simp [basicOp, rulesOf_operands]) i place
  have text : tokenOf .iota (childrenOf (basicOp floatText (.iota n x s t))) =
      some (iotaText t) := by
    simp [basicOp, tokenOf]
  rw [visitBasicOpIota, read 0 rfl, read 1 rfl, read 2 rfl, text]
  cases t with
  | int8 => exact absurd rfl wide
  | _ => rfl

theorem visitBasicOpReplicate_read {shape : List SubExp} {val : SubExp}
    (h : Expressible.subExps conv floatText (val :: shape) = true) :
    visitBasicOpReplicate conv (childrenOf (basicOp floatText (.replicate shape val))) =
      .ok (.replicate shape val) := by
  obtain ⟨value, dims⟩ := Bool.and_eq_true_iff.mp h
  have shape_read : visitShape conv 0 (childrenOf (basicOp floatText (.replicate shape val))) =
      .ok shape :=
    visitShape_read 0 dims (by simp [basicOp, rulesOf_parens])
  have read : visitSubExpAt conv 0 (childrenOf (basicOp floatText (.replicate shape val))) =
      .ok val :=
    visitSubExpAt_read [val] 0 value (by simp [basicOp, rulesOf_parens]) rfl
  simp only [visitBasicOpReplicate, shape_read, read, ok_bind, pure_ok]

theorem visitBasicOpScratch_read {t : PrimType} {dims : List SubExp} (named : t ≠ .unit)
    (h : Expressible.subExps conv floatText dims = true) :
    visitBasicOpScratch conv (childrenOf (basicOp floatText (.scratch t dims))) =
      .ok (.scratch t dims) := by
  have children : rulesOf .pSubExp (childrenOf (basicOp floatText (.scratch t dims))) =
      dims.map (subExp floatText) := by
    simp [basicOp, rulesOf_parens, rulesOf_flatMap, List.map_eq_flatMap]
  have type : visitPrimType (childrenOf (basicOp floatText (.scratch t dims))) 0 = .ok t :=
    visitPrimType_read 0 named (by simp [basicOp, rulesOf_parens])
  simp only [visitBasicOpScratch, type, visitSubExps_read h children, ok_bind, pure_ok]

theorem visitBasicOpReshape_read {op0 : SubExp} {dimBegin dimEnd : Nat}
    {reshapedDim remainder : List SubExp} (first : dimBegin < 2 ^ 32) (second : dimEnd < 2 ^ 32)
    (value : Expressible.subExp conv floatText op0 = true)
    (inner : Expressible.subExps conv floatText reshapedDim = true)
    (outer : Expressible.subExps conv floatText remainder = true) :
    visitBasicOpReshape conv (childrenOf (basicOp floatText
        (.reshape op0 dimBegin dimEnd reshapedDim remainder))) =
      .ok (.reshape op0 dimBegin dimEnd reshapedDim remainder) := by
  obtain ⟨ts, parts⟩ : ∃ ts, ts = childrenOf (basicOp floatText
      (.reshape op0 dimBegin dimEnd reshapedDim remainder)) := ⟨_, rfl⟩
  have array : visitSubExpAt conv 0 ts = .ok op0 :=
    visitSubExpAt_read [op0] 0 value (by simp [parts, basicOp, rulesOf_parens]) rfl
  have numbers : tokensOf .number ts = [Text.natText dimBegin, Text.natText dimEnd] := by
    simp [parts, basicOp, parens]
  have shapes : rulesOf .pExtShape ts =
      [extShape floatText reshapedDim, extShape floatText remainder] := by
    simp [parts, basicOp, rulesOf_parens]
  have inner_read : visitShape conv 0 ts = .ok reshapedDim :=
    visitShape_read 0 inner (by rw [shapes]; rfl)
  have outer_read : visitShape conv 1 ts = .ok remainder :=
    visitShape_read 1 outer (by rw [shapes]; rfl)
  have first_read : stoull (Text.natText dimBegin) = .ok dimBegin := stoull_natText (by omega)
  have second_read : stoull (Text.natText dimEnd) = .ok dimEnd := stoull_natText (by omega)
  rw [← parts]
  simp [visitBasicOpReshape, array, numbers, first_read, second_read, inner_read, outer_read]
  omega

theorem visitBasicOpRearrange_read {arr : VName} {perm : List Nat}
    (small : perm.all (· < 2 ^ 64) = true) :
    visitBasicOpRearrange conv (childrenOf (basicOp floatText (.rearrange arr perm))) =
      .ok (.rearrange arr perm) := by
  have child : rulesOf .pSubExp (childrenOf (basicOp floatText (.rearrange arr perm))) =
      [subExp floatText (.var arr)] := by
    simp [basicOp, rulesOf_parens, numbers]
  have numbers : tokensOf .number (childrenOf (basicOp floatText (.rearrange arr perm))) =
      perm.map Text.natText := by
    simp [basicOp, parens, tokensOf_numbers]
  have read : (perm.map Text.natText).mapM stoull = .ok perm :=
    mapM_read fun n member => stoull_natText (by simpa using List.all_eq_true.mp small n member)
  simp only [visitBasicOpRearrange, visitVar_read child, ok_bind, varOf, numbers, read, pure_ok]

theorem visitBasicOp_read {op : BasicOp} (h : Expressible.basicOp conv floatText op = true) :
    visitBasicOp conv (some (basicOp floatText op)) = .ok op := by
  cases op with
  | arrayLit values t =>
    obtain ⟨elements, type⟩ := Bool.and_eq_true_iff.mp h
    exact visitBasicOpArrayLit_read elements type
  | binOp op a b => exact visitBinary_read op h
  | cmpOp op a b =>
    obtain ⟨known, args⟩ := Bool.and_eq_true_iff.mp h
    exact visitCmp_read known args
  | convOp op a => exact visitBasicOpConvOp_read op h
  | assert => rfl
  | index arr dims => exact visitBasicOpIndex_read (Bool.and_eq_true_iff.mp h).2
  | concat dim arrs total => exact visitBasicOpConcat_read h
  | manifest => exact visitBasicOpManifest_read
  | iota n x s t =>
    obtain ⟨wide, args⟩ := Bool.and_eq_true_iff.mp h
    exact visitBasicOpIota_read (by simpa using wide) args
  | replicate shape val => exact visitBasicOpReplicate_read h
  | scratch t dims =>
    obtain ⟨named, all⟩ := Bool.and_eq_true_iff.mp h
    exact visitBasicOpScratch_read (by simpa using named) all
  | reshape op0 dimBegin dimEnd reshapedDim remainder =>
    simp only [Expressible.basicOp, Bool.and_eq_true, decide_eq_true_eq] at h
    obtain ⟨⟨⟨⟨first, second⟩, value⟩, inner⟩, outer⟩ := h
    exact visitBasicOpReshape_read first second value inner outer
  | rearrange arr perm => exact visitBasicOpRearrange_read (Bool.and_eq_true_iff.mp h).2
  | _ => cases h

theorem visitPTypes_read {tys : List Ty} (h : Expressible.tys conv floatText tys = true)
    (child : ruleOf .pTypes ts = some (types floatText tys)) :
    visitPTypes conv ts = .ok tys := by
  have read : visitTypes conv (childrenOf (types floatText tys)) = .ok tys :=
    visitTypes_read h (by simp [types, rulesOf_braced, rulesOf_tys])
  simp [visitPTypes, derefRule, child, read]

theorem visitLoopForm_read {form : LoopForm} (h : Expressible.loopForm conv floatText form = true) :
    visitLoopForm conv (some (loopForm floatText form)) = .ok form := by
  cases form with
  | forLoop i t bound =>
    obtain ⟨ts, parts⟩ : ∃ ts, ts = childrenOf (loopForm floatText (.forLoop i t bound)) :=
      ⟨_, rfl⟩
    have type : visitPrimType ts 0 = .ok (.int t) :=
      visitPrimType_read 0 (by simp) (by simp [parts, loopForm])
    have read : visitSubExpAt conv 0 ts = .ok bound :=
      visitSubExpAt_read [bound] 0 h (by simp [parts, loopForm]) rfl
    have name : tokenOf .id ts = some i.toList := by simp [parts, loopForm, tokenOf]
    change visitLoopForm conv (some (rule .pLoopForm .loopFor (childrenOf (loopForm floatText
      (.forLoop i t bound))))) = _
    rw [← parts]
    simp [visitLoopForm, name, type, read, asInt]
  | whileLoop cond => simp [loopForm, visitLoopForm, tokenOf]

theorem visitSegLevel_read (lvl : SegLevel) : visitSegLevel (some (segLevel lvl)) = .ok lvl := by
  cases lvl <;> rfl

theorem visitSpaceDims_read {dims : List (VName × SubExp)} (rest : List Text)
    (h : Expressible.subExps conv floatText (dims.map Prod.snd) = true) :
    visitSpaceDims conv ((dims.map fun d => d.1.toList) ++ rest)
      (dims.map fun d => subExp floatText d.2) = .ok dims := by
  induction dims with
  | nil => rfl
  | cons d dims ih =>
    obtain ⟨first, others⟩ := Bool.and_eq_true_iff.mp h
    simp [visitSpaceDims, visitSubExp_read first, ih others]

theorem visitSegSpace_read {space : SegSpace}
    (h : Expressible.segSpace conv floatText space = true)
    (child : ruleOf .pSegSpace ts = some (segSpace floatText space)) :
    visitSegSpace conv ts = .ok space := by
  obtain ⟨_, sizesOk⟩ := Bool.and_eq_true_iff.mp h
  have names : tokensOf .id (childrenOf (segSpace floatText space)) =
      (space.dims.map fun d => d.1.toList) ++ [space.flatId.toList] := by
    simp [segSpace, parens, tokensOf_joined, List.flatMap_map, ← List.map_eq_flatMap]
  have sizes : rulesOf .pSubExp (childrenOf (segSpace floatText space)) =
      space.dims.map fun d => subExp floatText d.2 := by
    simp [segSpace, rulesOf_parens, List.flatMap_map, ← List.map_eq_flatMap]
  have last : ((space.dims.map fun d => d.1.toList) ++ [space.flatId.toList])[space.dims.length]? =
      some space.flatId.toList := by
    simp
  simp [visitSegSpace, derefRule, child, names, sizes, visitSpaceDims_read _ sizesOk]

@[simp] theorem trees_visitsAll (ts : List Node) : trees (visitsAll conv ts) = ts := by
  induction ts with
  | nil => rfl
  | cons t ts ih =>
    rw [visitsAll, trees, List.map_cons]
    exact congrArg (t :: ·) ih

@[simp] theorem visitsOf_visitsAll (r : Rule) (ts : List Node) :
    visitsOf r (visitsAll conv ts) = (rulesOf r ts).map (visits conv) := by
  induction ts with
  | nil => rfl
  | cons t ts ih =>
    rw [visitsOf] at ih
    rw [visitsAll, visitsOf, List.filter_cons, rulesOf, List.filter_cons]
    cases e : isRule r t <;> simp [ih, rulesOf]

theorem castVisit_read {α : Type} {r : Rule} {i : Nat} {t : Node} (part : Visits → Except Err α)
    (child : (rulesOf r ts)[i]? = some t) :
    castVisit r i part (visitsAll conv ts) = part (visits conv t) := by
  rw [castVisit, visitsOf_visitsAll, List.getElem?_map, child]
  rfl

theorem derefVisit_read {α : Type} {r : Rule} {t : Node} (part : Visits → Except Err α)
    (child : ruleOf r ts = some t) :
    derefVisit r part (visitsAll conv ts) = part (visits conv t) := by
  rw [ruleOf] at child
  rw [derefVisit, visitsOf_visitsAll, List.head?_map, child]
  rfl

theorem visits_rule (r : Rule) (l : Label) (ts : List Node) :
    visits conv (rule r l ts) = visitContext conv l (visitsAll conv ts) := by
  rw [rule, visits]

@[simp] theorem ruleHead_stm (s : Stm) : ruleHead (stm floatText s) = some .pStm := by
  cases s
  simp [stm]

@[simp] theorem ruleHead_segOp (op : SegOp) : ruleHead (segOp floatText op) = some .pSegOp := by
  rcases op with ⟨_, _, _, ⟨_, _⟩⟩ | ⟨_, _, _, ⟨_, _⟩, _⟩ | ⟨_, _, _, ⟨_, _⟩, _, _⟩ |
    ⟨_, _, _, ⟨_, _⟩, _⟩ <;> simp [segOp]

@[simp] theorem ruleHead_hostOp (op : HostOp) : ruleHead (hostOp floatText op) = some .pExp := by
  cases op <;> simp [hostOp]

@[simp] theorem ruleHead_exp (e : Exp) : ruleHead (exp floatText e) = some .pExp := by
  rcases e with op | ⟨_, _, _⟩ | op | se | ⟨_, ⟨_, _⟩, ⟨_, _⟩, _⟩ | ⟨_, _, ⟨_, _⟩⟩ <;> simp [exp]

@[simp] theorem ruleHead_lambda (l : Lambda) : ruleHead (lambda floatText l) = some .pLambda := by
  rcases l with ⟨_, _, ⟨_, _⟩⟩
  simp [lambda, lambdaNode]

@[simp] theorem ruleHead_segBinOp (op : SegBinOp) :
    ruleHead (segBinOp floatText op) = some .pSegBinOp := by
  cases op
  simp [segBinOp]

@[simp] theorem ruleHead_histOp (op : HistOp) :
    ruleHead (histOp floatText op) = some .pHistOp := by
  cases op
  simp [histOp]

@[simp] theorem rulesOf_stms (r : Rule) (ss : List Stm) :
    rulesOf r (stms floatText ss) = if .pStm = r then stms floatText ss else [] := by
  induction ss with
  | nil => simp [stms]
  | cons s ss ih => by_cases h : Rule.pStm = r <;> simp_all [stms]

@[simp] theorem rulesOf_segBinOps (r : Rule) (ops : List SegBinOp) :
    rulesOf r (segBinOps floatText ops) =
      if .pSegBinOp = r then segBinOps floatText ops else [] := by
  induction ops with
  | nil => simp [segBinOps]
  | cons op ops ih => by_cases h : Rule.pSegBinOp = r <;> simp_all [segBinOps]

@[simp] theorem rulesOf_histOps (r : Rule) (ops : List HistOp) :
    rulesOf r (histOps floatText ops) = if .pHistOp = r then histOps floatText ops else [] := by
  induction ops with
  | nil => simp [histOps]
  | cons op ops ih => by_cases h : Rule.pHistOp = r <;> simp_all [histOps]

section Bodies

variable {ss : List Stm} {result : List SubExp}
  (stmsRead : ((stms floatText ss).map (visits conv)).mapM Visits.stm = .ok ss)
  (resultOk : Expressible.results conv floatText result = true)

include stmsRead resultOk

theorem visitStmsAndResult_read (stmsOf : rulesOf .pStm ts = stms floatText ss)
    (resultOf : rulesOf .pSubExp ts = result.map (subExp floatText)) :
    visitStmsAndResult conv (visitsAll conv ts) = .ok (.mk ss result) := by
  have results := visitSubExps_read (Bool.and_eq_true_iff.mp resultOk).2 resultOf
  simp [visitStmsAndResult, visitStms, stmsOf, stmsRead, results]

theorem visitBody_read :
    (visits conv (body floatText (stms floatText ss) result)).body = .ok (.mk ss result) := by
  rw [body, visits_rule]
  exact visitStmsAndResult_read stmsRead resultOk (by simp [rulesOf_braced, subExps])
    (by simp [rulesOf_braced, subExps])

theorem visitCaseBody_read :
    (visits conv (caseBody floatText (stms floatText ss) result)).caseBody =
      .ok (.mk ss result) := by
  rw [caseBody, visits_rule]
  exact visitStmsAndResult_read stmsRead resultOk (by simp [rulesOf_braced, subExps])
    (by simp [rulesOf_braced, subExps])

theorem visitKernelBody_read :
    (visits conv (kernelBody floatText (stms floatText ss) result)).kernelBody =
      .ok (.mk ss result) := by
  rw [kernelBody, visits_rule]
  refine visitStmsAndResult_read stmsRead resultOk ?_ ?_
  · simp [rulesOf_braced, List.flatMap_map]
  · simp [rulesOf_braced, List.flatMap_map, ← List.map_eq_flatMap]

end Bodies

theorem visitStm_part {es : List PatElem} {e : Exp} (h : Expressible.pat conv floatText es = true)
    (read : (visits conv (exp floatText e)).exp = .ok e) :
    (visits conv (stm floatText (.mk es e))).stm = .ok (.mk es e) := by
  rw [stm, visits_rule]
  simp only [visitContext, visitStm, trees_visitsAll]
  rw [visitPat_read h (by simp [ruleOf]), castVisit_read (t := exp floatText e) Visits.exp
    (by simp), read]
  rfl

theorem visitExpIf_part {cond : SubExp} {thenNode elseNode : Node} {thenBody elseBody : Body}
    {retType : List Ty} (condOk : Expressible.subExp conv floatText cond = true)
    (typesOk : Expressible.tys conv floatText retType = true)
    (thenHead : ruleHead thenNode = some .pCaseBody)
    (elseHead : ruleHead elseNode = some .pCaseBody)
    (thenRead : (visits conv thenNode).caseBody = .ok thenBody)
    (elseRead : (visits conv elseNode).caseBody = .ok elseBody) :
    (visits conv (rule .pExp .expIf [lit "if", subExp floatText cond, lit "then", thenNode,
      lit "else", elseNode, lit ":", types floatText retType])).exp =
      .ok (.ite cond thenBody elseBody retType) := by
  rw [visits_rule]
  simp only [visitContext, visitExp, visitExpIf, trees_visitsAll]
  rw [visitSubExpAt_read [cond] 0 condOk (by simp [thenHead, elseHead]) rfl,
    castVisit_read (t := thenNode) Visits.caseBody (by simp [thenHead, elseHead]),
    castVisit_read (t := elseNode) Visits.caseBody (by simp [thenHead, elseHead]), thenRead,
    elseRead, visitPTypes_read typesOk (by simp [ruleOf, thenHead, elseHead])]
  rfl

theorem visitExpLoop_part {merge : List (Param × SubExp)} {form : LoopForm} {bodyNode : Node}
    {inner : Body} (paramsOk : Expressible.params conv floatText (merge.map Prod.fst) = true)
    (initsOk : Expressible.subExps conv floatText (merge.map Prod.snd) = true)
    (formOk : Expressible.loopForm conv floatText form = true)
    (bodyHead : ruleHead bodyNode = some .pCaseBody)
    (bodyRead : (visits conv bodyNode).caseBody = .ok inner) :
    (visits conv (rule .pLoop .none (lit "loop" ::
      (braced (params floatText .pLoopParam (merge.map Prod.fst)) ++
        lit "=" :: (braced (subExps floatText (merge.map Prod.snd)) ++
          [loopForm floatText form, lit "do", bodyNode]))))).loop =
      .ok (.loop merge form inner) := by
  obtain ⟨ts, parts⟩ : ∃ ts, ts = lit "loop" ::
    (braced (params floatText .pLoopParam (merge.map Prod.fst)) ++
      lit "=" :: (braced (subExps floatText (merge.map Prod.snd)) ++
        [loopForm floatText form, lit "do", bodyNode])) := ⟨_, rfl⟩
  have paramsOf : rulesOf .pLoopParam ts =
      merge.map fun m => typed floatText .pLoopParam m.1.name m.1.ty := by
    simp [parts, rulesOf_braced, rulesOf_params, subExps, bodyHead]
  have initsOf : rulesOf .pSubExp ts = merge.map fun m => subExp floatText m.2 := by
    simp [parts, rulesOf_braced, params, subExps, bodyHead]
  have formOf : ruleOf .pLoopForm ts = some (loopForm floatText form) := by
    simp [parts, ruleOf, rulesOf_braced, params, subExps, bodyHead]
  have bodyOf : (rulesOf .pCaseBody ts)[0]? = some bodyNode := by
    simp [parts, rulesOf_braced, params, subExps, bodyHead]
  have merged : (merge.map fun m => (typed floatText .pLoopParam m.1.name m.1.ty,
      subExp floatText m.2)).mapM (visitMerge conv) = .ok merge := by
    refine mapM_read fun m member => ?_
    have param : visitFParam conv (childrenOf (typed floatText .pLoopParam m.1.name m.1.ty)) =
        .ok m.1 :=
      visitFParam_read .pLoopParam
        (List.all_eq_true.mp paramsOk _ (List.mem_map_of_mem (List.mem_map_of_mem member)))
    have init := visitSubExp_read (List.all_eq_true.mp initsOk _ (List.mem_map_of_mem member))
    simp [visitMerge, param, init]
  rw [← parts, visits_rule]
  simp only [visitContext, visitExpLoop, trees_visitsAll, paramsOf, initsOf, List.length_map,
    ne_eq, not_true_eq_false, if_false, List.zip_map', merged, ok_bind, formOf,
    visitLoopForm_read formOk, castVisit_read Visits.caseBody bodyOf, bodyRead, pure_ok]

theorem visitLambda_part {ps : List Param} {ret : List Ty} {bodyNode : Node} {inner : Body}
    (paramsOk : Expressible.params conv floatText ps = true)
    (retOk : Expressible.tys conv floatText ret = true)
    (bodyHead : ruleHead bodyNode = some .pBody)
    (bodyRead : (visits conv bodyNode).body = .ok inner) :
    (visits conv (lambdaNode floatText ps ret bodyNode)).lambda = .ok (.mk ps ret inner) := by
  obtain ⟨ts, parts⟩ : ∃ ts, ts = lit "\\" :: (braced (params floatText .pLParam ps) ++
    [lit ":", types floatText ret, lit "->", bodyNode]) := ⟨_, rfl⟩
  have paramsOf : rulesOf .pLParam ts = ps.map fun p => typed floatText .pLParam p.name p.ty := by
    simp [parts, rulesOf_braced, rulesOf_params, bodyHead]
  have retOf : ruleOf .pTypes ts = some (types floatText ret) := by
    simp [parts, ruleOf, rulesOf_braced, params]
  have bodyOf : (rulesOf .pBody ts)[0]? = some bodyNode := by
    simp [parts, rulesOf_braced, params, bodyHead]
  rw [lambdaNode, ← parts, visits_rule]
  simp only [visitContext, visitLambda, trees_visitsAll, visitParams_read paramsOk paramsOf,
    visitPTypes_read retOk retOf, castVisit_read Visits.body bodyOf, bodyRead, ok_bind, pure_ok]

theorem visitSegBinOp_part {op : Lambda} {neutral shape : List SubExp}
    (neutralOk : Expressible.subExps conv floatText neutral = true)
    (shapeOk : Expressible.subExps conv floatText shape = true)
    (read : (visits conv (lambda floatText op)).lambda = .ok op) :
    (visits conv (segBinOp floatText (.mk op neutral shape))).segBinOp =
      .ok (.mk op neutral shape) := by
  obtain ⟨ts, parts⟩ : ∃ ts, ts = braced (subExps floatText neutral) ++
    [lit ",", extShape floatText shape, lit ",", rule .pComm .none [], lambda floatText op] :=
    ⟨_, rfl⟩
  have commOf : ruleOf .pComm ts = some (rule .pComm .none []) := by
    simp [parts, ruleOf, rulesOf_braced, subExps]
  have comm : derefText .pComm ts = .ok [] := by
    rw [derefText, commOf]
    rfl
  have lambdaOf : ruleOf .pLambda ts = some (lambda floatText op) := by
    simp [parts, ruleOf, rulesOf_braced, subExps]
  have neutralOf : rulesOf .pSubExp ts = neutral.map (subExp floatText) := by
    simp [parts, rulesOf_braced, subExps]
  have shapeOf : rulesOf .pExtShape ts = [extShape floatText shape] := by
    simp [parts, rulesOf_braced, subExps]
  have shapeRead : visitShape conv 0 ts = .ok shape :=
    visitShape_read 0 shapeOk (by rw [shapeOf]; rfl)
  rw [segBinOp, ← parts, visits_rule]
  simp only [visitContext, visitSegBinOp, trees_visitsAll, comm, derefVisit_read Visits.lambda
    lambdaOf, read, visitSubExps_read neutralOk neutralOf, ruleOf, shapeOf, List.head?_cons,
    shapeRead, ok_bind, pure_ok]

theorem visitHistOp_part {dest : List VName} {op : Lambda}
    (read : (visits conv (lambda floatText op)).lambda = .ok op) :
    (visits conv (histOp floatText (.mk dest op))).histOp = .ok (.mk dest op) := by
  obtain ⟨ts, parts⟩ : ∃ ts, ts = [extShape floatText [], lit ",",
    subExp floatText (.var "x"), lit ",",
    rule .pHistDest .none (braced (subExps floatText (dest.map .var))), lit ",",
    rule .pHistNeutral .none (braced []), lit ",", lit ",", lambda floatText op] := ⟨_, rfl⟩
  have shapeOf : rulesOf .pExtShape ts = [extShape floatText []] := by simp [parts]
  have shapeRead : visitShape conv 0 ts = .ok [] :=
    @visitShape_read conv floatText ts [] 0 rfl (by rw [shapeOf]; rfl)
  have sizeOf : rulesOf .pSubExp ts = [subExp floatText (.var "x")] := by simp [parts]
  have destOf : derefRule .pHistDest ts = .ok (braced (subExps floatText (dest.map .var))) := by
    simp [parts, derefRule, ruleOf]
  have neutralOf : derefRule .pHistNeutral ts = .ok (braced []) := by
    simp [parts, derefRule, ruleOf]
  have lambdaOf : ruleOf .pLambda ts = some (lambda floatText op) := by simp [parts, ruleOf]
  have none : visitSubExps conv (braced []) = .ok [] := rfl
  have names : (rulesOf .pSubExp (braced (subExps floatText (dest.map .var)))).mapM (fun t => do
      let se ← visitSubExp conv (some t)
      varOf se) = .ok dest := by
    rw [rulesOf_braced, rulesOf_subExps, List.map_map]
    exact mapM_read fun x _ => by simp [subExp, visitSubExp, tokenOf, varOf]
  rw [histOp, ← parts, visits_rule]
  simp only [visitContext, visitHistOp, trees_visitsAll, shapeRead, visitVar_read sizeOf, destOf,
    names, neutralOf, none, shapeOf, derefVisit_read Visits.lambda lambdaOf, read, ok_bind, pure_ok]
  rfl

/-- Whatever follows the head of a segmented operation has none of its parts. -/
theorem visitSegHead_part (keyword : String) (lvl : SegLevel) {space : SegSpace} {ret : List Ty}
    {kernel : Node} {inner : Body} (more : List Node)
    (spaceOk : Expressible.segSpace conv floatText space = true)
    (retOk : Expressible.tys conv floatText ret = true)
    (kernelHead : ruleHead kernel = some .pKernelBody)
    (kernelRead : (visits conv kernel).kernelBody = .ok inner) :
    visitSegHead conv (visitsAll conv (segHead floatText keyword lvl space ret kernel ++ more)) =
      .ok (lvl, space, ret, inner) := by
  obtain ⟨ts, whole⟩ : ∃ ts, ts = segHead floatText keyword lvl space ret kernel ++ more :=
    ⟨_, rfl⟩
  have lvlOf : ruleOf .pSegLevel ts = some (segLevel lvl) := by
    simp [whole, ruleOf, segHead, rulesOf_parens]
  have spaceOf : ruleOf .pSegSpace ts = some (segSpace floatText space) := by
    simp [whole, ruleOf, segHead, rulesOf_parens]
  have retOf : ruleOf .pTypes ts = some (types floatText ret) := by
    simp [whole, ruleOf, segHead, rulesOf_parens]
  have kernelOf : (rulesOf .pKernelBody ts)[0]? = some kernel := by
    simp [whole, segHead, rulesOf_parens, rulesOf_braced, kernelHead]
  simp only [← whole, visitSegHead, trees_visitsAll, lvlOf, visitSegLevel_read,
    visitSegSpace_read spaceOk spaceOf, visitPTypes_read retOk retOf,
    castVisit_read Visits.kernelBody kernelOf, kernelRead, ok_bind, pure_ok]

theorem rulesOf_segHead {r : Rule} (keyword : String) (lvl : SegLevel) (space : SegSpace)
    (ret : List Ty) {kernel : Node} (kernelHead : ruleHead kernel = some .pKernelBody)
    (apart : r ∉ [.pSegLevel, .pSegSpace, .pTypes, .pKernelBody]) :
    rulesOf r (segHead floatText keyword lvl space ret kernel) = [] := by
  simp only [List.mem_cons, not_or] at apart
  obtain ⟨level, space, types, kernel, _⟩ := apart
  simp [segHead, rulesOf_parens, rulesOf_braced, kernelHead, Ne.symm level, Ne.symm space,
    Ne.symm types, Ne.symm kernel]

mutual

theorem visitStm_read : (s : Stm) → Expressible.stm conv floatText s = true →
    (visits conv (stm floatText s)).stm = .ok s
  | .mk es e, h => by
    obtain ⟨pattern, value⟩ := Bool.and_eq_true_iff.mp h
    exact visitStm_part pattern (visitExp_read e value)

theorem visitStms_read : (ss : List Stm) → Expressible.stms conv floatText ss = true →
    ((stms floatText ss).map (visits conv)).mapM Visits.stm = .ok ss
  | [], _ => rfl
  | s :: rest, h => by
    obtain ⟨first, others⟩ := Bool.and_eq_true_iff.mp h
    rw [stms, List.map_cons, List.mapM_cons, visitStm_read s first, visitStms_read rest others]
    rfl

theorem visitExp_read : (e : Exp) → Expressible.exp conv floatText e = true →
    (visits conv (exp floatText e)).exp = .ok e
  | .basicOp op, h => by
    rw [exp, visits_rule]
    simp [visitContext, visitExp, ruleOf, visitBasicOp_read h]
  | .apply fname args retTypes, h => by
    obtain ⟨argsOk, typesOk⟩ := Bool.and_eq_true_iff.mp h
    rw [exp, visits_rule]
    simp [visitContext, visitExp, derefRule, ruleOf, visitApply_read fname argsOk typesOk]
  | .hostOp op, h => by
    rw [exp]
    exact visitHostOp_read op h
  | .subExp se, h => by
    have read : visitSubExpAt conv 0 [subExp floatText se] = .ok se :=
      visitSubExpAt_read [se] 0 h (by simp) rfl
    rw [exp, visits_rule]
    simp [visitContext, visitExp, read]
  | .ite cond (.mk thenStms thenResult) (.mk elseStms elseResult) retType, h => by
    simp only [Expressible.exp, Expressible.body, Bool.and_eq_true] at h
    obtain ⟨⟨⟨condOk, thenOk, thenResultOk⟩, elseOk, elseResultOk⟩, typesOk⟩ := h
    rw [exp]
    exact visitExpIf_part condOk typesOk rfl rfl
      (visitCaseBody_read (visitStms_read thenStms thenOk) thenResultOk)
      (visitCaseBody_read (visitStms_read elseStms elseOk) elseResultOk)
  | .loop merge form (.mk ss result), h => by
    simp only [Expressible.exp, Expressible.body, Bool.and_eq_true] at h
    obtain ⟨⟨⟨paramsOk, initsOk⟩, formOk⟩, stmsOk, resultOk⟩ := h
    rw [exp, visits_rule]
    simp only [visitContext, visitExp]
    rw [derefVisit_read Visits.loop rfl]
    exact visitExpLoop_part paramsOk initsOk formOk rfl
      (visitCaseBody_read (visitStms_read ss stmsOk) resultOk)

theorem visitHostOp_read : (op : HostOp) → Expressible.hostOp conv floatText op = true →
    (visits conv (hostOp floatText op)).exp = .ok (.hostOp op)
  | .segOp op, h => by
    rw [hostOp, visits_rule]
    simp only [visitContext, visitExp]
    rw [castVisit_read (t := segOp floatText op) Visits.segOp (by simp), visitSegOp_read op h]
    rfl
  | .sizeOp, _ => by
    rw [hostOp, visits_rule]
    rfl
  | .gpuBody, _ => by
    rw [hostOp, visits_rule]
    rfl

theorem visitLambda_read : (l : Lambda) → Expressible.lambda conv floatText l = true →
    (visits conv (lambda floatText l)).lambda = .ok l
  | .mk ps ret (.mk ss result), h => by
    simp only [Expressible.lambda, Expressible.body, Bool.and_eq_true] at h
    obtain ⟨⟨paramsOk, retOk⟩, stmsOk, resultOk⟩ := h
    rw [lambda]
    exact visitLambda_part paramsOk retOk rfl (visitBody_read (visitStms_read ss stmsOk) resultOk)

theorem visitSegBinOps_read : (ops : List SegBinOp) →
    Expressible.segBinOps conv floatText ops = true →
    ((segBinOps floatText ops).map (visits conv)).mapM Visits.segBinOp = .ok ops
  | [], _ => rfl
  | .mk op neutral shape :: rest, h => by
    simp only [Expressible.segBinOps, Expressible.segBinOp, Bool.and_eq_true] at h
    obtain ⟨⟨⟨lambdaOk, neutralOk⟩, shapeOk⟩, others⟩ := h
    rw [segBinOps, List.map_cons, List.mapM_cons,
      visitSegBinOp_part neutralOk shapeOk (visitLambda_read op lambdaOk),
      visitSegBinOps_read rest others]
    rfl

theorem visitHistOps_read : (ops : List HistOp) → Expressible.histOps conv floatText ops = true →
    ((histOps floatText ops).map (visits conv)).mapM Visits.histOp = .ok ops
  | [], _ => rfl
  | .mk dest op :: rest, h => by
    simp only [Expressible.histOps, Expressible.histOp, Bool.and_eq_true] at h
    obtain ⟨lambdaOk, others⟩ := h
    rw [histOps, List.map_cons, List.mapM_cons, visitHistOp_part (visitLambda_read op lambdaOk),
      visitHistOps_read rest others]
    rfl

theorem visitSegOp_read : (op : SegOp) → Expressible.segOp conv floatText op = true →
    (visits conv (segOp floatText op)).segOp = .ok op
  | .segMap lvl space ret (.mk ss result), h => by
    simp only [Expressible.segOp, Expressible.body, Bool.and_eq_true] at h
    obtain ⟨⟨spaceOk, retOk⟩, stmsOk, resultOk⟩ := h
    have kernel := visitKernelBody_read (visitStms_read ss stmsOk) resultOk
    have head := visitSegHead_part "segmap" lvl [] spaceOk retOk rfl kernel
    rw [List.append_nil] at head
    rw [segOp, visits_rule]
    simp only [visitContext, visitSegOp, visitSegMap, head]
    rfl
  | .segRed lvl space ret (.mk ss result) ops, h => by
    simp only [Expressible.segOp, Expressible.body, Bool.and_eq_true] at h
    obtain ⟨⟨⟨⟨spaceOk, retOk⟩, stmsOk, resultOk⟩, _⟩, opsOk⟩ := h
    have kernel := visitKernelBody_read (visitStms_read ss stmsOk) resultOk
    have head := visitSegHead_part "segred" lvl (parens (separated (segBinOps floatText ops)))
      spaceOk retOk rfl kernel
    rw [segOp, visits_rule]
    simp only [visitContext, visitSegOp, visitSegRed, head, ok_bind, visitsOf_visitsAll,
      rulesOf_append, rulesOf_parens, rulesOf_separated, rulesOf_segBinOps]
    rw [rulesOf_segHead "segred" lvl space ret rfl (by decide), if_true, List.nil_append,
      visitSegBinOps_read ops opsOk]
    rfl
  | .segScan lvl space ret (.mk ss result) ops postOp, h => by
    simp only [Expressible.segOp, Expressible.body, Bool.and_eq_true] at h
    obtain ⟨⟨⟨⟨⟨spaceOk, retOk⟩, stmsOk, resultOk⟩, _⟩, opsOk⟩, postOk⟩ := h
    have kernel := visitKernelBody_read (visitStms_read ss stmsOk) resultOk
    have head := visitSegHead_part "segscan" lvl (parens (separated (segBinOps floatText ops)) ++
      [rule .pSegPostOp .none [lambda floatText postOp]]) spaceOk retOk rfl kernel
    have last : ruleOf .pSegPostOp (segHead floatText "segscan" lvl space ret
        (kernelBody floatText (stms floatText ss) result) ++
          (parens (separated (segBinOps floatText ops)) ++
            [rule .pSegPostOp .none [lambda floatText postOp]])) =
        some (rule .pSegPostOp .none [lambda floatText postOp]) := by
      rw [ruleOf, rulesOf_append, rulesOf_segHead "segscan" lvl space ret rfl (by decide)]
      simp [rulesOf_parens]
    have post : (visits conv (rule .pSegPostOp .none [lambda floatText postOp])).segPostOp =
        .ok postOp := by
      rw [visits_rule]
      simp only [visitContext]
      rw [derefVisit_read (t := lambda floatText postOp) Visits.lambda (by simp [ruleOf]),
        visitLambda_read postOp postOk]
    rw [segOp, visits_rule]
    simp only [visitContext, visitSegOp, visitSegScan, head, ok_bind,
      derefVisit_read Visits.segPostOp last, post, visitsOf_visitsAll, rulesOf_append,
      rulesOf_parens, rulesOf_separated, rulesOf_segBinOps]
    rw [rulesOf_segHead "segscan" lvl space ret rfl (by decide), if_true, List.nil_append,
      rulesOf_cons, if_neg (by simp), rulesOf_nil, List.append_nil, visitSegBinOps_read ops opsOk]
    rfl
  | .segHist lvl space ret (.mk ss result) ops, h => by
    simp only [Expressible.segOp, Expressible.body, Bool.and_eq_true] at h
    obtain ⟨⟨⟨⟨spaceOk, retOk⟩, stmsOk, resultOk⟩, _⟩, opsOk⟩ := h
    have kernel := visitKernelBody_read (visitStms_read ss stmsOk) resultOk
    have head := visitSegHead_part "seghist" lvl (parens (separated (histOps floatText ops)))
      spaceOk retOk rfl kernel
    rw [segOp, visits_rule]
    simp only [visitContext, visitSegOp, visitSegHist, head, ok_bind, visitsOf_visitsAll,
      rulesOf_append, rulesOf_parens, rulesOf_separated, rulesOf_histOps]
    rw [rulesOf_segHead "seghist" lvl space ret rfl (by decide), if_true, List.nil_append,
      visitHistOps_read ops opsOk]
    rfl

end

@[simp] theorem ruleHead_attr (a : Attr) : ruleHead (attr a) = some .pAttr := by
  cases a <;> simp [attr]

@[simp] theorem ruleHead_entry : ruleHead entry = some .pEntry := ruleHead_rule _ _ _

@[simp] theorem ruleHead_funDef (f : FunDef) : ruleHead (funDef floatText f) = some .pFunDef :=
  ruleHead_rule _ _ _

theorem visitAttr_read {a : Attr} (h : Expressible.attr a = true) : visitAttr (attr a) = .ok a := by
  cases a with
  | atom name => simp [attr, visitAttr, bracketed]
  | int i => cases h
  | comp name args =>
    obtain ⟨nonempty, atoms⟩ := Bool.and_eq_true_iff.mp h
    have names : tokensOf .id (childrenOf (attr (.comp name args))) =
        name.toList :: args.map atomText := by
      simp [attr, bracketed, parens, separated, tokensOf_joined, List.flatMap_map,
        ← List.map_eq_flatMap]
    have back : ∀ arg ∈ args, Attr.atom (String.ofList (atomText arg)) = arg := by
      intro arg member
      have isAtom := List.all_eq_true.mp atoms arg member
      cases arg with
      | atom name => simp [atomText]
      | int i => cases isAtom
      | comp name args => cases isAtom
    have again : (args.map atomText).map (fun arg => Attr.atom (String.ofList arg)) = args := by
      rw [List.map_map]
      exact (List.map_congr_left back).trans (List.map_id' args)
    cases args with
    | nil => cases nonempty
    | cons arg args =>
      rw [List.map_cons] at names again
      simp only [visitAttr, names, again, String.ofList_toList, pure_ok]

theorem visitFunDef_read {f : FunDef} (h : Expressible.funDef conv floatText f = true) :
    visitFunDef conv (funDef floatText f) = .ok f := by
  obtain ⟨entryPoint, attrs, name, retType, ps, ⟨ss, result⟩⟩ := f
  simp only [Expressible.funDef, Expressible.body, Bool.and_eq_true] at h
  obtain ⟨⟨⟨⟨attrsOk, paramsOk⟩, _⟩, retOk⟩, stmsOk, resultOk⟩ := h
  obtain ⟨ts, parts⟩ : ∃ ts, ts = childrenOf (funDef floatText
    ⟨entryPoint, attrs, name, retType, ps, .mk ss result⟩) := ⟨_, rfl⟩
  have entryOf : (ruleOf .pEntry ts).isSome = entryPoint := by
    cases entryPoint <;> simp [parts, funDef, ruleOf, rulesOf_parens, rulesOf_braced, params,
      tys]
  have nameOf : tokenOf .id ts = some name.toList := by
    have before : tokensOf .id (attrs.map attr) = [] := tokensOf_eq_nil (by simp)
    cases entryPoint <;> simp [parts, funDef, tokenOf, before]
  have retOf : rulesOf .pType ts = retType.map (ty floatText) := by
    cases entryPoint <;> simp [parts, funDef, rulesOf_parens, rulesOf_braced, params, tys]
  have paramsOf : rulesOf .fParam ts = ps.map fun p => typed floatText .fParam p.name p.ty := by
    cases entryPoint <;> simp [parts, funDef, rulesOf_parens, rulesOf_braced, params, tys]
  have attrsOf : rulesOf .pAttr ts = attrs.map attr := by
    cases entryPoint <;> simp [parts, funDef, rulesOf_parens, rulesOf_braced, params, tys]
  have bodyOf : (rulesOf .pBody ts)[0]? = some (body floatText (stms floatText ss) result) := by
    cases entryPoint <;> simp [parts, funDef, rulesOf_parens, rulesOf_braced, params, tys,
      Body.stms, Body.result]
  have attrsRead : (attrs.map attr).mapM visitAttr = .ok attrs :=
    mapM_read fun a member => visitAttr_read (List.all_eq_true.mp attrsOk a member)
  have bodyRead := visitBody_read (visitStms_read ss stmsOk) resultOk
  simp only [visitFunDef, ← parts, entryOf, nameOf, visitId_text, visitTypes_read retOk retOf,
    visitParams_read paramsOk paramsOf, attrsOf, attrsRead, castVisit_read Visits.body bodyOf,
    bodyRead, ok_bind, pure_ok]

theorem visitProg_read {p : Prog} (h : Expressible.prog conv floatText p = true) :
    visitProg conv (prog floatText p) = .ok p := by
  simp only [Expressible.prog, Bool.and_eq_true] at h
  obtain ⟨⟨constsOk, _⟩, funsOk⟩ := h
  have stmsOf : rulesOf .pStm (childrenOf (prog floatText p)) = stms floatText p.consts := by
    simp [prog]
  have funsOf : rulesOf .pFunDef (childrenOf (prog floatText p)) =
      p.funs.map (funDef floatText) := by
    simp [prog]
  have funs : (p.funs.map (funDef floatText)).mapM (visitFunDef conv) = .ok p.funs :=
    mapM_read fun f member => visitFunDef_read (List.all_eq_true.mp funsOk f member)
  simp only [visitProg, visitStms, visitsOf_visitsAll, stmsOf, visitStms_read p.consts constsOk,
    funsOf, funs, ok_bind, pure_ok]

/-- A constant, and an entry point that sums a map over it. -/
def sumProg : Prog where
  consts := [.mk [⟨"n", .prim (.int .int64)⟩]
    (.subExp (.const (.int ⟨.int64, BitVec.ofInt 64 (-3)⟩)))]
  funs := [{
    entry := true
    attrs := [.atom "noinline", .comp "unroll" [.atom "fully"]]
    name := "main"
    retType := [.prim (.int .int64)]
    params := [⟨"xs", .array (.int .int64) [.var "n"]⟩]
    body := .mk
      [.mk [⟨"ys", .array (.int .int64) [.var "n"]⟩]
        (.hostOp (.segOp (.segMap .thread ⟨"flat", [("i", .var "n")]⟩ [.prim (.int .int64)]
          (.mk [.mk [⟨"x", .prim (.int .int64)⟩] (.basicOp (.index "xs" [.fix (.var "i")])),
              .mk [⟨"y", .prim (.int .int64)⟩]
                (.basicOp (.binOp (.mul .int64 .wrap) (.var "x") (.var "x")))]
            [.var "y"])))),
        .mk [⟨"total", .prim (.int .int64)⟩]
          (.loop [(⟨"acc", .prim (.int .int64)⟩, .const (.createInt 0 64))]
            (.forLoop "j" .int64 (.var "n"))
            (.mk [.mk [⟨"y", .prim (.int .int64)⟩] (.basicOp (.index "ys" [.fix (.var "j")])),
                .mk [⟨"next", .prim (.int .int64)⟩]
                  (.basicOp (.binOp (.add .int64 .undef) (.var "acc") (.var "y")))]
              [.var "next"]))]
      [.var "total"] }]

end FutharkMlir.Unparse
