import FutharkMlir.Syntax.FloatLiterals
import FutharkMlir.Syntax.Grammar
import FutharkMlir.Syntax.Opcodes
import FutharkMlir.Syntax.Parser

/-! `FutharkTranslationVisitor`: from the tree of contexts to the program. A tree may be one
that the parser has recovered after an error, so any child may be missing: what a visitor asks
of a missing context is a null pointer. -/
namespace FutharkMlir.Visitor

abbrev Node := ParseTree Token Context

def textOf (t : Node) : Text := t.yield.flatMap Token.text

def isRule (r : Rule) : Node → Bool
  | .leaf _ => false
  | .node ctx _ => ctx.rule == r

def rulesOf (r : Rule) (ts : List Node) : List Node := ts.filter (isRule r)

def ruleOf (r : Rule) (ts : List Node) : Option Node := (rulesOf r ts).head?

def tokensOf (k : Kind) (ts : List Node) : List Text :=
  ts.filterMap fun t => match t with
    | .leaf tok => if tok.kind = k then some tok.text else none
    | .node _ _ => none

def tokenOf (k : Kind) (ts : List Node) : Option Text := (tokensOf k ts).head?

/-- A member of what may be a null pointer. -/
def deref {α : Type} : Option α → Except Err α
  | some a => .ok a
  | none => .error .ub

/-- `dynamic_cast` to a labelled context, with its children. -/
def labelled : Option Node → Label × List Node
  | some (.node ctx ts) => (ctx.label, ts)
  | _ => (.none, [])

def visitId (id : Option Text) : Except Err String := do
  let text ← deref id
  return String.ofList text

def childrenOf : Node → List Node
  | .leaf _ => []
  | .node _ ts => ts

def derefRule (r : Rule) (ts : List Node) : Except Err (List Node) := do
  let t ← deref (ruleOf r ts)
  return childrenOf t

def derefText (r : Rule) (ts : List Node) : Except Err Text := do
  let t ← deref (ruleOf r ts)
  return textOf t

variable (conv : FloatConv)

/-- The sign is part of the token. -/
def visitPrimValueFloatSpecial (text : Text) : Except Err FloatValue :=
  let negative := text.head? = some '-'
  let v := if "nan".toList <:+: text then FloatLit.nan else .inf negative
  if "f16".toList <:+: text then .float16 <$> toUint16 v
  else if "f32".toList <:+: text then .ok (.float32 (conv.toFloat v))
  else if "f64".toList <:+: text then .ok (.float64 v)
  else .error .undefined

def visitPrimValue (t : Option Node) : Except Err PrimValue :=
  let (label, ts) := labelled t
  match label with
  | .primValueInteger => do
    let number ← deref (tokenOf .number ts)
    -- The number is read before the type is asked for.
    let _ ← stoll number
    let w ← deref (tokenOf .integerType ts)
    let v ← visitPrimValueInteger number w
    return .int v
  | .primValueFloat => do
    let float ← deref (tokenOf .float ts)
    let _ ← conv.stod float
    let w ← deref (tokenOf .floatType ts)
    let v ← visitPrimValueFloat conv float w
    return .float v
  | .primValueFloatSpecial => do
    let text ← deref (tokenOf .specialFloat ts)
    let v ← visitPrimValueFloatSpecial conv text
    return .float v
  | .primValueBool =>
    return .bool ((ts.map textOf).flatten == "true".toList)
  | _ => .error .undefined

def visitSubExp (t : Option Node) : Except Err SubExp :=
  let (label, ts) := labelled t
  match label with
  | .constantSubExpression => do
    let v ← visitPrimValue conv (ruleOf .pPrimValue ts)
    return .const v
  | .varSubExp => do
    let x ← visitId (tokenOf .id ts)
    return .var x
  | _ => .error .undefined

def visitSubExps (ts : List Node) : Except Err (List SubExp) :=
  (rulesOf .pSubExp ts).mapM fun t => visitSubExp conv (some t)

def visitSubExpAt (i : Nat) (ts : List Node) : Except Err SubExp :=
  visitSubExp conv (rulesOf .pSubExp ts)[i]?

def getVName : SubExp → Except Err VName
  | .var x => .ok x
  | .const _ => .error (.runtime "GetVName on non-VName SubExp")

/-- `std::get<VarSubExp>`. -/
def varOf : SubExp → Except Err VName
  | .var x => .ok x
  | .const _ => .error (.runtime "bad_variant_access")

def visitPrimType (ts : List Node) (i : Nat) : Except Err PrimType := do
  let t ← deref (rulesOf .pPrimType ts)[i]?
  match String.ofList (textOf t) with
  | "i8" => return .int .int8
  | "i16" => return .int .int16
  | "i32" => return .int .int32
  | "i64" => return .int .int64
  | "f16" => return .float .float16
  | "f32" => return .float .float32
  | "f64" => return .float .float64
  | "bool" => return .bool
  | _ => .error .undefined

/-- The dimensions of `pExtShape(i)`, in one group: the visitor does not see the brackets. -/
def visitPExtShape (i : Nat) (ts : List Node) : Except Err PExtShape := do
  let t ← deref (rulesOf .pExtShape ts)[i]?
  let dims ← visitSubExps conv (childrenOf t)
  return [dims]

def visitShape (i : Nat) (ts : List Node) : Except Err (List SubExp) := do
  let shape ← visitPExtShape conv i ts
  return visitExtShape shape

def visitPType (t : Option Node) : Except Err PType :=
  let (label, ts) := labelled t
  match label with
  | .typePrim => do
    let primType ← visitPrimType ts 0
    return .prim primType
  | .typeShape => do
    let primType ← visitPrimType ts 0
    let extShape ← visitPExtShape conv 0 ts
    return .shape extShape primType
  | .typeUnitArray => do
    let extShape ← visitPExtShape conv 0 ts
    return .shape extShape .unit
  | .typeUnit => return .prim .unit
  | _ => .error .undefined

def visitTypeOf (t : Option Node) : Except Err Ty := do
  let p ← visitPType conv t
  return visitType p

def visitTypes (ts : List Node) : Except Err (List Ty) :=
  (rulesOf .pType ts).mapM fun t => visitTypeOf conv (some t)

/-- `VisitFParam`; a parameter of a loop or a lambda has the same form. -/
def visitFParam (ts : List Node) : Except Err Param := do
  let name ← visitId (tokenOf .id ts)
  let ty ← visitTypeOf conv (ruleOf .pType ts)
  return ⟨name, ty⟩

def visitParams (r : Rule) (ts : List Node) : Except Err (List Param) :=
  (rulesOf r ts).mapM fun t => visitFParam conv (childrenOf t)

def visitPatElem (t : Node) : Except Err PatElem := do
  let name ← visitId (tokenOf .id (childrenOf t))
  let ty ← visitTypeOf conv (ruleOf .pType (childrenOf t))
  return ⟨name, ty⟩

def visitPat (ts : List Node) : Except Err (List PatElem) := do
  let pat ← derefRule .pPat ts
  (rulesOf .pPatElem pat).mapM (visitPatElem conv)

def visitSizeClass (t : Option Node) : Except Err Unit :=
  let (label, ts) := labelled t
  match label with
  | .sizeClassThreshold =>
    match tokenOf .number ts with
    | some number => do
      let _ ← stoll number
      return ()
    | none => return ()
  | .sizeClassNamed => do
    let _ ← visitId (tokenOf .id ts)
    return ()
  | _ => .error .undefined

/-- The parts of a size operation, which no lowering reads. -/
def visitSizeOp (t : Option Node) : Except Err HostOp :=
  let (label, ts) := labelled t
  match label with
  | .sizeOpGetSize => do
    let _ ← visitId (tokenOf .id ts)
    visitSizeClass (ruleOf .pSizeClass ts)
    return .sizeOp
  | .sizeOpGetSizeMax => do
    visitSizeClass (ruleOf .pSizeClass ts)
    return .sizeOp
  | .sizeOpCmpSizeLe => do
    let _ ← visitId (tokenOf .id ts)
    visitSizeClass (ruleOf .pSizeClass ts)
    let _ ← visitSubExpAt conv 0 ts
    return .sizeOp
  | _ => .error .undefined

def visitApply (ts : List Node) : Except Err Exp := do
  let fname ← visitId (tokenOf .id ts)
  let args ← visitSubExps conv ts
  let types ← derefRule .pRetTypes ts
  let retTypes ← visitTypes conv types
  return .apply fname args retTypes

/-- `std::stoull`, which takes a sign and wraps around. -/
def stoull (s : Text) : Except Err Nat :=
  match parseDecimal s with
  | none => .error (.runtime "invalid_argument")
  | some v => if v.natAbs < 2 ^ 64 then .ok (v % 2 ^ 64).toNat else .error .outOfRange

/-- `concat@d(w, x, y, ...)`. -/
def visitBasicOpConcat (ts : List Node) : Except Err BasicOp :=
  match rulesOf .pSubExp ts with
  | total :: arrs@(_ :: _) => do
    let opcode ← deref (tokenOf .concat ts)
    let dim ← stoi (if '@' ∈ opcode then (opcode.dropWhile (· != '@')).drop 1 else opcode)
    let total ← visitSubExp conv (some total)
    let arrs ← arrs.mapM fun t => do
      let se ← visitSubExp conv (some t)
      getVName se
    return .concat dim arrs total
  | _ => .error (.runtime "unrecognized concat format")

def visitDimIndex (t : Node) : Except Err DimIndex :=
  let (label, ts) := labelled (some t)
  match label with
  | .dimSlice => do
    let start ← visitSubExpAt conv 0 ts
    let length ← visitSubExpAt conv 1 ts
    let stride ← visitSubExpAt conv 2 ts
    return .slice start length stride
  | .dimFix => do
    let i ← visitSubExpAt conv 0 ts
    return .fix i
  | _ => .error .undefined

def visitBasicOpIndex (ts : List Node) : Except Err BasicOp := do
  let se ← visitSubExpAt conv 0 ts
  let arr ← getVName se
  let dims ← (rulesOf .pDimIndex ts).mapM (visitDimIndex conv)
  return .index arr dims

def visitBasicOpManifest (ts : List Node) : Except Err BasicOp := do
  let se ← visitSubExpAt conv 0 ts
  let _ ← getVName se
  let _ ← (tokensOf .number ts).mapM stoi
  return .manifest

/-- The first two numbers are narrowed to `int`. -/
def visitBasicOpReshape (ts : List Node) : Except Err BasicOp := do
  let op0 ← visitSubExpAt conv 0 ts
  let first ← deref (tokensOf .number ts)[0]?
  let dimBegin ← stoull first
  let second ← deref (tokensOf .number ts)[1]?
  let dimEnd ← stoull second
  let reshapedDim ← visitShape conv 0 ts
  let remainder ← visitShape conv 1 ts
  return .reshape op0 (dimBegin % 2 ^ 32) (dimEnd % 2 ^ 32) reshapedDim remainder

def visitBasicOpReplicate (ts : List Node) : Except Err BasicOp := do
  let shape ← visitShape conv 0 ts
  let val ← visitSubExpAt conv 0 ts
  return .replicate shape val

/-- `copy(x)` is `replicate([], x)`. -/
def visitBasicOpCopy (ts : List Node) : Except Err BasicOp := do
  let val ← visitSubExpAt conv 0 ts
  return .replicate [] val

def visitBasicOpRearrange (ts : List Node) : Except Err BasicOp := do
  let se ← visitSubExpAt conv 0 ts
  let arr ← varOf se
  let perm ← (tokensOf .number ts).mapM stoull
  return .rearrange arr perm

def visitBasicOpIota (ts : List Node) : Except Err BasicOp := do
  let n ← visitSubExpAt conv 0 ts
  let x ← visitSubExpAt conv 1 ts
  let s ← visitSubExpAt conv 2 ts
  let text ← deref (tokenOf .iota ts)
  match String.ofList text with
  | "iota16" => return .iota n x s .int16
  | "iota32" => return .iota n x s .int32
  | "iota64" => return .iota n x s .int64
  | _ => .error .undefined

def visitBasicOpScratch (ts : List Node) : Except Err BasicOp := do
  let type ← visitPrimType ts 0
  let dims ← visitSubExps conv ts
  return .scratch type dims

def asInt : PrimType → Except Err IntType
  | .int t => .ok t
  | _ => .error (.runtime "bad_variant_access")

def asFloat : PrimType → Except Err FloatType
  | .float t => .ok t
  | _ => .error (.runtime "bad_variant_access")

def visitConvOpcode (opcode : Text) (src dst : PrimType) : Except Err ConvOp :=
  match String.ofList opcode with
  | "zext" => return .zext (← asInt src) (← asInt dst)
  | "sext" => return .sext (← asInt src) (← asInt dst)
  | "fpconv" => return .fpconv (← asFloat src) (← asFloat dst)
  | "fptoui" => return .fptoui (← asFloat src) (← asInt dst)
  | "fptosi" => return .fptosi (← asFloat src) (← asInt dst)
  | "uitofp" => return .uitofp (← asInt src) (← asFloat dst)
  | "sitofp" => return .sitofp (← asInt src) (← asFloat dst)
  | "itob" => return .itob (← asInt src)
  | "btoi" => return .btoi (← asInt dst)
  | "ftob" => return .ftob (← asFloat src)
  | "btof" => return .btof (← asFloat dst)
  | _ => .error .undefined

def visitBasicOpConvOp (ts : List Node) : Except Err BasicOp := do
  let ts ← derefRule .pConvOp ts
  let opcode ← derefText .convOpcode ts
  let src ← visitPrimType ts 0
  let dst ← visitPrimType ts 1
  let op ← visitConvOpcode opcode src dst
  let x ← visitSubExpAt conv 0 ts
  return .convOp op x

def visitBasicOp (t : Option Node) : Except Err BasicOp :=
  let (label, ts) := labelled t
  match label with
  | .basicOpArrayLit => do
    let lit ← derefRule .pArrayLit ts
    let values ← visitSubExps conv lit
    let ty ← visitPType conv (ruleOf .pType ts)
    return visitBasicOpArrayLit values ty
  | .basicOpBinary => do
    let ts ← derefRule .pBinOp ts
    let op0 ← visitSubExpAt conv 0 ts
    let op1 ← visitSubExpAt conv 1 ts
    let opcode ← derefText .binaryOpcode ts
    let op ← visitBinOp opcode
    return .binOp op op0 op1
  | .basicOpIota => visitBasicOpIota conv ts
  | .basicOpConv => visitBasicOpConvOp conv ts
  | .basicOpConcat => visitBasicOpConcat conv ts
  | .basicOpIndex => visitBasicOpIndex conv ts
  | .basicOpManifest => visitBasicOpManifest conv ts
  | .basicOpReshape => visitBasicOpReshape conv ts
  | .basicOpReplicate => visitBasicOpReplicate conv ts
  | .basicOpCopy => visitBasicOpCopy conv ts
  | .basicOpRearrange => visitBasicOpRearrange conv ts
  | .basicOpScratch => visitBasicOpScratch conv ts
  | .basicOpCmp => do
    let ts ← derefRule .pCmpOp ts
    let op0 ← visitSubExpAt conv 0 ts
    let op1 ← visitSubExpAt conv 1 ts
    let opcode ← derefText .cmpOpcode ts
    let op ← visitCmpOp opcode
    return .cmpOp op op0 op1
  | .basicOpAssert => return .assert
  | _ => .error .undefined

/-- What a visitor makes of a child, by the visitor: each of them asks for one part only. -/
structure Visits where
  stm : Except Err Stm
  exp : Except Err Exp
  segOp : Except Err SegOp
  loop : Except Err Exp
  body : Except Err Body
  caseBody : Except Err Body
  kernelBody : Except Err Body
  lambda : Except Err Lambda
  segPostOp : Except Err Lambda
  segBinOp : Except Err SegBinOp
  histOp : Except Err HistOp

structure Child where
  tree : Node
  visits : Visits

def trees (cs : List Child) : List Node := cs.map Child.tree

/-- As `rulesOf`, with what the visitors make of the contexts. -/
def visitsOf (r : Rule) (cs : List Child) : List Visits :=
  (cs.filter fun c => isRule r c.tree).map Child.visits

/-- The part of `ctx->r(i)`; these visitors refuse a missing context. -/
def castVisit {α : Type} (r : Rule) (i : Nat) (part : Visits → Except Err α) (cs : List Child) :
    Except Err α :=
  match (visitsOf r cs)[i]? with
  | some v => part v
  | none => .error .undefined

/-- The part of `ctx->r()`; these visitors ask the context at once. -/
def derefVisit {α : Type} (r : Rule) (part : Visits → Except Err α) (cs : List Child) :
    Except Err α :=
  match (visitsOf r cs).head? with
  | some v => part v
  | none => .error .ub

def visitStms (cs : List Child) : Except Err (List Stm) := (visitsOf .pStm cs).mapM Visits.stm

def visitStm (cs : List Child) : Except Err Stm := do
  let pat ← visitPat conv (trees cs)
  let exp ← castVisit .pExp 0 Visits.exp cs
  return .mk pat exp

/-- Statements and results: `VisitNormalBody` and its likes. -/
def visitStmsAndResult (cs : List Child) : Except Err Body := do
  let stms ← visitStms cs
  let result ← visitSubExps conv (trees cs)
  return .mk stms result

/-- Results only: `VisitEmptyBody` and its likes. -/
def visitResult (cs : List Child) : Except Err Body := do
  let result ← visitSubExps conv (trees cs)
  return .mk [] result

def visitBody (label : Label) (cs : List Child) : Except Err Body :=
  match label with
  | .body => visitStmsAndResult conv cs
  | .emptyBody => visitResult conv cs
  | _ => .error .undefined

def visitCaseBody (label : Label) (cs : List Child) : Except Err Body :=
  match label with
  | .caseBodyFull => visitStmsAndResult conv cs
  | .caseBodyResult => visitResult conv cs
  | _ => .error .undefined

def visitKernelBody (label : Label) (cs : List Child) : Except Err Body :=
  match label with
  | .kernelBody => visitStmsAndResult conv cs
  | .emptyKernelBody => visitResult conv cs
  | _ => .error .undefined

def visitPTypes (ts : List Node) : Except Err (List Ty) := do
  let types ← derefRule .pTypes ts
  visitTypes conv types

def visitExpIf (cs : List Child) : Except Err Exp := do
  let cond ← visitSubExpAt conv 0 (trees cs)
  let thenBody ← castVisit .pCaseBody 0 Visits.caseBody cs
  let elseBody ← castVisit .pCaseBody 1 Visits.caseBody cs
  let retType ← visitPTypes conv (trees cs)
  return .ite cond thenBody elseBody retType

def visitLoopForm (t : Option Node) : Except Err LoopForm :=
  let (label, ts) := labelled t
  match label with
  | .loopFor => do
    let i ← visitId (tokenOf .id ts)
    let primType ← visitPrimType ts 0
    let t ← asInt primType
    let bound ← visitSubExpAt conv 0 ts
    return .forLoop i t bound
  | .loopWhile => do
    let cond ← visitId (tokenOf .id ts)
    return .whileLoop cond
  | _ => .error .undefined

def visitMerge (p : Node × Node) : Except Err (Param × SubExp) := do
  let param ← visitFParam conv (childrenOf p.1)
  let init ← visitSubExp conv (some p.2)
  return (param, init)

def visitExpLoop (cs : List Child) : Except Err Exp := do
  let params := rulesOf .pLoopParam (trees cs)
  let inits := rulesOf .pSubExp (trees cs)
  if params.length ≠ inits.length then
    .error (.runtime "loop has a different number of parameters than initial values")
  else
    let merge ← (params.zip inits).mapM (visitMerge conv)
    let form ← visitLoopForm conv (ruleOf .pLoopForm (trees cs))
    let body ← castVisit .pCaseBody 0 Visits.caseBody cs
    return .loop merge form body

/-- The types and the body of a `gpu`, which no lowering reads. -/
def visitExpGpuBody (cs : List Child) : Except Err Exp := do
  let _ ← visitPTypes conv (trees cs)
  let _ ← castVisit .pCaseBody 0 Visits.caseBody cs
  return .hostOp .gpuBody

def visitExp (label : Label) (cs : List Child) : Except Err Exp :=
  match label with
  | .expSegOp => do
    let op ← castVisit .pSegOp 0 Visits.segOp cs
    return .hostOp (.segOp op)
  | .expApply => do
    let apply ← derefRule .pApply (trees cs)
    visitApply conv apply
  | .expBasicOp => do
    let op ← visitBasicOp conv (ruleOf .pBasicOp (trees cs))
    return .basicOp op
  | .expSizeOp => do
    let op ← visitSizeOp conv (ruleOf .pSizeOp (trees cs))
    return .hostOp op
  | .expIf => visitExpIf conv cs
  | .expLoop => derefVisit .pLoop Visits.loop cs
  | .expGpuBody => visitExpGpuBody conv cs
  | .expSubExp => do
    let se ← visitSubExpAt conv 0 (trees cs)
    return .subExp se
  | _ => .error .undefined

def visitLambda (cs : List Child) : Except Err Lambda := do
  let params ← visitParams conv .pLParam (trees cs)
  let ret ← visitPTypes conv (trees cs)
  let body ← castVisit .pBody 0 Visits.body cs
  return .mk params ret body

def visitSegLevel (t : Option Node) : Except Err SegLevel :=
  let (label, ts) := labelled t
  match label with
  | .segLevelThread => do
    let _ ← derefText .pSegVirt ts
    return .thread
  | .segLevelBlock => do
    let _ ← derefText .pSegVirt ts
    return .block
  | .segLevelThreadInBlock => return .threadInBlock
  | _ => .error .undefined

/-- The names that stand in the order of the bounds, as many of them. -/
def visitSpaceDims (ids : List Text) : List Node → Except Err (List (VName × SubExp))
  | [] => return []
  | t :: ts => do
    let name ← visitId ids.head?
    let size ← visitSubExp conv (some t)
    let dims ← visitSpaceDims ids.tail ts
    return (name, size) :: dims

def visitSegSpace (ts : List Node) : Except Err SegSpace := do
  let space ← derefRule .pSegSpace ts
  let ids := tokensOf .id space
  let sizes := rulesOf .pSubExp space
  let dims ← visitSpaceDims conv ids sizes
  let flatId ← visitId ids[sizes.length]?
  return ⟨flatId, dims⟩

def visitSegBinOp (cs : List Child) : Except Err SegBinOp := do
  let _ ← derefText .pComm (trees cs)
  let lambda ← derefVisit .pLambda Visits.lambda cs
  let neutral ← visitSubExps conv (trees cs)
  let shape ←
    match ruleOf .pExtShape (trees cs) with
    | some _ => visitShape conv 0 (trees cs)
    | none => pure []
  return .mk lambda neutral shape

/-- The shape of the operator is the second of the shapes. -/
def visitHistOp (cs : List Child) : Except Err HistOp := do
  let _ ← visitShape conv 0 (trees cs)
  let _ ← visitSubExpAt conv 0 (trees cs)
  let dests ← derefRule .pHistDest (trees cs)
  let dest ← (rulesOf .pSubExp dests).mapM fun t => do
    let se ← visitSubExp conv (some t)
    varOf se
  let neutral ← derefRule .pHistNeutral (trees cs)
  let _ ← visitSubExps conv neutral
  let _ ←
    match (rulesOf .pExtShape (trees cs))[1]? with
    | some _ => visitShape conv 1 (trees cs)
    | none => pure []
  let lambda ← derefVisit .pLambda Visits.lambda cs
  return .mk dest lambda

def visitSegHead (cs : List Child) : Except Err (SegLevel × SegSpace × List Ty × Body) := do
  let lvl ← visitSegLevel (ruleOf .pSegLevel (trees cs))
  let space ← visitSegSpace conv (trees cs)
  let ret ← visitPTypes conv (trees cs)
  let body ← castVisit .pKernelBody 0 Visits.kernelBody cs
  return (lvl, space, ret, body)

def visitSegMap (cs : List Child) : Except Err SegOp := do
  let (lvl, space, ret, body) ← visitSegHead conv cs
  return .segMap lvl space ret body

def visitSegRed (cs : List Child) : Except Err SegOp := do
  let (lvl, space, ret, body) ← visitSegHead conv cs
  let ops ← (visitsOf .pSegBinOp cs).mapM Visits.segBinOp
  return .segRed lvl space ret body ops

def visitSegScan (cs : List Child) : Except Err SegOp := do
  let (lvl, space, ret, body) ← visitSegHead conv cs
  let ops ← (visitsOf .pSegBinOp cs).mapM Visits.segBinOp
  let postOp ← derefVisit .pSegPostOp Visits.segPostOp cs
  return .segScan lvl space ret body ops postOp

def visitSegHist (cs : List Child) : Except Err SegOp := do
  let (lvl, space, ret, body) ← visitSegHead conv cs
  let ops ← (visitsOf .pHistOp cs).mapM Visits.histOp
  return .segHist lvl space ret body ops

def visitSegOp (label : Label) (cs : List Child) : Except Err SegOp :=
  match label with
  | .segMap => visitSegMap conv cs
  | .segRed => visitSegRed conv cs
  | .segScan => visitSegScan conv cs
  | .segHist => visitSegHist conv cs
  | _ => .error .undefined

/-- Every visitor at a context with these children. -/
def visitContext (label : Label) (cs : List Child) : Visits where
  stm := visitStm conv cs
  exp := visitExp conv label cs
  segOp := visitSegOp conv label cs
  loop := visitExpLoop conv cs
  body := visitBody conv label cs
  caseBody := visitCaseBody conv label cs
  kernelBody := visitKernelBody conv label cs
  lambda := visitLambda conv cs
  segPostOp := derefVisit .pLambda Visits.lambda cs
  segBinOp := visitSegBinOp conv cs
  histOp := visitHistOp conv cs

mutual

/-- A token is never asked: it belongs to no rule. -/
def visits : Node → Visits
  | .leaf _ => visitContext conv .none []
  | .node ctx ts => visitContext conv ctx.label (visitsAll ts)

def visitsAll : List Node → List Child
  | [] => []
  | t :: ts => ⟨t, visits t⟩ :: visitsAll ts

end

def visitAttr (t : Node) : Except Err Attr :=
  match tokensOf .id (childrenOf t) with
  | [] => .error .ub
  | [name] => return .atom (String.ofList name)
  | name :: args =>
    return .comp (String.ofList name) (args.map fun arg => .atom (String.ofList arg))

def visitFunDef (t : Node) : Except Err FunDef := do
  let ts := childrenOf t
  let entry := (ruleOf .pEntry ts).isSome
  let name ← visitId (tokenOf .id ts)
  let retType ← visitTypes conv ts
  let params ← visitParams conv .fParam ts
  let attrs ← (rulesOf .pAttr ts).mapM visitAttr
  let body ← castVisit .pBody 0 Visits.body (visitsAll conv ts)
  return { entry, attrs, name, retType, params, body }

def visitProg (t : Node) : Except Err Prog := do
  let consts ← visitStms (visitsAll conv (childrenOf t))
  let funs ← (rulesOf .pFunDef (childrenOf t)).mapM (visitFunDef conv)
  return { consts, funs }

end FutharkMlir.Visitor
