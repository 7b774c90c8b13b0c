import FutharkMlir.Syntax.Visitor

/-! The concrete syntax of programs: a tree of contexts for every program that the grammar can
express. How a float is written is left open. -/
namespace FutharkMlir.Unparse

open Visitor (Node)

def word (k : Kind) (text : Text) : Node := .leaf ⟨k, text⟩

def lit (s : String) : Node := word (.lit s) s.toList

def ident (x : String) : Node := word .id x.toList

def quotes : Node := word .stringLiteral ['"', '"']

def rule (r : Rule) (label : Label) (ts : List Node) : Node := .node ⟨r, label⟩ ts

def joined : List (List Node) → List Node
  | [] => []
  | ts :: rest => ts ++ rest.flatMap (lit "," :: ·)

def separated (ts : List Node) : List Node := joined (ts.map fun t => [t])

def braced (ts : List Node) : List Node := lit "\x7b" :: (ts ++ [lit "\x7d"])

def parens (ts : List Node) : List Node := lit "(" :: (ts ++ [lit ")"])

def bracketed (ts : List Node) : List Node := lit "[" :: (ts ++ [lit "]"])

variable (floatText : FloatValue → Text)

def primValue : PrimValue → Node
  | .int c => rule .pPrimValue .primValueInteger
    [word .number (Text.intText c.v.toInt), word .integerType c.t.text]
  | .float v => rule .pPrimValue .primValueFloat
    [word .float (floatText v), word .floatType v.getType.text]
  | .bool b => rule .pPrimValue .primValueBool [lit (if b then "true" else "false")]
  | .unit => rule .pPrimValue .none []

def subExp : SubExp → Node
  | .const c => rule .pSubExp .constantSubExpression [primValue floatText c]
  | .var x => rule .pSubExp .varSubExp [ident x]

def subExps (ses : List SubExp) : List Node := separated (ses.map (subExp floatText))

def primType : PrimType → Node
  | .int t => rule .pPrimType .primTypeInteger [word .integerType t.text]
  | .float t => rule .pPrimType .primTypeFloat [word .floatType t.text]
  | .bool => rule .pPrimType .primTypeBool [lit "bool"]
  | .unit => rule .pPrimType .none []

/-- Each dimension in brackets of its own, and one pair where there is none. -/
def extShape : List SubExp → Node
  | [] => rule .pExtShape .none (bracketed [])
  | d :: ds => rule .pExtShape .none
    (bracketed [subExp floatText d] ++ ds.flatMap fun d => bracketed [subExp floatText d])

def ty : Ty → Node
  | .prim .unit => rule .pType .typeUnit [lit "unit"]
  | .prim t => rule .pType .typePrim [primType t]
  | .array .unit dims => rule .pType .typeUnitArray [extShape floatText dims, lit "unit"]
  | .array t dims => rule .pType .typeShape [extShape floatText dims, primType t]
  | .acc => rule .pType .none []
  | .mem => rule .pType .none []

def tys (ts : List Ty) : List Node := separated (ts.map (ty floatText))

def types (ts : List Ty) : Node := rule .pTypes .none (braced (tys floatText ts))

def typed (r : Rule) (name : VName) (t : Ty) : Node :=
  rule r .none [ident name, lit ":", ty floatText t]

def params (r : Rule) (ps : List Param) : List Node :=
  separated (ps.map fun p => typed floatText r p.name p.ty)

def pat (es : List PatElem) : Node :=
  rule .pPat .none (braced (separated (es.map fun e => typed floatText .pPatElem e.name e.ty)))

def binToken : BinOp → String
  | .add _ .wrap => "ADD"
  | .add _ .undef => "ADDNW"
  | .fadd _ => "FADD"
  | .sub _ .wrap => "SUB"
  | .sub _ .undef => "SUBNW"
  | .fsub _ => "FSUB"
  | .mul _ .wrap => "MUL"
  | .mul _ .undef => "MULNW"
  | .fmul _ => "FMUL"
  | .udiv _ => "UDIV"
  | .udivUp _ => "UDIVUP"
  | .sdiv _ => "SDIV"
  | .sdivUp _ => "SDIVUP"
  | .fdiv _ => "FDIV"
  | .fmod _ => "FMOD"
  | .umod _ => "UMOD"
  | .smod _ => "SMOD"
  | .squot _ => "SQUOT"
  | .srem _ => "SREM"
  | .smin _ => "SMIN"
  | .umin _ => "UMIN"
  | .fmin _ => "FMIN"
  | .smax _ => "SMAX"
  | .umax _ => "UMAX"
  | .fmax _ => "FMAX"
  | .shl _ => "SHL"
  | .lshr _ => "LSHR"
  | .ashr _ => "ASHR"
  | .and _ => "AND"
  | .or _ => "OR"
  | .xor _ => "XOR"
  | .pow _ => "POW"
  | .fpow _ => "FPOW"
  | .logAnd => "LOGAND"
  | .logOr => "LOGOR"

/-- No token is an order on booleans. -/
def cmpToken : CmpOp → String
  | .eq _ => "CMPEQ"
  | .slt _ => "CMPSLT"
  | .sle _ => "CMPSLE"
  | .ult _ => "CMPULT"
  | .ule _ => "CMPULE"
  | .flt _ => "CMPFLT"
  | .fle _ => "CMPFLE"
  | .llt => ""
  | .lle => ""

def convParts : ConvOp → String × PrimType × PrimType
  | .zext src dst => ("zext", .int src, .int dst)
  | .sext src dst => ("sext", .int src, .int dst)
  | .fpconv src dst => ("fpconv", .float src, .float dst)
  | .fptoui src dst => ("fptoui", .float src, .int dst)
  | .fptosi src dst => ("fptosi", .float src, .int dst)
  | .uitofp src dst => ("uitofp", .int src, .float dst)
  | .sitofp src dst => ("sitofp", .int src, .float dst)
  | .itob src => ("itob", .int src, .bool)
  | .btoi dst => ("btoi", .bool, .int dst)
  | .ftob src => ("ftob", .float src, .bool)
  | .btof dst => ("btof", .bool, .float dst)

def dimIndex : DimIndex → Node
  | .fix i => rule .pDimIndex .dimFix [subExp floatText i]
  | .slice start length stride => rule .pDimIndex .dimSlice
    [subExp floatText start, lit ":+", subExp floatText length, lit "*", subExp floatText stride]

def numbers (ns : List Nat) : List Node := separated (ns.map fun n => word .number (Text.natText n))

def operands (ses : List SubExp) : List Node := parens (subExps floatText ses)

def iotaText : IntType → Text
  | .int8 => "iota8".toList
  | .int16 => "iota16".toList
  | .int32 => "iota32".toList
  | .int64 => "iota64".toList

/-- A row is written with its own type. -/
def rowTy : Ty → Ty
  | .array t (_ :: dims) => .array t dims
  | t => t

/-- What an operation reads and does not keep is written as some variable or number. -/
def basicOp : BasicOp → Node
  | .arrayLit values t => rule .pBasicOp .basicOpArrayLit
    [rule .pArrayLit .none (bracketed (subExps floatText values)), lit ":", ty floatText (rowTy t)]
  | .binOp op a b => rule .pBasicOp .basicOpBinary [rule .pBinOp .none
    (rule .binaryOpcode .none [word (.opcode (binToken op)) op.text] :: operands floatText [a, b])]
  | .cmpOp op a b => rule .pBasicOp .basicOpCmp [rule .pCmpOp .none
    (rule .cmpOpcode .none [word (.opcode (cmpToken op)) op.text] :: operands floatText [a, b])]
  | .convOp op a => rule .pBasicOp .basicOpConv [rule .pConvOp .none
    [rule .convOpcode .none [lit (convParts op).1], primType (convParts op).2.1,
      subExp floatText a, lit "to", primType (convParts op).2.2]]
  | .assert => rule .pBasicOp .basicOpAssert (lit "assert" :: parens
    (subExp floatText (.var "c") :: lit "," ::
      braced [rule .pErrPart .none [quotes]]))
  | .index arr dims => rule .pBasicOp .basicOpIndex
    (subExp floatText (.var arr) :: bracketed (separated (dims.map (dimIndex floatText))))
  | .concat dim arrs total => rule .pBasicOp .basicOpConcat
    (word .concat ("concat@".toList ++ Text.intText dim) ::
      operands floatText (total :: arrs.map .var))
  | .manifest => rule .pBasicOp .basicOpManifest (lit "manifest" :: parens
    (subExp floatText (.var "x") :: lit "," :: parens (numbers [0])))
  | .iota n x s t => rule .pBasicOp .basicOpIota
    (word .iota (iotaText t) :: operands floatText [n, x, s])
  | .replicate shape val => rule .pBasicOp .basicOpReplicate
    (lit "replicate" :: parens [extShape floatText shape, lit ",", subExp floatText val])
  | .scratch t dims => rule .pBasicOp .basicOpScratch
    (lit "scratch" :: parens (primType t :: dims.flatMap fun d => [lit ",", subExp floatText d]))
  | .reshape op0 dimBegin dimEnd reshapedDim remainder => rule .pBasicOp .basicOpReshape
    (lit "reshape" :: parens (subExp floatText op0 :: lit "," :: parens
      [word .number (Text.natText dimBegin), lit "::", word .number (Text.natText dimEnd),
        lit "=>", extShape floatText reshapedDim, lit ";", extShape floatText remainder]))
  | .rearrange arr perm => rule .pBasicOp .basicOpRearrange
    (lit "rearrange" :: parens (subExp floatText (.var arr) :: lit "," :: parens (numbers perm)))
  | _ => rule .pBasicOp .none []

def apply (fname : String) (args : List SubExp) (retTypes : List Ty) : Node :=
  rule .pApply .none (lit "apply" :: ident fname :: (parens (subExps floatText args) ++
    [lit ":", rule .pRetTypes .none (braced (tys floatText retTypes))]))

def loopForm : LoopForm → Node
  | .forLoop i t bound => rule .pLoopForm .loopFor
    [lit "for", ident i, lit ":", primType (.int t), lit "<", subExp floatText bound]
  | .whileLoop cond => rule .pLoopForm .loopWhile [lit "while", ident cond]

def segLevel : SegLevel → Node
  | .thread => rule .pSegLevel .segLevelThread
    [lit "thread", lit ";", rule .pSegVirt .none [], lit ";"]
  | .block => rule .pSegLevel .segLevelBlock
    [lit "block", lit ";", rule .pSegVirt .none [], lit ";"]
  | .threadInBlock => rule .pSegLevel .segLevelThreadInBlock [lit "inblock", lit ";"]

def segSpace (space : SegSpace) : Node :=
  rule .pSegSpace .none (parens (joined (space.dims.map fun d =>
    [ident d.1, lit "<", subExp floatText d.2])) ++ parens [lit "~", ident space.flatId])

def body (stms : List Node) (result : List SubExp) : Node :=
  rule .pBody .body (stms ++ lit "in" :: braced (subExps floatText result))

def caseBody (stms : List Node) (result : List SubExp) : Node :=
  rule .pCaseBody .caseBodyFull (braced (stms ++ lit "in" :: braced (subExps floatText result)))

def kernelBody (stms : List Node) (result : List SubExp) : Node :=
  rule .pKernelBody .kernelBody (stms ++ lit "return" :: braced (joined (result.map fun se =>
    [lit "returns", subExp floatText se])))

def lambdaNode (ps : List Param) (ret : List Ty) (inner : Node) : Node :=
  rule .pLambda .none (lit "\\" :: (braced (params floatText .pLParam ps) ++
    [lit ":", types floatText ret, lit "->", inner]))

def segHead (keyword : String) (lvl : SegLevel) (space : SegSpace) (ret : List Ty)
    (kernel : Node) : List Node :=
  lit keyword :: (parens [segLevel lvl] ++ segSpace floatText space :: lit ":" ::
    types floatText ret :: braced [kernel])

mutual

def stm : Stm → Node
  | .mk es e => rule .pStm .none [lit "let", pat floatText es, lit "=", exp e]

def stms : List Stm → List Node
  | [] => []
  | s :: rest => stm s :: stms rest

def exp : Exp → Node
  | .basicOp op => rule .pExp .expBasicOp [basicOp floatText op]
  | .apply fname args retTypes => rule .pExp .expApply [apply floatText fname args retTypes]
  | .hostOp op => hostOp op
  | .subExp se => rule .pExp .expSubExp [subExp floatText se]
  | .ite cond (.mk thenStms thenResult) (.mk elseStms elseResult) retType =>
    rule .pExp .expIf [lit "if", subExp floatText cond, lit "then",
      caseBody floatText (stms thenStms) thenResult, lit "else",
      caseBody floatText (stms elseStms) elseResult, lit ":", types floatText retType]
  | .loop merge form (.mk ss result) => rule .pExp .expLoop [rule .pLoop .none
    (lit "loop" :: (braced (params floatText .pLoopParam (merge.map Prod.fst)) ++
      lit "=" :: (braced (subExps floatText (merge.map Prod.snd)) ++
        [loopForm floatText form, lit "do", caseBody floatText (stms ss) result])))]

/-- The parts of a size operation and of a `gpu` are not kept. -/
def hostOp : HostOp → Node
  | .segOp op => rule .pExp .expSegOp [segOp op]
  | .sizeOp => rule .pExp .expSizeOp [rule .pSizeOp .sizeOpGetSizeMax
    (lit "get_size_max" :: parens [rule .pSizeClass .sizeClassNamed [ident "c"]])]
  | .gpuBody => rule .pExp .expGpuBody [lit "gpu", lit ":", types floatText [],
    caseBody floatText [] [.var "x"]]

def lambda : Lambda → Node
  | .mk ps ret (.mk ss result) => lambdaNode floatText ps ret (body floatText (stms ss) result)

def segBinOp : SegBinOp → Node
  | .mk op neutral shape => rule .pSegBinOp .none (braced (subExps floatText neutral) ++
    [lit ",", extShape floatText shape, lit ",", rule .pComm .none [], lambda op])

def segBinOps : List SegBinOp → List Node
  | [] => []
  | op :: rest => segBinOp op :: segBinOps rest

def histOp : HistOp → Node
  | .mk dest op => rule .pHistOp .none [extShape floatText [], lit ",",
    subExp floatText (.var "x"), lit ",",
    rule .pHistDest .none (braced (subExps floatText (dest.map .var))), lit ",",
    rule .pHistNeutral .none (braced []), lit ",", lit ",", lambda op]

def histOps : List HistOp → List Node
  | [] => []
  | op :: rest => histOp op :: histOps rest

def segOp : SegOp → Node
  | .segMap lvl space ret (.mk ss result) => rule .pSegOp .segMap
    (segHead floatText "segmap" lvl space ret (kernelBody floatText (stms ss) result))
  | .segRed lvl space ret (.mk ss result) ops => rule .pSegOp .segRed
    (segHead floatText "segred" lvl space ret (kernelBody floatText (stms ss) result) ++
      parens (separated (segBinOps ops)))
  | .segScan lvl space ret (.mk ss result) ops postOp => rule .pSegOp .segScan
    (segHead floatText "segscan" lvl space ret (kernelBody floatText (stms ss) result) ++
      (parens (separated (segBinOps ops)) ++ [rule .pSegPostOp .none [lambda postOp]]))
  | .segHist lvl space ret (.mk ss result) ops => rule .pSegOp .segHist
    (segHead floatText "seghist" lvl space ret (kernelBody floatText (stms ss) result) ++
      parens (separated (histOps ops)))

end

def atomText : Attr → Text
  | .atom name => name.toList
  | _ => []

def attr : Attr → Node
  | .atom name => rule .pAttr .none (lit "#" :: bracketed [ident name])
  | .comp name args => rule .pAttr .none (lit "#" :: bracketed (ident name ::
    parens (separated (args.map fun arg => word .id (atomText arg)))))
  | .int _ => rule .pAttr .none []

/-- The types of the entry point are not kept. -/
def entry : Node := rule .pEntry .none (lit "entry" :: parens
  (quotes :: lit "," :: (braced [] ++ [lit ",", word .opaqueType "opaque".toList, quotes])))

def funDef (f : FunDef) : Node :=
  rule .pFunDef .none (f.attrs.map attr ++ (if f.entry then entry else lit "fun") ::
    ident f.name :: (parens (params floatText .fParam f.params) ++ lit ":" ::
      (braced (tys floatText f.retType) ++ lit "=" ::
        braced [body floatText (stms floatText f.body.stms) f.body.result])))

def prog (p : Prog) : Node :=
  rule .root .none (stms floatText p.consts ++ (p.funs.map (funDef floatText) ++
    [word .eof []]))

end FutharkMlir.Unparse

/-! What the grammar can express. A list in brackets of its own mostly has an element, and a float
has to be what its text is read as. -/
namespace FutharkMlir.Expressible

variable (conv : FloatConv) (floatText : FloatValue → Text)

def primValue : PrimValue → Bool
  | .int _ => true
  | .float v => visitPrimValueFloat conv (floatText v) v.getType.text = .ok v
  | .bool _ => true
  | .unit => false

def subExp : SubExp → Bool
  | .const c => primValue conv floatText c
  | .var _ => true

def subExps (ses : List SubExp) : Bool := ses.all (subExp conv floatText)

def results (ses : List SubExp) : Bool := !ses.isEmpty && subExps conv floatText ses

def ty : Ty → Bool
  | .prim _ => true
  | .array _ dims => subExps conv floatText dims
  | .acc => false
  | .mem => false

def tys (ts : List Ty) : Bool := ts.all (ty conv floatText)

def params (ps : List Param) : Bool := tys conv floatText (ps.map Param.ty)

def pat (es : List PatElem) : Bool := !es.isEmpty && tys conv floatText (es.map PatElem.ty)

def cmpOp : CmpOp → Bool
  | .eq .unit => false
  | .llt => false
  | .lle => false
  | _ => true

def dimIndex : DimIndex → Bool
  | .fix i => subExp conv floatText i
  | .slice start length stride => subExps conv floatText [start, length, stride]

/-- The type of a literal counts its elements. -/
def literalTy (values : List SubExp) : Ty → Bool
  | .array _ (d :: dims) => d = .const (.createInt values.length 64) && subExps conv floatText dims
  | .prim _ => true
  | _ => false

def basicOp : BasicOp → Bool
  | .arrayLit values t => results conv floatText values && literalTy conv floatText values t
  | .binOp _ a b => subExps conv floatText [a, b]
  | .cmpOp op a b => cmpOp op && subExps conv floatText [a, b]
  | .convOp _ a => subExp conv floatText a
  | .assert => true
  | .index _ dims => !dims.isEmpty && dims.all (dimIndex conv floatText)
  | .concat dim arrs total => decide (InRange 32 dim) && !arrs.isEmpty && subExp conv floatText total
  | .manifest => true
  | .iota n x s t => t != .int8 && subExps conv floatText [n, x, s]
  | .replicate shape val => subExps conv floatText (val :: shape)
  | .scratch t dims => t != .unit && subExps conv floatText dims
  | .reshape op0 dimBegin dimEnd reshapedDim remainder =>
    decide (dimBegin < 2 ^ 32) && decide (dimEnd < 2 ^ 32) && subExp conv floatText op0 &&
      subExps conv floatText reshapedDim && subExps conv floatText remainder
  | .rearrange _ perm => !perm.isEmpty && perm.all (· < 2 ^ 64)
  | _ => false

def loopForm : LoopForm → Bool
  | .forLoop _ _ bound => subExp conv floatText bound
  | .whileLoop _ => true

def segSpace (space : SegSpace) : Bool := results conv floatText (space.dims.map Prod.snd)

mutual

def stm : Stm → Bool
  | .mk es e => pat conv floatText es && exp e

def stms : List Stm → Bool
  | [] => true
  | s :: rest => stm s && stms rest

def body : Body → Bool
  | .mk ss result => stms ss && results conv floatText result

def exp : Exp → Bool
  | .basicOp op => basicOp conv floatText op
  | .apply _ args retTypes => subExps conv floatText args && tys conv floatText retTypes
  | .hostOp op => hostOp op
  | .subExp se => subExp conv floatText se
  | .ite cond thenBody elseBody retType => subExp conv floatText cond && body thenBody &&
    body elseBody && tys conv floatText retType
  | .loop merge form inner => params conv floatText (merge.map Prod.fst) &&
    subExps conv floatText (merge.map Prod.snd) && loopForm conv floatText form && body inner

def hostOp : HostOp → Bool
  | .segOp op => segOp op
  | .sizeOp => true
  | .gpuBody => true

def lambda : Lambda → Bool
  | .mk ps ret inner => params conv floatText ps && tys conv floatText ret && body inner

def segBinOp : SegBinOp → Bool
  | .mk op neutral shape => lambda op && subExps conv floatText neutral &&
    subExps conv floatText shape

def segBinOps : List SegBinOp → Bool
  | [] => true
  | op :: rest => segBinOp op && segBinOps rest

def histOp : HistOp → Bool
  | .mk _ op => lambda op

def histOps : List HistOp → Bool
  | [] => true
  | op :: rest => histOp op && histOps rest

def segOp : SegOp → Bool
  | .segMap _ space ret kernel => segSpace conv floatText space && tys conv floatText ret &&
    body kernel
  | .segRed _ space ret kernel ops => segSpace conv floatText space && tys conv floatText ret &&
    body kernel && !ops.isEmpty && segBinOps ops
  | .segScan _ space ret kernel ops postOp => segSpace conv floatText space &&
    tys conv floatText ret && body kernel && !ops.isEmpty && segBinOps ops && lambda postOp
  | .segHist _ space ret kernel ops => segSpace conv floatText space &&
    tys conv floatText ret && body kernel && !ops.isEmpty && histOps ops

end

def isAtom : Attr → Bool
  | .atom _ => true
  | _ => false

def attr : Attr → Bool
  | .atom _ => true
  | .comp _ args => !args.isEmpty && args.all isAtom
  | .int _ => false

def funDef (f : FunDef) : Bool :=
  f.attrs.all attr && params conv floatText f.params && !f.retType.isEmpty &&
    tys conv floatText f.retType && body conv floatText f.body

def prog (p : Prog) : Bool :=
  stms conv floatText p.consts && !p.funs.isEmpty && p.funs.all (funDef conv floatText)

end FutharkMlir.Expressible
