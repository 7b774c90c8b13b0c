import FutharkMlir.Lib.Grammar
import FutharkMlir.Lib.Text

/-! The parser rules of `Futhark.g4`, in its order. -/
namespace FutharkMlir

/-- The kinds of tokens. A literal of a parser rule is the token of that text, under whatever
name the lexer rules give it. -/
inductive Kind where
  | lit (text : String)
  | number
  | integerType
  | floatType
  | specialFloat
  | float
  | stringLiteral
  | opaqueType
  | matchSort
  | id
  | iota
  | concat
  | opcode (name : String)
  | eof
  deriving DecidableEq, Repr

structure Token where
  kind : Kind
  text : Text
  deriving DecidableEq

inductive Rule where
  | root | header | pTypeBind | pTypeExp | pRecordField | pRank | pFunDef | pAttr | pEntry
  | pEntryPointInput | fParam | pRetTypes | pType | pAlias | pAliasSet | pTypes | pRetType
  | pExtShape | pBody | pStm | pCerts | pPat | pPatElem | pExp | pLoop | pLoopParam | pLoopForm
  | pCaseBody | pSizeOp | pSizeClass | pSegOp | pSegLevel | pSegVirt | pSegBinOp | pHistOp
  | pHistDest | pHistNeutral | pSegPostOp | pComm | pKernelBody | pSegSpace | pLambda | pLParam
  | pApply | pArg | pArrayLit | pBasicOp | pDimIndex | pErrPart | pBinOp | pCmpOp | cmpOpcode
  | binaryOpcode | pConvOp | convOpcode | pSubExp | pPrimValue | pPrimType
  deriving DecidableEq, Repr

/-- The labels of alternatives; `none` is the context of an unlabelled rule, and what a labelled
one is left with when no alternative was found. -/
inductive Label where
  | none
  | typeShape | typePrim | typeUnitArray | typeUnit
  | body | emptyBody
  | expApply | expBasicOp | expSegOp | expSizeOp | expLoop | expIf | expGpuBody | expSubExp
  | loopFor | loopWhile
  | caseBodyFull | caseBodyResult
  | sizeOpGetSize | sizeOpGetSizeMax | sizeOpCmpSizeLe
  | sizeClassThreshold | sizeClassNamed
  | segMap | segRed | segScan | segHist
  | segLevelThread | segLevelBlock | segLevelThreadInBlock
  | kernelBody | emptyKernelBody
  | basicOpReplicate | basicOpCopy | basicOpArrayLit | basicOpIndex | basicOpConcat | basicOpIota
  | basicOpBinary | basicOpCmp | basicOpConv | basicOpReshape | basicOpRearrange | basicOpAssert
  | basicOpScratch | basicOpManifest
  | dimSlice | dimFix
  | constantSubExpression | varSubExp
  | primValueInteger | primValueFloat | primValueFloatSpecial | primValueBool
  | primTypeInteger | primTypeFloat | primTypeBool
  deriving DecidableEq, Repr

structure Context where
  rule : Rule
  label : Label
  deriving DecidableEq, Repr

abbrev PExpr := Ebnf Kind Rule

namespace Grammar

def lit (text : String) : PExpr := .token (.lit text)

def comma : PExpr := lit ","

def opcodes : String → List String → PExpr
  | a, [] => .token (.opcode a)
  | a, b :: rest => .alt (.token (.opcode a)) (opcodes b rest)

def words : String → List String → PExpr
  | a, [] => lit a
  | a, b :: rest => .alt (lit a) (words b rest)

/-- `a? (',' a)*`. -/
def looseList (a : PExpr) : PExpr := .seq (.opt a) (.star (.seq comma a))

/-- `(a (',' a)*)?`. -/
def optList (a : PExpr) : PExpr := .opt (.sepBy a comma)

def braced (es : List PExpr) : PExpr := .seqs (lit "\x7b" :: es ++ [lit "\x7d"])

def parens (es : List PExpr) : PExpr := .seqs (lit "(" :: es ++ [lit ")"])

def bracketed (es : List PExpr) : PExpr := .seqs (lit "[" :: es ++ [lit "]"])

def segHead (keyword : String) : List PExpr :=
  [lit keyword, parens [.rule .pSegLevel], .rule .pSegSpace, lit ":", .rule .pTypes,
    braced [.rule .pKernelBody]]

def alternatives : Rule → List (Label × PExpr)
  | .root => [(.none, .seqs [.opt (.rule .header), .star (.rule .pStm), .plus (.rule .pFunDef),
      .token .eof])]
  | .header => [(.none, .seqs [lit "name_source", braced [.token .number], lit "types",
      braced [.star (.rule .pTypeBind)]])]
  | .pTypeBind => [(.none, .seqs [lit "type", .token .stringLiteral, lit "=", .rule .pTypeExp])]
  | .pTypeExp => [
      (.none, .seqs [lit "record", braced [.star (.rule .pRecordField)]]),
      (.none, .seqs [lit "record_array", .rule .pRank, .token .stringLiteral,
        braced [.star (.rule .pRecordField)]])]
  | .pRecordField => [(.none, .seqs [.token .number, lit ":", .rule .pType])]
  | .pRank => [(.none, .seqs [.token .number, .token .id])]
  | .pFunDef => [(.none, .seqs [.star (.rule .pAttr), .alt (.opt (.rule .pEntry)) (lit "fun"),
      .token .id, parens [looseList (.rule .fParam)], lit ":",
      braced [.sepBy (.seq (.opt (lit "*")) (.rule .pType)) comma], lit "=",
      braced [.rule .pBody]])]
  | .pAttr => [(.none, .seqs [lit "#", bracketed [.token .id,
      .opt (parens [optList (.token .id)])]])]
  | .pEntry => [(.none, .seqs [lit "entry", parens [.token .stringLiteral, comma,
      braced [looseList (.rule .pEntryPointInput)], comma,
      .alt (.seq (.token .opaqueType) (.token .stringLiteral))
        (.seq (.opt (lit "*")) (.rule .pType))]])]
  | .pEntryPointInput => [(.none, .seqs [.token .stringLiteral, lit ":", .rule .pType])]
  | .fParam => [(.none, .seqs [.token .id, lit ":", .rule .pType])]
  | .pRetTypes => [(.none, braced [.star (.rule .pType), .star (.seq comma (.rule .pType))])]
  | .pType => [
      (.typeShape, .seqs [.rule .pExtShape, .rule .pPrimType, .opt (.rule .pAlias)]),
      (.typePrim, .seqs [.rule .pPrimType, .opt (.rule .pAlias)]),
      (.typeUnitArray, .seqs [.rule .pExtShape, lit "unit", .opt (.rule .pAlias)]),
      (.typeUnit, lit "unit")]
  | .pAlias => [(.none, .seq (lit "#") (parens [.sepBy (.rule .pAliasSet) comma]))]
  | .pAliasSet => [(.none, bracketed [optList (.token .number)])]
  | .pTypes => [(.none, braced [looseList (.rule .pType)])]
  | .pRetType => [(.none, .rule .pType)]
  | .pExtShape => [(.none, .plus (bracketed [.star (.rule .pSubExp)]))]
  | .pBody => [
      (.body, .seqs [.star (.rule .pStm), lit "in", braced [.sepBy (.rule .pSubExp) comma]]),
      (.emptyBody, braced [.sepBy (.rule .pSubExp) comma])]
  | .pStm => [(.none, .seqs [.opt (.token .stringLiteral), lit "let", .rule .pPat, lit "=",
      .star (.rule .pAttr), .opt (.rule .pCerts), .rule .pExp])]
  | .pCerts => [(.none, .seq (lit "#") (braced [optList (.token .id)]))]
  | .pPat => [(.none, braced [.sepBy (.rule .pPatElem) comma])]
  | .pPatElem => [(.none, .seqs [.token .id, lit ":", .rule .pType])]
  | .pExp => [
      (.expApply, .rule .pApply),
      (.expBasicOp, .rule .pBasicOp),
      (.expSegOp, .rule .pSegOp),
      (.expSizeOp, .rule .pSizeOp),
      (.expLoop, .rule .pLoop),
      (.expIf, .seqs [lit "if", .opt (.token .matchSort), .rule .pSubExp, lit "then",
        .rule .pCaseBody, lit "else", .rule .pCaseBody, lit ":", .rule .pTypes]),
      (.expGpuBody, .seqs [lit "gpu", lit ":", .rule .pTypes, .rule .pCaseBody]),
      (.expSubExp, .rule .pSubExp)]
  | .pLoop => [(.none, .seqs [lit "loop", braced [looseList (.rule .pLoopParam)], lit "=",
      braced [looseList (.rule .pSubExp)], .rule .pLoopForm, lit "do", .rule .pCaseBody])]
  | .pLoopParam => [(.none, .seqs [.token .id, lit ":", .rule .pType])]
  | .pLoopForm => [
      (.loopFor, .seqs [lit "for", .token .id, lit ":", .rule .pPrimType, lit "<",
        .rule .pSubExp]),
      (.loopWhile, .seqs [lit "while", .token .id])]
  | .pCaseBody => [
      (.caseBodyFull, braced [.star (.rule .pStm), lit "in",
        braced [.sepBy (.rule .pSubExp) comma]]),
      (.caseBodyResult, braced [.sepBy (.rule .pSubExp) comma])]
  | .pSizeOp => [
      (.sizeOpGetSize, .seq (lit "get_size") (parens [.token .id, comma, .rule .pSizeClass])),
      (.sizeOpGetSizeMax, .seq (lit "get_size_max") (parens [.rule .pSizeClass])),
      (.sizeOpCmpSizeLe, .seqs [lit "cmp_size", parens [.token .id, comma, .rule .pSizeClass],
        lit "<", lit "=", .rule .pSubExp])]
  | .pSizeClass => [
      (.sizeClassThreshold, .seq (lit "threshold") (parens [.opt (.token .number), comma])),
      (.sizeClassNamed, .token .id)]
  | .pSegOp => [
      (.segMap, .seqs (segHead "segmap")),
      (.segRed, .seqs (segHead "segred" ++ [parens [.sepBy (.rule .pSegBinOp) comma]])),
      (.segScan, .seqs (segHead "segscan" ++
        [parens [.sepBy (.rule .pSegBinOp) comma], .rule .pSegPostOp])),
      (.segHist, .seqs (segHead "seghist" ++ [parens [.sepBy (.rule .pHistOp) comma]]))]
  | .pSegLevel => [
      (.segLevelThread, .seqs [lit "thread", lit ";", .rule .pSegVirt, lit ";"]),
      (.segLevelBlock, .seqs [lit "block", lit ";", .rule .pSegVirt, lit ";"]),
      (.segLevelThreadInBlock, .seqs [lit "inblock", lit ";"])]
  | .pSegVirt => [(.none, .opt (lit "virtualise"))]
  | .pSegBinOp => [(.none, .seqs [braced [optList (.rule .pSubExp)], comma,
      .opt (.rule .pExtShape), comma, .rule .pComm, .rule .pLambda])]
  | .pHistOp => [(.none, .seqs [.rule .pExtShape, comma, .rule .pSubExp, comma, .rule .pHistDest,
      comma, .rule .pHistNeutral, comma, .opt (.rule .pExtShape), comma, .rule .pLambda])]
  | .pHistDest => [(.none, braced [optList (.rule .pSubExp)])]
  | .pHistNeutral => [(.none, braced [optList (.rule .pSubExp)])]
  | .pSegPostOp => [(.none, .rule .pLambda)]
  | .pComm => [(.none, .opt (lit "commutative"))]
  | .pKernelBody => [
      (.kernelBody, .seqs [.star (.rule .pStm), lit "return",
        braced [.sepBy (.seq (lit "returns") (.rule .pSubExp)) comma]]),
      (.emptyKernelBody, braced [lit "return", .rule .pSubExp,
        .star (.seqs [comma, lit "returns", .rule .pSubExp])])]
  | .pSegSpace => [(.none, .seq
      (parens [.sepBy (.seqs [.token .id, lit "<", .rule .pSubExp]) comma])
      (parens [lit "~", .token .id]))]
  | .pLambda => [(.none, .seqs [lit "\\", braced [looseList (.rule .pLParam)], lit ":",
      .rule .pTypes, lit "->", .rule .pBody])]
  | .pLParam => [(.none, .seqs [.token .id, lit ":", .rule .pType])]
  | .pApply => [(.none, .seqs [lit "apply", .token .id, parens [looseList (.rule .pSubExp)],
      lit ":", .rule .pRetTypes])]
  | .pArg => [(.none, .rule .pSubExp)]
  | .pArrayLit => [(.none, bracketed [.sepBy (.rule .pSubExp) comma])]
  | .pBasicOp => [
      (.basicOpReplicate, .seq (lit "replicate") (parens [.rule .pExtShape, comma,
        .rule .pSubExp])),
      (.basicOpCopy, .seq (lit "copy") (parens [.rule .pSubExp])),
      (.basicOpArrayLit, .seqs [.rule .pArrayLit, lit ":", .rule .pType]),
      (.basicOpIndex, .seq (.rule .pSubExp) (bracketed [.sepBy (.rule .pDimIndex) comma])),
      (.basicOpConcat, .seq (.token .concat) (parens [.sepBy (.rule .pSubExp) comma])),
      (.basicOpIota, .seq (.token .iota) (parens [.rule .pSubExp, comma, .rule .pSubExp, comma,
        .rule .pSubExp])),
      (.basicOpBinary, .rule .pBinOp),
      (.basicOpCmp, .rule .pCmpOp),
      (.basicOpConv, .rule .pConvOp),
      (.basicOpReshape, .seq (lit "reshape") (parens [.rule .pSubExp, comma,
        parens [.token .number, lit "::", .token .number, lit "=>", .rule .pExtShape, lit ";",
          .rule .pExtShape]])),
      (.basicOpRearrange, .seq (lit "rearrange") (parens [.rule .pSubExp, comma,
        parens [.sepBy (.token .number) comma]])),
      (.basicOpAssert, .seq (lit "assert") (parens [.rule .pSubExp, comma,
        braced [.sepBy (.rule .pErrPart) comma]])),
      (.basicOpScratch, .seq (lit "scratch") (parens [.rule .pPrimType,
        .star (.seq comma (.rule .pSubExp))])),
      (.basicOpManifest, .seq (lit "manifest") (parens [.rule .pSubExp, comma,
        parens [.sepBy (.token .number) comma]]))]
  | .pDimIndex => [
      (.dimSlice, .seqs [.rule .pSubExp, lit ":+", .rule .pSubExp, lit "*", .rule .pSubExp]),
      (.dimFix, .rule .pSubExp)]
  | .pErrPart => [
      (.none, .token .stringLiteral),
      (.none, .seqs [.rule .pSubExp, lit ":", .rule .pPrimType])]
  | .pBinOp => [(.none, .seq (.rule .binaryOpcode)
      (parens [.rule .pSubExp, comma, .rule .pSubExp]))]
  | .pCmpOp => [(.none, .seq (.rule .cmpOpcode) (parens [.rule .pSubExp, comma, .rule .pSubExp]))]
  | .cmpOpcode => [(.none, opcodes "CMPEQ" ["CMPSLT", "CMPSLE", "CMPULT", "CMPULE", "CMPFLT",
      "CMPFLE"])]
  | .binaryOpcode => [(.none, opcodes "ADD" ["ADDNW", "FADD", "SUB", "SUBNW", "FSUB", "MUL",
      "MULNW", "FMUL", "UDIV", "UDIVUP", "SDIV", "SDIVUP", "FDIV", "FMOD", "UMOD", "SMOD",
      "SQUOT", "SREM", "SMIN", "UMIN", "FMIN", "SMAX", "UMAX", "FMAX", "SHL", "LSHR", "ASHR",
      "AND", "OR", "XOR", "POW", "FPOW", "LOGAND", "LOGOR"])]
  | .pConvOp => [(.none, .seqs [.rule .convOpcode, .rule .pPrimType, .rule .pSubExp, lit "to",
      .rule .pPrimType])]
  | .convOpcode => [(.none, words "zext" ["sext", "fpconv", "fptoui", "fptosi", "uitofp",
      "sitofp", "itob", "btoi", "ftob", "btof"])]
  | .pSubExp => [
      (.constantSubExpression, .rule .pPrimValue),
      (.varSubExp, .token .id)]
  | .pPrimValue => [
      (.primValueInteger, .seq (.token .number) (.token .integerType)),
      (.primValueFloat, .seq (.token .float) (.token .floatType)),
      (.primValueFloatSpecial, .token .specialFloat),
      (.primValueBool, words "true" ["false"])]
  | .pPrimType => [
      (.primTypeInteger, .token .integerType),
      (.primTypeFloat, .token .floatType),
      (.primTypeBool, lit "bool")]

/-- The contexts of a rule and what they are built from. -/
def rules (r : Rule) : List (Context × PExpr) :=
  (alternatives r).map fun alternative => (⟨r, alternative.1⟩, alternative.2)

/-- The token sequence can be derived from `root`. -/
def Derivable (toks : List Token) : Prop := Ebnf.Sentence Token.kind rules .root toks

/-- Opening parentheses count up and closing ones down. -/
def parenthesis : Kind → Int
  | .lit "(" => 1
  | .lit ")" => -1
  | _ => 0

theorem alternatives_balanced (r : Rule) :
    (alternatives r).all (fun a => a.2.weigh parenthesis == some 0) = true := by
  cases r <;> rfl

theorem rules_balanced : Ebnf.Balanced parenthesis rules := by
  intro r ctx body member
  obtain ⟨a, ha, eq⟩ := List.mem_map.mp member
  cases eq
  simpa using List.all_eq_true.mp (alternatives_balanced r) a ha

/-- Every text of the grammar closes as many parentheses as it opens. -/
theorem Derivable.balanced {toks : List Token} (h : Derivable toks) :
    (toks.map fun tok => parenthesis tok.kind).sum = 0 :=
  Ebnf.Sentence.weight rules_balanced h

end Grammar

end FutharkMlir
