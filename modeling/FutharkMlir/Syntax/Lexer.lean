import FutharkMlir.Lib.Lexer
import FutharkMlir.Syntax.Grammar

/-! The lexer rules of `Futhark.g4`. The literals of the parser rules come first, then the rules
in the order of the file; of the longest matches the first counts. -/
namespace FutharkMlir.LexerRules

def literal (s : String) : Option Kind × Regex Char := (some (.lit s), .word s.toList)

def literals : List (Option Kind × Regex Char) :=
  ["name_source", "types", "type", "=", "record", "record_array", ":", "fun", "*", "#", "[", "]",
    "entry", "unit", "in", "let", "if", "then", "else", "gpu", "loop", "do", "for", "<", "while",
    "get_size", "get_size_max", "cmp_size", "threshold", "segmap", "segred", "segscan", "seghist",
    "thread", ";", "block", "inblock", "virtualise", "commutative", "return", "returns", "~",
    "\\", "->", "apply", "replicate", "copy", "reshape", "::", "=>", "rearrange", "assert",
    "scratch", "manifest", "to", "zext", "sext", "fpconv", "fptoui", "fptosi", "uitofp", "sitofp",
    "itob", "btoi", "ftob", "btof", "true", "false", "bool"].map literal

def oneOf (ws : List String) : Regex Char := .alts (ws.map fun w => .word w.toList)

def minus : Regex Char := .opt (.char '-')

def digits : Regex Char := .plus (.cls [('0', '9')])

def number : Regex Char :=
  .seq minus (.alt digits (.seq (.word ['0', 'x'])
    (.plus (.cls [('a', 'f'), ('A', 'F'), ('0', '9')]))))

def float : Regex Char :=
  .seqs [minus, digits, .char '.', digits,
    .opt (.seqs [.cls [('e', 'e'), ('E', 'E')], .opt (.cls [('+', '+'), ('-', '-')]), digits])]

def specialFloat : Regex Char :=
  .seqs [minus, oneOf ["f16", "f32", "f64"], .char '.', oneOf ["inf", "nan"]]

def stringLiteral : Regex Char :=
  let any : Regex Char := .cls [(Char.ofNat 0, Char.ofNat 0x10ffff)]
  let plain : Regex Char := .cls [(Char.ofNat 0, '!'), ('#', '['), (']', Char.ofNat 0x10ffff)]
  .seqs [.char '"', .star (.alt (.seq (.char '\\') any) plain), .char '"']

/-- The characters an `ID` may contain, but for digits, the minus and the quote. -/
def letters : List (Char × Char) :=
  [('a', 'z'), ('A', 'Z'), ('_', '_'), ('+', '+'), ('*', '*'), ('/', '/'), ('%', '%'), ('!', '!'),
    ('<', '<'), ('>', '>'), ('|', '|'), ('&', '&'), ('^', '^'), ('.', '.')]

/-- `ID`. It may start with a quote and go on with digits, the minus and subscripts. -/
def id : Regex Char :=
  .seq (.cls (('\'', '\'') :: letters))
    (.star (.cls (('0', '9') :: ('-', '-') :: ('₀', '₉') :: letters)))

def operator (name : String) (w : String) : Option Kind × Regex Char :=
  (some (.opcode name), .seq (.word w.toList) number)

def operators : List (Option Kind × Regex Char) :=
  [operator "ADD" "add", operator "FADD" "fadd", operator "SUB" "sub", operator "FSUB" "fsub",
    operator "MUL" "mul", operator "FMUL" "fmul", operator "ADDNW" "add_nw",
    operator "SUBNW" "sub_nw", operator "MULNW" "mul_nw", operator "UDIV" "udiv",
    operator "UDIVUP" "udiv_up", operator "SDIV" "sdiv", operator "SDIVUP" "sdiv_up",
    operator "FDIV" "fdiv", operator "FMOD" "fmod", operator "UMOD" "umod", operator "SMOD" "smod",
    operator "SQUOT" "squot", operator "SREM" "srem", operator "SMIN" "smin",
    operator "UMIN" "umin", operator "FMIN" "fmin", operator "SMAX" "smax", operator "UMAX" "umax",
    operator "FMAX" "fmax", operator "SHL" "shl", operator "LSHR" "lshr", operator "ASHR" "ashr",
    operator "AND" "and", operator "OR" "or", operator "XOR" "xor", operator "POW" "pow",
    operator "FPOW" "fpow", (some (.opcode "LOGAND"), .word "logand".toList),
    (some (.opcode "LOGOR"), .word "logor".toList),
    (some (.opcode "CMPEQ"), .seqs [.word "eq_".toList, .cls [('a', 'z')],
      .star (.cls [('a', 'z'), ('0', '9')])]),
    operator "CMPSLT" "slt", operator "CMPSLE" "sle", operator "CMPULT" "ult",
    operator "CMPULE" "ule", operator "CMPFLT" "lt", operator "CMPFLE" "le"]

/-- The class of `WS`. -/
def spaces : Regex Char := .cls [(' ', ' '), ('\t', '\t'), ('\r', '\r'), ('\n', '\n')]

/-- The rules without a kind are those that are skipped. -/
def rules : List (Option Kind × Regex Char) :=
  literals ++
    [(some .integerType, oneOf ["i8", "i16", "i32", "i64"]),
      (some .floatType, oneOf ["f16", "f32", "f64"]), (some .specialFloat, specialFloat),
      (some .number, number), (some .iota, .seq (.word "iota".toList) number),
      (some .concat, .seq (.word "concat@".toList) number)] ++
    operators ++
    [(some .float, float), (some .stringLiteral, stringLiteral),
      (some .opaqueType, .seq (.opt (.char '*')) (.word "opaque".toList)),
      (some .matchSort, .seqs [.char '<', oneOf ["equiv", "fallback"], .char '>']),
      literal ":+", (some .id, id), literal "(", literal ")", literal "\x7b", literal "\x7d",
      literal ",", literal "builtin", literal "FUNCTIONS", literal "RULES",
      (none, .plus spaces)]

end FutharkMlir.LexerRules

namespace FutharkMlir

/-- The generated lexer, on a text of which nothing is left over. -/
def lexTokens (text : Text) : Option (List Token) :=
  (Lexer.lex LexerRules.rules text).map fun words =>
    words.map (fun w => ⟨w.1, w.2⟩) ++ [⟨.eof, []⟩]

end FutharkMlir
