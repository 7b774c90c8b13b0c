import FutharkMlir.Syntax.Lexer
import FutharkMlir.Syntax.RoundTrip

/-! The text of a program, with a blank after each word, is read by the lexer as the words of its
tree. -/
namespace FutharkMlir.Unparse

open Visitor (Node)

/-- The text is read as a word of the kind. -/
abbrev Word (k : Kind) (text : Text) : Prop := Lexer.Lexeme LexerRules.rules ' ' k text

def kindOf (text : Text) : Option (Option Kind) :=
  Lexer.matched (Lexer.steps LexerRules.rules text)

/-- What a quote or a space starts is no name and no float. -/
def starters : List Char := ['"', ' ', '\t', '\r', '\n']

/-- What running the rules shows of them. -/
theorem rules_checked : (starters.all fun c => (Lexer.step c LexerRules.rules).all fun rule =>
      [some .stringLiteral, none].contains rule.1) = true ∧
    (∀ rule ∈ LexerRules.rules, rule.2.avoids ' ' = true ∨
      rule.2 = LexerRules.stringLiteral ∨ rule.2 = .plus LexerRules.spaces) ∧
    Lexer.step ' ' LexerRules.rules = [(none, .star LexerRules.spaces)] ∧
    kindOf [] = none ∧ Word .stringLiteral ['"', '"'] := by
  decide +kernel

theorem starters_kind {c : Char} (h : c ∈ starters) {rule : Option Kind × Regex Char}
    (live : rule ∈ Lexer.step c LexerRules.rules) : rule.1 ∈ [some .stringLiteral, none] := by
  have kinds := List.all_eq_true.mp (List.all_eq_true.mp rules_checked.1 c h) rule live
  exact List.contains_iff_mem.mp kinds

theorem rules_avoid : ∀ rule ∈ LexerRules.rules, rule.2.avoids ' ' = true ∨
    rule.2 = LexerRules.stringLiteral ∨ rule.2 = .plus LexerRules.spaces :=
  rules_checked.2.1

theorem step_blank : Lexer.step ' ' LexerRules.rules = [(none, .star LexerRules.spaces)] :=
  rules_checked.2.2.1

theorem kindOf_nil : kindOf [] = none := rules_checked.2.2.2.1

theorem blank_skipped : Lexer.munch LexerRules.rules none 0 [' '] = some (none, 1) := by
  simp [Lexer.munch, step_blank, Lexer.matched, Regex.nullable]

section Plain

variable {c : Char} (plain : c ∉ starters)

include plain

theorem deriv_spaces : LexerRules.spaces.deriv c = .never := by
  have apart : ∀ d ∈ starters, ¬ (d ≤ c ∧ c ≤ d) := fun d member h =>
    plain (Char.le_antisymm h.1 h.2 ▸ member)
  simp only [starters, List.forall_mem_cons] at apart
  simp [LexerRules.spaces, Regex.deriv, apart]

theorem deriv_stringLiteral : LexerRules.stringLiteral.deriv c = .never := by
  have apart : ¬ ('"' ≤ c ∧ c ≤ '"') := fun h =>
    plain (Char.le_antisymm h.1 h.2 ▸ List.mem_cons_self)
  simp [LexerRules.stringLiteral, Regex.seqs, Regex.char, Regex.deriv, Regex.nullable,
    Regex.andThen, apart]

theorem step_plain : ∀ rule ∈ Lexer.step c LexerRules.rules, rule.2.avoids ' ' = true := by
  intro rule member
  obtain ⟨live, old, before, _, rest⟩ := Lexer.mem_step.mp member
  rcases rules_avoid old before with avoids | literal | spaces
  · exact rest ▸ Regex.deriv_avoids c avoids
  -- a string and a gap may go on with a blank, but neither starts with this character
  · rw [literal, deriv_stringLiteral plain] at rest
    exact absurd rest.symm live
  · rw [spaces, Regex.plus, Regex.deriv, deriv_spaces plain] at rest
    exact absurd rest.symm live

theorem step_blank_plain : Lexer.step c (Lexer.step ' ' LexerRules.rules) = [] := by
  rw [step_blank]
  simp [Lexer.step, Regex.deriv, deriv_spaces plain, Regex.andThen]

end Plain

/-- What does not start with a quote or a space goes on until the next blank. -/
theorem word_plain {k : Kind} {text : Text} (plain : ∀ c ∈ text.head?, c ∉ starters)
    (reads : kindOf text = some (some k)) : Word k text := by
  cases text with
  | nil => cases kindOf_nil.symm.trans reads
  | cons c t =>
    have first : c ∉ starters := plain c rfl
    exact .of_matched (step_plain first) (step_blank_plain first) reads

theorem word_named {k : Kind} (named : k = .id ∨ k = .float) {text : Text}
    (reads : kindOf text = some (some k)) : Word k text := by
  refine word_plain (fun c head member => ?_) reads
  cases text with
  | nil => cases head
  | cons d t =>
    cases head
    obtain ⟨rule, left, kind⟩ := Lexer.matched_kind reads
    obtain ⟨first, live, same⟩ := Lexer.steps_kind (w := t) left
    have other := starters_kind member live
    rw [same, kind] at other
    rcases named with rfl | rfl <;> simp at other

/-! The words of a table, and those that end in a number. The rules are run over each table once,
and what is left of the proofs only looks a word up. -/

def digits : List Char := "0123456789".toList

theorem digit_mem {c : Char} (h : c.isDigit = true) : c ∈ digits := by
  have known : ∀ n < 58, 48 ≤ n → Char.ofNat n ∈ digits := by decide
  obtain ⟨low, high⟩ := Char.isDigit_iff_toNat.mp h
  exact Char.ofNat_toNat c ▸ known c.toNat (Nat.lt_succ_of_le high) low

def operators : List (String × String) :=
  [("ADD", "add"), ("ADDNW", "add_nw"), ("FADD", "fadd"), ("SUB", "sub"), ("SUBNW", "sub_nw"),
    ("FSUB", "fsub"), ("MUL", "mul"), ("MULNW", "mul_nw"), ("FMUL", "fmul"), ("UDIV", "udiv"),
    ("UDIVUP", "udiv_up"), ("SDIV", "sdiv"), ("SDIVUP", "sdiv_up"), ("FDIV", "fdiv"),
    ("FMOD", "fmod"), ("UMOD", "umod"), ("SMOD", "smod"), ("SQUOT", "squot"), ("SREM", "srem"),
    ("SMIN", "smin"), ("UMIN", "umin"), ("FMIN", "fmin"), ("SMAX", "smax"), ("UMAX", "umax"),
    ("FMAX", "fmax"), ("SHL", "shl"), ("LSHR", "lshr"), ("ASHR", "ashr"), ("AND", "and"),
    ("OR", "or"), ("XOR", "xor"), ("POW", "pow"), ("FPOW", "fpow"), ("CMPSLT", "slt"),
    ("CMPSLE", "sle"), ("CMPULT", "ult"), ("CMPULE", "ule"), ("CMPFLT", "lt"), ("CMPFLE", "le")]

def numbered : List (Kind × Text) :=
  [(.number, []), (.number, ['-']), (.concat, "concat@".toList), (.concat, "concat@-".toList)] ++
    operators.map fun o => (.opcode o.1, o.2.toList)

abbrev literals : List String :=
  ["=", ":", "fun", "*", "#", "[", "]", "entry", "unit", "in", "let", "if", "then", "else", "gpu",
    "loop", "do", "for", "<", "while", "get_size_max", "segmap", "segred", "segscan", "seghist",
    "thread", ";", "block", "inblock", "return", "returns", "~", "\\", "->", "apply", "replicate",
    "reshape", "::", "=>", "rearrange", "assert", "scratch", "manifest", "to", "zext", "sext",
    "fpconv", "fptoui", "fptosi", "uitofp", "sitofp", "itob", "btoi", "ftob", "btof", "true",
    "false", "bool", ":+", "(", ")", "\x7b", "\x7d", ","]

def intTypes : List IntType := [.int8, .int16, .int32, .int64]

def floatTypes : List FloatType := [.float16, .float32, .float64]

def fixed : List (Kind × Text) :=
  literals.map (fun s => (.lit s, s.toList)) ++
    (intTypes.map (fun t => (.integerType, t.text)) ++
      (floatTypes.map (fun t => (.floatType, t.text)) ++
        (intTypes.map (fun t => (.iota, iotaText t)) ++
          (PrimType.named.map (fun t => (.opcode "CMPEQ", (CmpOp.eq t).text)) ++
            [(.opcode "LOGAND", BinOp.logAnd.text), (.opcode "LOGOR", BinOp.logOr.text),
              (.opaqueType, ['o', 'p', 'a', 'q', 'u', 'e'])]))))

theorem fixed_read : ∀ w ∈ fixed, w.2.any starters.contains = false ∧
    kindOf w.2 = some (some w.1) := by
  decide +kernel

theorem numbers_read : ∀ w ∈ numbered.take 4, (w.2 ++ digits).any starters.contains = false ∧
    Lexer.Stem LexerRules.rules digits (some w.1) w.2 := by
  decide +kernel

/-- The rules that the word of an operator and a digit leave. -/
def afterOperator (k : Kind) : List (Option Kind × Regex Char) :=
  [(some k, LexerRules.number),
    (some .id, .star (.cls (('0', '9') :: ('-', '-') :: ('₀', '₉') :: LexerRules.letters)))]

theorem operators_read : ∀ o ∈ operators, (o.2.toList ++ digits).any starters.contains = false ∧
    (digits.map fun c => Lexer.step c (Lexer.steps LexerRules.rules o.2.toList)) =
      digits.map fun c => Lexer.step c (afterOperator (.opcode o.1)) := by
  decide +kernel

/-- Only after a zero is there more to come than digits. -/
theorem step_operator (k : Kind) {c : Char} (h : c ∈ digits) :
    (Lexer.step c (afterOperator k) = Lexer.step '0' (afterOperator k) ∨
      Lexer.step c (afterOperator k) = Lexer.step '1' (afterOperator k)) ∧
    Lexer.step c (Lexer.step '0' (afterOperator k)) = Lexer.step '1' (afterOperator k) ∧
    Lexer.step c (Lexer.step '1' (afterOperator k)) = Lexer.step '1' (afterOperator k) := by
  have listed : digits = ['0', '1', '2', '3', '4', '5', '6', '7', '8', '9'] := by decide
  simp only [listed, List.mem_cons, List.not_mem_nil, or_false] at h
  rcases h with rfl | rfl | rfl | rfl | rfl | rfl | rfl | rfl | rfl | rfl
  · exact ⟨.inl rfl, rfl, rfl⟩
  all_goals exact ⟨.inr rfl, rfl, rfl⟩

theorem mem_going_operator {k : Kind} {w : Text}
    (live : (digits.map fun c => Lexer.step c (Lexer.steps LexerRules.rules w)) =
      digits.map fun c => Lexer.step c (afterOperator k))
    {state : List (Option Kind × Regex Char)} :
    state ∈ Lexer.going LexerRules.rules digits w ↔
      state = Lexer.step '0' (afterOperator k) ∨ state = Lexer.step '1' (afterOperator k) := by
  have zero : '0' ∈ digits := digit_mem rfl
  have one : '1' ∈ digits := digit_mem rfl
  simp only [Lexer.going, live, List.mem_dedup, List.mem_append, List.mem_flatMap, List.mem_map]
  constructor
  · rintro (⟨c, inside, rfl⟩ | ⟨_, ⟨c, inside, rfl⟩, d, next, rfl⟩)
    · exact (step_operator k inside).1
    · obtain ⟨_, afterZero, afterOne⟩ := step_operator k next
      rcases (step_operator k inside).1 with first | first
      · exact .inr (first ▸ afterZero)
      · exact .inr (first ▸ afterOne)
  · rintro (rfl | rfl)
    · exact .inl ⟨'0', zero, rfl⟩
    · exact .inl ⟨'1', one, rfl⟩

theorem stem_operator {k : Kind} {w : Text}
    (live : (digits.map fun c => Lexer.step c (Lexer.steps LexerRules.rules w)) =
      digits.map fun c => Lexer.step c (afterOperator k)) :
    Lexer.Stem LexerRules.rules digits (some k) w where
  reads := by
    intro state member
    rcases (mem_going_operator live).mp member with rfl | rfl <;> rfl
  closed := by
    intro state member c inside
    obtain ⟨_, afterZero, afterOne⟩ := step_operator k inside
    refine (mem_going_operator live).mpr (.inr ?_)
    rcases (mem_going_operator live).mp member with rfl | rfl
    · exact afterZero
    · exact afterOne

theorem numbered_read : ∀ w ∈ numbered, (w.2 ++ digits).any starters.contains = false ∧
    Lexer.Stem LexerRules.rules digits (some w.1) w.2 := by
  intro w member
  rcases List.mem_append.mp member with number | operator
  · exact numbers_read w number
  · obtain ⟨o, known, rfl⟩ := List.mem_map.mp operator
    obtain ⟨none, live⟩ := operators_read o known
    exact ⟨none, stem_operator live⟩

theorem not_starter {text : Text} (none : text.any starters.contains = false) {c : Char}
    (h : c ∈ text) : c ∉ starters := fun member =>
  List.any_eq_false.mp none c h (List.contains_iff_mem.mpr member)

theorem word_fixed {k : Kind} {text : Text} (member : (k, text) ∈ fixed) : Word k text := by
  obtain ⟨none, reads⟩ := fixed_read _ member
  exact word_plain (fun c head => not_starter none (List.mem_of_mem_head? head)) reads

theorem mem_fixed {w : Kind × Text} : w ∈ fixed ↔ (∃ s ∈ literals, (.lit s, s.toList) = w) ∨
    (∃ t ∈ intTypes, (.integerType, t.text) = w) ∨
      (∃ t ∈ floatTypes, (.floatType, t.text) = w) ∨ (∃ t ∈ intTypes, (.iota, iotaText t) = w) ∨
        (∃ t ∈ PrimType.named, (.opcode "CMPEQ", (CmpOp.eq t).text) = w) ∨
          w ∈ [(.opcode "LOGAND", BinOp.logAnd.text), (.opcode "LOGOR", BinOp.logOr.text),
            (.opaqueType, ['o', 'p', 'a', 'q', 'u', 'e'])] := by
  simp only [fixed, List.mem_append, List.mem_map]

theorem word_last {w : Kind × Text} (h : w ∈ [(.opcode "LOGAND", BinOp.logAnd.text),
      (.opcode "LOGOR", BinOp.logOr.text), (.opaqueType, ['o', 'p', 'a', 'q', 'u', 'e'])]) :
    Word w.1 w.2 :=
  word_fixed (mem_fixed.mpr (.inr (.inr (.inr (.inr (.inr h))))))

theorem mem_intTypes (t : IntType) : t ∈ intTypes := by
  cases t <;> simp [intTypes]

theorem mem_floatTypes (t : FloatType) : t ∈ floatTypes := by
  cases t <;> simp [floatTypes]

theorem word_numbered {k : Kind} {text : Text} (member : (k, text) ∈ numbered) (n : Nat) :
    Word k (text ++ Text.natText n) := by
  obtain ⟨none, stem⟩ := numbered_read _ member
  obtain ⟨nonempty, decimal⟩ := Text.isDecimal_natText n
  have among : ∀ c ∈ Text.natText n, c ∈ digits := fun c inside => digit_mem (decimal c inside)
  refine word_plain (fun c head => not_starter none ?_) (stem.matched_append nonempty among)
  exact List.mem_append.mpr ((List.mem_append.mp (List.mem_of_mem_head? head)).imp_right (among c))

theorem word_signed {k : Kind} {text : Text} (plain : (k, text) ∈ numbered)
    (signed : (k, text ++ ['-']) ∈ numbered) (i : Int) : Word k (text ++ Text.intText i) := by
  cases i with
  | ofNat n => exact word_numbered plain n
  | negSucc n =>
    have word := word_numbered signed (n + 1)
    rwa [List.append_assoc] at word

@[simp] theorem word_intText (i : Int) : Word .number (Text.intText i) := by
  have plain : (Kind.number, ([] : Text)) ∈ numbered := by simp [numbered]
  exact word_signed plain (by simp [numbered]) i

@[simp] theorem word_natText (n : Nat) : Word .number (Text.natText n) := word_intText n

@[simp] theorem word_concat (dim : Int) :
    Word .concat ("concat@".toList ++ Text.intText dim) :=
  word_signed (by simp [numbered]) (by simp [numbered]) dim

theorem word_operator {token name : String} (known : (token, name) ∈ operators) (w : Nat) :
    Word (.opcode token) (name.toList ++ widthText w) :=
  word_numbered (List.mem_append_right _ (List.mem_map_of_mem known)) w

@[simp] theorem word_binOp (op : BinOp) : Word (.opcode (binToken op)) op.text := by
  cases op with
  | add t ovf => cases ovf <;> exact word_operator (by simp [operators, binToken]) t.getWidth
  | sub t ovf => cases ovf <;> exact word_operator (by simp [operators, binToken]) t.getWidth
  | mul t ovf => cases ovf <;> exact word_operator (by simp [operators, binToken]) t.getWidth
  | logAnd => exact word_last (.head _)
  | logOr => exact word_last (.tail _ (.head _))
  | _ t => exact word_operator (by simp [operators, binToken]) t.getWidth

theorem word_eq {t : PrimType} (named : t ∈ PrimType.named) :
    Word (.opcode "CMPEQ") (CmpOp.eq t).text :=
  word_fixed (mem_fixed.mpr (.inr (.inr (.inr (.inr (.inl ⟨t, named, rfl⟩))))))

@[simp] theorem word_cmpOp {op : CmpOp} (h : Expressible.cmpOp op = true) :
    Word (.opcode (cmpToken op)) op.text := by
  cases op with
  | eq t =>
    refine word_eq ?_
    cases t with
    | int t => cases t <;> simp [PrimType.named]
    | float t => cases t <;> simp [PrimType.named]
    | bool => simp [PrimType.named]
    | unit => cases h
  -- no token is an order on booleans
  | llt => cases h
  | lle => cases h
  | _ t => exact word_operator (by simp [operators, cmpToken]) t.getWidth

theorem word_literal {s : String} (h : s ∈ literals) : Word (.lit s) s.toList :=
  word_fixed (mem_fixed.mpr (.inl ⟨s, h, rfl⟩))

@[simp] theorem word_intType (t : IntType) : Word .integerType t.text :=
  word_fixed (mem_fixed.mpr (.inr (.inl ⟨t, mem_intTypes t, rfl⟩)))

@[simp] theorem word_floatType (t : FloatType) : Word .floatType t.text :=
  word_fixed (mem_fixed.mpr (.inr (.inr (.inl ⟨t, mem_floatTypes t, rfl⟩))))

@[simp] theorem word_iota (t : IntType) : Word .iota (iotaText t) :=
  word_fixed (mem_fixed.mpr (.inr (.inr (.inr (.inl ⟨t, mem_intTypes t, rfl⟩)))))

@[simp] theorem word_opaque : Word .opaqueType ['o', 'p', 'a', 'q', 'u', 'e'] :=
  word_last (.tail _ (.tail _ (.head _)))

@[simp] theorem word_quotes : Word .stringLiteral ['"', '"'] := rules_checked.2.2.2.2

/-- Every word is read as such, except that nothing is known of the names and the floats. -/
def Written (ts : List Node) : Prop :=
  ∀ tok ∈ ParseTree.yields ts, tok.kind ∉ [.id, .float] → Word tok.kind tok.text

@[simp] theorem written_nil : Written [] := nofun

@[simp] theorem written_append {ts us : List Node} :
    Written (ts ++ us) ↔ Written ts ∧ Written us := by
  simp only [Written, ParseTree.yields_append, List.forall_mem_append]

theorem written_cons {t : Node} {ts : List Node} :
    Written (t :: ts) ↔ Written [t] ∧ Written ts :=
  @written_append [t] ts

section Cons

variable {ts us : List Node}

theorem written_cons_iff {t : Node} (h : Written [t]) : Written (t :: us) ↔ Written us :=
  written_cons.trans (and_iff_right h)

@[simp] theorem written_rule {r : Rule} {l : Label} :
    Written (rule r l ts :: us) ↔ Written ts ∧ Written us := by
  have inside : Written [rule r l ts] ↔ Written ts := by
    simp [Written, ParseTree.yields, rule, ParseTree.yield]
  rw [written_cons, inside]

@[simp] theorem written_word {k : Kind} {text : Text} (h : Word k text) :
    Written (word k text :: us) ↔ Written us := by
  refine written_cons_iff fun tok member _ => ?_
  cases List.mem_singleton.mp member
  exact h

@[simp] theorem written_lit {s : String} (h : s ∈ literals) :
    Written (lit s :: us) ↔ Written us :=
  written_word (word_literal h)

theorem written_other {k : Kind} (other : k ∈ [.id, .float]) (text : Text) :
    Written (word k text :: us) ↔ Written us := by
  refine written_cons_iff fun tok member asked => ?_
  cases List.mem_singleton.mp member
  exact absurd other asked

@[simp] theorem written_ident (x : String) : Written (ident x :: us) ↔ Written us :=
  written_other (by simp) _

end Cons

theorem written_flatMap {α : Type} {f : α → List Node} {xs : List α}
    (h : ∀ x ∈ xs, Written (f x)) : Written (xs.flatMap f) := by
  induction xs with
  | nil => exact written_nil
  | cons x xs ih =>
    obtain ⟨first, rest⟩ := List.forall_mem_cons.mp h
    exact written_append.mpr ⟨first, ih rest⟩

theorem written_map {α : Type} {f : α → Node} {xs : List α}
    (h : ∀ x ∈ xs, Written [f x]) : Written (xs.map f) :=
  List.map_eq_flatMap ▸ written_flatMap h

theorem written_joined {tss : List (List Node)} (h : ∀ ts ∈ tss, Written ts) :
    Written (joined tss) := by
  cases tss with
  | nil => exact written_nil
  | cons ts tss =>
    obtain ⟨first, rest⟩ := List.forall_mem_cons.mp h
    refine written_append.mpr ⟨first, written_flatMap fun us member => ?_⟩
    exact (written_lit (by simp [literals])).mpr (rest us member)

theorem written_trees {ts : List Node} (h : ∀ t ∈ ts, Written [t]) : Written (separated ts) := by
  refine written_joined fun us member => ?_
  obtain ⟨t, inside, rfl⟩ := List.mem_map.mp member
  exact h t inside

theorem written_separated {α : Type} {f : α → Node} {xs : List α}
    (h : ∀ x ∈ xs, Written [f x]) : Written (separated (xs.map f)) :=
  written_trees (List.forall_mem_map.mpr h)

theorem written_enclosed {o c : String} (opens : o ∈ literals) (closes : c ∈ literals)
    {ts : List Node} : Written (lit o :: (ts ++ [lit c])) ↔ Written ts := by
  rw [written_lit opens, written_append, written_lit closes]
  simp

@[simp] theorem written_braced {ts : List Node} : Written (braced ts) ↔ Written ts :=
  written_enclosed (by simp [literals]) (by simp [literals])

@[simp] theorem written_parens {ts : List Node} : Written (parens ts) ↔ Written ts :=
  written_enclosed (by simp [literals]) (by simp [literals])

@[simp] theorem written_bracketed {ts : List Node} : Written (bracketed ts) ↔ Written ts :=
  written_enclosed (by simp [literals]) (by simp [literals])

variable {conv : FloatConv} {floatText : FloatValue → Text}

theorem written_primValue (c : PrimValue) : Written [primValue floatText c] := by
  cases c with
  | int c => simp [primValue]
  | float v => simp [primValue, written_other]
  | bool b => cases b <;> simp [primValue, literals]
  | unit => simp [primValue]

@[simp] theorem written_subExp (se : SubExp) (us : List Node) :
    Written (subExp floatText se :: us) ↔ Written us := by
  refine written_cons_iff ?_
  cases se with
  | const c => simpa [subExp] using written_primValue c
  | var x => simp [subExp]

@[simp] theorem written_subExps (ses : List SubExp) : Written (subExps floatText ses) :=
  written_separated fun se _ => by simp

@[simp] theorem written_primType (t : PrimType) (us : List Node) :
    Written (primType t :: us) ↔ Written us := by
  refine written_cons_iff ?_
  cases t <;> simp [primType, literals]

@[simp] theorem written_extShape (dims : List SubExp) (us : List Node) :
    Written (extShape floatText dims :: us) ↔ Written us := by
  refine written_cons_iff ?_
  cases dims with
  | nil => simp [extShape]
  | cons d ds => simpa [extShape] using written_flatMap fun d _ => by simp

@[simp] theorem written_ty (t : Ty) (us : List Node) :
    Written (ty floatText t :: us) ↔ Written us := by
  refine written_cons_iff ?_
  unfold ty
  split <;> simp [literals]

@[simp] theorem written_tys (ts : List Ty) : Written (tys floatText ts) :=
  written_separated fun t _ => by simp

@[simp] theorem written_types (ts : List Ty) (us : List Node) :
    Written (types floatText ts :: us) ↔ Written us := by
  simp [types]

@[simp] theorem written_typed (r : Rule) (name : VName) (t : Ty) (us : List Node) :
    Written (typed floatText r name t :: us) ↔ Written us := by
  simp [typed, literals]

@[simp] theorem written_params (r : Rule) (ps : List Param) : Written (params floatText r ps) :=
  written_separated fun p _ => by simp

@[simp] theorem written_pat (es : List PatElem) (us : List Node) :
    Written (pat floatText es :: us) ↔ Written us := by
  have elems : Written (separated (es.map fun e => typed floatText .pPatElem e.name e.ty)) :=
    written_separated fun e _ => by simp
  simp [pat, elems]

@[simp] theorem written_dimIndex (d : DimIndex) (us : List Node) :
    Written (dimIndex floatText d :: us) ↔ Written us := by
  refine written_cons_iff ?_
  cases d <;> simp [dimIndex, literals]

@[simp] theorem written_numbers (ns : List Nat) : Written (numbers ns) :=
  written_separated fun n _ => by simp

@[simp] theorem written_operands (ses : List SubExp) : Written (operands floatText ses) := by
  simp [operands]

theorem convParts_literal (op : ConvOp) : (convParts op).1 ∈ literals := by
  cases op <;> simp [convParts, literals]

theorem written_basicOp {op : BasicOp} (h : Expressible.basicOp conv floatText op = true) :
    Written [basicOp floatText op] := by
  cases op with
  | cmpOp op a b =>
    obtain ⟨known, _⟩ := Bool.and_eq_true_iff.mp h
    simp [basicOp, word_cmpOp known]
  | convOp op a => simp [basicOp, written_lit (convParts_literal op), literals]
  | concat dim arrs total =>
    rw [basicOp, written_rule, written_word (word_concat dim)]
    simp
  | index arr dims =>
    have places : Written (separated (dims.map (dimIndex floatText))) :=
      written_separated fun d _ => by simp
    simp [basicOp, places]
  | scratch t dims =>
    have sizes : Written (dims.flatMap fun d => [lit ",", subExp floatText d]) :=
      written_flatMap fun d _ => by simp [literals]
    simp [basicOp, literals, sizes]
  | _ => simp [basicOp, literals, quotes]

@[simp] theorem written_apply (fname : String) (args : List SubExp) (retTypes : List Ty)
    (us : List Node) : Written (apply floatText fname args retTypes :: us) ↔ Written us := by
  simp [apply, literals]

@[simp] theorem written_loopForm (form : LoopForm) (us : List Node) :
    Written (loopForm floatText form :: us) ↔ Written us := by
  refine written_cons_iff ?_
  cases form <;> simp [loopForm, literals]

@[simp] theorem written_segLevel (lvl : SegLevel) (us : List Node) :
    Written (segLevel lvl :: us) ↔ Written us := by
  refine written_cons_iff ?_
  cases lvl <;> simp [segLevel, literals]

@[simp] theorem written_segSpace (space : SegSpace) (us : List Node) :
    Written (segSpace floatText space :: us) ↔ Written us := by
  have dims : Written (joined (space.dims.map fun d =>
      [ident d.1, lit "<", subExp floatText d.2])) := by
    refine written_joined fun ts member => ?_
    obtain ⟨d, _, rfl⟩ := List.mem_map.mp member
    simp [literals]
  simp [segSpace, dims, literals]

section Contexts

variable {ss us : List Node}

@[simp] theorem written_body (result : List SubExp) :
    Written (body floatText ss result :: us) ↔ Written ss ∧ Written us := by
  simp [body, literals]

@[simp] theorem written_caseBody (result : List SubExp) :
    Written (caseBody floatText ss result :: us) ↔ Written ss ∧ Written us := by
  simp [caseBody, literals]

@[simp] theorem written_kernelBody (result : List SubExp) :
    Written (kernelBody floatText ss result :: us) ↔ Written ss ∧ Written us := by
  have returns : Written (joined (result.map fun se => [lit "returns", subExp floatText se])) := by
    refine written_joined fun ts member => ?_
    obtain ⟨se, _, rfl⟩ := List.mem_map.mp member
    simp [literals]
  simp [kernelBody, literals, returns]

@[simp] theorem written_lambdaNode (ps : List Param) (ret : List Ty) (inner : Node) :
    Written (lambdaNode floatText ps ret inner :: us) ↔ Written [inner] ∧ Written us := by
  simp [lambdaNode, literals]

@[simp] theorem written_segHead {keyword : String} (known : keyword ∈ literals) (lvl : SegLevel)
    (space : SegSpace) (ret : List Ty) (kernel : Node) :
    Written (segHead floatText keyword lvl space ret kernel) ↔ Written [kernel] := by
  simp [segHead, literals, known]

end Contexts

mutual

theorem written_stm : (s : Stm) → Expressible.stm conv floatText s = true →
    Written [stm floatText s]
  | .mk es e, h => by
    obtain ⟨_, value⟩ := Bool.and_eq_true_iff.mp h
    simpa [stm, literals] using written_exp e value

theorem written_stms : (ss : List Stm) → Expressible.stms conv floatText ss = true →
    Written (stms floatText ss)
  | [], _ => written_nil
  | s :: rest, h => by
    obtain ⟨first, others⟩ := Bool.and_eq_true_iff.mp h
    exact written_cons.mpr ⟨written_stm s first, written_stms rest others⟩

theorem written_exp : (e : Exp) → Expressible.exp conv floatText e = true →
    Written [exp floatText e]
  | .basicOp op, h => by
    have inside : Written [basicOp floatText op] := written_basicOp h
    simpa [exp] using inside
  | .apply fname args retTypes, _ => by simp [exp]
  | .hostOp op, h => by
    rw [exp]
    exact written_hostOp op h
  | .subExp se, _ => by simp [exp]
  | .ite cond (.mk thenStms thenResult) (.mk elseStms elseResult) retType, h => by
    simp only [Expressible.exp, Expressible.body, Bool.and_eq_true] at h
    obtain ⟨⟨⟨_, thenOk, _⟩, elseOk, _⟩, _⟩ := h
    simp [exp, literals, written_stms thenStms thenOk, written_stms elseStms elseOk]
  | .loop merge form (.mk ss result), h => by
    simp only [Expressible.exp, Expressible.body, Bool.and_eq_true] at h
    obtain ⟨_, stmsOk, _⟩ := h
    simp [exp, literals, written_stms ss stmsOk]

theorem written_hostOp : (op : HostOp) → Expressible.hostOp conv floatText op = true →
    Written [hostOp floatText op]
  | .segOp op, h => by
    simpa [hostOp] using written_segOp op h
  | .sizeOp, _ => by simp [hostOp, literals]
  | .gpuBody, _ => by simp [hostOp, literals]

theorem written_lambda : (l : Lambda) → Expressible.lambda conv floatText l = true →
    Written [lambda floatText l]
  | .mk ps ret (.mk ss result), h => by
    simp only [Expressible.lambda, Expressible.body, Bool.and_eq_true] at h
    obtain ⟨_, stmsOk, _⟩ := h
    simp [lambda, written_stms ss stmsOk]

theorem written_segBinOps : (ops : List SegBinOp) →
    Expressible.segBinOps conv floatText ops = true →
    ∀ t ∈ segBinOps floatText ops, Written [t]
  | [], _ => nofun
  | .mk op neutral shape :: rest, h => by
    simp only [Expressible.segBinOps, Expressible.segBinOp, Bool.and_eq_true] at h
    obtain ⟨⟨⟨lambdaOk, _⟩, _⟩, others⟩ := h
    refine List.forall_mem_cons.mpr ⟨?_, written_segBinOps rest others⟩
    simp [segBinOp, literals, written_lambda op lambdaOk]

theorem written_histOps : (ops : List HistOp) → Expressible.histOps conv floatText ops = true →
    ∀ t ∈ histOps floatText ops, Written [t]
  | [], _ => nofun
  | .mk dest op :: rest, h => by
    simp only [Expressible.histOps, Expressible.histOp, Bool.and_eq_true] at h
    obtain ⟨lambdaOk, others⟩ := h
    refine List.forall_mem_cons.mpr ⟨?_, written_histOps rest others⟩
    simp [histOp, literals, written_lambda op lambdaOk]

theorem written_segOp : (op : SegOp) → Expressible.segOp conv floatText op = true →
    Written [segOp floatText op]
  | .segMap lvl space ret (.mk ss result), h => by
    simp only [Expressible.segOp, Expressible.body, Bool.and_eq_true] at h
    obtain ⟨_, stmsOk, _⟩ := h
    simp [segOp, literals, written_stms ss stmsOk]
  | .segRed lvl space ret (.mk ss result) ops, h => by
    simp only [Expressible.segOp, Expressible.body, Bool.and_eq_true] at h
    obtain ⟨⟨⟨_, stmsOk, _⟩, _⟩, opsOk⟩ := h
    simp [segOp, literals, written_stms ss stmsOk,
      written_trees (written_segBinOps ops opsOk)]
  | .segScan lvl space ret (.mk ss result) ops postOp, h => by
    simp only [Expressible.segOp, Expressible.body, Bool.and_eq_true] at h
    obtain ⟨⟨⟨⟨_, stmsOk, _⟩, _⟩, opsOk⟩, postOk⟩ := h
    simp [segOp, literals, written_stms ss stmsOk,
      written_trees (written_segBinOps ops opsOk), written_lambda postOp postOk]
  | .segHist lvl space ret (.mk ss result) ops, h => by
    simp only [Expressible.segOp, Expressible.body, Bool.and_eq_true] at h
    obtain ⟨⟨⟨_, stmsOk, _⟩, _⟩, opsOk⟩ := h
    simp [segOp, literals, written_stms ss stmsOk,
      written_trees (written_histOps ops opsOk)]

end

@[simp] theorem written_attr (a : Attr) (us : List Node) :
    Written (attr a :: us) ↔ Written us := by
  refine written_cons_iff ?_
  cases a with
  | atom name => simp [attr, literals]
  | comp name args =>
    have names : Written (separated (args.map fun arg => word .id (atomText arg))) :=
      written_separated fun arg _ => by simp [written_other]
    simp [attr, literals, names]
  | int i => simp [attr]

theorem written_funDef {f : FunDef} (h : Expressible.funDef conv floatText f = true) :
    Written [funDef floatText f] := by
  simp only [Expressible.funDef, Bool.and_eq_true] at h
  obtain ⟨entryPoint, attrs, name, retType, ps, ⟨ss, result⟩⟩ := f
  obtain ⟨_, stmsOk, _⟩ : _ ∧ _ := by simpa only [Expressible.body, Bool.and_eq_true] using h
  have attrsOk : Written (attrs.map attr) := written_map fun a _ => by simp
  cases entryPoint <;>
    simp [funDef, entry, quotes, literals, attrsOk, Body.stms, Body.result, written_stms ss stmsOk]

/-- The words of a program, without the end of the file. -/
def tokens (floatText : FloatValue → Text) (p : Prog) : List Token :=
  ParseTree.yields (stms floatText p.consts ++ p.funs.map (funDef floatText))

theorem prog_yield (p : Prog) :
    (prog floatText p).yield = tokens floatText p ++ [⟨.eof, []⟩] := by
  rw [prog, rule, ParseTree.yield, ← List.append_assoc, ParseTree.yields_append, tokens]
  rfl

theorem written_tokens {p : Prog} (h : Expressible.prog conv floatText p = true) :
    ∀ tok ∈ tokens floatText p, tok.kind ∉ [.id, .float] → Word tok.kind tok.text := by
  simp only [Expressible.prog, Bool.and_eq_true] at h
  obtain ⟨⟨constsOk, _⟩, funsOk⟩ := h
  have funs : Written (p.funs.map (funDef floatText)) :=
    written_map fun f member => written_funDef (List.all_eq_true.mp funsOk f member)
  exact written_append.mpr ⟨written_stms p.consts constsOk, funs⟩

def text (floatText : FloatValue → Text) (p : Prog) : Text :=
  (tokens floatText p).flatMap fun tok => tok.text ++ [' ']

/-- Every name is an `ID` and every float a `FLOAT`, and no rule before them matches it. -/
def Named (floatText : FloatValue → Text) (p : Prog) : Prop :=
  ∀ tok ∈ tokens floatText p, tok.kind = .id ∨ tok.kind = .float →
    kindOf tok.text = some (some tok.kind)

instance (floatText : FloatValue → Text) (p : Prog) : Decidable (Named floatText p) :=
  inferInstanceAs (Decidable (∀ tok ∈ tokens floatText p, _))

theorem lexTokens_text {p : Prog} (h : Expressible.prog conv floatText p = true)
    (named : Named floatText p) :
    lexTokens (text floatText p) = some (prog floatText p).yield := by
  have words : ∀ w ∈ (tokens floatText p).map (fun tok => (tok.kind, tok.text)),
      Word w.1 w.2 := by
    intro w member
    obtain ⟨tok, inside, rfl⟩ := List.mem_map.mp member
    by_cases other : tok.kind ∈ [.id, .float]
    · have kind : tok.kind = .id ∨ tok.kind = .float := by simpa using other
      exact word_named kind (named tok inside kind)
    · exact written_tokens h tok inside other
  have same : text floatText p =
      Lexer.write ' ' ((tokens floatText p).map fun tok => (tok.kind, tok.text)) := by
    rw [text, Lexer.write, List.flatMap_map]
  have back : ((tokens floatText p).map fun tok => (tok.kind, tok.text)).map
      (fun w => (⟨w.1, w.2⟩ : Token)) = tokens floatText p := by
    rw [List.map_map]
    exact List.map_id' _
  rw [lexTokens, same, Lexer.lex_write blank_skipped words, prog_yield, Option.map_some, back]

end FutharkMlir.Unparse
