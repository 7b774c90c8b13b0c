import FutharkMlir.Syntax.Literals
import FutharkMlir.Lib.Except

/-! Operator tokens: a name with a width behind it, or a comparison for equality with a type
name. What the visitor makes of each, and for which tokens that is what they say. -/
namespace FutharkMlir

/-- The operators on integers, in the order of the visitor's tests. -/
def intBinOps : List (Text × (IntType → BinOp)) :=
  [("add".toList, (.add · .wrap)), ("add_nw".toList, (.add · .undef)),
    ("sub".toList, (.sub · .wrap)), ("sub_nw".toList, (.sub · .undef)),
    ("mul".toList, (.mul · .wrap)), ("mul_nw".toList, (.mul · .undef)),
    ("udiv".toList, .udiv), ("udiv_up".toList, .udivUp), ("sdiv".toList, .sdiv),
    ("sdiv_up".toList, .sdivUp), ("umod".toList, .umod), ("smod".toList, .smod),
    ("squot".toList, .squot), ("srem".toList, .srem), ("smin".toList, .smin),
    ("umin".toList, .umin), ("smax".toList, .smax), ("umax".toList, .umax),
    ("shl".toList, .shl), ("lshr".toList, .lshr), ("ashr".toList, .ashr),
    ("and".toList, .and), ("or".toList, .or), ("xor".toList, .xor), ("pow".toList, .pow)]

def floatBinOps : List (Text × (FloatType → BinOp)) :=
  [("fadd".toList, .fadd), ("fsub".toList, .fsub), ("fmul".toList, .fmul),
    ("fdiv".toList, .fdiv), ("fmod".toList, .fmod), ("fmin".toList, .fmin),
    ("fmax".toList, .fmax), ("fpow".toList, .fpow)]

/-- The ordered comparisons, which are tested for as prefixes. -/
def intCmpOps : List (Text × (IntType → CmpOp)) :=
  [("slt".toList, .slt), ("sle".toList, .sle), ("ult".toList, .ult), ("ule".toList, .ule)]

def floatCmpOps : List (Text × (FloatType → CmpOp)) :=
  [("lt".toList, .flt), ("le".toList, .fle)]

def notDigit (c : Char) : Bool := !c.isDigit

/-- The types that `VisitBinOp` takes a width for; every other one means the narrowest. -/
def binIntType (width : Int) : IntType :=
  if width = 16 then .int16 else if width = 32 then .int32
  else if width = 64 then .int64 else .int8

def binFloatType (width : Int) : FloatType :=
  if width = 32 then .float32 else if width = 64 then .float64 else .float16

/-- The types that `VisitCmpOp` takes a width for; every other one means the widest. -/
def cmpIntType (width : Int) : IntType :=
  if width = 8 then .int8 else if width = 16 then .int16
  else if width = 32 then .int32 else .int64

def cmpFloatType (width : Int) : FloatType :=
  if width = 16 then .float16 else if width = 32 then .float32 else .float64

/-- `PrimType::Int`, which leaves the type uninitialised for any other width. -/
def primTypeInt (width : Int) : Except Err PrimType :=
  if width = 8 then .ok (.int .int8) else if width = 16 then .ok (.int .int16)
  else if width = 32 then .ok (.int .int32) else if width = 64 then .ok (.int .int64)
  else .error .ub

def primTypeFloat (width : Int) : Except Err PrimType :=
  if width = 16 then .ok (.float .float16) else if width = 32 then .ok (.float .float32)
  else if width = 64 then .ok (.float .float64) else .error .ub

/-- `VisitBinOp`: the name goes up to the first digit. -/
def visitBinOp (str : Text) : Except Err BinOp :=
  let name := str.takeWhile notDigit
  if name = "logand".toList then .ok .logAnd
  else if name = "logor".toList then .ok .logOr
  else do
    let width ← stoi (str.dropWhile notDigit)
    match intBinOps.lookup name with
    | some make => return make (binIntType width)
    | none =>
      match floatBinOps.lookup name with
      | some make => return make (binFloatType width)
      | none => .error .undefined

def cmpWidth (str : Text) : Except Err Int :=
  match str.dropWhile notDigit with
  | [] => .ok 0
  | rest => stoi rest

def visitCmpOp (str : Text) : Except Err CmpOp := do
  let width ← cmpWidth str
  if "eq_".toList <+: str then
    if "bool".toList <:+: str then return .eq .bool
    else if 'f' ∈ str then .eq <$> primTypeFloat width
    else .eq <$> primTypeInt width
  else
    match intCmpOps.find? fun p => p.1.isPrefixOf str with
    | some p => return p.2 (cmpIntType width)
    | none =>
      match floatCmpOps.find? fun p => p.1.isPrefixOf str with
      | some p => return p.2 (cmpFloatType width)
      | none => .error .undefined

def widthText (n : Nat) : Text := Text.natText n

def BinOp.text : BinOp → Text
  | .add t .wrap => "add".toList ++ widthText t.getWidth
  | .add t .undef => "add_nw".toList ++ widthText t.getWidth
  | .fadd t => "fadd".toList ++ widthText t.getWidth
  | .sub t .wrap => "sub".toList ++ widthText t.getWidth
  | .sub t .undef => "sub_nw".toList ++ widthText t.getWidth
  | .fsub t => "fsub".toList ++ widthText t.getWidth
  | .mul t .wrap => "mul".toList ++ widthText t.getWidth
  | .mul t .undef => "mul_nw".toList ++ widthText t.getWidth
  | .fmul t => "fmul".toList ++ widthText t.getWidth
  | .udiv t => "udiv".toList ++ widthText t.getWidth
  | .udivUp t => "udiv_up".toList ++ widthText t.getWidth
  | .sdiv t => "sdiv".toList ++ widthText t.getWidth
  | .sdivUp t => "sdiv_up".toList ++ widthText t.getWidth
  | .fdiv t => "fdiv".toList ++ widthText t.getWidth
  | .fmod t => "fmod".toList ++ widthText t.getWidth
  | .umod t => "umod".toList ++ widthText t.getWidth
  | .smod t => "smod".toList ++ widthText t.getWidth
  | .squot t => "squot".toList ++ widthText t.getWidth
  | .srem t => "srem".toList ++ widthText t.getWidth
  | .smin t => "smin".toList ++ widthText t.getWidth
  | .umin t => "umin".toList ++ widthText t.getWidth
  | .fmin t => "fmin".toList ++ widthText t.getWidth
  | .smax t => "smax".toList ++ widthText t.getWidth
  | .umax t => "umax".toList ++ widthText t.getWidth
  | .fmax t => "fmax".toList ++ widthText t.getWidth
  | .shl t => "shl".toList ++ widthText t.getWidth
  | .lshr t => "lshr".toList ++ widthText t.getWidth
  | .ashr t => "ashr".toList ++ widthText t.getWidth
  | .and t => "and".toList ++ widthText t.getWidth
  | .or t => "or".toList ++ widthText t.getWidth
  | .xor t => "xor".toList ++ widthText t.getWidth
  | .pow t => "pow".toList ++ widthText t.getWidth
  | .fpow t => "fpow".toList ++ widthText t.getWidth
  | .logAnd => "logand".toList
  | .logOr => "logor".toList

def PrimType.text : PrimType → Text
  | .int t => 'i' :: widthText t.getWidth
  | .float t => 'f' :: widthText t.getWidth
  | .bool => "bool".toList
  | .unit => "()".toList

def CmpOp.text : CmpOp → Text
  | .eq t => "eq_".toList ++ t.text
  | .ult t => "ult".toList ++ widthText t.getWidth
  | .ule t => "ule".toList ++ widthText t.getWidth
  | .slt t => "slt".toList ++ widthText t.getWidth
  | .sle t => "sle".toList ++ widthText t.getWidth
  | .flt t => "lt".toList ++ widthText t.getWidth
  | .fle t => "le".toList ++ widthText t.getWidth
  | .llt => "llt".toList
  | .lle => "lle".toList

def PrimType.named : List PrimType :=
  [.int .int8, .int .int16, .int .int32, .int .int64, .float .float16, .float .float32,
    .float .float64, .bool]

def isLower (c : Char) : Bool := 'a' ≤ c && c ≤ 'z'

inductive Opcode where
  | intBin (name : Text) (make : IntType → BinOp) (known : (name, make) ∈ intBinOps)
      (n : NumberToken)
  | floatBin (name : Text) (make : FloatType → BinOp) (known : (name, make) ∈ floatBinOps)
      (n : NumberToken)
  | logAnd
  | logOr
  | intCmp (name : Text) (make : IntType → CmpOp) (known : (name, make) ∈ intCmpOps)
      (n : NumberToken)
  | floatCmp (name : Text) (make : FloatType → CmpOp) (known : (name, make) ∈ floatCmpOps)
      (n : NumberToken)
  | eq (c : Char) (rest : Text) (lower : isLower c = true)
      (all : ∀ d ∈ rest, (isLower d || d.isDigit) = true)

/-- The visitor of the token `name ++ n` answers with the operator of that name at the type of
that width, spelled like the token, and throws where no type has the width. -/
def Decodes {κ α : Type} (visit : Text → Except Err α) (make : κ → α) (width : κ → Nat)
    (spell : α → Text) (name : Text) (n : NumberToken) : Prop :=
  (∀ op, visit (name ++ n.text) = .ok op →
    ∃ t, op = make t ∧ (width t : Int) = n.value ∧ spell op = name ++ n.text) ∧
  ((∀ t, (width t : Int) ≠ n.value) → ∃ e, visit (name ++ n.text) = .error e ∧ e ≠ .ub)

/-- What is expected of the visitors, token by token. -/
def Opcode.Decoded : Opcode → Prop
  | .intBin name make _ n => Decodes visitBinOp make IntType.getWidth BinOp.text name n
  | .floatBin name make _ n => Decodes visitBinOp make FloatType.getWidth BinOp.text name n
  | .logAnd => visitBinOp BinOp.logAnd.text = .ok .logAnd
  | .logOr => visitBinOp BinOp.logOr.text = .ok .logOr
  | .intCmp name make _ n => Decodes visitCmpOp make IntType.getWidth CmpOp.text name n
  | .floatCmp name make _ n => Decodes visitCmpOp make FloatType.getWidth CmpOp.text name n
  | .eq c rest _ _ =>
    (∀ op, visitCmpOp ("eq_".toList ++ c :: rest) = .ok op →
      ∃ t, op = .eq t ∧ op.text = "eq_".toList ++ c :: rest) ∧
    ((∀ t ∈ PrimType.named, t.text ≠ c :: rest) →
      ∃ e, visitCmpOp ("eq_".toList ++ c :: rest) = .error e ∧ e ≠ .ub)

def Canonical {κ : Type} (width : κ → Nat) (n : NumberToken) : Prop :=
  ∃ t, n.text = widthText (width t)

def NumberToken.Huge (n : NumberToken) : Prop := n.hex = false ∧ 2 ^ 31 ≤ n.magnitude

/-- The first number in a type name is too large for `std::stoi`. -/
def HugeWidth (name : Text) : Prop :=
  ∃ m, decimalPrefix (name.dropWhile notDigit) = some m ∧ 2 ^ 31 ≤ m

/-- The tokens that the visitors read, or refuse, as they should. -/
def Opcode.Readable : Opcode → Prop
  | .intBin _ _ _ n => Canonical IntType.getWidth n ∨ n.negative = true ∨ n.Huge
  | .floatBin _ _ _ n => Canonical FloatType.getWidth n ∨ n.negative = true ∨ n.Huge
  | .logAnd => True
  | .logOr => True
  | .intCmp _ _ _ n => Canonical IntType.getWidth n ∨ n.Huge
  | .floatCmp _ _ _ n => Canonical FloatType.getWidth n ∨ n.Huge
  | .eq c rest _ _ => (∃ t ∈ PrimType.named, t.text = c :: rest) ∨ HugeWidth (c :: rest)

def NumberToken.positive (n : NumberToken) : NumberToken := { n with negative := false }

theorem NumberToken.positive_text (n : NumberToken) : n.positive.text = n.unsigned := rfl

theorem NumberToken.unsigned_head (n : NumberToken) :
    ∃ c r, n.unsigned = c :: r ∧ c.isDigit = true := by
  obtain ⟨negative, hex, digits, nonempty, all⟩ := n
  cases hex with
  | true => exact ⟨'0', 'x' :: digits, rfl, by decide⟩
  | false =>
    obtain ⟨c, ds, rfl⟩ := List.exists_cons_of_ne_nil nonempty
    exact ⟨c, ds, rfl, by simpa using all c (by simp)⟩

theorem span_name {name : Text} (plain : name.all notDigit = true) (n : NumberToken) :
    (name ++ n.text).takeWhile notDigit = name ++ signText n.negative ∧
      (name ++ n.text).dropWhile notDigit = n.unsigned := by
  obtain ⟨c, r, eq, digit⟩ := n.unsigned_head
  have head : ∀ d ∈ name ++ signText n.negative, notDigit d = true := by
    intro d hd
    rcases List.mem_append.mp hd with hd | hd
    · exact List.all_eq_true.mp plain d hd
    · unfold signText at hd
      split at hd
      · cases List.mem_singleton.mp hd
        decide
      · cases hd
  have stop : notDigit c = false := by simp [notDigit, digit]
  rw [NumberToken.text, ← List.append_assoc, eq]
  constructor
  · rw [List.takeWhile_append_of_pos head]
    simp [stop]
  · rw [List.dropWhile_append_of_pos head]
    simp [stop]

theorem stoi_unsigned (n : NumberToken) :
    stoi n.unsigned = if n.hex then .ok 0
      else if n.magnitude < 2 ^ 31 then .ok (n.magnitude : Int) else .error .outOfRange := by
  have zero : stringToInt 32 ['0'] = .ok 0 := by decide +kernel
  have value : n.positive.value = n.magnitude := rfl
  rw [← n.positive_text, stoi, stringToInt_number, zero, value]
  have range : (-2 ^ (32 - 1) ≤ (n.magnitude : Int) ∧ (n.magnitude : Int) < 2 ^ (32 - 1)) ↔
      n.magnitude < 2 ^ 31 := by omega
  simp only [range]
  rfl

/-- A token that is spelled like a width has that width for its value. -/
theorem canonical_value {n : NumberToken} {w : Nat} (h : n.text = widthText w) :
    n.hex = false ∧ n.negative = false ∧ n.magnitude = w := by
  obtain ⟨negative, hex, digits, nonempty, all⟩ := n
  have only : ∀ c ∈ NumberToken.text ⟨negative, hex, digits, nonempty, all⟩,
      c.isDigit = true := by
    rw [h]
    exact (Text.isDecimal_natText w).2
  cases hex with
  | true => exact absurd (only 'x' (by simp [NumberToken.text, NumberToken.unsigned])) (by decide)
  | false =>
    cases negative with
    | true => exact absurd (only '-' (by simp [NumberToken.text, signText])) (by decide)
    | false =>
      have same : digits = widthText w := h
      refine ⟨rfl, rfl, ?_⟩
      simp only [NumberToken.magnitude, Bool.false_eq_true, if_false, same]
      exact Nat.ofDigitChars_ten_toDigits

theorem decodes_iff {κ α : Type} {visit : Text → Except Err α} {make : κ → α} {width : κ → Nat}
    {spell : α → Text} {name : Text} {n : NumberToken} {typeOf : Int → κ}
    (visits : visit (name ++ n.text) = (stoi n.unsigned).map fun w => make (typeOf w))
    (reads : ∀ t, typeOf (width t) = t) (small : ∀ t, width t < 2 ^ 31)
    (spells : ∀ t, spell (make t) = name ++ widthText (width t)) :
    Decodes visit make width spell name n ↔ Canonical width n ∨ n.Huge := by
  have number := stoi_unsigned n
  constructor
  · rintro ⟨answers, _⟩
    by_cases huge : n.Huge
    · exact .inr huge
    · left
      obtain ⟨w, read⟩ : ∃ w, stoi n.unsigned = .ok w := by
        cases hex : n.hex with
        | true => exact ⟨0, by simpa [hex] using number⟩
        | false =>
          have bound : n.magnitude < 2 ^ 31 := by
            by_contra big
            exact huge ⟨hex, by omega⟩
          rw [hex, if_neg (by decide), if_pos bound] at number
          exact ⟨n.magnitude, number⟩
      rw [read] at visits
      obtain ⟨_, _, _, spelled⟩ := answers _ visits
      rw [spells] at spelled
      exact ⟨_, (List.append_cancel_left spelled).symm⟩
  · rintro (⟨t, text⟩ | ⟨hex, big⟩)
    · obtain ⟨hex, positive, magnitude⟩ := canonical_value text
      have bound := small t
      rw [hex, magnitude, if_neg (by decide), if_pos bound] at number
      have value : n.value = width t := by
        rw [NumberToken.value, positive, magnitude]
        rfl
      rw [number, Except.map, reads] at visits
      constructor
      · intro op run
        rw [visits] at run
        cases run
        refine ⟨t, rfl, value.symm, ?_⟩
        rw [spells, text]
      · intro none
        exact absurd value.symm (none t)
    · rw [hex, if_neg (by decide), if_neg (by omega)] at number
      rw [number] at visits
      constructor
      · intro op run
        rw [visits] at run
        cases run
      · intro _
        exact ⟨.outOfRange, visits, by decide⟩

theorem decodes_throws {κ α : Type} {visit : Text → Except Err α} {make : κ → α}
    {width : κ → Nat} {spell : α → Text} {name : Text} {n : NumberToken} {e : Err}
    (throws : visit (name ++ n.text) = .error e) (defined : e ≠ .ub) :
    Decodes visit make width spell name n := by
  constructor
  · intro op run
    rw [throws] at run
    cases run
  · intro _
    exact ⟨e, throws, defined⟩

theorem lookup_of_mem {κ α : Type} [BEq κ] [LawfulBEq κ] {table : List (κ × α)} {k : κ} {a : α}
    (nodup : (table.map Prod.fst).Nodup) (h : (k, a) ∈ table) : table.lookup k = some a := by
  induction table with
  | nil => cases h
  | cons p table ih =>
    obtain ⟨k', a'⟩ := p
    rw [List.map_cons, List.nodup_cons] at nodup
    rcases List.mem_cons.mp h with eq | later
    · cases eq
      exact List.lookup_cons_self
    · have member : k ∈ table.map Prod.fst := List.mem_map_of_mem later
      have ne : k ≠ k' := by
        rintro rfl
        exact nodup.1 member
      rw [List.lookup_cons, beq_false_of_ne ne]
      exact ih nodup.2 later

theorem binNames_nodup :
    ((intBinOps.map Prod.fst) ++ (floatBinOps.map Prod.fst)).Nodup := by decide +kernel

/-- Names have no digit and no sign, and none is a logical operator. -/
def isName (name : Text) : Bool :=
  name.all notDigit && !name.contains '-' && name != "logand".toList && name != "logor".toList

theorem binNames : ((intBinOps.map Prod.fst) ++ (floatBinOps.map Prod.fst)).all isName = true :=
  rfl

theorem cmpNames : ((intCmpOps.map Prod.fst) ++ (floatCmpOps.map Prod.fst)).all isName = true :=
  rfl

theorem isName_iff {name : Text} : isName name = true ↔
    name.all notDigit = true ∧ '-' ∉ name ∧ name ≠ "logand".toList ∧ name ≠ "logor".toList := by
  simp [isName, and_assoc]

theorem lookup_absent {κ α : Type} [BEq κ] [LawfulBEq κ] {table : List (κ × α)} {k : κ}
    (h : k ∉ table.map Prod.fst) : table.lookup k = none := by
  induction table with
  | nil => rfl
  | cons p table ih =>
    obtain ⟨k', a'⟩ := p
    rw [List.map_cons, List.mem_cons, not_or] at h
    rw [List.lookup_cons, beq_false_of_ne h.1]
    exact ih h.2

theorem signed_absent (name : Text) :
    name ++ ['-'] ∉ (intBinOps.map Prod.fst) ++ (floatBinOps.map Prod.fst) := by
  intro member
  have plain := isName_iff.mp (List.all_eq_true.mp binNames _ member)
  exact plain.2.1 (by simp)

section Visits

variable {name : Text} {n : NumberToken}

/-- A name with a sign behind it is none, whatever the number. -/
theorem visitBinOp_negative (plain : name.all notDigit = true) (negative : n.negative = true) :
    ∃ e, visitBinOp (name ++ n.text) = .error e ∧ e ≠ .ub := by
  obtain ⟨left, right⟩ := span_name plain n
  have absent := signed_absent name
  rw [List.mem_append, not_or] at absent
  have noAnd : name ++ ['-'] ≠ "logand".toList := by
    intro eq
    have last := congrArg List.getLast? eq
    simp [List.getLast?_append] at last
  have noOr : name ++ ['-'] ≠ "logor".toList := by
    intro eq
    have last := congrArg List.getLast? eq
    simp [List.getLast?_append] at last
  unfold visitBinOp
  simp only [left, right, signText, negative, if_true, if_neg noAnd, if_neg noOr,
    lookup_absent absent.1, lookup_absent absent.2]
  rw [stoi_unsigned]
  split
  · exact ⟨.undefined, rfl, by decide⟩
  · split
    · exact ⟨.undefined, rfl, by decide⟩
    · exact ⟨.outOfRange, rfl, by decide⟩

theorem visitBinOp_int {make : IntType → BinOp} (known : (name, make) ∈ intBinOps)
    (positive : n.negative = false) :
    visitBinOp (name ++ n.text) = (stoi n.unsigned).map fun w => make (binIntType w) := by
  have member : name ∈ intBinOps.map Prod.fst := List.mem_map_of_mem known
  obtain ⟨plain, _, noAnd, noOr⟩ :=
    isName_iff.mp (List.all_eq_true.mp binNames _ (List.mem_append_left _ member))
  obtain ⟨left, right⟩ := span_name plain n
  rw [signText, positive, if_neg (by decide), List.append_nil] at left
  have found := lookup_of_mem (List.nodup_append.mp binNames_nodup).1 known
  unfold visitBinOp
  simp only [left, right, if_neg noAnd, if_neg noOr, found]
  cases stoi n.unsigned <;> rfl

theorem visitBinOp_float {make : FloatType → BinOp} (known : (name, make) ∈ floatBinOps)
    (positive : n.negative = false) :
    visitBinOp (name ++ n.text) = (stoi n.unsigned).map fun w => make (binFloatType w) := by
  have member : name ∈ floatBinOps.map Prod.fst := List.mem_map_of_mem known
  obtain ⟨plain, _, noAnd, noOr⟩ :=
    isName_iff.mp (List.all_eq_true.mp binNames _ (List.mem_append_right _ member))
  obtain ⟨left, right⟩ := span_name plain n
  rw [signText, positive, if_neg (by decide), List.append_nil] at left
  obtain ⟨_, floats, apart⟩ := List.nodup_append.mp binNames_nodup
  have found := lookup_of_mem floats known
  have absent : name ∉ intBinOps.map Prod.fst := fun h => apart _ h _ member rfl
  unfold visitBinOp
  simp only [left, right, if_neg noAnd, if_neg noOr, lookup_absent absent, found]
  cases stoi n.unsigned <;> rfl

theorem cmpWidth_number (plain : name.all notDigit = true) :
    cmpWidth (name ++ n.text) = stoi n.unsigned := by
  obtain ⟨c, r, eq, _⟩ := n.unsigned_head
  unfold cmpWidth
  rw [(span_name plain n).2, eq]

theorem visitCmpOp_int {make : IntType → CmpOp} (known : (name, make) ∈ intCmpOps) :
    visitCmpOp (name ++ n.text) = (stoi n.unsigned).map fun w => make (cmpIntType w) := by
  have member : name ∈ intCmpOps.map Prod.fst := List.mem_map_of_mem known
  have plain := (isName_iff.mp (List.all_eq_true.mp cmpNames _ (List.mem_append_left _ member))).1
  unfold visitCmpOp
  rw [cmpWidth_number plain]
  simp only [intCmpOps, List.mem_cons, Prod.mk.injEq, List.not_mem_nil, or_false] at known
  -- the tests before the name's own fail at its first three characters
  rcases known with ⟨rfl, rfl⟩ | ⟨rfl, rfl⟩ | ⟨rfl, rfl⟩ | ⟨rfl, rfl⟩ <;>
    cases stoi n.unsigned <;> rfl

theorem visitCmpOp_float {make : FloatType → CmpOp} (known : (name, make) ∈ floatCmpOps) :
    visitCmpOp (name ++ n.text) = (stoi n.unsigned).map fun w => make (cmpFloatType w) := by
  have member : name ∈ floatCmpOps.map Prod.fst := List.mem_map_of_mem known
  have plain := (isName_iff.mp (List.all_eq_true.mp cmpNames _ (List.mem_append_right _ member))).1
  unfold visitCmpOp
  rw [cmpWidth_number plain]
  simp only [floatCmpOps, List.mem_cons, Prod.mk.injEq, List.not_mem_nil, or_false] at known
  rcases known with ⟨rfl, rfl⟩ | ⟨rfl, rfl⟩ <;> cases stoi n.unsigned <;> rfl

end Visits

theorem IntType.getWidth_small (t : IntType) : t.getWidth < 2 ^ 31 := by
  cases t <;> decide

theorem FloatType.getWidth_small (t : FloatType) : t.getWidth < 2 ^ 31 := by
  cases t <;> decide

theorem binIntType_getWidth (t : IntType) : binIntType t.getWidth = t := by
  cases t <;> decide

theorem binFloatType_getWidth (t : FloatType) : binFloatType t.getWidth = t := by
  cases t <;> decide

theorem cmpIntType_getWidth (t : IntType) : cmpIntType t.getWidth = t := by
  cases t <;> decide

theorem cmpFloatType_getWidth (t : FloatType) : cmpFloatType t.getWidth = t := by
  cases t <;> decide

/-- Every entry of a table makes operators that are spelled with its name and their width. -/
def spells {κ α : Type} (width : κ → Nat) (spell : α → Text) (table : List (Text × (κ → α)))
    (t : κ) : Bool :=
  table.all fun p => spell (p.2 t) == p.1 ++ widthText (width t)

theorem spells_iff {κ α : Type} {width : κ → Nat} {spell : α → Text}
    {table : List (Text × (κ → α))} {t : κ} : spells width spell table t = true ↔
      ∀ name make, (name, make) ∈ table → spell (make t) = name ++ widthText (width t) := by
  simp only [spells, List.all_eq_true, beq_iff_eq, Prod.forall]

theorem intBinOps_spells (t : IntType) : spells IntType.getWidth BinOp.text intBinOps t := by
  cases t <;> rfl

theorem floatBinOps_spells (t : FloatType) :
    spells FloatType.getWidth BinOp.text floatBinOps t := by
  cases t <;> rfl

theorem intCmpOps_spells (t : IntType) : spells IntType.getWidth CmpOp.text intCmpOps t := by
  cases t <;> rfl

theorem floatCmpOps_spells (t : FloatType) :
    spells FloatType.getWidth CmpOp.text floatCmpOps t := by
  cases t <;> rfl

theorem stoi_digits {c : Char} (digit : c.isDigit = true) (s : Text) :
    ∃ m, decimalPrefix (c :: s) = some m ∧
      stoi (c :: s) = if m < 2 ^ 31 then .ok (m : Int) else .error .outOfRange := by
  have first : (c :: s).takeWhile Char.isDigit = c :: s.takeWhile Char.isDigit := by
    rw [List.takeWhile_cons, digit]
    rfl
  have read : decimalPrefix (c :: s) =
      some (Nat.ofDigitChars 10 (c :: s.takeWhile Char.isDigit) 0) := by
    rw [decimalPrefix, first]
  have unsigned : parseDecimal (c :: s) = (decimalPrefix (c :: s)).map (withSign false) := by
    have plain : c ≠ '-' := by
      rintro rfl
      exact absurd digit (by decide)
    exact parseDecimal_sign false s plain
  constructor
  constructor
  · exact read
  · simp only [stoi, stringToInt, unsigned, read, Option.map_some, withSign, Bool.false_eq_true,
      if_false]
    split <;> split <;> first | rfl | omega

theorem dropWhile_notDigit {str rest : Text} {c : Char}
    (h : str.dropWhile notDigit = c :: rest) : c.isDigit = true := by
  have head := List.head?_dropWhile_not notDigit str
  rw [h] at head
  simpa [notDigit] using head

theorem cmpWidth_huge {str : Text} (huge : HugeWidth str) :
    cmpWidth str = .error .outOfRange := by
  obtain ⟨m, prefixed, big⟩ := huge
  unfold cmpWidth
  cases eq : str.dropWhile notDigit with
  | nil =>
    rw [eq] at prefixed
    cases prefixed
  | cons c rest =>
    obtain ⟨m', read, number⟩ := stoi_digits (dropWhile_notDigit eq) rest
    rw [eq, read] at prefixed
    cases prefixed
    rw [if_neg (by omega)] at number
    exact number

theorem cmpWidth_answers {str : Text} (small : ¬ HugeWidth str) :
    ∃ w, cmpWidth str = .ok w := by
  unfold cmpWidth
  cases eq : str.dropWhile notDigit with
  | nil => exact ⟨0, rfl⟩
  | cons c rest =>
    obtain ⟨m, read, number⟩ := stoi_digits (dropWhile_notDigit eq) rest
    have bound : m < 2 ^ 31 := by
      by_contra big
      exact small ⟨m, by rw [eq, read], by omega⟩
    rw [if_pos bound] at number
    exact ⟨m, number⟩

theorem hugeWidth_eq (name : Text) : HugeWidth ("eq_".toList ++ name) ↔ HugeWidth name :=
  Iff.rfl

theorem visitCmpOp_named : PrimType.named.all (fun t =>
    decide (visitCmpOp ("eq_".toList ++ t.text) = .ok (.eq t))) = true :=
  rfl

theorem visitCmpOp_eq {t : PrimType} (named : t ∈ PrimType.named) :
    visitCmpOp ("eq_".toList ++ t.text) = .ok (.eq t) := by
  simpa using List.all_eq_true.mp visitCmpOp_named t named

/-- `PrimType::Int` and `PrimType::Float` never throw. -/
theorem primTypeInt_error {w : Int} {e : Err} (h : primTypeInt w = .error e) : e = .ub := by
  unfold primTypeInt at h
  split at h
  · cases h
  · split at h
    · cases h
    · split at h
      · cases h
      · split at h
        · cases h
        · cases h
          rfl

theorem primTypeFloat_error {w : Int} {e : Err} (h : primTypeFloat w = .error e) : e = .ub := by
  unfold primTypeFloat at h
  split at h
  · cases h
  · split at h
    · cases h
    · split at h
      · cases h
      · cases h
        rfl

/-- Where the width is read, a comparison for equality does not throw. -/
theorem visitCmpOp_eq_error {name : Text} (small : ¬ HugeWidth name) {e : Err}
    (h : visitCmpOp ("eq_".toList ++ name) = .error e) : e = .ub := by
  obtain ⟨w, width⟩ := cmpWidth_answers (mt (hugeWidth_eq name).mp small)
  unfold visitCmpOp at h
  rw [width] at h
  simp only [bind, Except.bind, List.prefix_append, if_true] at h
  split at h
  · cases h
  · split at h
    · exact primTypeFloat_error (Except.map_eq_error.mp h)
    · exact primTypeInt_error (Except.map_eq_error.mp h)

theorem decoded_intBin {name : Text} {make : IntType → BinOp}
    (known : (name, make) ∈ intBinOps) (n : NumberToken) :
    Decodes visitBinOp make IntType.getWidth BinOp.text name n ↔
      Canonical IntType.getWidth n ∨ n.negative = true ∨ n.Huge := by
  have member : name ∈ intBinOps.map Prod.fst := List.mem_map_of_mem known
  have plain := (isName_iff.mp (List.all_eq_true.mp binNames _ (List.mem_append_left _ member))).1
  cases sign : n.negative with
  | true =>
    obtain ⟨e, throws, defined⟩ := visitBinOp_negative plain sign
    simp only [decodes_throws throws defined, true_or, or_true]
  | false =>
    have decodes := decodes_iff (visitBinOp_int known sign) binIntType_getWidth
      IntType.getWidth_small fun t => spells_iff.mp (intBinOps_spells t) name make known
    simpa using decodes

theorem decoded_floatBin {name : Text} {make : FloatType → BinOp}
    (known : (name, make) ∈ floatBinOps) (n : NumberToken) :
    Decodes visitBinOp make FloatType.getWidth BinOp.text name n ↔
      Canonical FloatType.getWidth n ∨ n.negative = true ∨ n.Huge := by
  have member : name ∈ floatBinOps.map Prod.fst := List.mem_map_of_mem known
  have plain := (isName_iff.mp (List.all_eq_true.mp binNames _ (List.mem_append_right _ member))).1
  cases sign : n.negative with
  | true =>
    obtain ⟨e, throws, defined⟩ := visitBinOp_negative plain sign
    simp only [decodes_throws throws defined, true_or, or_true]
  | false =>
    have decodes := decodes_iff (visitBinOp_float known sign) binFloatType_getWidth
      FloatType.getWidth_small fun t => spells_iff.mp (floatBinOps_spells t) name make known
    simpa using decodes

theorem decoded_intCmp {name : Text} {make : IntType → CmpOp}
    (known : (name, make) ∈ intCmpOps) (n : NumberToken) :
    Decodes visitCmpOp make IntType.getWidth CmpOp.text name n ↔
      Canonical IntType.getWidth n ∨ n.Huge :=
  decodes_iff (visitCmpOp_int known) cmpIntType_getWidth IntType.getWidth_small
    fun t => spells_iff.mp (intCmpOps_spells t) name make known

theorem decoded_floatCmp {name : Text} {make : FloatType → CmpOp}
    (known : (name, make) ∈ floatCmpOps) (n : NumberToken) :
    Decodes visitCmpOp make FloatType.getWidth CmpOp.text name n ↔
      Canonical FloatType.getWidth n ∨ n.Huge :=
  decodes_iff (visitCmpOp_float known) cmpFloatType_getWidth FloatType.getWidth_small
    fun t => spells_iff.mp (floatCmpOps_spells t) name make known

theorem logAnd_decoded : visitBinOp BinOp.logAnd.text = .ok .logAnd :=
  rfl

theorem logOr_decoded : visitBinOp BinOp.logOr.text = .ok .logOr :=
  rfl

theorem decoded_eq (name : Text) :
    ((∀ op, visitCmpOp ("eq_".toList ++ name) = .ok op →
        ∃ t, op = .eq t ∧ op.text = "eq_".toList ++ name) ∧
      ((∀ t ∈ PrimType.named, t.text ≠ name) →
        ∃ e, visitCmpOp ("eq_".toList ++ name) = .error e ∧ e ≠ .ub)) ↔
      (∃ t ∈ PrimType.named, t.text = name) ∨ HugeWidth name := by
  constructor
  · rintro ⟨_, throws⟩
    by_contra neither
    rw [not_or] at neither
    obtain ⟨e, run, defined⟩ := throws fun t named eq => neither.1 ⟨t, named, eq⟩
    exact defined (visitCmpOp_eq_error neither.2 run)
  · rintro (⟨t, named, rfl⟩ | huge)
    · have run := visitCmpOp_eq named
      constructor
      · intro op answer
        rw [run] at answer
        cases answer
        exact ⟨t, rfl, rfl⟩
      · intro none
        exact absurd rfl (none t named)
    · have run : visitCmpOp ("eq_".toList ++ name) = .error .outOfRange := by
        unfold visitCmpOp
        rw [cmpWidth_huge ((hugeWidth_eq name).mpr huge)]
        rfl
      constructor
      · intro op answer
        rw [run] at answer
        cases answer
      · intro _
        exact ⟨.outOfRange, run, by decide⟩

/-- An operator token is decoded to what it says, or refused, exactly if it is spelled with a
width of its kind or its number is one that the visitor cannot take for a width. -/
theorem decoded_iff (tok : Opcode) : tok.Decoded ↔ tok.Readable := by
  cases tok with
  | intBin name make known n => exact decoded_intBin known n
  | floatBin name make known n => exact decoded_floatBin known n
  | logAnd => exact iff_of_true logAnd_decoded trivial
  | logOr => exact iff_of_true logOr_decoded trivial
  | intCmp name make known n => exact decoded_intCmp known n
  | floatCmp name make known n => exact decoded_floatCmp known n
  | eq c rest lower all => exact decoded_eq (c :: rest)

def twelve : NumberToken where
  negative := false
  hex := false
  digits := ['1', '2']
  nonempty := by decide
  all := by simp

/-- `add12` is read as the addition of bytes. -/
theorem decoded_add12 : ∃ tok : Opcode, ¬ tok.Decoded := by
  refine ⟨.intBin "add".toList (.add · .wrap) (List.mem_cons_self ..) twelve, ?_⟩
  rintro ⟨answers, _⟩
  have read : visitBinOp ("add".toList ++ twelve.text) = .ok (.add .int8 .wrap) := by
    rfl
  obtain ⟨t, _, width, _⟩ := answers _ read
  have value : twelve.value = 12 := rfl
  rw [value] at width
  cases t <;> cases width

end FutharkMlir
