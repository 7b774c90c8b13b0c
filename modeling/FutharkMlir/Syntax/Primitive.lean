import Mathlib.Data.Rat.Defs

/-! Primitive types, values and operators of the IR. Integer values are the machine
integers of the source; a float value is the number it stands for, or one of the
special values, since only exact conversions are ever looked at. -/
namespace FutharkMlir

inductive IntType where
  | int8 | int16 | int32 | int64
  deriving DecidableEq, Repr

inductive FloatType where
  | float16 | float32 | float64
  deriving DecidableEq, Repr

def IntType.getWidth : IntType → Nat
  | .int8 => 8
  | .int16 => 16
  | .int32 => 32
  | .int64 => 64

def FloatType.getWidth : FloatType → Nat
  | .float16 => 16
  | .float32 => 32
  | .float64 => 64

inductive PrimType where
  | int (t : IntType)
  | float (t : FloatType)
  | bool
  | unit
  deriving DecidableEq, Repr

structure IntValue where
  t : IntType
  v : BitVec t.getWidth
  deriving DecidableEq, Repr

/-- A number of a binary float format, as printed or as held in a double. -/
inductive FloatLit where
  | finite (q : Rat)
  | inf (negative : Bool)
  | nan
  deriving DecidableEq, Repr

/-- A half is kept as sixteen bits, the wider formats as numbers. -/
inductive FloatValue where
  | float16 (bits : BitVec 16)
  | float32 (v : FloatLit)
  | float64 (v : FloatLit)
  deriving DecidableEq, Repr

inductive PrimValue where
  | int (v : IntValue)
  | float (v : FloatValue)
  | bool (b : Bool)
  | unit
  deriving DecidableEq, Repr

def FloatValue.getType : FloatValue → FloatType
  | .float16 _ => .float16
  | .float32 _ => .float32
  | .float64 _ => .float64

/-- `GetValue` reads the bits of a half as an integer. -/
def FloatValue.getValue : FloatValue → FloatLit
  | .float16 bits => .finite bits.toNat
  | .float32 v => v
  | .float64 v => v

/-- `GetValue`: the integer widened to the unsigned 64-bit result. -/
def IntValue.getValue (c : IntValue) : BitVec 64 := c.v.signExtend 64

/-- `PrimValue::CreateInt`: every width but 8, 16 and 32 means 64. -/
def PrimValue.createInt (value : Int) (width : Nat) : PrimValue :=
  if width = 8 then .int ⟨.int8, BitVec.ofInt 8 value⟩
  else if width = 16 then .int ⟨.int16, BitVec.ofInt 16 value⟩
  else if width = 32 then .int ⟨.int32, BitVec.ofInt 32 value⟩
  else .int ⟨.int64, BitVec.ofInt 64 value⟩

inductive Overflow where
  | wrap | undef
  deriving DecidableEq, Repr

inductive BinOp where
  | add (t : IntType) (ovf : Overflow)
  | fadd (t : FloatType)
  | sub (t : IntType) (ovf : Overflow)
  | fsub (t : FloatType)
  | mul (t : IntType) (ovf : Overflow)
  | fmul (t : FloatType)
  | udiv (t : IntType)
  | udivUp (t : IntType)
  | sdiv (t : IntType)
  | sdivUp (t : IntType)
  | fdiv (t : FloatType)
  | fmod (t : FloatType)
  | umod (t : IntType)
  | smod (t : IntType)
  | squot (t : IntType)
  | srem (t : IntType)
  | smin (t : IntType)
  | umin (t : IntType)
  | fmin (t : FloatType)
  | smax (t : IntType)
  | umax (t : IntType)
  | fmax (t : FloatType)
  | shl (t : IntType)
  | lshr (t : IntType)
  | ashr (t : IntType)
  | and (t : IntType)
  | or (t : IntType)
  | xor (t : IntType)
  | pow (t : IntType)
  | fpow (t : FloatType)
  | logAnd
  | logOr
  deriving DecidableEq, Repr

inductive CmpOp where
  | eq (t : PrimType)
  | ult (t : IntType)
  | ule (t : IntType)
  | slt (t : IntType)
  | sle (t : IntType)
  | flt (t : FloatType)
  | fle (t : FloatType)
  | llt
  | lle
  deriving DecidableEq, Repr

inductive ConvOp where
  | zext (src dst : IntType)
  | sext (src dst : IntType)
  | fpconv (src dst : FloatType)
  | fptoui (src : FloatType) (dst : IntType)
  | fptosi (src : FloatType) (dst : IntType)
  | uitofp (src : IntType) (dst : FloatType)
  | sitofp (src : IntType) (dst : FloatType)
  | itob (src : IntType)
  | btoi (dst : IntType)
  | ftob (src : FloatType)
  | btof (dst : FloatType)
  deriving DecidableEq, Repr

end FutharkMlir
