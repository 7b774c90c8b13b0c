import FutharkMlir.Compiler.Exp

namespace FutharkMlir

/-- The argument positions of the dimensions of one parameter, -1 for a constant. -/
def sizePositions (argPosition : List (String × Int)) (dims : List SubExp) :
    Except Err (List Int) :=
  dims.mapM fun d => match d with
    | .var x => match argPosition.lookup x with
      | some i => .ok i
      | none => .error .outOfRange
    | .const _ => .ok (-1)

/-- The `futhark.size_args` of the parameters from position `i` on. The table of positions
is filled while it is read. -/
def sizeAnnotations : Int → List (String × Int) → List Param →
    Except Err (List (Option (List Int)))
  | _, _, [] => .ok []
  | i, argPosition, param :: rest => do
    let argPosition := (param.name, i) :: argPosition
    let pos ← match param.ty with
      | .array _ dims => some <$> sizePositions argPosition dims
      | _ => .ok none
    let others ← sizeAnnotations (i + 1) argPosition rest
    return pos :: others

def funcSig (f : FunDef) : Except Err FuncSig := do
  let retTypes ← f.retType.mapM lowerTy
  let argTypes ← (f.params.map Param.ty).mapM lowerTy
  return { name := f.name, argTypes, retTypes }

/-- Only an entry point is annotated. -/
def sizeArgs (f : FunDef) : Except Err (List (Option (List Int))) :=
  if f.entry then sizeAnnotations 0 [] f.params else .ok (f.params.map fun _ => none)

/-- The `FuncOp` as it is first inserted, without a body. -/
def declareFunction (f : FunDef) : Except Err FuncOp := do
  let sig ← funcSig f
  let sizeArgs ← sizeArgs f
  return { sig, isPrivate := !f.entry, sizeArgs, body := none, trace := [] }

variable (cfg : Config) (prog : Prog)

/-- The entry block: the top-level constants, then the body with its parameters bound. -/
def lowerFunctionBody (lowerFunction : FunDef → Lower Callee) (f : FunDef) (args : List Value) :
    Lower (List Value) := do
  let ctx ← lowerStms cfg prog lowerFunction prog.consts Ctx.empty
  let pairs ← zipEqual cfg f.params args
  let (ret, _) ← lowerBody cfg prog lowerFunction f.body
    (ctx.insertAll (pairs.map fun p => (p.1.name, p.2)))
  return ret

/-- The function is in the table before its body is lowered, so a call in the body finds
it there. Calls nest to a depth of at most `fuel`. -/
def lowerFunction : Nat → FunDef → Lower Callee
  | 0, _ => Tracked.throw .outOfFuel
  | fuel + 1, f => do
    match ← maybeBlackBox f.attrs with
    | some b => return .blackBox b
    | none =>
      let table ← Lower.functions
      match table.find? fun sig => sig.name = f.name with
      | some sig => return .func sig
      | none =>
        let func ← declareFunction f
        Lower.register func
        let (body, trace) ← Lower.inFunction f.name func.sig.argTypes
          (lowerFunctionBody cfg prog (lowerFunction fuel) f)
        Lower.setBody f.name body trace
        return .func func.sig

def lowerFunctions (fuel : Nat) : List FunDef → Lower Unit
  | [] => return ()
  | f :: rest => do
    let _ ← lowerFunction cfg prog fuel f
    lowerFunctions fuel rest

def initialBuilder : Builder := { ip := ⟨"", 0, [], []⟩, functions := [], module := [] }

/-- `main`, after parsing. -/
def compile (fuel : Nat) : Except Stop (List FuncOp) :=
  match (lowerFunctions cfg prog fuel prog.funs).run initialBuilder with
  | .ok (_, b) => .ok b.module
  | .error e => .error e

end FutharkMlir
