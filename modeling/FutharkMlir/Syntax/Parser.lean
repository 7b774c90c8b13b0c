import FutharkMlir.Syntax.Core

namespace FutharkMlir

/-- `pExtShape`: bracketed groups of dimensions, of which any may be empty. -/
abbrev PExtShape := List (List SubExp)

/-- `pType`; the alternatives for `unit` build what the others would. -/
inductive PType where
  | prim (t : PrimType)
  | shape (dims : PExtShape) (t : PrimType)

def visitExtShape (shape : PExtShape) : List SubExp := shape.flatten

def visitType : PType → Ty
  | .prim t => .prim t
  | .shape dims t => .array t (visitExtShape dims)

/-- The type that is written is that of the rows; the number of values goes before it. -/
def visitBasicOpArrayLit (values : List SubExp) (t : PType) : BasicOp :=
  match visitType t with
  | .array elem dims =>
    .arrayLit values (.array elem (.const (.createInt values.length 64) :: dims))
  | ty => .arrayLit values ty

end FutharkMlir
