import FutharkMlir.Lib.Tracked
import FutharkMlir.Syntax.Core
import FutharkMlir.Compiler.Values
import FutharkMlir.Compiler.BasicOp
import FutharkMlir.Compiler.BlackBox
import FutharkMlir.Compiler.Function
import FutharkMlir.Functions.InStep
import FutharkMlir.Functions.Table
import FutharkMlir.Functions.Order
import FutharkMlir.Scoping.Valid
import FutharkMlir.Scoping.Names
import FutharkMlir.Scoping.Operations
import FutharkMlir.Scoping.Calls
import FutharkMlir.Scoping.Kernels
import FutharkMlir.Scoping.Expressions
import FutharkMlir.Scoping.Functions
import FutharkMlir.Functions.Once
import FutharkMlir.Lib.Points
import FutharkMlir.Semantics.Mlir
import FutharkMlir.Semantics.Futhark
import FutharkMlir.Simulation.Runs
import FutharkMlir.Simulation.Scalars
import FutharkMlir.Simulation.Accepts
import FutharkMlir.Simulation.Bodies
import FutharkMlir.Simulation.Functions
import FutharkMlir.Arrays.Grouping
import FutharkMlir.Arrays.Reshape
import FutharkMlir.Kernels.Space
import FutharkMlir.Kernels.Domain
import FutharkMlir.Arrays.DotShape
import FutharkMlir.Kernels.Body
import FutharkMlir.Scoping.Frame
import FutharkMlir.Simulation.Conversions
import FutharkMlir.Scoping.Mapped
import FutharkMlir.Scoping.Hoisting
import FutharkMlir.Arrays.Slice
import FutharkMlir.Arrays.Replicate
import FutharkMlir.Arrays.ArrayLit
import FutharkMlir.Kernels.Statements
import FutharkMlir.Lib.KeyedFold
import FutharkMlir.Kernels.Point
import FutharkMlir.Kernels.Generic
import FutharkMlir.Kernels.Map
import FutharkMlir.Kernels.Accepts
import FutharkMlir.Kernels.Scatter
import FutharkMlir.Kernels.Histogram
import FutharkMlir.Kernels.Reduce
import FutharkMlir.Kernels.Rows
import FutharkMlir.Kernels.ScanRow
import FutharkMlir.Kernels.Scan
import FutharkMlir.Lib.Pattern
import FutharkMlir.Lib.Text
import FutharkMlir.Runner.Values
import FutharkMlir.Runner.Scalars
import FutharkMlir.Runner.Compare
import FutharkMlir.Functions.SizeArgs
import FutharkMlir.Runner.Flags
import FutharkMlir.Runner.SizeInference
import FutharkMlir.Runner.Cases
import FutharkMlir.Syntax.Literals
import FutharkMlir.Syntax.FloatLiterals
import FutharkMlir.Syntax.Opcodes
import FutharkMlir.Kernels.Lengths
import FutharkMlir.Lib.Grammar
import FutharkMlir.Syntax.Grammar
import FutharkMlir.Syntax.Visitor
import FutharkMlir.Syntax.Recovery
import FutharkMlir.Syntax.ParseFuthark
import FutharkMlir.Functions.Intrinsics
import FutharkMlir.Lib.Brackets
import FutharkMlir.Runner.Signature
import FutharkMlir.Runner.Accepted
import FutharkMlir.Runner.Supported
import FutharkMlir.Runner.Reports
import FutharkMlir.Runner.Main
import FutharkMlir.Programs.Meaning
import FutharkMlir.Programs.Types
import FutharkMlir.Programs.Operations
import FutharkMlir.Lib.Triples
import FutharkMlir.Programs.Casts
import FutharkMlir.Programs.Kernels
import FutharkMlir.Programs.Bodies
import FutharkMlir.Programs.Functions
import FutharkMlir.Syntax.Derivations
import FutharkMlir.Syntax.RoundTrip
import FutharkMlir.Runner.Verdict
import FutharkMlir.Invariance.Alike
import FutharkMlir.Invariance.Operations
import FutharkMlir.Invariance.Kernels
import FutharkMlir.Invariance.Expressions
import FutharkMlir.Invariance.Programs
import FutharkMlir.Lib.Lexer
import FutharkMlir.Syntax.Lexer
import FutharkMlir.Syntax.Written
import FutharkMlir.Programs.Strict
import FutharkMlir.Scoping.Bound
