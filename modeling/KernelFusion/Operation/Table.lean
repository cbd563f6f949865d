/-
The table of operations.

Names are looked up in table order, so of two entries with one name the first is found.
-/
import KernelFusion.Operation.Basic

namespace KernelFusion.Operation

/-- Overloads on equal number types that give a number of that type. -/
def numeric (arity : Nat) : List Overload :=
  [.float, .uint, .int].map fun t => ⟨List.replicate arity t, t⟩

/-- Overloads on integers of one sort. -/
def integral : List Overload :=
  [.uint, .int].map fun t => ⟨[t, t], t⟩

/-- Overloads on two integers of one sort, or two truth values. -/
def bitwise : List Overload :=
  [.uint, .int, .bool].map fun t => ⟨[t, t], t⟩

/-- Overloads that compare two values of one of the given types. -/
def comparing (types : List Scalar) : List Overload :=
  types.map fun t => ⟨[t, t], .bool⟩

/-- Overloads on floats only. -/
def floating (arity : Nat) : List Overload :=
  [⟨List.replicate arity .float, .float⟩]

/-- Overloads that turn one of the given types into a fixed one. -/
def converting (types : List Scalar) (target : Scalar) : List Overload :=
  types.map fun t => ⟨[t], target⟩

/-- Overloads without operands. -/
def producing (types : List Scalar) : List Overload :=
  types.map fun t => ⟨[], t⟩

/-- Overloads that consume one value and give none. -/
def consuming (types : List Scalar) : List Overload :=
  types.map fun t => ⟨[t], .void⟩

/-- An operation with code of its own. -/
def coded (name code : String) (overloads : List Overload) (cost : Nat) (kind : OpKind) :
    Operation :=
  ⟨name, code, Single.ofNat cost, kind, overloads⟩

/-- An operator between its operands. -/
def binaryOp (name : String) (overloads : List Overload) (cost : Nat) (code : String) :
    Operation :=
  coded name code overloads cost .operator

/-- An operation written by its own name. -/
def plain (name : String) (overloads : List Overload) (cost : Nat) (kind : OpKind) :
    Operation :=
  coded name name overloads cost kind

/-- The operations of two operands that are written between them. -/
def operators : List Operation :=
  [ binaryOp "add" (numeric 2) 1 "+",
    binaryOp "sub" (numeric 2) 1 "-",
    binaryOp "mul" (numeric 2) 1 "*",
    binaryOp "div" (numeric 2) 2 "/",
    binaryOp "mod" (numeric 2) 4 "%",
    binaryOp "lshift" integral 1 "<<",
    binaryOp "rshift" integral 1 ">>",
    binaryOp "and" bitwise 1 "&",
    binaryOp "or" bitwise 1 "|",
    binaryOp "xor" bitwise 1 "^",
    binaryOp "eq" (comparing [.float, .uint, .int, .bool]) 1 "==",
    binaryOp "neq" (comparing [.float, .uint, .int, .bool]) 1 "!=",
    binaryOp "lt" (comparing [.float, .uint, .int, .bool]) 1 "<",
    binaryOp "lte" (comparing [.float, .uint, .bool]) 1 "<=",
    binaryOp "gt" (comparing [.float, .uint, .int, .bool]) 1 ">",
    binaryOp "gte" (comparing [.float, .uint, .int, .bool]) 1 ">=" ]

/-- Negation and the changes of type. -/
def unaryOperators : List Operation :=
  [ coded "not" "!" [⟨[.bool], .bool⟩, ⟨[.uint], .uint⟩, ⟨[.int], .int⟩] 1 .unaryOperator,
    coded "neg" "-" (numeric 1) 1 .unaryOperator,
    plain "uint" (converting [.float, .uint, .int, .bool] .uint) 1 .typeCast,
    plain "int" (converting [.float, .uint, .int, .bool] .int) 1 .typeCast,
    plain "float" (converting [.float, .uint, .int, .bool] .float) 1 .typeCast,
    plain "bool" (converting [.float, .uint, .int, .bool] .bool) 1 .typeCast,
    plain "asuint" (converting [.float, .uint, .int] .uint) 0 .typeReinterpret,
    plain "asint" (converting [.float, .uint, .int] .int) 0 .typeReinterpret,
    plain "asfloat" (converting [.float, .uint, .int] .float) 0 .typeReinterpret ]

/-- The mathematical functions. -/
def functions : List Operation :=
  [ plain "min" (numeric 2) 1 .function,
    plain "max" (numeric 2) 1 .function,
    plain "abs" (numeric 1) 1 .function,
    plain "sign" (numeric 1) 1 .function,
    plain "ceil" (floating 1) 1 .function,
    plain "floor" (floating 1) 1 .function,
    plain "round" (floating 1) 1 .function,
    plain "frac" (floating 1) 1 .function,
    plain "exp" (floating 1) 32 .function,
    plain "exp2" (floating 1) 32 .function,
    plain "log" (floating 1) 32 .function,
    plain "log2" (floating 1) 32 .function,
    plain "sqrt" (floating 1) 4 .function,
    plain "rsqrt" (floating 1) 2 .function,
    plain "rcp" (floating 1) 2 .function,
    plain "sin" (floating 1) 2 .function,
    plain "cos" (floating 1) 2 .function,
    plain "tan" (floating 1) 2 .function,
    plain "asin" (floating 1) 8 .function,
    plain "acos" (floating 1) 8 .function,
    plain "atan" (floating 1) 8 .function,
    plain "sinh" (floating 1) 8 .function,
    plain "cosh" (floating 1) 8 .function,
    plain "tanh" (floating 1) 8 .function,
    plain "pcg" [⟨[.uint], .uint⟩] 32 .function,
    plain "pcgf" [⟨[.uint], .float⟩] 34 .function,
    plain "pow" (floating 2) 6 .function,
    plain "atan2" (floating 2) 32 .function,
    plain "mod" (floating 2) 2 .function,
    plain "step" (floating 2) 2 .function,
    plain "clamp" (numeric 3) 4 .function,
    plain "lerp" (floating 3) 4 .function,
    plain "fma" (floating 3) 1 .function,
    plain "ternary"
      [⟨[.bool, .float, .float], .float⟩, ⟨[.bool, .uint, .uint], .uint⟩,
        ⟨[.bool, .int, .int], .int⟩] 4 .function ]

/-- The operations on memory. -/
def accesses : List Operation :=
  [ plain "load" (producing [.float, .uint, .int]) 128 .load,
    plain "store" (consuming [.float, .uint, .int]) 128 .store,
    plain "const_memory" (producing [.float, .int, .uint]) 0 .memory,
    plain "memory" (producing [.float, .int, .uint]) 0 .memory,
    plain "InterlockedAdd" (consuming [.uint, .int, .float]) 256 .scatter,
    plain "InterlockedMin" (consuming [.uint, .int, .float]) 256 .scatter,
    plain "InterlockedMax" (consuming [.uint, .int, .float]) 256 .scatter,
    plain "InterlockedAnd" (consuming [.uint, .int]) 256 .scatter,
    plain "InterlockedOr" (consuming [.uint, .int]) 256 .scatter,
    plain "InterlockedXor" (consuming [.uint, .int]) 256 .scatter ]

/-- Constants, indices and control flow. -/
def structural : List Operation :=
  [ plain "variable" (producing [.float, .uint, .int]) 1 .function,
    plain "const" (producing [.float, .uint, .int]) 0 .constant,
    coded "dim_id" "dim" (producing [.int]) 0 .dimensionIndex,
    plain "thread_id" (producing [.int]) 0 .builtin,
    plain "group_thread_id" (producing [.int]) 0 .function,
    plain "group_id" (producing [.int]) 0 .function,
    plain "group_count" (producing [.int]) 1 .function,
    plain "thread_count" (producing [.int]) 1 .function,
    plain "loop_begin" [⟨[.int, .int, .int], .int⟩] 3 .function,
    plain "loop_end" (consuming [.int]) 0 .function,
    plain "if_begin" (consuming [.bool]) 1 .function,
    plain "if_end" [⟨[], .void⟩] 0 .function,
    plain "break" [⟨[], .void⟩] 0 .keyword,
    plain "continue" [⟨[], .void⟩] 0 .keyword,
    plain "return" [⟨[], .void⟩] 0 .keyword,
    plain "GroupMemoryBarrierWithGroupSync" [⟨[], .void⟩] 256 .function ]

/-- All operations. -/
def table : List Operation :=
  operators ++ unaryOperators ++ functions ++ accesses ++ structural

/-- The operation of a name. -/
def find (name : String) : Except Fault Operation :=
  if name = "" then .error .operationNameEmpty
  else
    match table.find? fun op => op.name = name with
    | some op => .ok op
    | none => .error (.operationUnknown name)

end KernelFusion.Operation
