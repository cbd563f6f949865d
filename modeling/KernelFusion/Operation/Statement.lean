/-
Operations as text.

`expression` writes an operation applied to operands, by its kind. `statement` writes a whole line:
control flow and memory accesses have forms of their own, everything else assigns the expression to
a variable of the result type, or stands alone if there is no result.
-/
import KernelFusion.Operation.Basic

namespace KernelFusion.Operation

/-- The operand at a position. The empty text stands in for one that is not there, of which nothing
is said. -/
def operand (args : List String) (i : Nat) : String := args.getD i ""

/-- The text of an operation applied to operands. -/
def expression (op : Operation) (args : List String) : String :=
  match op.kind with
  | .operator => operand args 0 ++ " " ++ op.code ++ " " ++ operand args 1
  | .unaryOperator => op.code ++ operand args 0
  | .function => op.code ++ "(" ++ ", ".intercalate args ++ ")"
  | .keyword | .builtin => op.code
  | .typeCast => "(" ++ op.code ++ ")" ++ operand args 0
  | .typeReinterpret => "*(" ++ op.code ++ "*)&" ++ operand args 0
  | _ => ""

/-- The head of a loop over the variable `var`, from the first operand below the second in steps
of the third. -/
def loopHead (var : String) (args : List String) : String :=
  "for (int " ++ var ++ " = " ++ operand args 0 ++ "; " ++ var ++ " < " ++ operand args 1 ++ "; "
    ++ var ++ " += " ++ operand args 2 ++ ") \x7b"

/-- The head of a conditional block. -/
def branchHead (args : List String) : String := "if (" ++ operand args 0 ++ ") \x7b"

/-- The end of a block. -/
def blockEnd : String := "\x7d"

/-- The declaration of a variable, up to its value. -/
def declaration (type : Scalar) (var : String) : String := type.name ++ " " ++ var ++ " = "

/-- A word read as a value of the given type. -/
def readAs (type : Scalar) (text : String) : String :=
  match type with
  | .float => "asfloat(" ++ text ++ ")"
  | .int => "asint(" ++ text ++ ")"
  | _ => text

/-- A value of the given type as a word. -/
def asWord (type : Scalar) (text : String) : String :=
  match type with
  | .float | .int => "asuint(" ++ text ++ ")"
  | _ => text

/-- The line that assigns the operation on operands of the given types to `var`. Loads and stores
take the memory first; the address is the operand behind it. -/
def statement (op : Operation) (var : String) (args : List String) (types : List Scalar) :
    Except Fault String := do
  let type ← op.resultType types
  if op.name = "loop_begin" then return loopHead var args
  else if op.name = "loop_end" then return blockEnd
  else if op.name = "if_begin" then return branchHead args
  else if op.name = "if_end" then return blockEnd
  else if op.name = "load" then
    return declaration type var ++ readAs type (operand args 0 ++ "[" ++ operand args 1 ++ "]")
      ++ ";"
  else if op.name = "store" then
    return operand args 0 ++ "[" ++ operand args 1 ++ "] = "
      ++ asWord (types.headD .void) (operand args 2) ++ ";"
  else
    return (if type = .void then "" else declaration type var) ++ op.expression args ++ ";"

end KernelFusion.Operation
