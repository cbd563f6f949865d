/-
Lines of kernel code.

A line is kept in parts: what stands left of its expression, the expression, and what stands right
of it. It knows the names of the lines whose values its expression uses, so that lines can be
merged later. Memory is reached through one buffer: a slot has an offset, and an access adds the
address to it.
-/
import KernelFusion.Emit.Names
import KernelFusion.Kernel.Extract
import KernelFusion.Operation.Statement

namespace KernelFusion

/-- A line of kernel code. -/
structure Line where
  left : String
  expression : String
  right : String
  name : String
  arguments : List String
  parenthesised : Bool
  cost : Cost
  indent : Int := 0
deriving Inhabited

/-- The place of an element in a list, and zero if it is not a member. -/
def slotOf (nodes : List NodeId) (n : NodeId) : Nat := (nodes.findIdx? (· = n)).getD 0

/-- The operands of a line: memory, indices, values. -/
structure Operands where
  texts : List String
  types : List Scalar
  lines : List String

namespace Graph

/-- Is the value of a node held by a line of its own? -/
def hasLine (g : Graph) (n : NodeId) : Bool := !(g.node n).isConst && !(g.node n).isMemory

/-- A value as an operand; memory that is used as a value is a scalar of the kernel. -/
def valueOperand (g : Graph) (names : Names) (k : Kernel) (n : NodeId) : String :=
  if (g.node n).isMemory then "var[" ++ toString (slotOf k.scalars n) ++ "]"
  else g.valueName names n

/-- The operands of a node. -/
def operands (g : Graph) (names : Names) (k : Kernel) (n : NodeId) : Operands :=
  let entry := g.node n
  let places := ((entry.arguments .memory) ++ (entry.arguments .index)).map g.source
  let values := (entry.arguments .input).map g.source
  { texts := places.map (g.valueName names) ++ values.map (g.valueOperand names k)
    types := values.map fun m => (g.node m).type
    lines := ((places ++ values).filter g.hasLine).map (g.valueName names) }

/-- The address of an access in the buffer. -/
def address (g : Graph) (k : Kernel) (n : NodeId) (texts : List String) : String :=
  let memory := (((g.node n).arguments .memory).map g.source).headD 0
  "off[" ++ toString (slotOf k.memory memory) ++ "] + " ++ Operation.operand texts 1

/-- Left part, expression and right part of an access, and whether it needs parentheses. -/
def accessParts (g : Graph) (k : Kernel) (n : NodeId) (name : String) (args : Operands)
    (type : Scalar) : (String × String × String) × Bool :=
  let op := (g.node n).op
  let address := g.address k n args.texts
  let value := Operation.operand args.texts 2
  let valueType := args.types.headD .void
  if op.name = "load" then
    ((Operation.declaration type name, Operation.readAs type ("mem[" ++ address ++ "]"), ";"),
      false)
  else if op.name = "store" then
    (("", "mem[" ++ address ++ "] = " ++ Operation.asWord valueType value, ";"), true)
  else
    (("", op.code ++ "((" ++ valueType.name ++ "*)mem, " ++ address ++ ", " ++ value ++ ")", ";"),
      true)

/-- The expression of a node that is neither control flow nor an access, and whether it needs
parentheses. -/
def plainExpression (g : Graph) (n : NodeId) (texts : List String) : String × Bool :=
  let entry := g.node n
  match entry.op.kind with
  | .dimensionIndex => (entry.op.code ++ toString entry.word.toNat, false)
  | .constant => (entry.constantText, false)
  | .function | .builtin => (entry.op.expression texts, false)
  | _ => (entry.op.expression texts, true)

/-- Left part, expression and right part of a node, and whether it needs parentheses. -/
def lineParts (g : Graph) (k : Kernel) (n : NodeId) (name : String) (args : Operands)
    (type : Scalar) : (String × String × String) × Bool :=
  let op := (g.node n).op
  if op.name = "loop_begin" then ((Operation.loopHead name args.texts, "", ""), true)
  else if op.name = "loop_end" then ((Operation.blockEnd, "", ""), true)
  else if op.name = "if_begin" then ((Operation.branchHead args.texts, "", ""), true)
  else if op.name = "if_end" then ((Operation.blockEnd, "", ""), true)
  else if op.kind.accesses then g.accessParts k n name args type
  else
    let (expression, parenthesised) := g.plainExpression n args.texts
    (((if type = .void then "" else Operation.declaration type name), expression, ";"),
      parenthesised)

/-- The line of a node. -/
def lineOf (g : Graph) (names : Names) (k : Kernel) (n : NodeId) : Except Fault Line := do
  let op := (g.node n).op
  let args := g.operands names k n
  let name := names.of n
  let type ← op.resultType args.types
  let ((left, expression, right), parenthesised) := g.lineParts k n name args type
  return { left, expression, right, name, arguments :=
    args.lines, parenthesised, cost := op.weight }

/-- Does a node open a block? -/
def opensBlock (g : Graph) (n : NodeId) : Bool :=
  (g.node n).name = "loop_begin" || (g.node n).name = "if_begin"

/-- Does a node close a block? -/
def closesBlock (g : Graph) (n : NodeId) : Bool :=
  (g.node n).name = "loop_end" || (g.node n).name = "if_end"

/-- The lines of some nodes, the first of them inside the given number of blocks. -/
def linesOf (g : Graph) (names : Names) (k : Kernel) (depth : Int) :
    List NodeId → Except Fault (List Line)
  | [] => .ok []
  | n :: rest => do
    let inner := if g.closesBlock n then depth - 1 else depth
    let line ← g.lineOf names k n
    let behind := if g.opensBlock n then inner + 1 else inner
    let lines ← g.linesOf names k behind rest
    return { line with indent := inner } :: lines

/-- The lines of a compute kernel; constants have none. -/
def kernelLines (g : Graph) (k : Kernel) : Except Fault (List Line) :=
  match (g.node k.first).cluster with
  | some c => g.linesOf g.names k 0 ((g.run c).filter fun n => !(g.node n).isConst)
  | none => .ok []

end Graph

end KernelFusion
