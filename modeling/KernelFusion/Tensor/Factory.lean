/-
Recording tensors.

Three general forms record a node. `apply` applies an operation to values and gives the result the
shape of the first operand that has one. `access` applies an operation to memory, indices and
values. `source` records an operation without operands. The other actions are their common uses:
constants, memory, inputs, coordinates, loads and stores.
-/
import KernelFusion.Operation.Table
import KernelFusion.Graph.Edit
import KernelFusion.Text.Lines

namespace KernelFusion

/-- Arguments of one use from the given nodes, with indices in order. -/
def Graph.argumentsFrom (g : Graph) (k : ArgKind) (nodes : List NodeId) : List Argument :=
  nodes.zipIdx.map fun (n, i) => ⟨k, i, g.label n⟩

/-- The shape arguments of the first node that has any. -/
def Graph.commonShape (g : Graph) (nodes : List NodeId) : List Argument :=
  (nodes.map fun n => (g.node n).arguments .shape).find? (fun s => !s.isEmpty) |>.getD []

namespace Build

/-- The operation of a name and its result type on the given nodes. -/
def resolve (name : String) (operands : List NodeId) : Build (Operation × Scalar) := do
  let g ← get
  let types := operands.map fun n => (g.node n).type
  match Operation.find name with
  | .error e => throw e
  | .ok op =>
    match op.overload? types with
    | some o => return (op, o.output)
    | none => throw (.operandTypes types name)

/-- Applies an operation to values. -/
def apply (name : String) (operands : List NodeId) : Build NodeId := do
  let name := Text.removeSpaces name
  if name = "" then throw .applyNameBlank
  let (op, type) ← resolve name operands
  let g ← get
  record op type (g.argumentsFrom .input operands ++ g.commonShape operands)

/-- Applies an operation to memory at the given indices. The result has the shape of the first
index, or of the memory if there is no index; a loaded value has the type of the memory. -/
def access (name : String) (memory : NodeId) (indices operands : List NodeId) : Build NodeId := do
  let name := Text.removeSpaces name
  if name = "" then throw .accessNameBlank
  let g ← get
  if indices.any fun i => (g.node i).type ≠ .int then throw .indexType
  let (op, type) ← resolve name operands
  let g ← get
  let shape := (g.node (indices.headD memory)).arguments .shape
  record op (if name = "load" then (g.node memory).type else type)
    (g.argumentsFrom .memory [memory] ++ g.argumentsFrom .input operands
      ++ g.argumentsFrom .index indices ++ shape)

/-- Records an operation without operands. -/
def source (name : String) (shape : List Argument) (type : Scalar) : Build NodeId := do
  let name := Text.removeSpaces name
  if name = "" then throw .sourceNameBlank
  match Operation.find name with
  | .error e => throw e
  | .ok op =>
    if op.yields type then record op type shape else throw (.resultType type name)

/-- Shape arguments from nodes that hold the sizes. -/
def shapeOf (sizes : List NodeId) : Build (List Argument) := do
  let g ← get
  return g.argumentsFrom .shape sizes

/-- The shape arguments of a node. -/
def shapeArguments (n : NodeId) : Build (List Argument) := do
  let g ← get
  return (g.node n).arguments .shape

/-- Records an operation without operands that carries words. -/
def sourceWith (name : String) (shape : List Argument) (type : Scalar) (data : List UInt32) :
    Build NodeId := do
  let n ← source name shape type
  modify fun g => g.setData n data
  return n

/-- A constant: a word read by its type. -/
def constant (type : Scalar) (w : UInt32) : Build NodeId := sourceWith "const" [] type [w]

/-- A constant with a shape. -/
def constantOf (shape : List NodeId) (type : Scalar) (w : UInt32) : Build NodeId := do
  sourceWith "const" (← shapeOf shape) type [w]

/-- A signed integer constant. -/
def integer (i : Int) : Build NodeId := constant .int (word i)

/-- One integer constant for each size. -/
def integers (sizes : List Int) : Build (List NodeId) := sizes.mapM integer

/-- Memory with the given sizes. -/
def memory (shape : List NodeId) (type : Scalar) : Build NodeId := do
  source "memory" (← shapeOf shape) type

/-- Memory with fixed contents. -/
def constantData (sizes : List Int) (data : List UInt32) : Build NodeId := do
  let shape ← integers sizes
  let n ← memory shape .float
  modify fun g => (g.setRole n .constant 0).setData n (data.take (elements sizes).toNat)
  return n

/-- Memory that the caller hands in. -/
def input (shape : List NodeId) (type : Scalar) : Build NodeId := do
  let n ← memory shape type
  modify fun g => g.setRole n .input 0
  return n

/-- Nodes for the declared sizes of an input: a negative size is known only when the program runs
and gets an integer memory of its own. -/
def inputSizes (sizes : List Int) : Build (List NodeId) :=
  sizes.mapM fun i => if i < 0 then memory [] .int else integer i

/-- A coordinate of the index space with the given shape arguments. -/
def coordinate (shape : List Argument) (dim : Int) : Build NodeId :=
  sourceWith "dim_id" shape .int [word dim]

/-- The number of the thread in the index space with the given shape arguments. -/
def threadIndex (shape : List Argument) : Build NodeId := source "thread_id" shape .int

/-- Loads from memory. -/
def load (memory : NodeId) (indices : List NodeId) : Build NodeId :=
  access "load" memory indices []

/-- Stores a value into memory. -/
def store (memory value : NodeId) (indices : List NodeId) : Build NodeId :=
  access "store" memory indices [value]

/-- A further node with the operation, type and words of a given one. -/
def copyNode (n : NodeId) (args : List Argument) : Build NodeId := do
  let g ← get
  let entry := g.node n
  let copy ← record entry.op entry.type args
  modify fun g => g.setData copy entry.data
  return copy

/-- The sizes of a node by dimension. A gap among the dimensions has size one; the constant for it
is recorded whenever there is a dimension at all. -/
def shape (n : NodeId) : Build (List NodeId) := do
  let g ← get
  let entry := g.node n
  if entry.rank = 0 then return []
  else
    let one ← integer 1
    return (List.range entry.rank.toNat).map fun (i : Nat) => (g.size? n i).getD one

/-- A loop: its head, whose value is the loop variable, the body, and its end. -/
def loop (start stop step : NodeId) (body : NodeId → Build α) : Build α := do
  let var ← apply "loop_begin" [start, stop, step]
  let result ← body var
  let _ ← apply "loop_end" [var]
  return result

end Build

/-- The sizes of a node as far as they are constant words; a gap has size one. -/
def Graph.constantShape (g : Graph) (n : NodeId) : List Int :=
  (List.range (g.node n).rank.toNat).map fun (i : Nat) =>
    match g.size? n i with
    | some size => signed (g.node size).word
    | none => 1

end KernelFusion
