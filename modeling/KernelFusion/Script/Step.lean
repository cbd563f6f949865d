/-
Scripts: programs written as lists of steps.

A step records one or several tensors, gives them a name, or asks something about a tensor. Every
sequence of steps is a program; a step that fails binds no name, and what it changed before stays
changed.
-/
import KernelFusion.Tensor.Function
import KernelFusion.Emit.Names

namespace KernelFusion

/-- A shape in a script: sizes, or the names of tensors that hold them. -/
inductive Extent where
  | sizes (sizes : List Int)
  | tensors (names : List String)
deriving Repr, Inhabited

/-- An index space in a script. -/
inductive Domain where
  | like (name : String)
  | extent (shape : Extent)
deriving Repr, Inhabited

/-- The scatter operations. -/
inductive ScatterKind where
  | add
  | min
  | max
  | and
  | or
  | xor
deriving DecidableEq, Repr, Inhabited

/-- The operation of a scatter. -/
def ScatterKind.operation : ScatterKind → String
  | add => "InterlockedAdd"
  | min => "InterlockedMin"
  | max => "InterlockedMax"
  | and => "InterlockedAnd"
  | or => "InterlockedOr"
  | xor => "InterlockedXor"

/-- What a step does. No step makes memory whose sizes are given as arguments of another node: only
`Build.spillMemory` does. -/
inductive Action where
  | constant (type : Scalar) (w : UInt32) (shape : Extent)
  | constantData (sizes : List Int) (data : List UInt32)
  | memory (type : Scalar) (shape : List String)
  | input (type : Scalar) (shape : Extent)
  | index (domain : Domain) (dim : Int)
  | indices (domain : Domain)
  | threadIndex (domain : Domain)
  | load (memory : String) (indices : List String)
  | store (memory value : String) (indices : List String)
  | scatter (kind : ScatterKind) (memory value : String) (indices : List String)
  | call (f : TensorFunction) (operands : List String)
  | access (operation memory : String) (indices operands : List String)
  | source (operation : String) (shape : List String) (type : Scalar)
  | sum (x : String) (dim : Int)
  | copy (x : String)
  | shape (x : String)
  | constantShape (x : String)
  | rank (x : String)
  | constantText (x : String)
  | isConstant (x : String) (value : Float32)
  | data (x : String)
  | setRole (x : String) (role : MemoryRole) (slot : Int)
  | arguments (x : String) (kind : ArgKind)
  | addArgument (x source : String) (kind : ArgKind) (index : Int)
  | removeArguments (x : String) (kind : ArgKind)
deriving Inhabited

/-- One step of a script. -/
inductive Step where
  | act (action : Action) (name : Option String)
  | loop (start stop step : String) (name : Option String) (body : List Step)
deriving Inhabited

/-- A tensor as an answer: its place among the nodes in the order they were made, if the graph
that records has it, and its type. -/
structure TensorAnswer where
  node : Option Nat
  type : Scalar
deriving DecidableEq, Repr, Inhabited

/-- The arguments of one use, as an answer. -/
structure ArgumentsAnswer where
  list : List (Int × Option Nat)
  places : List (Int × Option Nat)
  maxIndex : Int
  extent : Int
deriving DecidableEq, Repr, Inhabited

/-- The answer to a step. -/
inductive Answer where
  | tensor (t : TensorAnswer)
  | tensors (nodes : List (Option Nat))
  | done
  | number (i : Int)
  | numbers (is : List Int)
  | text (s : String)
  | truth (b : Bool)
  | words (ws : List UInt32)
  | arguments (a : ArgumentsAnswer)
  | body (answers : List Answer)
  | failed (fault : Fault)
deriving Inhabited

end KernelFusion
