/-
The graph of a recorded program.

A program is a list of nodes in execution order. A node applies an operation to arguments; an
argument names its source through a label, so that all users of a value can be moved to another
node at once. Nodes are grouped into clusters, the future kernels; a cluster remembers its head,
the node its run of the list starts with.

Nodes, their neighbours, labels and clusters live in tables that only grow (`Arena`). Which node a
program starts with is kept apart from them (`Sequence`), together with the cursor at which new
nodes enter. The order of the program is read off by going from neighbour to neighbour.
-/
import KernelFusion.Operation.Basic
import KernelFusion.Graph.Argument
import KernelFusion.Graph.Chain

namespace KernelFusion

/-- Index of a cluster in the table of clusters. A later cluster has a greater index. -/
abbrev ClusterId := Nat

/-- How the memory behind a node is bound when the program runs. -/
inductive MemoryRole where
  | scratch
  | input
  | output
  | constant
deriving DecidableEq, Repr, Inhabited

/-- One operation of the program. `data` are words that belong to it, such as the value of a
constant, and `slot` is its place among the outputs. -/
structure Node where
  op : Operation
  type : Scalar
  args : List Argument
  label : LabelId
  data : List UInt32 := []
  role : MemoryRole := .scratch
  slot : Int := 0
  cluster : Option ClusterId := none
deriving Inhabited

namespace Node

/-- The name of the operation. -/
def name (n : Node) : String := n.op.name

/-- Does the node stand for memory? -/
def isMemory (n : Node) : Bool := n.op.name = "memory"

/-- Is the node a constant? -/
def isConst (n : Node) : Bool := n.op.name = "const"

/-- Is the node a coordinate of the kernel's index space? -/
def isCoordinate (n : Node) : Bool := n.op.name = "dim_id"

/-- The first word of the node. -/
def word (n : Node) : UInt32 := n.data.headD 0

/-- The arguments of one use, by ascending index. -/
def arguments (n : Node) (k : ArgKind) : List Argument :=
  sortByIndex (n.args.filter fun a => a.kind = k)

theorem mem_arguments {n : Node} {k : ArgKind} {a : Argument} :
    a ∈ n.arguments k ↔ a ∈ n.args ∧ a.kind = k := by
  simp [arguments]

/-- The arguments of one use, by strictly ascending index: of several with one index the last
counts. -/
def places (n : Node) (k : ArgKind) : List Argument := lastOfEachIndex (n.arguments k)

/-- The arguments of one use, by strictly ascending index: of several with one index the one that
was added last counts. -/
def entries (n : Node) (k : ArgKind) : List Argument :=
  lastOfEachIndex ((n.args.filter fun a => a.kind = k).foldr insertByIndex [])

/-- The size argument of one dimension. -/
def sizeAt? (n : Node) (dim : Nat) : Option Argument :=
  (n.entries .shape).find? fun a => a.index = dim

/-- One more than the greatest index of one use, and zero if there is none. -/
def extent (n : Node) (k : ArgKind) : Int :=
  match (n.entries k).getLast? with
  | some a => a.index + 1
  | none => 0

/-- The greatest index of one use, but at least zero. -/
def maxIndex (n : Node) (k : ArgKind) : Int :=
  (n.arguments k).foldl (fun m a => max m a.index) 0

/-- The rank: one more than the greatest index of a shape argument, but at least zero. -/
def rank (n : Node) : Int :=
  (n.arguments .shape).foldl (fun m a => max m a.index) (-1) + 1

/-- Does the operation take no coordinates? -/
def isElementwise (n : Node) : Bool := (n.arguments .index).isEmpty

end Node

/-- The tables of the nodes and their neighbours, of the nodes that labels stand for, and of the
heads of clusters. -/
structure Arena where
  nodes : Array Node := #[]
  chain : Chain := {}
  labels : Array NodeId := #[]
  clusters : Array (Option NodeId) := #[]
deriving Inhabited

/-- How the threads of a kernel are enumerated. -/
inductive KernelMode where
  | linear
  | multi
  | linearBlocks
  | multiBlocks
deriving DecidableEq, Repr, Inhabited

/-- What becomes of an index outside of its dimension. -/
inductive TensorMode where
  | unchecked
  | clamp
  | wrap
  | zero
deriving DecidableEq, Repr, Inhabited

/-- The nodes of one program and the place where new ones enter: behind `cursor`, or without one
at the front, linked to `ahead`. New nodes join the cluster `current`; `last` entered at the end
last. -/
structure Sequence where
  first : Option NodeId := none
  created : List NodeId := []
  cursor : Option NodeId := none
  ahead : Option NodeId := none
  last : Option NodeId := none
  current : Option ClusterId := none
  kernelMode : KernelMode := .linear
  tensorMode : TensorMode := .unchecked
deriving Inhabited

/-- A program being built: its tables, its sequence, and whether it records new nodes. -/
structure Graph extends Arena, Sequence where
  recording : Bool := false
deriving Inhabited

/-- Actions on a graph. What an action changed before it failed stays changed. -/
abbrev Build := EStateM Fault Graph

/-- Adds an element behind a list unless it is a member. -/
def appendNew (seen : List Nat) (n : Nat) : List Nat :=
  if seen.contains n then seen else seen ++ [n]

@[simp] theorem mem_appendNew {seen : List Nat} {n m : Nat} :
    m ∈ appendNew seen n ↔ m ∈ seen ∨ m = n := by
  unfold appendNew
  split <;> simp_all

/-- The elements of a list in order of first occurrence. -/
def firstOccurrences (nodes : List Nat) : List Nat := nodes.foldl appendNew []

theorem mem_foldl_appendNew {nodes seen : List Nat} {m : Nat} :
    m ∈ nodes.foldl appendNew seen ↔ m ∈ seen ∨ m ∈ nodes := by
  induction nodes generalizing seen with
  | nil => simp
  | cons n rest ih => simp [ih, or_assoc]

@[simp] theorem mem_firstOccurrences {nodes : List Nat} {m : Nat} :
    m ∈ firstOccurrences nodes ↔ m ∈ nodes := by
  simp [firstOccurrences, mem_foldl_appendNew]

namespace Graph

/-- A node of the graph. -/
def node (g : Graph) (n : NodeId) : Node := g.nodes.getD n default

/-- The node a label stands for. -/
def target (g : Graph) (l : LabelId) : NodeId := g.labels.getD l 0

/-- The source of an argument. -/
def source (g : Graph) (a : Argument) : NodeId := g.target a.source

/-- The label of a node. -/
def label (g : Graph) (n : NodeId) : LabelId := (g.node n).label

/-- The head of a cluster. -/
def head? (g : Graph) (k : ClusterId) : Option NodeId := (g.clusters[k]?).join

/-- The node in front of another one. -/
def prev? (g : Graph) (n : NodeId) : Option NodeId := g.chain.prev? n

/-- The node behind another one. -/
def next? (g : Graph) (n : NodeId) : Option NodeId := g.chain.next? n

/-- The program, in execution order. -/
def order (g : Graph) : List NodeId := g.chain.onward g.first

/-- The nodes from a given one on. -/
def fromNode (g : Graph) (n : NodeId) : List NodeId := g.chain.onward (some n)

/-- The nodes of a cluster: those from its head on, up to the first one outside. -/
def run (g : Graph) (k : ClusterId) : List NodeId :=
  match g.head? k with
  | some h => (g.fromNode h).takeWhile fun m => (g.node m).cluster = some k
  | none => []

/-- The position of a node in the program. -/
def position? (g : Graph) (n : NodeId) : Option Nat := g.order.findIdx? (· = n)

/-- The position of a node among the nodes of the program in the order they were made. -/
def creation? (g : Graph) (n : NodeId) : Option Nat := g.created.findIdx? (· = n)

/-- The nodes that the arguments of one use come from, by strictly ascending index. -/
def sources (g : Graph) (n : NodeId) (k : ArgKind) : List (Int × NodeId) :=
  ((g.node n).places k).map fun a => (a.index, g.source a)

/-- The size of a node in one dimension. -/
def size? (g : Graph) (n : NodeId) (dim : Nat) : Option NodeId :=
  ((g.node n).sizeAt? dim).map g.source

/-- The sizes of a node from the first dimension up to its greatest one. Shape arguments of negative
index belong to no dimension. -/
def dimensions (g : Graph) (n : NodeId) : List NodeId :=
  (List.range ((g.node n).extent .shape).toNat).filterMap (g.size? n)

/-- The memory that a node accesses. -/
def memoryOf? (g : Graph) (n : NodeId) : Option NodeId :=
  (((g.node n).places .memory).find? fun a => a.index = 0).map g.source

/-- Changes one node. -/
def modifyNode (g : Graph) (n : NodeId) (f : Node → Node) : Graph :=
  { g with nodes := g.nodes.modify n f }

end Graph

/-! ### Uses

A use is an argument of a listed node whose source is the node in question. Values are defined
before they are used, so only the nodes from the given one on are looked at. -/

/-- An argument seen from its source; `position` is its place in the argument list of the user. -/
structure Use where
  user : NodeId
  position : Nat
  kind : ArgKind
  index : Int
deriving DecidableEq, Repr, Inhabited

namespace Graph

/-- The arguments of one node that come from another one. -/
def usesIn (g : Graph) (user n : NodeId) : List Use :=
  (g.node user).args.zipIdx.filterMap fun (a, i) =>
    if g.source a = n then some ⟨user, i, a.kind, a.index⟩ else none

/-- The uses of a node, in program order. -/
def uses (g : Graph) (n : NodeId) : List Use :=
  (g.fromNode n).flatMap fun m => g.usesIn m n

end Graph

end KernelFusion
