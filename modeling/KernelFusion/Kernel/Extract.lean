/-
Kernels, and how they are read off a program.

A program runs as a list of kernels. A memory kernel allocates the memory of one node; a compute
kernel executes one cluster over an index space. A compute kernel reaches memory through slots,
numbered in order of first use, and receives single words through its scalars, numbered likewise.

In program order, every memory node that is not an input becomes a memory kernel, and every cluster
that writes memory becomes a compute kernel. A node without a cluster counts as the start of the
run of such nodes behind it. The index space of a compute kernel is the first complete shape among
its nodes.
-/
import KernelFusion.Graph.Basic

namespace KernelFusion

/-- What a kernel does. -/
inductive KernelKind where
  | memory
  | compute
deriving DecidableEq, Repr, Inhabited

/-- One kernel of a program, with the memory behind its scalars and slots and the labels of the
sizes of its index space. -/
structure Kernel where
  kind : KernelKind
  mode : KernelMode
  first : NodeId
  scalars : List NodeId
  memory : List NodeId
  shape : List LabelId
deriving Inhabited

/-- The rank of the index space. -/
def Kernel.dim (k : Kernel) : Nat := k.shape.length

namespace Graph

/-- Is a node the start of a cluster, or outside of all clusters? -/
def startsRun (g : Graph) (n : NodeId) : Bool :=
  match (g.node n).cluster with
  | some k => g.head? k = some n
  | none => true

/-- The nodes from a given one on that share its cluster. -/
def runFrom (g : Graph) (n : NodeId) : List NodeId :=
  (g.fromNode n).takeWhile fun m => (g.node m).cluster = (g.node n).cluster

/-- The labels of the sizes of a node, if no dimension is missing and there is one at all. -/
def completeShape? (g : Graph) (n : NodeId) : Option (List LabelId) :=
  let sizes := (g.node n).entries .shape
  let extent := (g.node n).extent .shape
  if extent ≠ 0 && (sizes.length : Int) = extent then some (sizes.map (·.source)) else none

/-- The memory that some nodes access, in order of first use. -/
def accessedMemory (g : Graph) (nodes : List NodeId) : List NodeId :=
  firstOccurrences <| (nodes.filter fun n => (g.node n).op.kind.accesses).map fun n =>
    (g.memoryOf? n).getD 0

/-- The memory that some nodes take as a value, in order of first use. -/
def memoryValues (g : Graph) (nodes : List NodeId) : List NodeId :=
  firstOccurrences <| nodes.flatMap fun n =>
    ((g.sources n .input).map (·.2)).filter fun m => (g.node m).isMemory

/-- The compute kernel of the run from a node on, if the run writes memory. -/
def computeKernel? (g : Graph) (n : NodeId) : Except Fault (Option Kernel) :=
  let nodes := g.runFrom n
  if nodes.any fun m => (g.node m).op.kind.writes then
    match nodes.findSome? g.completeShape? with
    | some shape =>
      .ok (some ⟨.compute, g.kernelMode, n, g.memoryValues nodes, g.accessedMemory nodes, shape⟩)
    | none => .error .kernelShapeless
  else .ok none

/-- The kernel that starts at a node. -/
def kernelAt? (g : Graph) (n : NodeId) : Except Fault (Option Kernel) :=
  if (g.node n).isMemory then
    if (g.node n).role = .input then .ok none
    else .ok (some ⟨.memory, g.kernelMode, n, [], [], []⟩)
  else if g.startsRun n then g.computeKernel? n
  else .ok none

/-- The kernels of the program. -/
def kernels (g : Graph) : Except Fault (List Kernel) := do
  let found ← g.order.mapM g.kernelAt?
  return found.filterMap id

end Graph

end KernelFusion
