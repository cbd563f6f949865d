/-
Passing values between clusters through memory.

Every exported value gets a memory node in front of its cluster and is stored there. The uses in
other clusters load from that memory, each just in front of the user; memory uses take the memory
itself. Finally every direct use of memory as a value becomes a load.
-/
import KernelFusion.Cluster.Summary
import KernelFusion.Tensor.Factory

namespace KernelFusion

/-- Puts an export in front of those of greater or equal cluster. -/
def insertByCluster (e : Export) : List Export → List Export
  | [] => [e]
  | f :: rest => if e.cluster ≤ f.cluster then e :: f :: rest else f :: insertByCluster e rest

/-- The exports by cluster, oldest cluster first; those of one cluster stay in program order. -/
def Summary.exportsByCluster (s : Summary) : List Export := s.exports.foldr insertByCluster []

namespace Build

/-- Records the memory of an exported value in front of its cluster. The memory of an output takes
over its role. -/
def spillMemory (e : Export) (head : NodeId) : Build NodeId :=
  before head false do
    let shape ← shapeArguments e.node
    let m ← source "memory" shape ((← get).node e.node).type
    let g ← get
    let value := g.node e.node
    if value.role = .output then
      set ((g.setRole m .output value.slot).setRole e.node .scratch value.slot)
    return m

/-- Lets an argument come from a load of memory in front of its user. -/
def loadFor (m user : NodeId) (position : Nat) : Build Unit :=
  before user true do
    let l ← load m []
    modify fun g => g.setSource user position l

/-- Lets one use of an exported value come from its memory. -/
def spillUse (m : NodeId) (u : Use) : Build Unit :=
  if u.kind = .memory then modify fun g => g.setSource u.user u.position m
  else loadFor m u.user u.position

/-- Stores an exported value behind its node; the store joins the cluster of the value. -/
def spillStore (e : Export) (m : NodeId) : Build Unit :=
  after e.node true do
    let s ← store m e.node []
    modify fun g => g.modifyNode s fun n => { n with cluster := some e.cluster }

/-- Passes one exported value through memory. Its cluster needs a head to put the memory before. -/
def spillExport (e : Export) : Build Unit := do
  match (← get).head? e.cluster with
  | some head =>
    let m ← spillMemory e head
    e.uses.forM (spillUse m)
    spillStore e m
  | none =>
    modify fun g => { g with current := none }
    throw .headMissing

/-- Loads the memory that a node uses as a value. -/
def loadDirect (n : NodeId) : Build Unit := do
  let g ← get
  (g.node n).args.zipIdx.forM fun (a, i) =>
    if a.kind ≠ .memory && a.kind ≠ .shape && (g.node (g.source a)).isMemory then
      loadFor (g.source a) n i
    else
      return ()

/-- Passes exported values through memory, in the given order, and loads what is memory. -/
def spillInOrder (exports : List Export) : Build Unit := do
  exports.forM spillExport
  let g ← get
  (g.order.filter fun n => !(g.node n).isMemory).forM loadDirect

/-- Passes values between clusters through memory. -/
def spill : Build Unit := do spillInOrder (← get).summary.exportsByCluster

end Build

end KernelFusion
