/-
What a clustered program looks like from outside its clusters.

The cost of a node is that of its operation and of the operands that its own cluster computes. A
node is exported if it is an output or if a node of another cluster takes its value or its memory.
-/
import KernelFusion.Graph.Basic

namespace KernelFusion

/-- A value that leaves its cluster. -/
structure Export where
  node : NodeId
  cluster : ClusterId
  uses : List Use
deriving Repr, Inhabited

/-- The summary of a clustered program. -/
structure Summary where
  clusters : List ClusterId
  exports : List Export
  costs : Array Cost
deriving Inhabited

/-- The cost of a node; memory and nodes outside of all clusters have none. -/
def Summary.cost (s : Summary) (n : NodeId) : Cost := s.costs.getD n .zero

namespace Graph

/-- Does a node count in the summary? -/
def isClustered (g : Graph) (n : NodeId) : Bool :=
  !(g.node n).isMemory && (g.node n).cluster.isSome

/-- Is the value of an argument computed by the cluster of its user? -/
def isLocal (g : Graph) (n : NodeId) (a : Argument) : Bool :=
  (g.node (g.source a)).cluster = (g.node n).cluster && a.kind ≠ .memory && a.kind ≠ .shape

/-- The cost of a node from the costs of earlier ones. -/
def nodeCost (g : Graph) (costs : Array Cost) (n : NodeId) : Cost :=
  (g.node n).args.foldl
    (fun c a => if g.isLocal n a then c + costs.getD (g.source a) .zero else c) (g.node n).op.weight

/-- The costs of all nodes of the program. -/
def costs (g : Graph) : Array Cost :=
  (g.order.filter g.isClustered).foldl (fun costs n => costs.setIfInBounds n (g.nodeCost costs n))
    (Array.replicate g.nodes.size .zero)

/-- The uses of a node in other clusters. -/
def outsideUses (g : Graph) (n : NodeId) : List Use :=
  (g.uses n).filter fun u => u.kind ≠ .shape && (g.node u.user).cluster ≠ (g.node n).cluster

/-- The export of a node, if it is one. -/
def exported? (g : Graph) (n : NodeId) : Option Export :=
  match (g.node n).cluster with
  | some k =>
    let uses := g.outsideUses n
    if (g.node n).role = .output || !uses.isEmpty then some ⟨n, k, uses⟩ else none
  | none => none

/-- The clusters of the program, in order of first appearance. -/
def clusterOrder (g : Graph) : List ClusterId :=
  firstOccurrences ((g.order.filter g.isClustered).filterMap fun n => (g.node n).cluster)

/-- The summary of the program. -/
def summary (g : Graph) : Summary where
  clusters := g.clusterOrder
  exports := (g.order.filter g.isClustered).filterMap g.exported?
  costs := g.costs

end Graph

end KernelFusion
