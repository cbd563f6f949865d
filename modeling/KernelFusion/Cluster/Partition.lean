/-
Cutting a program into clusters.

The program is swept once. A node starts a new cluster if a boundary lies between it and the node
in front of it, or on an edge from the cluster that is being filled; otherwise it joins that
cluster. Clusters from an earlier cut are forgotten: a label is released with the last node of each
run that it stands on.
-/
import KernelFusion.Cluster.Boundary

namespace KernelFusion.Graph

/-- The state of the sweep, with the old labels that have been released, the latest first. The sweep
is `lost` once a missing size has been asked for. -/
structure Sweep where
  graph : Graph
  current : Option ClusterId := none
  released : List ClusterId := []
  lost : Bool := false

/-- Does a node start a new cluster? Its own old cluster has been cleared. -/
def startsCluster (g : Graph) (current : Option ClusterId) (n : NodeId) : Bool :=
  let elementwise := (g.node n).isElementwise
  let apart := match g.prev? n with
    | some p => (g.node p).cluster = current && g.isBoundary p n none elementwise
    | none => true
  apart || (g.node n).args.any fun a =>
    (g.node (g.source a)).cluster = current && g.isBoundary (g.source a) n (some a) elementwise

/-- Does finding out whether a node starts a new cluster ask for a missing size? The edges are
looked at up to the first boundary. -/
def startAsksMissing (g : Graph) (current : Option ClusterId) (n : NodeId) : Bool :=
  let elementwise := (g.node n).isElementwise
  let neighbour := (g.prev? n).any fun p =>
    (g.node p).cluster = current && g.boundaryAsksMissing p n none elementwise
  let edges := (g.node n).args.filter fun a => (g.node (g.source a)).cluster = current
  let looked := searched (fun a => g.isBoundary (g.source a) n (some a) elementwise) edges
  neighbour || looked.any fun a => g.boundaryAsksMissing (g.source a) n (some a) elementwise

/-- The label whose run ends with a node. -/
def endsRun? (g : Graph) (n : NodeId) : Option ClusterId :=
  (g.node n).cluster.filter fun k => (g.next? n).all fun m => (g.node m).cluster ≠ some k

/-- Sets the cluster of a node. -/
def setCluster (g : Graph) (n : NodeId) (k : Option ClusterId) : Graph :=
  g.modifyNode n fun m => { m with cluster := k }

/-- One step of the sweep. -/
def Sweep.step (s : Sweep) (n : NodeId) : Sweep :=
  let g := s.graph.setCluster n none
  let released := (s.graph.endsRun? n).toList ++ s.released
  let lost := s.lost || g.startAsksMissing s.current n
  if g.startsCluster s.current n then
    let k := g.clusters.size
    { graph := { g with clusters := g.clusters.push (some n) }.setCluster n (some k)
      current := some k
      released, lost }
  else
    { graph := g.setCluster n s.current, current := s.current, released, lost }

/-- The sweep over all nodes. -/
def sweep (g : Graph) : Sweep := g.order.foldl Sweep.step { graph := g }

/-- The graph with its nodes cut into clusters. -/
def clusterize (g : Graph) : Graph := g.sweep.graph

end KernelFusion.Graph
