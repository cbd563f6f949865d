/-
Recomputing cheap values.

A value that another cluster computes can be computed again in the cluster that needs it, if it is
cheap enough. `copyComputation` records copies of given nodes and of everything they are computed
from, except for memory and sizes; `recompute` does so at the head of every cluster and lets the
arguments of that cluster come from the copies.
-/
import KernelFusion.Cluster.Summary
import KernelFusion.Tensor.Factory

namespace KernelFusion

namespace Graph

/-- Is the value of an argument part of the computation of its user? Sizes and memory are not. -/
def isComputed (g : Graph) (a : Argument) : Bool :=
  a.kind ≠ .shape && !(g.node (g.source a)).isMemory

/-- The nodes that a node is computed from directly. -/
def operandNodes (g : Graph) (n : NodeId) : List NodeId :=
  ((g.node n).args.filter g.isComputed).map g.source

/-- Depth-first search along operands. The fuel bounds the number of visits. -/
def reach (g : Graph) : Nat → List NodeId → List NodeId → List NodeId
  | 0, _, seen => seen
  | _, [], seen => seen
  | fuel + 1, n :: rest, seen =>
    if seen.contains n then g.reach fuel rest seen
    else g.reach fuel (g.operandNodes n ++ rest) (n :: seen)

/-- The nodes that the targets are computed from, the targets included. Each visit comes from a
target or from an argument of a node visited before, so the fuel suffices. -/
def closure (g : Graph) (targets : List NodeId) : List NodeId :=
  g.reach (targets.length + (g.nodes.foldl (fun s n => s + n.args.length) 0) + 1) targets []

end Graph

/-- Pairs of a node and its copy. -/
abbrev Copies := List (NodeId × NodeId)

namespace Build

/-- The arguments of a copy: values come from the copies, memory and sizes stay. -/
def copiedArguments (copies : Copies) (n : NodeId) : Build (List Argument) := do
  let g ← get
  (g.node n).args.mapM fun a => do
    if g.isComputed a then
      match copies.lookup (g.source a) with
      | some c => return { a with source := g.label c }
      | none => throw .operandNotCopied
    else
      return a

/-- Records copies of nodes in program order. -/
def copyNodes (copies : Copies) : List NodeId → Build Copies
  | [] => return copies
  | n :: rest => do
    let args ← copiedArguments copies n
    let c ← copyNode n args
    copyNodes ((n, c) :: copies) rest

/-- Records copies of the targets and of everything they are computed from. -/
def copyComputation (targets : List NodeId) : Build Copies := do
  let g ← get
  let closure := g.closure targets
  copyNodes [] (g.order.filter fun n => closure.contains n)

/-- Lets one argument come from the copy of its source. -/
def useCopy (copies : Copies) (n : NodeId) (position : Nat) : Build Unit :=
  modify fun g =>
    match (g.node n).args[position]? with
    | some a =>
      match copies.lookup (g.source a) with
      | some c => g.setSource n position c
      | none => g
    | none => g

end Build

/-- A value is cheap if it costs less than two accesses to memory. -/
def cheap (cost : Cost) : Bool := cost.below 256

/-- The places of the arguments of a node that are worth a copy: values of other clusters that
are cheap. -/
def Graph.copyable (g : Graph) (s : Summary) (n : NodeId) : List Nat :=
  (g.node n).args.zipIdx.filterMap fun (a, i) =>
    let m := g.source a
    if a.kind ≠ .memory && a.kind ≠ .shape && !(g.node m).isMemory
        && (g.node m).cluster ≠ (g.node n).cluster && cheap (s.cost m) then some i
    else none

namespace Build

/-- Recomputes the cheap values that one cluster takes from others. -/
def recomputeCluster (s : Summary) (k : ClusterId) : Build Unit := do
  let g ← get
  match g.head? k with
  | some h =>
    if (g.node h).isMemory then return ()
    else
      let wanted := (g.run k).flatMap fun n => (g.copyable s n).map fun i => (n, i)
      let targets := wanted.filterMap fun (n, i) => (g.node n).args[i]?.map g.source
      let copies ← before h true (copyComputation targets)
      wanted.forM fun (n, i) => useCopy copies n i
  | none => return ()

/-- Recomputes cheap values in every cluster. -/
def recompute : Build Unit := do
  let s := (← get).summary
  s.clusters.forM (recomputeCluster s)

end Build

end KernelFusion
