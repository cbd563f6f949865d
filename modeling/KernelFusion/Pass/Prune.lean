/-
Removing what no output needs.

A node is needed if it is an output, if it accesses needed memory, or if a needed node uses it.
This is found in three sweeps over the program: forward along memory, backward along all uses, and
forward along memory again. Memory itself is never removed.
-/
import KernelFusion.Graph.Edit

namespace KernelFusion.Graph

/-- Does a node access memory of the given set? -/
def touches (g : Graph) (needed : List NodeId) (n : NodeId) : Bool :=
  (g.node n).args.any fun a => a.kind = .memory && needed.contains (g.source a)

/-- Does a node of the given set use this one? -/
def feeds (g : Graph) (needed : List NodeId) (n : NodeId) : Bool :=
  (g.uses n).any fun u => needed.contains u.user

/-- Adds a node to a set unless it is a member. -/
def addNeeded (needed : List NodeId) (n : NodeId) : List NodeId :=
  if needed.contains n then needed else n :: needed

/-- The sweep along memory. -/
def sweepMemory (g : Graph) (needed : List NodeId) : List NodeId :=
  g.order.foldl (fun needed n => if g.touches needed n then addNeeded needed n else needed) needed

/-- The sweep against the order of the program. It starts at the node that entered at the end
last. -/
def sweepUses (g : Graph) (needed : List NodeId) : List NodeId :=
  (g.chain.backward g.last).foldl
    (fun needed n => if g.feeds needed n || g.touches needed n then addNeeded needed n else needed)
    needed

/-- The nodes that the outputs need. -/
def needed (g : Graph) : List NodeId :=
  let outputs := g.order.filter fun n => (g.node n).role = .output
  g.sweepMemory (g.sweepUses (g.sweepMemory outputs))

/-- The graph without the nodes that no output needs. -/
def prune (g : Graph) : Graph :=
  let needed := g.needed
  (g.order.filter fun n => !(g.node n).isMemory && !needed.contains n).foldl remove g

end KernelFusion.Graph
