/-
Names for the nodes of a program.

Memory nodes are numbered through. Every other node is named by the number of its stretch of the
program and its number in its cluster; a new stretch begins wherever the cluster changes.
-/
import KernelFusion.Graph.Basic

namespace KernelFusion

/-- The state of naming nodes one after the other. Of the entries of `counts` for a cluster the
first one counts. -/
structure Naming where
  memory : Nat := 0
  stretch : Nat := 0
  previous : Option ClusterId := none
  counts : List (Option ClusterId × Nat) := []
  names : Array String

/-- Names one more node. -/
def Naming.step (g : Graph) (s : Naming) (n : NodeId) : Naming :=
  let cluster := (g.node n).cluster
  let stretch := if cluster = s.previous then s.stretch else s.stretch + 1
  if (g.node n).isMemory then
    { s with
      memory := s.memory + 1
      stretch := stretch
      previous := cluster
      names := s.names.setIfInBounds n ("mem" ++ toString s.memory) }
  else
    let i := (s.counts.lookup cluster).getD 0
    { s with
      stretch := stretch
      previous := cluster
      counts := (cluster, i + 1) :: s.counts
      names := s.names.setIfInBounds n ("var" ++ toString stretch ++ "_" ++ toString i) }

/-- The names of the nodes of a program; a node outside of the program has the empty name. -/
structure Names where
  table : Array String

/-- The name of a node. -/
def Names.of (names : Names) (n : NodeId) : String := names.table.getD n ""

/-- The text of a constant or of the dimension of a coordinate. -/
def Node.constantText (n : Node) : String :=
  if n.isConst || n.isCoordinate then
    match n.type with
    | .float => Single.sixPlaces n.word ++ "f"
    | .int => toString (signed n.word)
    | .uint => toString n.word.toNat ++ "u"
    | .bool | .void => ""
  else ""

namespace Graph

/-- Names for all nodes of the program. -/
def names (g : Graph) : Names :=
  ⟨(g.order.foldl (Naming.step g) { names := Array.replicate g.nodes.size "" }).names⟩

/-- The name of a node, where constants stand for themselves. -/
def valueName (g : Graph) (names : Names) (n : NodeId) : String :=
  if (g.node n).isConst then (g.node n).constantText else names.of n

end Graph

end KernelFusion
