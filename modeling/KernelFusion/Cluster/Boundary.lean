/-
Boundaries between clusters.

Two nodes may share a cluster if their shapes agree, if both or neither is memory, and if no edge
between them carries a dependence across threads: what has been stored or scattered, the memory of
a gather or a scatter, and the sizes of a shape have to be complete before they are used.

Shapes are compared one dimension after the other, up to the first in which they differ. A
comparison that gets to a dimension in which a node has no size, or a constant without a value,
asks for what is missing, and what it answers then is arbitrary (`shapesAskMissing`).
-/
import KernelFusion.Graph.Basic

namespace KernelFusion.Graph

/-- Are two sizes the same: constants of one value, or one node? -/
def sameSize (g : Graph) (a b : NodeId) : Bool :=
  if (g.node a).isConst && (g.node b).isConst then (g.node a).word = (g.node b).word else a = b

/-- Do two nodes have the same size in one dimension? What is missing is taken to differ. -/
def sizesAgree (g : Graph) (a b : NodeId) (dim : Nat) : Bool :=
  match g.size? a dim, g.size? b dim with
  | some x, some y => g.sameSize x y
  | _, _ => false

/-- Do the shapes of two nodes agree? A node without a shape agrees with every other. -/
def shapesAgree (g : Graph) (a b : NodeId) : Bool :=
  let ranks := ((g.node a).extent .shape, (g.node b).extent .shape)
  if min ranks.1 ranks.2 = 0 then true
  else ranks.1 = ranks.2 && (List.range ranks.1.toNat).all (g.sizesAgree a b)

/-- What a search looks at: the elements up to the first one it finds. -/
def searched {α : Type} (found : α → Bool) : List α → List α
  | [] => []
  | x :: rest => if found x then [x] else x :: searched found rest

/-- Does a node have a size in a dimension, and a value if that is a constant? -/
def sized (g : Graph) (n : NodeId) (dim : Nat) : Bool :=
  (g.size? n dim).any fun size => !(g.node size).isConst || !(g.node size).data.isEmpty

/-- Does comparing the shapes of two nodes ask for a size that one of them does not have? -/
def shapesAskMissing (g : Graph) (a b : NodeId) : Bool :=
  let ranks := ((g.node a).extent .shape, (g.node b).extent .shape)
  min ranks.1 ranks.2 ≠ 0 && ranks.1 = ranks.2 &&
    (searched (fun dim => !g.sizesAgree a b dim) (List.range ranks.1.toNat)).any fun dim =>
      !g.sized a dim || !g.sized b dim

/-- Does an edge of the given use separate its source from its user? The answer `none` leaves the
decision to the shapes. -/
def edgeSeparates? (g : Graph) (source user : NodeId) (k : ArgKind) (elementwise : Bool) :
    Option Bool :=
  let producer := (g.node source).op.kind
  let consumer := (g.node user).op.kind
  if producer = .scatter then some (consumer ≠ .scatter)
  else if producer = .store then some true
  else if consumer = .load || consumer = .store then some (k = .memory && !elementwise)
  else if consumer = .scatter then some (k = .memory)
  else if k = .shape then some true
  else none

/-- Do the nodes themselves separate, whatever connects them? -/
def nodesSeparate (g : Graph) (a b : NodeId) : Bool :=
  !g.shapesAgree a b || ((g.node a).isMemory != (g.node b).isMemory)

/-- Is there a boundary between a node and a later one? With an edge between them its use counts,
unless its index is negative. -/
def isBoundary (g : Graph) (source user : NodeId) (edge : Option Argument) (elementwise : Bool) :
    Bool :=
  match edge with
  | some a =>
    if 0 ≤ a.index then
      (g.edgeSeparates? source user a.kind elementwise).getD (g.nodesSeparate source user)
    else g.nodesSeparate source user
  | none => g.nodesSeparate source user

/-- Does looking for a boundary ask for a missing size? Where the use of an edge decides, the shapes
are not compared. -/
def boundaryAsksMissing (g : Graph) (source user : NodeId) (edge : Option Argument)
    (elementwise : Bool) : Bool :=
  let decided := edge.any fun a =>
    0 ≤ a.index && (g.edgeSeparates? source user a.kind elementwise).isSome
  !decided && g.shapesAskMissing source user

end KernelFusion.Graph
