/-
Flat addresses.

A kernel knows the number of its thread, or the coordinates of its element. In the linear mode the
coordinates are computed from the thread number and take the place of the coordinate nodes; in the
other mode missing coordinate nodes are added. Then every access to memory gets one index, the flat
address in row-major order. An access without indices addresses the element of the thread.
-/
import KernelFusion.Cluster.Summary
import KernelFusion.Tensor.Arithmetic

namespace KernelFusion.Build

/-- Products of the inner sizes, from the innermost outward: given a product and the sizes that
remain, all products that leave out the outermost size. -/
def strides (product : NodeId) : List NodeId → Build (List NodeId)
  | [] => return [product]
  | [_] => return [product]
  | size :: rest => do
    let next ← mul product size
    return product :: (← strides next rest)

/-- The coordinates behind the first one. `whole` is the number of the box that the coordinates so
far select, `strides` are the products of the sizes further inside, outermost first. -/
def innerCoordinates (thread whole : NodeId) (strides : List NodeId) :
    List NodeId → Build (List NodeId)
  | [] => return []
  | size :: rest => do
    let quotient ← match strides with
      | s :: _ => div thread s
      | [] => pure thread
    let base ← mul whole size
    let coordinate ← sub quotient base
    let whole ← if rest.isEmpty then pure base else add base coordinate
    return coordinate :: (← innerCoordinates thread whole strides.tail rest)

/-- The coordinates of a thread in a box of the given sizes, outermost first. -/
def coordinatesOf (thread : NodeId) (sizes : List NodeId) : Build (List NodeId) := do
  match sizes.reverse with
  | [] => return []
  | [_] => return [thread]
  | innermost :: outer =>
    let steps := (← strides innermost outer).reverse
    let first ← div thread (steps.headD thread)
    return first :: (← innerCoordinates thread first steps.tail sizes.tail)

/-- The index of one dimension of an access: the explicit one, or the coordinate of the thread. In
clamp mode it is kept between zero and the last element. Nothing is said of an access that asks for
a coordinate or a size that is not there: the first node stands in for it. -/
def indexFor (mode : TensorMode) (size? : Nat → Option NodeId) (indices : List (Int × NodeId))
    (coordinates : List NodeId) (dim : Nat) : Build NodeId := do
  let index := (indices.lookup (dim : Int)).getD (coordinates.getD dim 0)
  match mode with
  | .unchecked => return index
  | .clamp =>
    let one ← integer 1
    let top ← sub ((size? dim).getD 0) one
    let bottom ← integer 0
    apply "clamp" [index, bottom, top]
  | .wrap | .zero => throw .tensorMode

/-- The flat address from the second dimension on. -/
def flatFrom (mode : TensorMode) (size? : Nat → Option NodeId) (indices : List (Int × NodeId))
    (coordinates : List NodeId) (flat : NodeId) : List Nat → Build NodeId
  | [] => return flat
  | dim :: rest => do
    let row ← mul flat ((size? dim).getD 0)
    let index ← indexFor mode size? indices coordinates dim
    let next ← add row index
    flatFrom mode size? indices coordinates next rest

/-- The flat address of an access to memory of the given sizes, if each that is asked for is
there. -/
def flatIndex (mode : TensorMode) (rank : Nat) (size? : Nat → Option NodeId)
    (indices : List (Int × NodeId)) (coordinates : List NodeId) : Build NodeId := do
  let first ← indexFor mode size? indices coordinates 0
  flatFrom mode size? indices coordinates first (List.range' 1 (rank - 1))

/-- The coordinate nodes among the given nodes, with their dimension. -/
def coordinateNodes (g : Graph) (nodes : List NodeId) : List (NodeId × Int) :=
  (nodes.filter fun n => (g.node n).isCoordinate).map fun n => (n, signed (g.node n).word)

/-- Lets the users of coordinate nodes use the computed coordinates. A negative dimension would be
looked for in front of the first coordinate; it fails like one that is too large. -/
def replaceCoordinates (coordinates : List NodeId) : List (NodeId × Int) → Build Unit
  | [] => return ()
  | (n, dim) :: rest => do
    if dim < 0 ∨ coordinates.length ≤ dim then throw (.coordinateRange dim coordinates.length)
    modify fun g => g.redirect n (coordinates.getD dim.toNat 0)
    replaceCoordinates coordinates rest

/-- Coordinates from the thread number: thread number and coordinates. -/
def linearCoordinates (k : ClusterId) (head : NodeId) (sizes : List NodeId) :
    Build (NodeId × List NodeId) := do
  let (thread, coordinates) ← before head true do
    let thread ← threadIndex (← shapeArguments head)
    return (thread, ← coordinatesOf thread sizes)
  let g ← get
  let found := coordinateNodes g (g.run k)
  replaceCoordinates coordinates found
  modify fun g => found.foldl (fun g c => g.remove c.1) g
  return (thread, coordinates)

/-- The coordinate nodes that a cluster has, by dimension; of several for one dimension the last
counts. Negative dimensions fail here too. -/
def presentCoordinates (rank : Nat) (found : List (NodeId × Int)) :
    Except Fault (List (Int × NodeId)) :=
  found.foldlM (fun present (n, dim) =>
    if dim < 0 ∨ (rank : Int) ≤ dim then .error (.coordinateRange dim rank)
    else .ok ((dim, n) :: present)) []

/-- Coordinate nodes for all dimensions, added at the head of the cluster where they are missing. -/
def multiCoordinates (k : ClusterId) (rank : Nat) : Build (List NodeId) := do
  let g ← get
  match presentCoordinates rank (coordinateNodes g (g.run k)) with
  | .error e => throw e
  | .ok present =>
    (List.range rank).mapM fun (i : Nat) =>
      match present.lookup (i : Int) with
      | some n => return n
      | none => do
        match (← get).head? k with
        | some head => before head true do coordinate (← shapeArguments head) i
        | none => return 0

/-- Gives one access its flat address. -/
def flattenAccess (thread : Option NodeId) (coordinates : List NodeId) (n : NodeId) : Build Unit :=
  before n true do
    let g ← get
    let memory := (g.memoryOf? n).getD 0
    let indices := g.sources n .index
    match thread, indices with
    | some t, [] => modify fun g => g.addArgument n t .index 0
    | _, _ =>
      let flat ← flatIndex g.tensorMode ((g.node memory).extent .shape).toNat
        (g.size? memory) indices coordinates
      modify fun g => (g.removeArguments n .index).addArgument n flat .index 0

/-- Gives the accesses of one cluster their flat addresses. A cluster whose head has no shape is no
kernel. -/
def flattenCluster (k : ClusterId) : Build Unit := do
  let g ← get
  match g.head? k with
  | none => return ()
  | some head =>
    let sizes := (g.sources head .shape).map (·.2)
    if sizes.isEmpty then return ()
    else
      let (thread, coordinates) ← match g.kernelMode with
        | .linear => do
          let (t, c) ← linearCoordinates k head sizes
          pure (some t, c)
        | .multi | .multiBlocks => do
          let c ← multiCoordinates k sizes.length
          pure (none, c)
        | .linearBlocks => throw .kernelMode
      let g ← get
      ((g.run k).filter fun n => (g.node n).op.kind.accesses).forM
        (flattenAccess thread coordinates)

/-- Gives all accesses of the program their flat addresses. -/
def flatten : Build Unit := do
  let s := (← get).summary
  s.clusters.forM flattenCluster

end KernelFusion.Build
