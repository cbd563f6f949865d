/-
Views of a program.

A view shows a graph and its kernels as data. Nodes are shown by their position in the program; a
node outside of the program has none.
-/
import KernelFusion.Emit.Shader
import KernelFusion.Emit.Source

namespace KernelFusion

/-- A node as it is shown. -/
structure NodeView where
  name : String
  type : Scalar
  cluster : Option (Nat × Option Nat)
  role : MemoryRole
  slot : Int
  args : List (ArgKind × Int × Option Nat)
deriving Inhabited

/-- An exported value as it is shown. -/
structure ExportView where
  node : Option Nat
  cost : String
  uses : List (Option Nat × ArgKind × Int)
deriving Inhabited

/-- A cluster as it is shown. -/
structure ClusterView where
  head : Option Nat
  outputs : List ExportView
deriving Inhabited

/-- A kernel as it is shown. -/
structure KernelView where
  kind : KernelKind
  first : Option Nat
  memory : List (Option Nat)
  scalars : List (Option Nat)
  shape : List (Option Nat)
deriving Inhabited

namespace Graph

/-- All clusters of the program, in order of first appearance. -/
def clusterNumbers (g : Graph) : List ClusterId :=
  firstOccurrences (g.order.filterMap fun n => (g.node n).cluster)

/-- A node as it is shown. -/
def viewNode (g : Graph) (numbers : List ClusterId) (n : NodeId) : NodeView :=
  let entry := g.node n
  { name := entry.name
    type := entry.type
    cluster := entry.cluster.map fun k => (slotOf numbers k, (g.head? k).bind g.position?)
    role := entry.role
    slot := entry.slot
    args := entry.args.map fun a => (a.kind, a.index, g.position? (g.source a)) }

/-- All nodes of the program. -/
def viewNodes (g : Graph) : List NodeView := g.order.map (g.viewNode g.clusterNumbers)

/-- An exported value as it is shown. -/
def viewExport (g : Graph) (s : Summary) (e : Export) : ExportView :=
  { node := g.position? e.node
    cost := (s.cost e.node).text
    uses := e.uses.map fun u => (g.position? u.user, u.kind, u.index) }

/-- All clusters of the program with what they export. -/
def viewClusters (g : Graph) : List ClusterView :=
  let s := g.summary
  s.clusters.map fun k =>
    { head := (g.head? k).bind g.position?
      outputs := (s.exports.filter fun e => e.cluster = k).map (g.viewExport s) }

/-- A kernel as it is shown. -/
def viewKernel (g : Graph) (k : Kernel) : KernelView :=
  { kind := k.kind
    first := g.position? k.first
    memory := k.memory.map g.position?
    scalars := k.scalars.map g.position?
    shape := k.shape.map fun l => g.position? (g.target l) }

end Graph

/-- The ways to look at a program. -/
inductive View where
  | compact
  | listing
  | dump
  | clusters
  | shader
  | kernels
  | source
  | fullSource
deriving DecidableEq, Repr, Inhabited

/-- What a view shows. -/
inductive Shown where
  | text (s : String)
  | nodes (ns : List NodeView)
  | clusters (cs : List ClusterView)
  | kernels (ks : List KernelView)
  | source (names : List String) (text : String)
  | failed (fault : Fault)
deriving Inhabited

/-- Looks at a program. -/
def View.shown (g : Graph) (kernels : List Kernel) : View → Shown
  | compact => .text (g.listing true)
  | listing => .text (g.listing false)
  | dump => .nodes g.viewNodes
  | clusters => .clusters g.viewClusters
  | shader =>
    match g.shader with
    | .ok s => .text s
    | .error e => .failed e
  | View.kernels => .kernels (kernels.map g.viewKernel)
  | source =>
    match g.sourceOf kernels with
    | .ok s => .source s.names s.body
    | .error e => .failed e
  | fullSource =>
    match g.sourceOf kernels with
    | .ok s => .source s.names s.text
    | .error e => .failed e

end KernelFusion
