/-
Changing a graph.

New nodes enter at the cursor and join the current cluster. If a node enters in front of the head
of that cluster, it becomes the head. The actions `before` and `after` move the cursor to a node
for the time of another action; they put cursor and cluster back only if that action succeeds.

A node that is removed stays in the table of nodes but no longer belongs to the program. If it was
the head of its cluster, the node behind it becomes the head.
-/
import KernelFusion.Graph.Basic

namespace KernelFusion

namespace Graph

/-- The node in front of which the next one enters. -/
def following (g : Graph) : Option NodeId :=
  match g.cursor with
  | some c => g.next? c
  | none => g.ahead

/-- The heads of the clusters when a node enters behind the cursor: in front of the head of the
current cluster it becomes the head. -/
def headsWith (g : Graph) (id : NodeId) : Array (Option NodeId) :=
  match g.cursor, g.current, g.following with
  | some _, some k, some m =>
    if g.head? k = some m then g.clusters.setIfInBounds k (some id) else g.clusters
  | _, _, _ => g.clusters

/-- The graph with a new node at the cursor. Its index is the size of the table before. Without a
cursor the program starts anew at the node. -/
def insert (g : Graph) (op : Operation) (type : Scalar) (args : List Argument) : Graph :=
  let id := g.nodes.size
  { g with
    nodes := g.nodes.push { op, type, args, label := g.labels.size, cluster := g.current }
    chain := g.chain.insert g.cursor g.following
    labels := g.labels.push id
    clusters := g.headsWith id
    first := if g.cursor = none then some id else g.first
    created := g.created ++ [id]
    cursor := some id
    ahead := g.following
    last := if g.following = none then some id else g.last }

/-- The graph without a node. -/
def remove (g : Graph) (n : NodeId) : Graph :=
  let clusters :=
    match (g.node n).cluster with
    | some k => if g.head? k = some n then g.clusters.setIfInBounds k (g.next? n) else g.clusters
    | none => g.clusters
  { g with
    chain := g.chain.remove n
    clusters := clusters
    first := if g.first = some n then g.next? n else g.first
    created := g.created.filter (· ≠ n)
    cursor := if g.cursor = some n then g.prev? n else g.cursor }

/-- The users of two nodes change places. -/
def swapLabels (g : Graph) (a b : NodeId) : Graph :=
  let la := g.label a
  let lb := g.label b
  let g := { g with labels := (g.labels.setIfInBounds la b).setIfInBounds lb a }
  (g.modifyNode a fun n => { n with label := lb }).modifyNode b fun n => { n with label := la }

/-- All users of a node move to another one; the node itself gets a new label. -/
def redirect (g : Graph) (n copy : NodeId) : Graph :=
  let fresh := g.labels.size
  let g := { g with labels := (g.labels.setIfInBounds (g.label n) copy).push n }
  g.modifyNode n fun m => { m with label := fresh }

/-- Gives a node a further argument. -/
def addArgument (g : Graph) (n source : NodeId) (k : ArgKind) (i : Int) : Graph :=
  let l := g.label source
  g.modifyNode n fun m => { m with args := m.args ++ [⟨k, i, l⟩] }

/-- Takes the arguments of one use from a node. -/
def removeArguments (g : Graph) (n : NodeId) (k : ArgKind) : Graph :=
  g.modifyNode n fun m => { m with args := m.args.filter fun a => a.kind ≠ k }

/-- Lets the argument at a position of the argument list come from another node. -/
def setSource (g : Graph) (n : NodeId) (position : Nat) (source : NodeId) : Graph :=
  let l := g.label source
  g.modifyNode n fun m => { m with args := m.args.modify position fun a => { a with source := l } }

/-- Sets the role of a node's memory. -/
def setRole (g : Graph) (n : NodeId) (role : MemoryRole) (slot : Int) : Graph :=
  g.modifyNode n fun m => { m with role := role, slot := slot }

/-- Sets the words of a node. -/
def setData (g : Graph) (n : NodeId) (data : List UInt32) : Graph :=
  g.modifyNode n fun m => { m with data := data }

/-- The graph with the cursor in front of a node. -/
def cursorBefore (g : Graph) (n : NodeId) : Graph :=
  { g with cursor := g.prev? n, ahead := some n }

/-- The graph with the cursor behind a node. -/
def cursorAfter (g : Graph) (n : NodeId) : Graph :=
  { g with cursor := some n, ahead := g.next? n }

/-- The sides of a node at which others can enter. -/
inductive Place where
  | before
  | after
deriving DecidableEq, Repr, Inhabited

/-- The graph with the cursor at a node; new nodes join its cluster, or none. -/
def enter (g : Graph) (p : Place) (n : NodeId) (inCluster : Bool) : Graph :=
  let moved := match p with
    | .before => g.cursorBefore n
    | .after => g.cursorAfter n
  { moved with current := if inCluster then (g.node n).cluster else none }

/-- The graph with the cursor and the current cluster of an older one. -/
def leave (g old : Graph) : Graph := { g with cursor := old.cursor, current := old.current }

end Graph

namespace Build

/-- Records a node and gives its index. -/
def record (op : Operation) (type : Scalar) (args : List Argument) : Build NodeId := do
  let g ← get
  if g.recording then
    set (g.insert op type args)
    return g.nodes.size
  else
    throw .notRecording

/-- Runs an action with the cursor at a node. New nodes join its cluster, or none if `inCluster` is
false. -/
def placed (p : Graph.Place) (n : NodeId) (inCluster : Bool) (act : Build α) : Build α := do
  let old ← get
  set (old.enter p n inCluster)
  let a ← act
  modify fun g => g.leave old
  return a

/-- Runs an action that records in front of a node. -/
def before (n : NodeId) (inCluster : Bool) (act : Build α) : Build α :=
  placed .before n inCluster act

/-- Runs an action that records behind a node. -/
def after (n : NodeId) (inCluster : Bool) (act : Build α) : Build α :=
  placed .after n inCluster act

end Build

end KernelFusion
