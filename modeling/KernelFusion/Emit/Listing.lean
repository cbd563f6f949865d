/-
The listing of a program.

Each node has a line with its name, its operation, its arguments by use, its words, the role of its
memory, its cost and its type. The compact form leaves constants out and writes them where they are
used; the full form puts the name of the cluster's head in front. An empty line stands wherever the
cluster changes.
-/
import KernelFusion.Cluster.Summary
import KernelFusion.Emit.Names

namespace KernelFusion

/-- The state of writing a listing. -/
structure Listing where
  text : String := ""
  depth : Int := 0
  previous : Option ClusterId := none

/-- Two blanks for each open block. -/
def indentation (depth : Int) : String := String.join (List.replicate depth.toNat "  ")

/-- A bracketed list with a title; nothing if the list is empty. -/
def titledList (title : String) (items : List String) : String :=
  if items.isEmpty then "" else title ++ "=[" ++ ",".intercalate items ++ "], "

/-- The role of memory in a listing. -/
def MemoryRole.listed : MemoryRole → String
  | scratch => ""
  | input => "memory_type=input, "
  | output => "memory_type=output, "
  | constant => "memory_type=constant, "

namespace Graph

/-- The name of a node as an argument. -/
def argumentName (g : Graph) (names : Names) (compact : Bool) (n : NodeId) : String :=
  if compact then g.valueName names n else names.of n

/-- The arguments of one use. -/
def listedArguments (g : Graph) (names : Names) (compact : Bool) (n : NodeId) (title : String)
    (k : ArgKind) : String :=
  titledList title <| ((g.node n).arguments k).map fun a =>
    g.argumentName names compact (g.source a)

/-- What a line says about a node, without the name of the cluster and the indentation. -/
def listedNode (g : Graph) (names : Names) (s : Summary) (compact : Bool) (n : NodeId) : String :=
  let entry := g.node n
  let cost := s.cost n
  (if entry.type = .void then "" else names.of n ++ " = ")
    ++ entry.name ++ "("
    ++ g.listedArguments names compact n "memory" .memory
    ++ g.listedArguments names compact n "inputs" .input
    ++ g.listedArguments names compact n "indices" .index
    ++ g.listedArguments names compact n "shape" .shape
    ++ titledList "data" (entry.data.map fun w => toString w.toNat)
    ++ entry.role.listed
    ++ (if cost = .zero then "" else "cost=" ++ cost.text ++ ", ")
    ++ (if entry.type = .void then "" else "type=" ++ entry.type.name)
    ++ ")\n"

/-- The name of the head of a node's cluster, in front of a line of the full form. -/
def listedCluster (g : Graph) (names : Names) (cluster : Option ClusterId) : String :=
  match cluster with
  | some k => ((g.head? k).map names.of).getD "" ++ ": "
  | none => ""

/-- Writes the line of one node. -/
def listNode (g : Graph) (names : Names) (s : Summary) (compact : Bool) (l : Listing)
    (n : NodeId) : Listing :=
  let entry := g.node n
  if compact && entry.isConst then l
  else
    let depth := if entry.name = "loop_end" then l.depth - 1 else l.depth
    { text := l.text
        ++ (if entry.cluster = l.previous then "" else "\n")
        ++ (if compact then "" else g.listedCluster names entry.cluster)
        ++ indentation depth
        ++ g.listedNode names s compact n
      depth := if entry.name = "loop_begin" then depth + 1 else depth
      previous := entry.cluster }

/-- The listing of the program. -/
def listing (g : Graph) (compact : Bool) : String :=
  (g.order.foldl (g.listNode g.names g.summary compact) {}).text

end Graph

end KernelFusion
