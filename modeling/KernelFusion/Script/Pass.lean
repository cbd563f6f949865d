/-
Scripts of passes.

A session holds a scene, the kernels that were read off it last, and the memory that runs share.
Each pass changes the session and gives an outcome. A pass that fails keeps what it changed before.
Nodes are given by their position in the program.
-/
import KernelFusion.Program
import KernelFusion.Script.Request
import KernelFusion.Script.Run
import KernelFusion.Script.View

namespace KernelFusion

/-- One pass of a script. -/
inductive Pass where
  | clusterize
  | recompute
  | prune
  | spill
  | flatten
  | generate
  | compile
  | view (v : View)
  | kernelMode (mode : KernelMode)
  | tensorMode (mode : TensorMode)
  | swapLabels (a b : Nat)
  | redirect (a b : Nat)
  | remove (n : Nat)
  | copyComputation (targets : List Nat)
  | placed (place : Graph.Place) (n : Nat) (inCluster : Bool) (steps : List Step)
  | run (request : RunRequest)
  | callAlone (kernel : Nat)
deriving Inhabited

/-- The outcome of a pass. -/
inductive Outcome where
  | done
  | failed (fault : Fault)
  | shown (s : Shown)
  | copies (pairs : List (Nat × Nat))
  | answers (as : List Answer)
  | ran (report : RunReport)
deriving Inhabited

/-- The state of a script of passes. -/
structure Session where
  scene : Scene
  kernels : List Kernel := []
  compiled : Bool := false
  heap : Heap := {}
deriving Inhabited

namespace Session

/-- The node at a position. -/
def nodeAt (s : Session) (i : Nat) : NodeId := s.scene.graph.order.getD i 0

/-- Changes the graph. -/
def onGraph (s : Session) (f : Graph → Graph) : Outcome × Session :=
  (.done, { s with scene := { s.scene with graph := f s.scene.graph } })

/-- Runs an action on the scene and turns its result into an outcome. -/
def onScene (s : Session) (act : Script α) (outcome : α → Session → Outcome × Session) :
    Outcome × Session :=
  match act s.scene with
  | .ok a scene => outcome a { s with scene := scene }
  | .error e scene => (.failed e, { s with scene := scene })

/-- Runs an action on the graph. -/
def onBuild (s : Session) (act : Build Unit) : Outcome × Session :=
  s.onScene (Script.build act) fun _ s => (.done, s)

/-- Runs steps with the cursor at a node. -/
def placed (p : Graph.Place) (n : NodeId) (inCluster : Bool) (steps : List Step) :
    Script (List Answer) := do
  let old := (← get).graph
  Script.build (set (old.enter p n inCluster))
  let answers ← Script.steps steps
  Script.build (modify fun g => g.leave old)
  return answers

/-- Is one pair of positions in front of another one? -/
def pairLe (a b : Nat × Nat) : Bool :=
  if a.1 = b.1 then a.2 ≤ b.2 else a.1 ≤ b.1

/-- The positions of nodes and their copies; a node that is not listed counts as the first. -/
def copyPositions (g : Graph) (copies : Copies) : List (Nat × Nat) :=
  let position (n : NodeId) := (g.position? n).getD 0
  (copies.map fun (n, c) => (position n, position c)).mergeSort pairLe

/-- Calls a kernel without memory. -/
def callAlone (s : Session) (i : Nat) : Fault :=
  match s.kernels[i]? with
  | some k => if k.kind = .compute && s.compiled then .memoryForeign else .kernelNotCompiled
  | none => .kernelNotCompiled

/-- Runs one pass. -/
def pass (s : Session) : Pass → Outcome × Session
  | .clusterize => s.onGraph Graph.clusterize
  | .recompute => s.onBuild Build.recompute
  | .prune => s.onGraph Graph.prune
  | .spill => s.onBuild Build.spill
  | .flatten => s.onBuild Build.flatten
  | .generate =>
    s.onScene (Script.build Build.kernels) fun ks s =>
      (.done, { s with kernels := ks, compiled := false })
  | .compile =>
    match KernelFusion.compile {} "" (s.scene.graph.sourceOf s.kernels) "" with
    | .ok _ _ => (.done, { s with compiled := true })
    | .error e _ => (.failed e, s)
  | .view v => (.shown (v.shown s.scene.graph s.kernels), s)
  | .kernelMode mode => s.onGraph fun g => { g with kernelMode := mode }
  | .tensorMode mode => s.onGraph fun g => { g with tensorMode := mode }
  | .swapLabels a b => s.onGraph fun g => g.swapLabels (s.nodeAt a) (s.nodeAt b)
  | .redirect a b => s.onGraph fun g => g.redirect (s.nodeAt a) (s.nodeAt b)
  | .remove n => s.onGraph fun g => g.remove (s.nodeAt n)
  | .copyComputation targets =>
    s.onScene (Script.build (Build.copyComputation (targets.map s.nodeAt))) fun copies s =>
      (.copies (copyPositions s.scene.graph copies), s)
  | .placed p n inCluster steps =>
    s.onScene (placed p (s.nodeAt n) inCluster steps) fun as s => (.answers as, s)
  | .run request =>
    let (report, heap) := request.run s.scene.graph s.kernels s.compiled s.heap
    (.ran report, { s with heap := heap })
  | .callAlone i => (.failed (s.callAlone i), s)

/-- Runs passes one after the other. -/
def passes (s : Session) : List Pass → List Outcome
  | [] => []
  | p :: rest =>
    let (outcome, s) := s.pass p
    outcome :: s.passes rest

end Session

/-- Runs a script on a new graph, marks its outputs, and runs passes over it. -/
def runPasses (steps : List Step) (outputs : List String) (passes : List Pass) :
    List Answer × List Outcome :=
  let start : Scene := { graph := Graph.opened }
  match (do
      let answers ← Script.steps steps
      let nodes ← Script.tensors outputs
      Script.build (Build.setOutputs nodes)
      return answers : Script (List Answer)) start with
  | .ok answers scene => (answers, Session.passes { scene } passes)
  | .error e scene => ([.failed e], Session.passes { scene } passes)

end KernelFusion
