/-
Whole programs.

To make a program, a graph is opened, a function records tensors into it, the graph is taken
through all passes, and when the kernels are known it is closed again. Then the kernels are
compiled. Whatever is recorded goes into the graph that is open, and fails if there is none. A
program that could not be made is destroyed with its graph, also if that graph is still open.
-/
import KernelFusion.Cluster.Partition
import KernelFusion.Pass.Recompute
import KernelFusion.Pass.Prune
import KernelFusion.Pass.Spill
import KernelFusion.Pass.Address
import KernelFusion.Device.Settings
import KernelFusion.Device.Execute

namespace KernelFusion

/-- A compiled program. -/
structure Program where
  graph : Graph
  kernels : List Kernel
  source : Source
deriving Inhabited

namespace Build

/-- The kernels of the graph as it is. -/
def kernels : Build (List Kernel) := do
  match (← get).kernels with
  | .ok ks => return ks
  | .error e => throw e

/-- Makes the given nodes the outputs, in order. -/
def setOutputs (outputs : List NodeId) : Build Unit :=
  modify fun g => outputs.zipIdx.foldl (fun g (n, i) => g.setRole n .output i) g

/-- Takes a recorded graph through all passes and reads off its kernels. -/
def transform (outputs : List NodeId) : Build (List Kernel) := do
  setOutputs outputs
  modify fun g => { g with kernelMode := .multi, tensorMode := .clamp }
  modify Graph.clusterize
  recompute
  modify Graph.prune
  spill
  flatten
  let ks ← kernels
  modify fun g => { g with recording := false }
  return ks

end Build

/-- A graph that records a new program. -/
def Graph.opened : Graph := { recording := true }

/-! ### Making programs -/

/-- The programs made so far, over one arena, the one whose graph is open, those that were
destroyed, and what compiling has written. -/
structure Workshop where
  arena : Arena := {}
  programs : List Sequence := []
  active : Option Nat := none
  destroyed : List Nat := []
  log : String := ""

/-- Actions on a workshop. What an action changed before it failed stays changed. -/
abbrev Making := EStateM Fault Workshop

namespace Workshop

/-- The nodes of a program. -/
def program (s : Workshop) (k : Nat) : Sequence := s.programs.getD k {}

/-- The graph of a program. -/
def graph (s : Workshop) (k : Nat) : Graph :=
  { toArena := s.arena, toSequence := s.program k, recording := s.active = some k }

/-- Takes over what was done to the graph of a program. -/
def absorb (s : Workshop) (k : Nat) (g : Graph) : Workshop :=
  { s with
    arena := g.toArena
    programs := s.programs.set k g.toSequence
    active := if g.recording then some k else if s.active = some k then none else s.active }

/-- A further program, whose graph is open. -/
def opened (s : Workshop) : Workshop :=
  { s with programs := s.programs ++ [{}], active := some s.programs.length }

end Workshop

namespace Making

/-- Works on the graph of a program. -/
def onGraph {α : Type} (k : Nat) (b : Build α) : Making α := fun s =>
  match b (s.graph k) with
  | .ok a g => .ok a (s.absorb k g)
  | .error e g => .error e (s.absorb k g)

/-- Works on the graph that is open. If there is none, the tensors that exist can still be
changed. -/
def tensor {α : Type} (b : Build α) : Making α := fun s =>
  match s.active with
  | some k => onGraph k b s
  | none =>
    match b { toArena := s.arena } with
    | .ok a g => .ok a { s with arena := g.toArena }
    | .error e g => .error e { s with arena := g.toArena }

/-- Closes the graph that is open. -/
def close : Making Unit := modify fun s => { s with active := none }

/-- Records a program and takes it through all passes: its number and its kernels. -/
def record (callback : Making (List NodeId)) : Making (Nat × List Kernel) := do
  let k := (← get).programs.length
  modify Workshop.opened
  let outputs ← callback
  let ks ← onGraph k (Build.transform outputs)
  close
  return (k, ks)

/-- Compiles the kernels of a program. -/
def load (host : Host) (options : String) (made : Nat × List Kernel) : Making Program := fun s =>
  let g := s.graph made.1
  match compile host options (g.sourceOf made.2) s.log with
  | .ok source log => .ok ⟨g, made.2, source⟩ { s with log }
  | .error e log => .error e { s with log }

/-- Makes a program, and destroys it if that fails. -/
def create (host : Host) (options : String) (callback : Making (List NodeId)) :
    Making Program := fun s =>
  match (record callback >>= load host options) s with
  | .ok p t => .ok p t
  | .error e t => .error e { t with destroyed := s.programs.length :: t.destroyed }

end Making

/-! ### Programs -/

/-- The properties of a program, as shown to the user. -/
def Program.properties (p : Program) : String :=
  let count := fun (kind : KernelKind) => toString (p.kernels.filter fun k => k.kind = kind).length
  "TensorProgram:\n"
    ++ "  Kernel count: " ++ count .compute ++ "\n"
    ++ "  Intermediate buffers: " ++ count .memory ++ "\n"
    ++ "  Lines of generated code: " ++ toString (Text.lineCount p.source.text) ++ "\n"
    ++ "  IR size: " ++ toString p.graph.created.length ++ "\n"

/-- Runs a program. -/
def Program.run (p : Program) (effect : Effect) (inputs : List Buffer) : Run (List Buffer) :=
  Run.execute p.graph p.kernels effect true inputs

end KernelFusion
