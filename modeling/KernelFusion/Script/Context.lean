/-
Scripts over two graphs.

At most one of the two graphs records at a time; it has to be closed before the other is opened.
Both share their nodes, so that a tensor of one can be an operand in the other.
-/
import KernelFusion.Script.Run
import KernelFusion.Emit.Listing

namespace KernelFusion

/-- One of the two graphs. -/
inductive Side where
  | first
  | second
deriving DecidableEq, Repr, Inhabited

/-- Two graphs over one arena. -/
structure Workspace where
  arena : Arena := {}
  first : Sequence := {}
  second : Sequence := {}
  active : Option Side := none
  names : List (String × NodeId) := []
deriving Inhabited

/-- A step of a script over two graphs. -/
inductive ContextStep where
  | select (side : Side)
  | clear
  | list (side : Side)
  | step (s : Step)
deriving Inhabited

/-- The answer to such a step. -/
inductive ContextAnswer where
  | done
  | failed (fault : Fault)
  | text (s : String)
  | answer (a : Answer)
deriving Inhabited

namespace Workspace

/-- The sequence of a side. -/
def sequence (w : Workspace) : Side → Sequence
  | .first => w.first
  | .second => w.second

/-- Sets the sequence of a side. -/
def setSequence (w : Workspace) (s : Sequence) : Side → Workspace
  | .first => { w with first := s }
  | .second => { w with second := s }

/-- The graph of a side. -/
def graph (w : Workspace) (side : Side) : Graph :=
  { toArena := w.arena, toSequence := w.sequence side, recording := w.active = some side }

/-- The scene in which a step runs. While no graph records, its graph is empty. -/
def scene (w : Workspace) : Scene :=
  match w.active with
  | some side => { graph := w.graph side, names := w.names }
  | none => { graph := { toArena := w.arena }, names := w.names }

/-- Takes over what a step did. -/
def absorb (w : Workspace) (s : Scene) : Workspace :=
  let w := { w with arena := s.graph.toArena, names := s.names }
  match w.active with
  | some side => w.setSequence s.graph.toSequence side
  | none => w

/-- Lets a graph record, unless one does already. -/
def select (w : Workspace) (side : Side) : ContextAnswer × Workspace :=
  match w.active with
  | some _ => (.failed .alreadyRecording, w)
  | none => (.done, { w with active := some side })

/-- Runs one step. -/
def step (w : Workspace) : ContextStep → ContextAnswer × Workspace
  | .select side => w.select side
  | .clear => (.done, { w with active := none })
  | .list side => (.text ((w.graph side).listing false), w)
  | .step s =>
    match Script.step s w.scene with
    | .ok a scene => (.answer a, w.absorb scene)
    | .error e scene => (.failed e, w.absorb scene)

/-- Runs steps one after the other. -/
def steps (w : Workspace) : List ContextStep → List ContextAnswer
  | [] => []
  | s :: rest =>
    let (a, w) := w.step s
    a :: w.steps rest

end Workspace

end KernelFusion
