/-
Running programs on given inputs.

A request allocates its inputs, runs the program, reads the outputs, and frees what it was asked to
free. It reports where everything was and what was launched.
-/
import KernelFusion.Device.Execute

namespace KernelFusion

/-- A request to run a program. -/
structure RunRequest where
  inputs : List (List Int × Option (List UInt32))
  freeInputs : Bool
  freeOutputs : Bool
deriving Inhabited

/-- An output and its contents, unless they are long. -/
structure OutputReport where
  buffer : Buffer
  data : Option (List UInt32)
deriving Inhabited

/-- What a run did. -/
structure RunReport where
  inputs : List UInt32
  outputs : Except Fault (List OutputReport)
  launches : List Launch
  frames : Frames
deriving Inhabited

/-- Contents are shown up to this many words. -/
def shownWords : Int := 64

/-- Allocates inputs one after the other. -/
def allocateInputs (h : Heap) : List (List Int × Option (List UInt32)) → List Buffer × Heap
  | [] => ([], h)
  | (shape, data) :: rest =>
    let (b, h) := match data with
      | some words => h.allocateWith shape words
      | none => h.allocate shape
    let (bs, h) := allocateInputs h rest
    (b :: bs, h)

/-- An output and its contents. -/
def reportOutput (h : Heap) (b : Buffer) : Except Fault OutputReport := do
  if b.size ≤ shownWords then return ⟨b, some (← h.readback b)⟩ else return ⟨b, none⟩

/-- Runs a program as requested. -/
def RunRequest.run (r : RunRequest) (g : Graph) (kernels : List Kernel) (compiled : Bool)
    (heap : Heap) : RunReport × Heap :=
  let (inputs, heap) := allocateInputs heap r.inputs
  let starts := inputs.map fun b => b.frame.start
  let release := fun (h : Heap) => if r.freeInputs then inputs.foldl Heap.free h else h
  match Run.execute g kernels traceEffect compiled inputs { heap } with
  | .ok outputs m =>
    match outputs.mapM (reportOutput m.heap) with
    | .ok reports =>
      let heap := release (if r.freeOutputs then outputs.foldl Heap.free m.heap else m.heap)
      (⟨starts, .ok reports, m.launches, heap.frames⟩, heap)
    | .error e =>
      -- outputs that cannot all be read are kept
      let heap := release m.heap
      (⟨starts, .error e, m.launches, heap.frames⟩, heap)
  | .error e m =>
    let heap := release m.heap
    (⟨starts, .error e, m.launches, heap.frames⟩, heap)

/-- Runs several requests on one heap. -/
def runRequests (g : Graph) (kernels : List Kernel) (heap : Heap) : List RunRequest → List RunReport
  | [] => []
  | r :: rest =>
    let (report, heap) := r.run g kernels true heap
    report :: runRequests g kernels heap rest

end KernelFusion
