/-
Running a program.

The inputs are bound to the input nodes and checked against their declared sizes. Then the kernels
run in order: a memory kernel allocates, a compute kernel is launched with its scalars, the offsets
of its memory, and the sizes of its index space. At the end temporary memory is freed and the
outputs are returned by ascending place.

Compiled kernels are functions that the host calls: each call may change the words in memory, and
it may fail then (`Callback`). Kernels that never fail are given by what they do to the words
(`Effect`).
-/
import KernelFusion.Kernel.Extract
import KernelFusion.Memory.Heap

namespace KernelFusion

/-- One launch of a compute kernel. -/
structure Launch where
  kernel : Nat
  scalars : List UInt32
  offsets : List UInt32
  shape : List UInt32
deriving DecidableEq, Repr, Inhabited

/-- What a launch does to the words in memory. -/
abbrev Effect := Launch → Words → Words

/-- The effect that only leaves a trace: the first word behind each slot records which kernel
touched it, and through which slot. -/
def traceEffect : Effect := fun launch words =>
  launch.offsets.zipIdx.foldl
    (fun words (offset, i) =>
      words.write offset.toNat
        [words.get offset.toNat * 31 + 7 * UInt32.ofNat launch.kernel + UInt32.ofNat i + 1])
    words

/-- What happens when a kernel is called. -/
abbrev Callback := Launch → EStateM Fault Words Unit

/-- Kernels that all have been compiled, or none of them. -/
def Callback.ofEffect (effect : Effect) (compiled : Bool) : Callback := fun launch =>
  if compiled then modify (effect launch) else throw .kernelNotCompiled

/-- The memory and what has been launched on it. -/
structure Machine where
  heap : Heap := {}
  launches : List Launch := []
deriving Inhabited

/-- The machine with other words in its memory. -/
def Machine.withWords (m : Machine) (words : Words) : Machine :=
  { m with heap := { m.heap with words := words } }

/-- Actions on a machine. What an action changed before it failed stays changed. -/
abbrev Run := EStateM Fault Machine

/-- What the nodes of a program stand for during a run. -/
structure Bindings where
  buffers : List (NodeId × Buffer) := []
  sizes : List (NodeId × Int) := []
  temporary : List Buffer := []
  outputs : List (Int × Buffer) := []
deriving Inhabited

/-- Registers an output; one with the same place is replaced. -/
def insertOutput (slot : Int) (b : Buffer) : List (Int × Buffer) → List (Int × Buffer)
  | [] => [(slot, b)]
  | (s, c) :: rest =>
    if slot < s then (slot, b) :: (s, c) :: rest
    else if slot = s then (slot, b) :: rest
    else (s, c) :: insertOutput slot b rest

namespace Bindings

/-- The value of a size. A size that nothing has bound is zero from then on. -/
def size (bound : Bindings) (g : Graph) (n : NodeId) : Int × Bindings :=
  if (g.node n).isConst then (signed (g.node n).word, bound)
  else
    match bound.sizes.lookup n with
    | some v => (v, bound)
    | none => (0, { bound with sizes := (n, 0) :: bound.sizes })

/-- The values of several sizes. -/
def sizesOf (bound : Bindings) (g : Graph) : List NodeId → List Int × Bindings
  | [] => ([], bound)
  | n :: rest =>
    let (v, bound) := bound.size g n
    let (vs, bound) := bound.sizesOf g rest
    (v :: vs, bound)

/-- Where the memory of a node starts. -/
def offset (bound : Bindings) (n : NodeId) : UInt32 :=
  ((bound.buffers.lookup n).map fun b => b.frame.start).getD 0

/-- The value of a scalar of a kernel: a size if the node is one, otherwise the first word of its
memory. -/
def scalarValue (bound : Bindings) (words : Words) (n : NodeId) : UInt32 :=
  match bound.sizes.lookup n with
  | some v => word v
  | none => words.get (bound.offset n).toNat

/-- Binds one size of an input. -/
def bindSize (g : Graph) (input : Nat) (shape : List Int) (bound : Bindings)
    (size : NodeId × Nat) : Except Fault Bindings :=
  let (n, dim) := size
  let got := shape.getD dim 0
  let expected := signed (g.node n).word
  if (g.node n).isConst && expected ≠ got then .error (.inputShape dim input expected got)
  else .ok { bound with sizes := (n, got) :: bound.sizes }

/-- Binds one input. -/
def bindInput (g : Graph) (bound : Bindings) (input : (NodeId × Buffer) × Nat) :
    Except Fault Bindings :=
  let ((n, b), i) := input
  let sizes := ((g.node n).arguments .shape).map g.source
  sizes.zipIdx.foldlM (bindSize g i b.shape) { bound with buffers := (n, b) :: bound.buffers }

/-- Binds all inputs, in program order. -/
def ofInputs (g : Graph) (inputs : List Buffer) : Except Fault Bindings :=
  let nodes := g.order.filter fun n => (g.node n).role = .input
  if nodes.length = inputs.length then
    (nodes.zip inputs).zipIdx.foldlM (bindInput g) {}
  else .error (.inputCount nodes.length inputs.length)

end Bindings

namespace Run

/-- Allocates memory. -/
def allocate (shape : List Int) : Run Buffer := do
  let m ← get
  let (b, heap) := m.heap.allocate shape
  set { m with heap := heap }
  return b

/-- Frees memory. -/
def free (b : Buffer) : Run Unit := modify fun m => { m with heap := m.heap.free b }

/-- Runs a memory kernel. -/
def memoryKernel (g : Graph) (bound : Bindings) (n : NodeId) : Run Bindings := do
  let entry := g.node n
  let (shape, bound) := bound.sizesOf g (g.dimensions n)
  let b ← allocate shape
  let bound := { bound with buffers := (n, b) :: bound.buffers }
  if entry.role = .output then
    return { bound with outputs := insertOutput entry.slot b bound.outputs }
  else
    return { bound with temporary := b :: bound.temporary }

/-- The sizes a kernel is launched with: in the linear mode the first is the number of threads. -/
def launchShape (mode : KernelMode) (sizes : List Int) : List UInt32 :=
  match mode, sizes with
  | .linear, _ :: rest => word (volume sizes) :: rest.map word
  | _, _ => sizes.map word

/-- Calls a kernel on the words in memory. -/
def call (callback : Callback) (launch : Launch) : Run Unit := fun m =>
  match callback launch m.heap.words with
  | .ok _ words => .ok ⟨⟩ { m.withWords words with launches := m.launches ++ [launch] }
  | .error e words => .error e (m.withWords words)

/-- Runs a compute kernel. -/
def computeKernelWith (g : Graph) (callback : Callback) (bound : Bindings) (kn : Kernel)
    (number : Nat) : Run Bindings := do
  let (sizes, bound) := bound.sizesOf g (kn.shape.map g.target)
  let m ← get
  call callback
    { kernel := number
      scalars := kn.scalars.map (bound.scalarValue m.heap.words)
      offsets := kn.memory.map bound.offset
      shape := launchShape kn.mode sizes }
  return bound

/-- Runs kernels; `number` is the number of the next compute kernel. -/
def kernelsWith (g : Graph) (callback : Callback) (bound : Bindings) (number : Nat) :
    List Kernel → Run Bindings
  | [] => return bound
  | kn :: rest =>
    match kn.kind with
    | .memory => do
      let bound ← memoryKernel g bound kn.first
      kernelsWith g callback bound number rest
    | .compute => do
      let bound ← computeKernelWith g callback bound kn number
      kernelsWith g callback bound (number + 1) rest

/-- Runs a program on inputs and gives its outputs. -/
def executeWith (g : Graph) (program : List Kernel) (callback : Callback) (inputs : List Buffer) :
    Run (List Buffer) := do
  match Bindings.ofInputs g inputs with
  | .error e => throw e
  | .ok bound =>
    let bound ← kernelsWith g callback bound 0 program
    bound.temporary.forM free
    return bound.outputs.map (·.2)

/-- Runs kernels that never fail, if they have been compiled. -/
def kernels (g : Graph) (effect : Effect) (compiled : Bool) : Bindings → Nat → List Kernel →
    Run Bindings :=
  kernelsWith g (.ofEffect effect compiled)

/-- Runs a program of such kernels. -/
def execute (g : Graph) (program : List Kernel) (effect : Effect) (compiled : Bool) :
    List Buffer → Run (List Buffer) :=
  executeWith g program (.ofEffect effect compiled)

end Run

end KernelFusion
