/-
The memory that tensors live in.

A heap is a growing buffer of words with frames in it. When a new frame does not fit, the buffer
grows to one and a half times the end of that frame. A tensor in memory has a shape and a frame;
freeing it takes back the frame registered at its start.
-/
import KernelFusion.Fault
import KernelFusion.Memory.Frames
import KernelFusion.Memory.Words

namespace KernelFusion

/-- A tensor in memory. -/
structure Buffer where
  serial : Nat
  shape : List Int
  frame : Frame
deriving DecidableEq, Repr, Inhabited

/-- The number of elements of a tensor in memory. -/
def Buffer.size (b : Buffer) : Int := elements b.shape

/-- A buffer of words and the frames in it, with the serial numbers of the live tensors and that of
the next one. -/
structure Heap where
  frames : Frames := []
  words : Words := {}
  live : List Nat := []
  next : Nat := 0
deriving Inhabited

namespace Heap

/-- The words of the buffer once it covers a frame. -/
def grown (h : Heap) (f : Frame) : Words :=
  if h.words.size < f.stop.toNat then h.words.resize (f.stop * 3 / 2).toNat else h.words

/-- Makes a tensor of the given shape. -/
def allocate (h : Heap) (shape : List Int) : Buffer × Heap :=
  let (frame, frames) := h.frames.allocate (word (volume shape))
  (⟨h.next, shape, frame⟩,
    { frames := frames, words := h.grown frame, live := h.next :: h.live, next := h.next + 1 })

/-- Makes a tensor of the given shape and fills it. -/
def allocateWith (h : Heap) (shape : List Int) (data : List UInt32) : Buffer × Heap :=
  let (b, h) := h.allocate shape
  (b, { h with words := h.words.write b.frame.start.toNat data })

/-- The words of a tensor. -/
def read (h : Heap) (b : Buffer) : List UInt32 :=
  (List.range b.size.toNat).map fun i => h.words.get (b.frame.start.toNat + i)

/-- Reads a tensor. One whose number of elements is negative has no words to read. -/
def readback (h : Heap) (b : Buffer) : Except Fault (List UInt32) :=
  if b.size < 0 then .error .sizeNegative else .ok (h.read b)

/-- Frees a tensor. -/
def free (h : Heap) (b : Buffer) : Heap :=
  { h with frames := h.frames.release b.frame.start, live := h.live.filter (· ≠ b.serial) }

end Heap

end KernelFusion
