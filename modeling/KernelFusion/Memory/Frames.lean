/-
Frames: the stretches of memory that are in use.

Frames are registered by their start and kept in that order. A new frame takes the first gap that
is long enough, or follows the last frame. Starts, sizes and ends are words, and their arithmetic
wraps around.
-/

namespace KernelFusion

/-- A stretch of memory. -/
structure Frame where
  start : UInt32
  size : UInt32
  stop : UInt32
deriving DecidableEq, Repr, Inhabited

/-- The registered frames, by ascending start. -/
abbrev Frames := List Frame

namespace Frames

/-- The start of the first gap of the given length; the gap to look at begins at `start`. -/
def gap (size start : UInt32) : Frames → UInt32
  | [] => start
  | f :: rest => if size ≤ f.start - start then start else gap size f.stop rest

/-- Registers a frame; a frame with the same start is replaced. -/
def register (f : Frame) : Frames → Frames
  | [] => [f]
  | e :: rest =>
    if f.start < e.start then f :: e :: rest
    else if f.start = e.start then f :: rest
    else e :: register f rest

theorem mem_register_self (f : Frame) (frames : Frames) : f ∈ frames.register f := by
  induction frames with
  | nil => simp [register]
  | cons e rest ih =>
    rw [register]
    split
    · simp
    · split <;> simp [ih]

/-- The frame that a request of the given length gets. -/
def fit (frames : Frames) (size : UInt32) : Frame :=
  let start := gap size 0 frames
  ⟨start, size, start + size⟩

/-- Registers a frame of the given length. -/
def allocate (frames : Frames) (size : UInt32) : Frame × Frames :=
  (frames.fit size, frames.register (frames.fit size))

/-- Takes back the frame that is registered at a start. -/
def release (frames : Frames) (start : UInt32) : Frames :=
  frames.filter fun f => f.start ≠ start

@[simp] theorem mem_release {frames : Frames} {start : UInt32} {f : Frame} :
    f ∈ frames.release start ↔ f ∈ frames ∧ f.start ≠ start := by
  simp [release]

/-- The memory needed for all frames: the end of the last one. -/
def required (frames : Frames) : UInt32 :=
  match frames.getLast? with
  | some f => f.stop
  | none => 0

end Frames

end KernelFusion
