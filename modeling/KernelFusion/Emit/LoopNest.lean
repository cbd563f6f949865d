/-
The loops around the body of a kernel.

How the threads of a kernel are enumerated decides the loop nest: one loop over all threads, one
loop for each dimension, or two for each dimension, over blocks and inside a block. The nest is
data first (`LoopNest`) and text last.
-/
import KernelFusion.Graph.Basic

namespace KernelFusion

/-- The side length of a block of threads. -/
def blockSize : Nat := 8

/-- The variables of a loop nest. -/
inductive LoopVar where
  | thread
  | coordinate (dim : Nat)
  | block (dim : Nat)
  | lane (dim : Nat)
deriving DecidableEq, Repr, Inhabited

/-- What a loop counts up to. -/
inductive LoopBound where
  | size (dim : Nat)
  | blocks (dim : Nat)
  | side
deriving DecidableEq, Repr, Inhabited

/-- A loop nest, outermost loop first, and the dimensions whose coordinate is computed from block
and lane in front of the body. -/
structure LoopNest where
  loops : List (LoopVar × LoopBound)
  computed : List Nat
deriving DecidableEq, Repr, Inhabited

/-- The name of a variable in the source. -/
def LoopVar.name : LoopVar → String
  | thread => "thread_id"
  | coordinate dim => "dim" ++ toString dim
  | block dim => "wg" ++ toString dim
  | lane dim => "lt" ++ toString dim

/-- The text of a bound. -/
def LoopBound.text : LoopBound → String
  | size dim => "shape[" ++ toString dim ++ "]"
  | blocks dim => "shape[" ++ toString dim ++ "] / " ++ toString blockSize
  | side => toString blockSize

namespace LoopNest

/-- The loop nest of a kernel of the given rank. Blocks of threads in a row have none. -/
def ofMode (mode : KernelMode) (rank : Nat) : Except Fault LoopNest :=
  let dims := List.range rank
  match mode with
  | .linear => .ok ⟨[(.thread, .size 0)], []⟩
  | .multi => .ok ⟨dims.map fun d => (.coordinate d, .size d), []⟩
  | .multiBlocks =>
    .ok ⟨(dims.map fun d => (.block d, .blocks d)) ++ (dims.map fun d => (.lane d, .side)), dims⟩
  | .linearBlocks => .error .loopMode

/-- The head of one loop. -/
def loopText (loop : LoopVar × LoopBound) : String :=
  let var := loop.1.name
  "  for (int " ++ var ++ " = 0; " ++ var ++ " < " ++ loop.2.text ++ "; " ++ var ++ "++)\n"

/-- The line that computes a coordinate. -/
def computedText (dim : Nat) : String :=
  "    int " ++ (LoopVar.coordinate dim).name ++ " = " ++ (LoopVar.block dim).name ++ " * "
    ++ toString blockSize ++ " + " ++ (LoopVar.lane dim).name ++ ";\n"

/-- The text of a loop nest up to the body. -/
def text (nest : LoopNest) : String :=
  String.join (nest.loops.map loopText) ++ "  \x7b\n" ++ String.join
    (nest.computed.map computedText)

end LoopNest

end KernelFusion
