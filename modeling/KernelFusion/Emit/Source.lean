/-
The C source of a program.

Every compute kernel becomes one exported function behind a fixed prelude. Its body is a loop nest
over the index space around the merged lines.
-/
import KernelFusion.Emit.LoopNest
import KernelFusion.Emit.Merge
import KernelFusion.Text.Lines

namespace KernelFusion

/-- C source text. -/
structure Source where
  names : List String
  body : String
deriving Inhabited

/-- The lines that every source starts with: the functions that kernels use. -/
def preludeLines : List String :=
    [ "",
      "#include <cmath>",
      "#include <omp.h>",
      "",
      "typedef unsigned int uint;",
      "",
      "inline int min(int a, int b)",
      "\x7b",
      "  return a < b ? a : b;",
      "\x7d",
      "",
      "inline int max(int a, int b)",
      "\x7b",
      "  return a > b ? a : b;",
      "\x7d",
      "",
      "inline float min(float a, float b)",
      "\x7b",
      "  return a < b ? a : b;",
      "\x7d",
      "",
      "inline float max(float a, float b)",
      "\x7b",
      "  return a > b ? a : b;",
      "\x7d",
      "",
      "inline float asfloat(uint x)",
      "\x7b",
      "  return *(float*)&x;",
      "\x7d",
      "",
      "inline uint asuint(float x)",
      "\x7b",
      "  return *(uint*)&x;",
      "\x7d",
      "",
      "inline int clamp(int x, int a, int b)",
      "\x7b",
      "  return min(max(x, a), b);",
      "\x7d",
      "",
      "inline float clamp(float x, float a, float b)",
      "\x7b",
      "  return min(max(x, a), b);",
      "\x7d",
      "",
      "inline void InterlockedAdd(int* memory, int address, int value)",
      "\x7b",
      "  #pragma omp atomic",
      "  memory[address] += value;",
      "\x7d",
      "",
      "inline void InterlockedAdd(uint* memory, int address, uint value)",
      "\x7b",
      "  #pragma omp atomic",
      "  memory[address] += value;",
      "\x7d",
      "",
      "inline void InterlockedAdd(float* memory, int address, float value)",
      "\x7b",
      "  #pragma omp atomic",
      "  memory[address] += value;",
      "\x7d",
      "",
      "inline void InterlockedAnd(int* memory, int address, int value)",
      "\x7b",
      "  #pragma omp atomic",
      "  memory[address] &= value;",
      "\x7d",
      "",
      "inline void InterlockedAnd(uint* memory, int address, uint value)",
      "\x7b",
      "  #pragma omp atomic",
      "  memory[address] &= value;",
      "\x7d",
      "",
      "inline void InterlockedOr(int* memory, int address, int value)",
      "\x7b",
      "  #pragma omp atomic",
      "  memory[address] |= value;",
      "\x7d",
      "",
      "inline void InterlockedOr(uint* memory, int address, uint value)",
      "\x7b",
      "  #pragma omp atomic",
      "  memory[address] |= value;",
      "\x7d",
      "",
      "inline void InterlockedXor(int* memory, int address, int value)",
      "\x7b",
      "  #pragma omp atomic",
      "  memory[address] ^= value;",
      "\x7d",
      "",
      "inline void InterlockedXor(uint* memory, int address, uint value)",
      "\x7b",
      "  #pragma omp atomic",
      "  memory[address] ^= value;",
      "\x7d",
      "",
      "" ]

/-- The text that every source starts with. -/
def preludeText : String := "\n".intercalate preludeLines

/-- The whole source. -/
def Source.text (s : Source) : String := preludeText ++ s.body

/-- The function of a kernel. -/
def kernelFunction (name loops code : String) : String :=
  "\nextern \"C\" __declspec(dllexport) void " ++ name
    ++ "(uint* var, uint* off, uint* mem, uint* shape)\n\x7b\n"
    ++ "  #pragma omp parallel for shared(mem) \n" ++ loops ++ Text.indentLines code "    "
    ++ "  \x7d\n\x7d\n"

namespace Graph

/-- The function of one compute kernel. -/
def kernelSource (g : Graph) (name : String) (k : Kernel) : Except Fault String := do
  let lines ← g.kernelLines k
  let nest ← LoopNest.ofMode k.mode k.dim
  return kernelFunction name nest.text (renderLines (mergeLines lines))

/-- The source of the compute kernels among some kernels. -/
def sourceOf (g : Graph) (kernels : List Kernel) : Except Fault Source := do
  let named := (kernels.filter fun k => k.kind = .compute).zipIdx.map fun (k, i) =>
    ("kernel_" ++ toString i, k)
  let functions ← named.mapM fun (name, k) => g.kernelSource name k
  return ⟨named.map (·.1), String.join functions⟩

end Graph

end KernelFusion
