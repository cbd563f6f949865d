/-
Shader text.

Every cluster whose head has a shape becomes one function. The operands of a line are the memory,
then the values, then the index; constants are written where they are used.
-/
import KernelFusion.Emit.Listing
import KernelFusion.Operation.Statement

namespace KernelFusion

/-- The state of writing the lines of one function. -/
structure ShaderText where
  text : String := ""
  depth : Int := 1

namespace Graph

/-- The line of one node. -/
def shaderStatement (g : Graph) (names : Names) (n : NodeId) : Except Fault String :=
  let entry := g.node n
  let inputs := (entry.arguments .input).map g.source
  let indices := (entry.arguments .index).map g.source
  let memory := (entry.arguments .memory).map g.source
  if 1 < indices.length then .error .severalIndices
  else
    entry.op.statement (names.of n) ((memory ++ inputs ++ indices).map (g.valueName names))
      (inputs.map fun m => (g.node m).type)

/-- Writes the line of one node; constants have none. -/
def shaderLine (g : Graph) (names : Names) (s : ShaderText) (n : NodeId) :
    Except Fault ShaderText := do
  let entry := g.node n
  if entry.isConst then return s
  else
    let depth := if entry.name = "loop_end" then s.depth - 1 else s.depth
    let line ← g.shaderStatement names n
    return { text := s.text ++ indentation depth ++ line ++ "\n"
             depth := if entry.name = "loop_begin" then depth + 1 else depth }

/-- The function of one cluster. -/
def shaderFunction (g : Graph) (names : Names) (k : ClusterId) : Except Fault String := do
  let body ← (g.run k).foldlM (g.shaderLine names) {}
  return "void main() \x7b\n" ++ body.text ++ "\x7d\n"

/-- Does a cluster become a function? Its head is no memory and has a shape. -/
def isShader (g : Graph) (k : ClusterId) : Bool :=
  match g.head? k with
  | some h => !(g.node h).isMemory && !((g.node h).arguments .shape).isEmpty
  | none => false

/-- The shader text of the program. -/
def shader (g : Graph) : Except Fault String := do
  let names := g.names
  let functions ← (g.summary.clusters.filter g.isShader).mapM (g.shaderFunction names)
  return String.join <| functions.zipIdx.map fun (f, i) =>
    "Kernel ID: " ++ toString i ++ "\n" ++ f ++ "\n"

end Graph

end KernelFusion
