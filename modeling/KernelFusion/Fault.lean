/-
What can go wrong.

Each fault is a cause; the message shown to the user is `Fault.message`. Recording, the passes,
text generation and execution all fail with one of these.
-/
import KernelFusion.Scalar

namespace KernelFusion

/-- The causes of failure. -/
inductive Fault where
  | operationNameEmpty
  | operationUnknown (name : String)
  | overloadLetter
  | overloadMissing
  | applyNameBlank
  | accessNameBlank
  | sourceNameBlank
  | operandTypes (types : List Scalar) (name : String)
  | resultType (type : Scalar) (name : String)
  | indexType
  | notRecording
  | alreadyRecording
  | constantType
  | operandNotCopied
  | headMissing
  | coordinateRange (dim : Int) (rank : Nat)
  | tensorMode
  | kernelMode
  | loopMode
  | kernelShapeless
  | severalIndices
  | inputCount (expected got : Nat)
  | inputShape (dim input : Nat) (expected got : Int)
  | sizeNegative
  | kernelNotCompiled
  | memoryForeign
  | tempPath
  | tempFile
  | sourceFile
  | compilerStart (command : String)
  | compilerExit (code : UInt32)
  | libraryLoad
  | librarySymbol
  | deviceMissing
  | nameUnbound (name : String)
deriving DecidableEq, Repr, Inhabited

/-- The types of a faulty application, each followed by a comma. -/
def typeList (types : List Scalar) : String :=
  String.join (types.map fun t => t.name ++ ", ")

/-- A text up to its first NUL character. -/
def untilNul (s : String) : String := String.ofList (s.toList.takeWhile (· ≠ '\x00'))

/-- The wording of a fault. -/
def Fault.wording : Fault → String
  | operationNameEmpty => "Operation name is empty"
  | operationUnknown name => "Operation not found: " ++ name
  | overloadLetter => "Invalid character in overload string"
  | overloadMissing => "Invalid input types for operation"
  | applyNameBlank => "Operation name cannot be empty"
  | accessNameBlank => "Memory operation name cannot be empty"
  | sourceNameBlank => "Static operation name cannot be empty"
  | operandTypes types name =>
    "Input types " ++ typeList types ++ "are not valid for operation " ++ name
  | resultType type name => "Type " ++ type.name ++ " is not valid for operation " ++ name
  | indexType => "Tensor indices must be integers"
  | notRecording =>
    "Evaluation context has not been set. Are you doing operations outside a TensorProgram?"
  | alreadyRecording => "Evaluation context change is forbidden."
  | constantType => "Unexpected type in isConstantEqualTo"
  | operandNotCopied => "Node not found"
  | headMissing => "Node is nullptr"
  | coordinateRange dim rank =>
    "Invalid dimension index " ++ toString dim ++ " for kernel of size " ++ toString rank
  | tensorMode => "Invalid tensor indexing mode"
  | kernelMode => "Invalid kernel indexing mode"
  | loopMode => "Invalid indexing mode"
  | kernelShapeless => "Kernel does not have a shape"
  | severalIndices => "HLSL codegen does not support multidimensional indexing"
  | inputCount expected got =>
    "Invalid number of inputs for TensorProgram. Expected " ++ toString expected ++ ", got "
      ++ toString got
  | inputShape dim input expected got =>
    "Invalid input shape " ++ toString dim ++ " for input " ++ toString input ++ ". Expected "
      ++ toString expected ++ ", got " ++ toString got
  | sizeNegative => "vector::_M_default_append"
  | kernelNotCompiled => "bad_function_call"
  | memoryForeign => "Cannot execute kernel on non-CPU memory manager"
  | tempPath => "Compiler error: cannot get temp path"
  | tempFile => "Compiler error: cannot create temp file"
  | sourceFile => "Compiler error: cannot open file for writing generated source code"
  | compilerStart command =>
    "Compiler error: cannot create compiler process. Command line: " ++ untilNul command ++ "\n"
  | compilerExit code =>
    "Compiler error: compiler exited with non-zero exit code (Error code: " ++ toString code.toNat
      ++ ")"
  | libraryLoad => "Compiler error: cannot load generated library"
  | librarySymbol => "Compiler error: cannot load kernel function"
  | deviceMissing => "WGPU backend not implemented yet"
  | nameUnbound name => "unbound name: " ++ name

/-- The message of a fault, as it is shown. A NUL character that a name brings in ends it. -/
def Fault.message (f : Fault) : String := untilNul f.wording

end KernelFusion
