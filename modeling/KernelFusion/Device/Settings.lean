/-
The device: choosing one, and compiling for it.

Only the processor itself can run kernels. Options for the compiler are kept until others are
given; a device that is not available still takes over the options.

The compiler is a program of the host. What the host answers to each request is data here (`Host`),
so that compiling is a function: it gives the log and either the names of the kernels that were
loaded or the request that failed.
-/
import KernelFusion.Emit.Source
import KernelFusion.Memory.Heap

namespace KernelFusion

/-- The devices. -/
inductive Device where
  | cpu
  | gpu
deriving DecidableEq, Repr, Inhabited

/-- What a device works with. -/
structure Settings where
  options : String := ""
  heap : Heap := {}
deriving Inhabited

/-- Chooses a device. Empty options leave the options as they are; the memory starts anew. -/
def Settings.choose (s : Settings) (device : Device) (options : String) :
    Except Fault Unit × Settings :=
  let s := if options = "" then s else { s with options := options }
  match device with
  | .cpu => (.ok (), { s with heap := {} })
  | .gpu => (.error .deviceMissing, s)

/-! ### Compiling -/

/-- What the host answers while a program is compiled. -/
structure Host where
  tempPath : Option String := some "tmp/"
  tempFile : Option String := some "lib0.tmp"
  writesSource : Bool := true
  startsCompiler : Bool := true
  exitCode : UInt32 := 0
  loadsLibrary : Bool := true
  findsKernels : Bool := true
  releaseError : Option Nat := none
deriving Inhabited

/-- Actions that write a log. What was written before a failure stays written. -/
abbrev Logged := EStateM Fault String

/-- Writes a line. -/
def say (line : String) : Logged Unit := modify fun log => log ++ line ++ "\n"

/-- Fails unless a condition holds. -/
def demand (condition : Bool) (fault : Fault) : Logged Unit :=
  if condition then return () else throw fault

/-- The command that compiles the source in a directory into a library. -/
def compilerCommand (options path library : String) : String :=
  "powershell -command \"$VisualStudioPath = & \\\"$\x7bEnv:ProgramFiles(x86)\x7d"
    ++ "\\Microsoft Visual Studio\\Installer\\vswhere.exe\\\" -latest -products * "
    ++ "-property installationPath; & cmd.exe /C \\\"\"\\\"\\\"$VisualStudioPath"
    ++ "\\VC\\Auxiliary\\Build\\vcvarsall.bat\\\"\\\" x64 && cl "
    ++ options ++ " /LD " ++ path ++ "generated_lib.cpp /Fe:" ++ library ++ "\"\"\\\"\""

/-- Runs the compiler. -/
def runCompiler (host : Host) (options path library : String) : Logged Unit := do
  say ("Compile options: " ++ options)
  let command := compilerCommand options path library
  say ("Command: " ++ command)
  demand host.startsCompiler (.compilerStart command)
  demand (host.exitCode = 0) (.compilerExit host.exitCode)

/-- Compiles and loads the kernels of a program. -/
def compile (host : Host) (options : String) (source : Except Fault Source) : Logged Source := do
  match host.tempPath with
  | none => throw .tempPath
  | some path =>
    match host.tempFile with
    | none => throw .tempFile
    | some file =>
      say ("Temp file: " ++ path ++ file)
      match source with
      | .error e => throw e
      | .ok source =>
        say ("Source path: " ++ path ++ "generated_lib.cpp")
        demand host.writesSource .sourceFile
        runCompiler host options path (path ++ file)
        demand host.loadsLibrary .libraryLoad
        demand (host.findsKernels || source.names.isEmpty) .librarySymbol
        say "Successfully compiled and loaded kernel library."
        return source

/-- What releasing the library writes. -/
def releaseLog (host : Host) : String :=
  match host.releaseError with
  | some code => "Cannot free library: " ++ toString code ++ "\n"
  | none => ""

end KernelFusion
