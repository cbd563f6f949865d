/-
Running scripts.

A script runs on a graph and a list of names. Each step is answered; a failure is an answer too,
and the steps behind it still run.
-/
import KernelFusion.Script.Step

namespace KernelFusion

/-- A graph and the names that a script has bound; the latest binding of a name counts. -/
structure Scene where
  graph : Graph := {}
  names : List (String × NodeId) := []
deriving Inhabited

/-- Actions on a scene. What an action changed before it failed stays changed. -/
abbrev Script := EStateM Fault Scene

/-- What an action gives: tensors to be named, or an answer. -/
inductive Made where
  | one (n : NodeId)
  | many (ns : List NodeId)
  | answer (a : Answer)
deriving Inhabited

namespace Script

/-- Runs an action on the graph. -/
def build (b : Build α) : Script α := fun s =>
  match b s.graph with
  | .ok a g => .ok a { s with graph := g }
  | .error e g => .error e { s with graph := g }

/-- The tensor of a name. -/
def tensor (name : String) : Script NodeId := do
  match (← get).names.lookup name with
  | some n => return n
  | none => throw (.nameUnbound name)

/-- The tensors of some names. -/
def tensors (names : List String) : Script (List NodeId) := names.mapM tensor

/-- Binds a name. -/
def bindName (name : String) (n : NodeId) : Script Unit :=
  modify fun s => { s with names := (name, n) :: s.names }

/-- The tensors that hold the sizes of a shape; sizes become constants. -/
def extent : Extent → Script (List NodeId)
  | .sizes sizes => build (Build.integers sizes)
  | .tensors names => tensors names

/-- The shape arguments of an index space. -/
def domain : Domain → Script (List Argument)
  | .like name => do
    let n ← tensor name
    build (Build.shapeArguments n)
  | .extent shape => do
    let sizes ← extent shape
    build (Build.shapeOf sizes)

/-- The rank of an index space. -/
def domainRank : Domain → Script Nat
  | .like name => do
    let n ← tensor name
    return ((← get).graph.node n).rank.toNat
  | .extent (.sizes sizes) => return sizes.length
  | .extent (.tensors names) => return names.length

/-- The place of a node among those of the recording graph. -/
def created (g : Graph) (n : NodeId) : Option Nat := if g.recording then g.creation? n else none

/-- The answer for one tensor. -/
def describe (n : NodeId) : Script Answer := do
  let g := (← get).graph
  return .tensor ⟨created g n, (g.node n).type⟩

/-- The arguments of one use. -/
def describeArguments (g : Graph) (n : NodeId) (k : ArgKind) : ArgumentsAnswer :=
  let entry := g.node n
  let place := fun (a : Argument) => (a.index, created g (g.source a))
  { list := (entry.arguments k).map place
    places := (entry.places k).map place
    maxIndex := entry.maxIndex k
    extent := entry.extent k }

/-- Runs an action and names nothing yet. -/
def perform : Action → Script Made
  | .constant type w shape => do
    let sizes ← extent shape
    return .one (← build (Build.constantOf sizes type w))
  | .constantData sizes data => return .one (← build (Build.constantData sizes data))
  | .memory type shape => do
    let sizes ← tensors shape
    return .one (← build (Build.memory sizes type))
  | .input type (.sizes sizes) =>
    return .one (← build (do Build.input (← Build.inputSizes sizes) type))
  | .input type (.tensors names) => do
    let sizes ← tensors names
    return .one (← build (Build.input sizes type))
  | .index d dim => do
    let shape ← domain d
    return .one (← build (Build.coordinate shape dim))
  | .indices d => do
    let rank ← domainRank d
    let coordinates ← (List.range rank).mapM fun (i : Nat) => do
      let shape ← domain d
      build (Build.coordinate shape i)
    return .many coordinates
  | .threadIndex d => do
    let shape ← domain d
    return .one (← build (Build.threadIndex shape))
  | .load memory indices => do
    let m ← tensor memory
    let is ← tensors indices
    return .one (← build (Build.load m is))
  | .store memory value indices => do
    let m ← tensor memory
    let v ← tensor value
    let is ← tensors indices
    return .one (← build (Build.store m v is))
  | .scatter kind memory value indices => do
    let m ← tensor memory
    let v ← tensor value
    let is ← tensors indices
    let _ ← build (Build.access kind.operation m is [v])
    return .answer .done
  | .call f operands => do
    let xs ← tensors operands
    return .one (← build (f.run xs))
  | .access operation memory indices operands => do
    let m ← tensor memory
    let is ← tensors indices
    let xs ← tensors operands
    return .one (← build (Build.access operation m is xs))
  | .source operation shape type => do
    let sizes ← tensors shape
    return .one (← build (do Build.source operation (← Build.shapeOf sizes) type))
  | .sum x dim => do
    let n ← tensor x
    let s ← build (Build.apply "sum" [n])
    build (modify fun g => g.setData s [word dim])
    return .one s
  | .copy x => do
    let n ← tensor x
    return .one (← build (do Build.copyNode n ((← get).node n).args))
  | .shape x => do
    let n ← tensor x
    return .many (← build (Build.shape n))
  | .constantShape x => do
    let n ← tensor x
    return .answer (.numbers ((← get).graph.constantShape n))
  | .rank x => do
    let n ← tensor x
    return .answer (.number ((← get).graph.node n).rank)
  | .constantText x => do
    let n ← tensor x
    return .answer (.text ((← get).graph.node n).constantText)
  | .isConstant x value => do
    let n ← tensor x
    return .answer (.truth (← build (Build.isConstant n value)))
  | .data x => do
    let n ← tensor x
    return .answer (.words ((← get).graph.node n).data)
  | .setRole x role slot => do
    let n ← tensor x
    build (modify fun g => g.setRole n role slot)
    return .answer .done
  | .arguments x kind => do
    let n ← tensor x
    return .answer (.arguments (describeArguments (← get).graph n kind))
  | .addArgument x source kind index => do
    let n ← tensor x
    let m ← tensor source
    build (modify fun g => g.addArgument n m kind index)
    return .answer .done
  | .removeArguments x kind => do
    let n ← tensor x
    build (modify fun g => g.removeArguments n kind)
    return .answer .done

/-- Names what an action made and answers. -/
def settle (name : Option String) : Made → Script Answer
  | .one n => do
    if let some s := name then bindName s n
    describe n
  | .many ns => do
    if let some s := name then
      ns.zipIdx.forM fun (n, i) => bindName (s ++ "." ++ toString i) n
    let g := (← get).graph
    return .tensors (ns.map (created g))
  | .answer a => return a

/-- Turns a failure into an answer. -/
def answered (act : Script Answer) : Script Answer := fun s =>
  match act s with
  | .ok a s => .ok a s
  | .error e s => .ok (.failed e) s

/-- Opens a loop: its variable and the answer for it. -/
def openLoop (start stop step : String) (name : Option String) : Script (NodeId × Answer) := do
  let a ← tensor start
  let b ← tensor stop
  let c ← tensor step
  let var ← build (Build.apply "loop_begin" [a, b, c])
  if let some s := name then bindName s var
  return (var, ← describe var)

/-- Closes a loop. -/
def closeLoop (var : NodeId) : Script Unit := do
  let _ ← build (Build.apply "loop_end" [var])

mutual

/-- Runs one step. -/
def step : Step → Script Answer
  | .act action name => do
    let made ← perform action
    settle name made
  | .loop start stop stride name body => do
    let (var, first) ← openLoop start stop stride name
    let answers ← steps body
    closeLoop var
    return .body (first :: answers)

/-- Runs steps one after the other; a failed step is answered by its fault. -/
def steps : List Step → Script (List Answer)
  | [] => return []
  | s :: rest => do
    let a ← answered (step s)
    let as ← steps rest
    return a :: as

end

end Script

end KernelFusion
