/-
Scripts as whole programs.

The script is recorded, taken through all passes and compiled; then the program is looked at and
run.
-/
import KernelFusion.Script.Pass

namespace KernelFusion

/-- A request for a whole program. -/
structure ProgramRequest where
  steps : List Step
  outputs : List String
  views : List View
  runs : List RunRequest
  options : String
  host : Host
  unload : Bool
deriving Inhabited

/-- What became of a program. -/
structure ProgramReport where
  properties : String
  views : List Shown
  runs : List RunReport
deriving Inhabited

/-- Records the script and gives its outputs. -/
def ProgramRequest.callback (r : ProgramRequest) : Build (List NodeId) := fun g =>
  let recorded : Script (List NodeId) := do
    let _ ← Script.steps r.steps
    Script.tensors r.outputs
  match recorded { graph := g } with
  | .ok nodes scene => .ok nodes scene.graph
  | .error e scene => .error e scene.graph

/-- Looks at a program and runs it. -/
def ProgramRequest.report (r : ProgramRequest) (p : Program) : ProgramReport :=
  { properties := p.properties
    views := r.views.map (View.shown p.graph p.kernels)
    runs := runRequests p.graph p.kernels {} r.runs }

/-- Answers a request: the answers of the steps, the program or why there is none, and the log. -/
def ProgramRequest.run (r : ProgramRequest) :
    List Answer × Except Fault ProgramReport × String :=
  match Script.steps r.steps { graph := Graph.opened } with
  | .error e _ => ([], .error e, "")
  | .ok answers _ =>
    match Making.create r.host r.options (Making.tensor r.callback) {} with
    | .error e made => (answers, .error e, made.log)
    | .ok p made =>
      (answers, .ok (r.report p), if r.unload then made.log ++ releaseLog r.host else made.log)

end KernelFusion
