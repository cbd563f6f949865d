/-
The three general forms of recording.

Each of `apply`, `access` and `source` either fails and changes nothing, or records exactly one
node of the operation it names.
-/
import KernelFusion.Proofs.Build.Outcome
import KernelFusion.Proofs.Graph.Edits
import KernelFusion.Tensor.Factory

namespace KernelFusion

open Text Operation

namespace Operation

variable {name : String} {op : Operation}

lemma mem_table_of_find (h : find name = .ok op) :
    op ∈ table ∧ op.name = name := by
  unfold find at h
  split at h
  · cases h
  · split at h
    · rename_i found hf
      cases h
      exact ⟨List.mem_of_find?_eq_some hf, by simpa using List.find?_some hf⟩
    · cases h

lemma of_mem_table_coordinate (h : op ∈ table) (hname : op.name = "dim_id") :
    (∀ o ∈ op.overloads, o.output = .int) ∧ op.kind.accesses = false := by
  have hall : ∀ op ∈ table, op.name = "dim_id" →
      (∀ o ∈ op.overloads, o.output = .int) ∧ op.kind.accesses = false := by decide +kernel
  exact hall op h hname

/-- Does the operation open or close a block? -/
def isControl (op : Operation) : Bool :=
  ["loop_begin", "loop_end", "if_begin", "if_end"].contains op.name

lemma isControl_iff : op.isControl ↔
    op.name = "loop_begin" ∨ op.name = "loop_end" ∨ op.name = "if_begin" ∨ op.name = "if_end" := by
  simp [isControl]

lemma not_isControl_iff : op.isControl = false ↔
    op.name ≠ "loop_begin" ∧ op.name ≠ "loop_end" ∧ op.name ≠ "if_begin" ∧ op.name ≠ "if_end" := by
  simp [isControl]

/-- Does the operation of a name, if there is one, satisfy a condition? -/
def namedBy (p : Operation → Bool) (name : String) : Bool :=
  match find (removeSpaces name) with
  | .ok op => p op
  | .error _ => true

lemma of_namedBy {p : Operation → Bool} (h : namedBy p name)
    (hop : find (removeSpaces name) = .ok op) : p op := by
  rwa [namedBy, hop] at h

/-- Is the operation of a name one on values? -/
def onValues : String → Bool := namedBy fun op => !op.kind.accesses && op.name != "memory"

/-- Is the operation of a name one on values that neither is a coordinate nor opens or closes a
block? -/
def computes : String → Bool :=
  namedBy fun op =>
    !op.kind.accesses && op.name != "memory" && (op.name != "dim_id" && !op.isControl)

lemma of_computes (h : computes name) (hop : find (removeSpaces name) = .ok op) :
    op.kind.accesses = false ∧ op.name ≠ "memory" ∧ op.name ≠ "dim_id" ∧ op.isControl = false := by
  simpa [and_assoc] using of_namedBy h hop

lemma onValues_of_computes (h : computes name) : onValues name := by
  unfold computes onValues namedBy at *
  split at h
  · exact (Bool.and_eq_true_iff.1 h).1
  · rfl

/-- Is the operation of a name one on memory? -/
def onMemory : String → Bool := namedBy fun op => op.kind.accesses && op.name != "memory"

/-- Does the operation of a name access no memory? -/
def onNothing : String → Bool := namedBy fun op => !op.kind.accesses

end Operation

/-- The arguments of an access to memory. -/
def Graph.accessArguments (g : Graph) (memory : NodeId) (indices operands : List NodeId) :
    List Argument :=
  g.argumentsFrom .memory [memory] ++ g.argumentsFrom .input operands
    ++ g.argumentsFrom .index indices ++ (g.node (indices.headD memory)).arguments .shape

namespace Build

variable {g g' : Graph} {name : String} {type : Scalar} {n : NodeId} {operands : List NodeId}
  {shape : List Argument}

lemma placed_eq (p : Graph.Place) (n : NodeId) (inCluster : Bool) (act : Build α) (g : Graph) :
    placed p n inCluster act g = match act (g.enter p n inCluster) with
      | .ok a g' => .ok a (g'.leave g)
      | .error e g' => .error e g' := by
  refine (bind_of_ok (x := get) (s := g) rfl).trans ?_
  refine (bind_of_ok (x := set (g.enter p n inCluster)) (s := g) rfl).trans ?_
  cases hact : act (g.enter p n inCluster) with
  | ok a g' => exact (bind_of_ok hact).trans rfl
  | error e g' => exact bind_of_error hact

lemma placed_eq_ok {p : Graph.Place} {inCluster : Bool} {act : Build α}
    {a : α} : placed p n inCluster act g = .ok a g' ↔
      ∃ g₁, act (g.enter p n inCluster) = .ok a g₁ ∧ g₁.leave g = g' := by
  rw [placed_eq]
  cases act (g.enter p n inCluster) with
  | ok b g₁ => simp [and_assoc]
  | error e g₁ => simp

lemma record_eq (h : g.recording) (op : Operation) (type : Scalar) (args : List Argument) :
    record op type args g = .ok g.nodes.size (g.insert op type args) := by
  show (if g.recording = true then _ else _ : Build NodeId) g = _
  rw [if_pos h]
  rfl

lemma record_cases (g : Graph) (op : Operation) (type : Scalar) (args : List Argument) :
    (∃ e, record op type args g = .error e g) ∨ g.recording ∧
      record op type args g = .ok g.nodes.size (g.insert op type args) := by
  by_cases h : g.recording
  · exact .inr ⟨h, record_eq h op type args⟩
  · refine .inl ⟨.notRecording, ?_⟩
    show (if g.recording = true then _ else _ : Build NodeId) g = _
    rw [if_neg h]
    rfl

/-- A name resolves to an operation and an overload, or nothing changes. -/
lemma resolve_cases (name : String) (operands : List NodeId) (g : Graph) :
    (∃ e, resolve name operands g = .error e g) ∨
      ∃ op o, find name = .ok op ∧
        op.overload? (operands.map fun n => (g.node n).type) = some o ∧
        resolve name operands g = .ok (op, o.output) g := by
  unfold resolve
  rw [bind_of_ok (rfl : (get : Build Graph) g = .ok g g)]
  cases hop : find name with
  | error e => exact .inl ⟨e, rfl⟩
  | ok op =>
    cases ho : op.overload? (operands.map fun n => (g.node n).type) with
    | none =>
      refine .inl ⟨.operandTypes (operands.map fun n => (g.node n).type) name, ?_⟩
      simp only [ho]
      rfl
    | some o =>
      refine .inr ⟨op, o, rfl, ho, ?_⟩
      simp only [ho]
      rfl

/-- `apply` records one node or changes nothing. -/
lemma apply_cases (g : Graph) (name : String) (operands : List NodeId) :
    (∃ e, apply name operands g = .error e g) ∨ g.recording ∧
      ∃ op o, find (removeSpaces name) = .ok op ∧
        op.overload? (operands.map fun n => (g.node n).type) = some o ∧
        apply name operands g = .ok g.nodes.size
          (g.insert op o.output (g.argumentsFrom .input operands ++ g.commonShape operands)) := by
  unfold apply
  by_cases hname : removeSpaces name = ""
  · rw [if_pos hname]
    exact .inl ⟨_, rfl⟩
  · rw [if_neg hname]
    rcases resolve_cases (removeSpaces name) operands g with ⟨e, he⟩ | ⟨op, o, hop, ho, hok⟩
    · exact .inl ⟨e, bind_of_error he⟩
    · rcases record_cases g op o.output (g.argumentsFrom .input operands ++ g.commonShape operands)
        with ⟨e, he⟩ | ⟨hrec, hrecord⟩
      · exact .inl ⟨e, (bind_of_ok hok).trans he⟩
      · exact .inr ⟨hrec, op, o, hop, ho, (bind_of_ok hok).trans hrecord⟩

/-- `access` records one node with integer indices or changes nothing. -/
lemma access_cases (g : Graph) (name : String) (memory : NodeId) (indices operands : List NodeId) :
    (∃ e, access name memory indices operands g = .error e g) ∨ g.recording ∧
      ∃ op o, find (removeSpaces name) = .ok op ∧
        op.overload? (operands.map fun n => (g.node n).type) = some o ∧
        (∀ i ∈ indices, (g.node i).type = .int) ∧
        access name memory indices operands g = .ok g.nodes.size
          (g.insert op (if removeSpaces name = "load" then (g.node memory).type else o.output)
            (g.accessArguments memory indices operands)) := by
  unfold access
  by_cases hname : removeSpaces name = ""
  · rw [if_pos hname]
    exact .inl ⟨_, rfl⟩
  · rw [if_neg hname]
    by_cases htype : (indices.any fun i => decide ((g.node i).type ≠ .int))
    · refine .inl ⟨.indexType, ?_⟩
      show (if (indices.any fun i => decide ((g.node i).type ≠ .int)) = true then _ else _ :
        Build NodeId) g = _
      rw [if_pos htype]
      rfl
    · show (∃ e, (if (indices.any fun i => decide ((g.node i).type ≠ .int)) = true then _ else _ :
          Build NodeId) g = .error e g) ∨ g.recording ∧ ∃ op o, _ ∧ _ ∧ _ ∧
        (if (indices.any fun i => decide ((g.node i).type ≠ .int)) = true then _ else _ :
          Build NodeId) g = _
      rw [if_neg htype]
      rcases resolve_cases (removeSpaces name) operands g with ⟨e, he⟩ | ⟨op, o, hop, ho, hok⟩
      · exact .inl ⟨e, bind_of_error he⟩
      · rcases record_cases g op
          (if removeSpaces name = "load" then (g.node memory).type else o.output)
          (g.accessArguments memory indices operands) with ⟨e, he⟩ | ⟨hrec, hrecord⟩
        · exact .inl ⟨e, (bind_of_ok hok).trans he⟩
        · exact .inr ⟨hrec, op, o, hop, ho, by simpa using htype, (bind_of_ok hok).trans hrecord⟩

lemma access_eq_ok {memory : NodeId} {indices : List NodeId} (hname : onMemory name)
    (hrun : access name memory indices operands g = .ok n g') :
    n = g.nodes.size ∧ ∃ op o type, op ∈ table ∧ o ∈ op.overloads ∧
      op.kind.accesses ∧ op.name = removeSpaces name ∧
      type = (if op.name = "load" then (g.node memory).type else o.output) ∧
      g' = g.insert op type (g.accessArguments memory indices operands) := by
  rcases access_cases g name memory indices operands with ⟨e, he⟩ | ⟨-, op, o, hop, ho, -, hok⟩
  · rw [he] at hrun
    cases hrun
  · rw [hok] at hrun
    cases hrun
    obtain ⟨haccess, -⟩ : op.kind.accesses ∧ op.name ≠ "memory" := by
      simpa using of_namedBy hname hop
    obtain ⟨htable, hopname⟩ := mem_table_of_find hop
    exact ⟨rfl, op, o, _, htable, List.mem_of_find?_eq_some ho, haccess,
      hopname, by rw [hopname], rfl⟩

lemma source_cases (g : Graph) (name : String) (shape : List Argument) (type : Scalar) :
    (∃ e, source name shape type g = .error e g) ∨ g.recording ∧
      ∃ op, find (removeSpaces name) = .ok op ∧ op.yields type ∧
        source name shape type g = .ok g.nodes.size (g.insert op type shape) := by
  unfold source
  by_cases hname : removeSpaces name = ""
  · rw [if_pos hname]
    exact .inl ⟨_, rfl⟩
  · rw [if_neg hname]
    cases hop : find (removeSpaces name) with
    | error e => exact .inl ⟨e, rfl⟩
    | ok op =>
      show (∃ e, (if op.yields type = true then _ else _ : Build NodeId) g = .error e g) ∨
        g.recording ∧ ∃ op', _ ∧ _ ∧ (if op.yields type = true then _ else _ : Build NodeId) g = _
      by_cases hyields : op.yields type
      · rw [if_pos hyields]
        rcases record_cases g op type shape with ⟨e, he⟩ | ⟨hrec, hok⟩
        · exact .inl ⟨e, he⟩
        · exact .inr ⟨hrec, op, rfl, hyields, hok⟩
      · rw [if_neg hyields]
        exact .inl ⟨.resultType type (removeSpaces name), rfl⟩

lemma source_eq_ok (hrun : source name shape type g = .ok n g') :
    n = g.nodes.size ∧ ∃ op, find (removeSpaces name) = .ok op ∧
      g' = g.insert op type shape := by
  rcases source_cases g name shape type with ⟨e, he⟩ | ⟨-, op, hop, -, hok⟩
  · rw [he] at hrun
    cases hrun
  · rw [hok] at hrun
    cases hrun
    exact ⟨rfl, op, hop, rfl⟩

lemma sourceWith_cases (g : Graph) (name : String) (shape : List Argument) (type : Scalar)
    (data : List UInt32) :
    (∃ e, sourceWith name shape type data g = .error e g) ∨ g.recording ∧
      ∃ op, find (removeSpaces name) = .ok op ∧
        sourceWith name shape type data g =
          .ok g.nodes.size (g.insertWith op type shape data) := by
  rcases source_cases g name shape type with ⟨e, he⟩ | ⟨hrec, op, hop, -, hok⟩
  · exact .inl ⟨e, bind_of_error he⟩
  · exact .inr ⟨hrec, op, hop, (bind_of_ok hok).trans rfl⟩

/-! ### What recording keeps -/

section Keeps

variable {R : Graph → Graph → Prop} [IsPreorder Graph R] {P : NodeId → Graph → Prop}

lemma keeps_apply_of (h : ∀ op o, find (removeSpaces name) = .ok op →
      op.overload? (operands.map fun n => (g.node n).type) = some o →
      R g (g.insert op o.output (g.argumentsFrom .input operands ++ g.commonShape operands)) ∧
      P g.nodes.size (g.insert op o.output
      (g.argumentsFrom .input operands ++ g.commonShape operands))) :
    Keeps R (apply name operands) g P := by
  rcases apply_cases g name operands with ⟨e, he⟩ | ⟨-, op, o, hop, ho, hok⟩
  · exact ⟨meets_of_error he (refl_of R g)⟩
  · exact ⟨meets_of_ok hok (h op o hop ho)⟩

lemma keeps_source_of (h : ∀ op, find (removeSpaces name) = .ok op → op.yields type →
      R g (g.insert op type shape) ∧ P g.nodes.size (g.insert op type shape)) :
    Keeps R (source name shape type) g P := by
  rcases source_cases g name shape type with ⟨e, he⟩ | ⟨-, op, hop, hyields, hok⟩
  · exact ⟨meets_of_error he (refl_of R g)⟩
  · exact ⟨meets_of_ok hok (h op hop hyields)⟩

lemma keeps_sourceWith_of {data : List UInt32}
    (h : ∀ op, find (removeSpaces name) = .ok op → op.yields type →
      R g (g.insertWith op type shape data) ∧ P g.nodes.size (g.insertWith op type shape data)) :
    Keeps R (sourceWith name shape type data) g P := by
  rcases source_cases g name shape type with ⟨e, he⟩ | ⟨-, op, hop, hyields, hok⟩
  · exact ⟨meets_of_error (bind_of_error he) (refl_of R g)⟩
  · exact ⟨meets_of_ok ((bind_of_ok hok).trans rfl) (h op hop hyields)⟩

end Keeps

end Build

end KernelFusion
