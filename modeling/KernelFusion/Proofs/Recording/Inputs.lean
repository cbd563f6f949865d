/-
The inputs of a script.

As long as roles are given to new memory only, the inputs are what the steps `input` have made, in
the order in which these have run.
-/
import KernelFusion.Proofs.Device.Running
import KernelFusion.Proofs.Recording.Scripts

namespace KernelFusion

open List Step KernelFusion.Graph

/-! ### What steps make -/

/-- The scene when an action is over, whether it has succeeded or not. -/
def Script.after (act : Script α) (s : Scene) : Scene :=
  match act s with
  | .ok _ s' => s'
  | .error _ s' => s'

mutual

/-- The inputs that a step makes. -/
def Step.inputs : Step → Scene → List NodeId
  | .act (.input type shape) _, s =>
    match Script.perform (.input type shape) s with
    | .ok (.one n) _ => [n]
    | _ => []
  | .act _ _, _ => []
  | .loop start stop stride name body, s =>
    match Script.openLoop start stop stride name s with
    | .ok _ s' => allInputs body s'
    | .error _ _ => []

/-- The inputs that steps make, one after the other. -/
def Step.allInputs : List Step → Scene → List NodeId
  | [], _ => []
  | st :: rest, s => st.inputs s ++ allInputs rest (Script.after (Script.step st) s)

end

/-! ### Changes that make no input -/

/-- No memory becomes an input, and roles are given to new memory only. -/
def Policy.inputless : Policy := { opened := [.constant], assigned := [] }

namespace Graph

variable {g g' : Graph} {n : NodeId}

lemma Recorded.inputNodes_congr (h : g.Recorded) (h' : g'.Recorded)
    (hsize : g'.nodes.size = g.nodes.size)
    (hrole : ∀ n < g.nodes.size, ((g'.node n).role = .input ↔ (g.node n).role = .input)) :
    g'.inputNodes = g.inputNodes := by
  rw [inputNodes, inputNodes, h.order, h'.order, hsize]
  refine filter_congr fun n hn => ?_
  rw [decide_eq_decide]
  exact hrole n (mem_range.1 hn)

/-- Nothing but a declaration adds an input. -/
lemma Changes.inputNodes_eq (h : g.RecordedUnder .inputless) (hr : Changes .inputless g g') :
    g'.inputNodes = g.inputNodes := by
  have h' := h.changes hr
  cases hr with
  | @enter op type args he =>
    rw [inputNodes, inputNodes, h.order, h'.order, size_nodes_insert, range_succ, filter_append]
    have hnew : ((g.insert op type args).node g.nodes.size).role = .scratch := by
      rw [node_insert_self]
    have hlast : [g.nodes.size].filter
        (fun n => ((g.insert op type args).node n).role = .input) = [] := by
      simp [hnew]
    rw [hlast, append_nil]
    refine filter_congr fun n hn => ?_
    rw [node_insert_of_ne (Nat.ne_of_lt (mem_range.1 hn))]
  | data n data =>
    refine h.inputNodes_congr h'.toRecorded (by simp [setData]) fun m _ => ?_
    have hsame : ((g.setData n data).node m).role = (g.node m).role :=
      modifyNode_congr Node.role fun _ => rfl
    rw [hsame]
  | @role n role slot hn hrole =>
    refine h.inputNodes_congr h'.toRecorded (by simp [setRole]) fun m _ => ?_
    -- the memory had no role, and it becomes a constant
    have hmarks : role = .constant ∧ (g.node n).role = .scratch := by
      simp only [Policy.marks, Policy.inputless, Bool.or_eq_true, Bool.and_eq_true] at hrole
      simp at hrole
      exact ⟨hrole.1.1, hrole.2⟩
    rw [setRole, node_modifyNode]
    split
    · rename_i heq
      simp [hmarks.1, heq.1, hmarks.2]
    · exact Iff.rfl

lemma Traces.inputNodes_eq (ht : Traces .inputless g g') (h : g.RecordedUnder .inputless) :
    g'.inputNodes = g.inputNodes :=
  (ht.of_changes (I := fun g' => g'.inputNodes = g.inputNodes) h rfl
    fun _ _ h₁ hr ih => (Changes.inputNodes_eq h₁ hr).trans ih).2

lemma Recorded.inputNodes_setRole {k : Nat} (h : g.Recorded) (hsize : g.nodes.size = k + 1)
    (hrole : (g.node k).role ≠ .input) :
    (g.setRole k .input 0).inputNodes = g.inputNodes ++ [k] := by
  have hsize' : (g.setRole k .input 0).nodes.size = k + 1 := by
    rw [Graph.setRole, size_nodes_modifyNode, hsize]
  have hlt : k < g.nodes.size := by omega
  have hnew : ((g.setRole k .input 0).node k).role = .input := by
    rw [Graph.setRole, node_modifyNode_self hlt]
  have hold : (range k).filter (fun n => ((g.setRole k .input 0).node n).role = .input) =
      (range k).filter fun n => (g.node n).role = .input := by
    refine filter_congr fun n hn => ?_
    rw [Graph.setRole, node_modifyNode_of_ne (Nat.ne_of_lt (mem_range.1 hn))]
  rw [inputNodes, inputNodes, (h.setRole k .input 0).order, h.order, hsize, hsize', range_succ,
    filter_append, filter_append, hold]
  simp [hnew, hrole]

end Graph

lemma Build.input_cases {g : Graph} {ns : List NodeId} (h : g.RecordedUnder .inputless)
    (hns : ∀ n ∈ ns, g.Has .inputless n) (type : Scalar) :
    (∃ e, input ns type g = .error e g) ∨
      ∃ n g', input ns type g = .ok n g' ∧ g'.inputNodes = g.inputNodes ++ [n] := by
  rcases source_cases g "memory" (block .shape (ns.map g.label)) type with ⟨e, he⟩
    | ⟨-, op, -, -, hok⟩
  · have hrun : memory ns type g = .error e g := (bind_of_ok (shapeOf_eq g ns)).trans he
    exact .inl ⟨e, bind_of_error hrun⟩
  · have hrun : memory ns type g = .ok g.nodes.size
        (g.insert op type (block .shape (ns.map g.label))) :=
        (bind_of_ok (shapeOf_eq g ns)).trans hok
    obtain ⟨ht, hfresh⟩ := (keeps_memory h hns type).meets.of_ok hrun
    refine .inr ⟨g.nodes.size, _, (bind_of_ok hrun).trans rfl, ?_⟩
    rw [(h.traces ht).toRecorded.inputNodes_setRole size_nodes_insert (by rw [hfresh.2.2]; decide),
      ht.inputNodes_eq h]

/-! ### Steps -/

variable {s : Scene}

lemma Scene.RecordedUnder.inputless (h : s.RecordedUnder .sealed) :
    s.RecordedUnder .inputless :=
  ⟨⟨h.graph.toRecorded, fun _ _ _ => rfl⟩, fun q hq => ⟨(h.names q hq).1, rfl⟩⟩

lemma Scene.Grows.inputNodes_eq {s' : Scene} (h : s.Grows .inputless s')
    (hs : s.RecordedUnder .inputless) : s'.graph.inputNodes = s.graph.inputNodes :=
  (h hs).2.inputNodes_eq hs.graph

lemma Action.obeys_inputless {a : Action} (hp : a.obeys .sealed)
    (ha : ∀ type shape, a ≠ .input type shape) : a.obeys .inputless := by
  cases a with
  | input type shape => exact absurd rfl (ha type shape)
  | call f operands => cases f <;> exact hp
  | _ => exact hp

namespace Script

open Scene

variable {s s' : Scene} {n : NodeId} {e : Fault} {g : Graph} {l : List Step} {act : Script α}
  {a : α} {b : Build α}

lemma after_of_ok (h : act s = .ok a s') : after act s = s' := by
  rw [after, h]

lemma after_of_error (h : act s = .error e s') : after act s = s' := by
  rw [after, h]

lemma after_bind_of_ok {x : Script α} {k : α → Script β} (h : x s = .ok a s') :
    after (x >>= k) s = after (k a) s' := by
  rw [after, after, bind_of_ok h]

lemma rel_after {R : Scene → Scene → Prop} {P : α → Scene → Prop}
    (h : Keeps R act s P) : R s (after act s) := by
  cases hrun : act s with
  | ok a s' =>
    rw [after_of_ok hrun]
    exact (h.meets.of_ok hrun).1
  | error e s' =>
    rw [after_of_error hrun]
    exact h.meets.of_error hrun

lemma build_of_ok (h : b s.graph = .ok a g) :
    build b s = .ok a { s with graph := g } := by
  rw [build, h]

lemma build_of_error (h : b s.graph = .error e g) :
    build b s = .error e { s with graph := g } := by
  rw [build, h]

lemma perform_input_cases (h : s.RecordedUnder .inputless) (type : Scalar) (shape : Extent) :
    (∃ e s', perform (.input type shape) s = .error e s' ∧
        s'.graph.inputNodes = s.graph.inputNodes) ∨
      ∃ n s', perform (.input type shape) s = .ok (.one n) s' ∧
        s'.graph.inputNodes = s.graph.inputNodes ++ [n] := by
  cases shape with
  | sizes sizes =>
    have hkeeps := Build.keeps_inputSizes h.graph sizes
    cases hsizes : Build.inputSizes sizes s.graph with
    | error e g =>
      refine .inl ⟨e, _, bind_of_error (build_of_error (bind_of_error hsizes)), ?_⟩
      exact (hkeeps.meets.of_error hsizes).inputNodes_eq h.graph
    | ok ns g =>
      obtain ⟨ht, hns⟩ := hkeeps.meets.of_ok hsizes
      have heq := ht.inputNodes_eq h.graph
      rcases Build.input_cases (h.graph.traces ht) hns type with ⟨e, he⟩ | ⟨n, g', hok, hnew⟩
      · exact .inl ⟨e, _, bind_of_error (build_of_error ((bind_of_ok hsizes).trans he)), heq⟩
      · refine .inr
          ⟨n, _, (bind_of_ok (build_of_ok ((bind_of_ok hsizes).trans hok))).trans rfl, ?_⟩
        rw [← heq]
        exact hnew
  | tensors names =>
    have hkeeps := keeps_tensors h names
    cases htensors : tensors names s with
    | error e s' =>
      exact .inl ⟨e, s', bind_of_error htensors, (hkeeps.meets.of_error htensors).inputNodes_eq h⟩
    | ok ns s₁ =>
      obtain ⟨hs, hns⟩ := hkeeps.meets.of_ok htensors
      have heq := hs.inputNodes_eq h
      rcases Build.input_cases (hs h).1.graph (graph_has hns) type with ⟨e, he⟩ | ⟨n, g', hok, hnew⟩
      · refine .inl ⟨e, _, (bind_of_ok htensors).trans (bind_of_error (build_of_error he)), heq⟩
      · refine .inr ⟨n, _, (bind_of_ok htensors).trans
          ((bind_of_ok (build_of_ok hok)).trans rfl), ?_⟩
        rw [← heq]
        exact hnew

lemma settle_one_eq (name : Option String) (n : NodeId) (s : Scene) :
    ∃ a s', settle name (.one n) s = .ok a s' ∧ s'.graph = s.graph := by
  cases name with
  | none => exact ⟨_, _, rfl, rfl⟩
  | some x => exact ⟨_, _, rfl, rfl⟩

lemma exists_steps_cons_eq {rest : List Step} {as : List Answer} (st : Step) (s : Scene)
    (h : steps rest (after (step st) s) = .ok as s') : ∃ a, steps (st :: rest) s = .ok
    (a :: as) s' := by
  rw [steps]
  cases hrun : step st s with
  | ok a s₁ =>
    rw [after_of_ok hrun] at h
    have hans : answered (step st) s = .ok a s₁ := by rw [answered, hrun]
    exact ⟨a, (bind_of_ok hans).trans ((bind_of_ok h).trans rfl)⟩
  | error e s₁ =>
    rw [after_of_error hrun] at h
    have hans : answered (step st) s = .ok (.failed e) s₁ := by rw [answered, hrun]
    exact ⟨.failed e, (bind_of_ok hans).trans ((bind_of_ok h).trans rfl)⟩

lemma exists_steps_eq (l : List Step) (s : Scene) : ∃ as,
    steps l s = .ok as (after (steps l) s) := by
  suffices hok : ∃ as s', steps l s = .ok as s' by
    obtain ⟨as, s', hok⟩ := hok
    exact ⟨as, by rw [after_of_ok hok, hok]⟩
  induction l generalizing s with
  | nil => exact ⟨[], s, by rw [steps]; rfl⟩
  | cons st rest ih =>
    obtain ⟨as, s', hrest⟩ := ih (after (step st) s)
    obtain ⟨a, hok⟩ := exists_steps_cons_eq st s hrest
    exact ⟨_, s', hok⟩

lemma after_steps_cons (st : Step) (rest : List Step) (s : Scene) :
    after (steps (st :: rest)) s = after (steps rest) (after (step st) s) := by
  obtain ⟨as, hrest⟩ := exists_steps_eq rest (after (step st) s)
  obtain ⟨a, hok⟩ := exists_steps_cons_eq st s hrest
  exact after_of_ok hok

mutual

/-- The inputs a step declares come behind those before it. -/
lemma inputNodes_step : ∀ (st : Step) {s : Scene}, s.RecordedUnder .sealed → st.isRegular →
    st.obeys .sealed →
    (after (step st) s).graph.inputNodes = s.graph.inputNodes ++ st.inputs s
  | .act a name, s, h, ha, hp => by
    rw [isRegular] at ha
    rw [obeys] at hp
    by_cases hinput : ∃ type shape, a = .input type shape
    · obtain ⟨type, shape, rfl⟩ := hinput
      rw [step, inputs]
      rcases perform_input_cases h.inputless type shape with ⟨e, s', he, hsame⟩ | ⟨n, s', hok, hnew⟩
      · rw [after_of_error (bind_of_error he), he, hsame, append_nil]
      · obtain ⟨answer, s'', hsettle, hgraph⟩ := settle_one_eq name n s'
        rw [after_of_ok ((bind_of_ok hok).trans hsettle), hok, hgraph, hnew]
    · have hother : ∀ type shape, a ≠ .input type shape :=
        fun type shape heq => hinput ⟨type, shape, heq⟩
      have hnone : (act a name).inputs s = [] := by
        cases a with
        | input type shape => exact absurd rfl (hother type shape)
        | _ => rw [inputs]; simp
      have hkeeps := keeps_step (.act a name) h.inputless (by rwa [isRegular])
        (by rw [obeys]; exact Action.obeys_inputless hp hother)
      rw [hnone, append_nil]
      exact (rel_after hkeeps).inputNodes_eq h.inputless
  | .loop a b c name body, s, h, hbody, hp => by
    rw [isRegular] at hbody
    rw [obeys] at hp
    rw [step, inputs]
    have hopen := keeps_openLoop h a b c name
    have hopen' := keeps_openLoop h.inputless a b c name
    cases hrun : openLoop a b c name s with
    | error e s' =>
      rw [after_of_error (bind_of_error hrun), append_nil]
      exact (hopen'.meets.of_error hrun).inputNodes_eq h.inputless
    | ok q s₁ =>
      obtain ⟨var, first⟩ := q
      obtain ⟨hs₁, hvar⟩ := hopen.meets.of_ok hrun
      have heq := (hopen'.meets.of_ok hrun).1.inputNodes_eq h.inputless
      have ih := inputNodes_steps body hvar.1 hbody hp
      obtain ⟨answers, hsteps⟩ := exists_steps_eq body s₁
      obtain ⟨hs₂, -⟩ := (keeps_steps body hvar.1 hbody hp).meets.of_ok hsteps
      have hvar₂ := hvar.grows hs₂
      have hhas : Scene.Has .inputless (after (steps body) s₁) var :=
        ⟨hvar₂.1.inputless, hvar₂.2.1, rfl⟩
      have hclose := keeps_closeLoop hhas
      have hend : ∀ (answer : Answer), Scene.Grows .inputless (after (steps body) s₁)
          (after (do closeLoop var; return answer : Script Answer) (after (steps body) s₁)) :=
        fun answer => rel_after (P := fun _ _ => True) (Keeps.bind hclose fun _ _ _ _ =>
          ends_pure trivial)
      have hafter : after (openLoop a b c name >>= fun q => steps body >>= fun answers => do
          closeLoop q.1
          return Answer.body (q.2 :: answers)) s =
          after (do closeLoop var; return Answer.body (first :: answers))
            (after (steps body) s₁) :=
        (after_bind_of_ok hrun).trans (after_bind_of_ok hsteps)
      refine (congrArg (fun s' : Scene => s'.graph.inputNodes) hafter).trans ?_
      rw [(hend _).inputNodes_eq hhas.1, ih, heq]

lemma inputNodes_steps : ∀ (l : List Step) {s : Scene}, s.RecordedUnder .sealed →
    allRegular l → allObey .sealed l →
    (after (steps l) s).graph.inputNodes = s.graph.inputNodes ++ allInputs l s
  | [], s, _, _, _ => by
    rw [steps, allInputs, append_nil]
    rfl
  | st :: rest, s, h, hl, hp => by
    rw [allRegular, Bool.and_eq_true] at hl
    rw [allObey, Bool.and_eq_true] at hp
    have hs := (rel_after (keeps_step st h hl.1 hp.1) h).1
    rw [after_steps_cons, allInputs, inputNodes_steps rest hs hl.2 hp.2,
      inputNodes_step st h hl.1 hp.1, append_assoc]

end

variable (hl : allRegular l) (hp : allObey .sealed l)

include hl hp

/-- A script marks no outputs and gives a role to memory only. -/
lemma roles_scene (n : NodeId) : ((scene l).graph.node n).role ≠ .output ∧
      (((scene l).graph.node n).role ≠ .scratch → ((scene l).graph.node n).isMemory) := by
  have hstart : ∀ n, (opened.node n).role ≠ .output ∧
      ((opened.node n).role ≠ .scratch → (opened.node n).isMemory) := by
    intro n
    rw [node_eq_default (Nat.zero_le n)]
    exact ⟨by decide, fun h => absurd rfl h⟩
  refine ((history hl hp).2.of_changes (I := fun g => ∀ n, (g.node n).role ≠ .output ∧
    ((g.node n).role ≠ .scratch → (g.node n).isMemory)) recordedUnder_opened hstart
    fun g g' _ hr ih n => ?_).2 n
  cases hr with
  | @enter op type args _ =>
    exact forall_node_insert (P := fun _ x => x.role ≠ .output ∧ (x.role ≠ .scratch → x.isMemory))
      ⟨fun h => (by cases h), fun h => absurd rfl h⟩ (fun m _ => ih m) n
  | data m data =>
    rw [setData, node_modifyNode]
    split
    · exact ih n
    · exact ih n
  | @role m role slot _ hrole =>
    have hmarks : (role = .input ∨ role = .constant) ∧ (g.node m).isMemory := by
      simp only [Policy.marks, Policy.sealed, Bool.or_eq_true, Bool.and_eq_true] at hrole
      simp at hrole
      exact hrole.1
    rw [setRole, node_modifyNode]
    split
    · rename_i heq
      refine ⟨?_, fun _ => heq.1 ▸ hmarks.2⟩
      rcases hmarks.1 with rfl | rfl
      · exact fun h => by cases h
      · exact fun h => by cases h
    · exact ih n

lemma inputNodes_scene :
    (scene l).graph.inputNodes = allInputs l { graph := opened } := by
  have hstart : ({ graph := opened } : Scene).RecordedUnder .sealed :=
    ⟨recordedUnder_opened, by simp⟩
  obtain ⟨as, hsteps⟩ := exists_steps_eq l { graph := opened }
  rw [scene, hsteps]
  exact inputNodes_steps l hstart hl hp

end Script

end KernelFusion
