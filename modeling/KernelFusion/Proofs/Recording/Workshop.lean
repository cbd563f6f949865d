/-
Which graph is open when a program has been made.

The graph is closed once the kernels are known. If the recording function fails, or a pass, or the
search for kernels, then the graph of the failed program stays open although the program is
destroyed.
-/
import KernelFusion.Proofs.Pass.Steady

namespace KernelFusion

/-- The state that an action leaves behind, however it ends. -/
def leaves {σ α : Type} (act : EStateM Fault σ α) (s : σ) : σ :=
  match act s with
  | .ok _ s' => s'
  | .error _ s' => s'

variable {σ α : Type} {act : EStateM Fault σ α} {s s' : σ}

lemma leaves_of_ok {a : α} (h : act s = .ok a s') :
    leaves act s = s' := by rw [leaves, h]

lemma leaves_of_error {e : Fault} (h : act s = .error e s') : leaves act s = s' := by rw [leaves, h]

namespace Workshop

variable {s : Workshop} {k : Nat} {g : Graph}

lemma active_absorb (h : (s.graph k).SameContext g) : (s.absorb k g).active = s.active := by
  have hrecording : g.recording = decide (s.active = some k) := h
  rw [absorb, hrecording]
  by_cases hactive : s.active = some k <;> simp [hactive]

lemma graph_absorb (hk : k < s.programs.length) (hactive : s.active = some k) :
    (s.absorb k g).graph k = g := by
  obtain ⟨arena, sequence, recording⟩ := g
  cases recording <;> simp [graph, program, absorb, hk, hactive]

lemma absorb_absorb (hactive : s.active = some k) (g g' : Graph) :
    (s.absorb k g).absorb k g' = s.absorb k g' := by
  cases hrecording : g.recording <;> simp [absorb, hactive, hrecording]

end Workshop

namespace Making

variable {α : Type} {s t : Workshop} {b : Build α} {k : Nat} {a : α} {e : Fault} {g : Graph}

lemma onGraph_of_ok (h : b (s.graph k) = .ok a g) : onGraph k b s = .ok a (s.absorb k g) := by
  rw [onGraph, h]

lemma onGraph_of_error (h : b (s.graph k) = .error e g) : onGraph k b s = .error e
    (s.absorb k g) := by
  rw [onGraph, h]

lemma record_eq (callback : Making (List NodeId)) (s : Workshop) :
    record callback s = (callback >>= fun outputs => do
      let ks ← onGraph s.programs.length (Build.transform outputs)
      close
      return (s.programs.length, ks)) s.opened := rfl

lemma record_tensor_eq (b : Build (List NodeId)) (s : Workshop) :
    record (tensor b) s =
      match (b >>= Build.transform) (s.opened.graph s.programs.length) with
      | .ok ks g =>
        .ok (s.programs.length, ks) { s.opened.absorb s.programs.length g with active := none }
      | .error e g => .error e (s.opened.absorb s.programs.length g) := by
  have hlt : s.programs.length < s.opened.programs.length := by simp [Workshop.opened]
  cases hb : b (s.opened.graph s.programs.length) with
  | error e g =>
    rw [bind_of_error hb]
    exact (record_eq (tensor b) s).trans (bind_of_error (onGraph_of_error hb))
  | ok outputs g =>
    have hrest := (record_eq (tensor b) s).trans (bind_of_ok (onGraph_of_ok hb))
    have hgraph : (s.opened.absorb s.programs.length g).graph s.programs.length = g :=
      Workshop.graph_absorb hlt rfl
    rw [bind_of_ok hb]
    cases hpasses : Build.transform outputs g with
    | error e g' =>
      refine hrest.trans ((bind_of_error (onGraph_of_error (hgraph.symm ▸ hpasses))).trans ?_)
      rw [Workshop.absorb_absorb rfl]
    | ok ks g' =>
      refine hrest.trans ((bind_of_ok (onGraph_of_ok (hgraph.symm ▸ hpasses))).trans ?_)
      rw [Workshop.absorb_absorb rfl]
      rfl

/-! ### What is open afterwards -/

lemma active_record (callback : Making (List NodeId)) (s : Workshop) :
    Meets (record callback) s (fun _ t => t.active = none)
      fun t => t.active = (leaves callback s.opened).active := by
  cases hcall : callback s.opened with
  | error e t =>
    refine meets_of_error ((record_eq callback s).trans (bind_of_error hcall)) ?_
    rw [leaves_of_error hcall]
  | ok outputs t =>
    rw [leaves_of_ok hcall]
    have hrest := (record_eq callback s).trans (bind_of_ok hcall)
    cases hpasses : Build.transform outputs (t.graph s.programs.length) with
    | ok ks g => exact meets_of_ok (hrest.trans (bind_of_ok (onGraph_of_ok hpasses))) rfl
    | error e g =>
      refine meets_of_error (hrest.trans (bind_of_error (onGraph_of_error hpasses))) ?_
      exact Workshop.active_absorb ((Build.closes_transform outputs _).of_error hpasses)

/-- Compiling opens and closes nothing, and a program is destroyed where it cannot be made. -/
lemma active_leaves_create (host : Host) (options : String) (callback : Making (List NodeId))
    (s : Workshop) :
    (leaves (create host options callback) s).active = (leaves (record callback) s).active ∧
      ((∀ made t, record callback s ≠ .ok made t) →
        s.programs.length ∈ (leaves (create host options callback) s).destroyed) := by
  cases hrecord : record callback s with
  | error e t =>
    have hcreate : create host options callback s =
        .error e { t with destroyed := s.programs.length :: t.destroyed } := by
      rw [create, bind_of_error hrecord]
    rw [leaves_of_error hcreate, leaves_of_error hrecord]
    exact ⟨rfl, fun _ => List.mem_cons_self⟩
  | ok made t =>
    rw [leaves_of_ok hrecord, leaves, create, bind_of_ok hrecord, load]
    refine ⟨?_, fun h => absurd rfl (h made t)⟩
    cases compile host options ((t.graph made.1).sourceOf made.2) t.log <;> rfl

/-! ### Tensors outside of programs -/

lemma tensor_record_of_none (h : t.active = none) (op : Operation) (type : Scalar)
    (args : List Argument) :
    tensor (Build.record op type args) t = .error .notRecording t := by
  obtain ⟨arena, programs, active⟩ := t
  obtain rfl : active = none := h
  rfl

lemma tensor_record_of_some (h : t.active = some k) (hk : k < t.programs.length) (op : Operation)
    (type : Scalar) (args : List Argument) :
    ∃ t', tensor (Build.record op type args) t = .ok t.arena.nodes.size t' ∧
      (t'.program k).created = (t.program k).created ++ [t.arena.nodes.size] ∧
      ∀ j, j ≠ k → t'.program j = t.program j := by
  have hrecording : (t.graph k).recording := decide_eq_true h
  refine ⟨t.absorb k ((t.graph k).insert op type args), ?_, ?_, fun j hj => ?_⟩
  · rw [tensor, h]
    dsimp only
    rw [onGraph, Build.record_eq hrecording]
    rfl
  · have hprogram : ((t.absorb k ((t.graph k).insert op type args)).program k) =
        ((t.graph k).insert op type args).toSequence := by
      simp [Workshop.program, Workshop.absorb, hk]
    rw [hprogram]
    rfl
  · simp [Workshop.program, Workshop.absorb, List.getD_eq_getElem?_getD, hj.symm]

lemma active_create_tensor {b : Build (List NodeId)} (hb : Steady b) (host : Host)
    (options : String) (s : Workshop) : (leaves (create host options (tensor b)) s).active =
      match (b >>= Build.transform) (s.opened.graph s.programs.length) with
      | .ok _ _ => none
      | .error _ _ => some s.programs.length := by
  rw [(active_leaves_create host options (tensor b) s).1]
  have hrecord := record_tensor_eq b s
  cases hrun : (b >>= Build.transform) (s.opened.graph s.programs.length) with
  | ok ks g =>
    rw [hrun] at hrecord
    rw [leaves_of_ok hrecord]
  | error e g =>
    rw [hrun] at hrecord
    rw [leaves_of_error hrecord]
    exact Workshop.active_absorb ((Build.closes_bind hb Build.closes_transform _).of_error hrun)

/-- After the making of a program no graph is open, if and only if its kernels were found or the
function that records it left none open. If it only records tensors, the graph that is open
otherwise is that of the new program. Where one is open, the new program has been destroyed. As long
as none is open, recording a tensor fails for this reason and changes nothing; while that of a
program is open that has not been destroyed, every tensor becomes a node of it. -/
theorem active_create_iff (host : Host) (options : String) (callback : Making (List NodeId))
    (s : Workshop) :
    let t := leaves (create host options callback) s
    (t.active = none ↔ (∃ made t', record callback s = .ok made t') ∨
      (leaves callback s.opened).active = none) ∧
    (∀ b, Steady b → callback = tensor b →
      t.active = match (b >>= Build.transform) (s.opened.graph s.programs.length) with
        | .ok _ _ => none
        | .error _ _ => some s.programs.length) ∧
    (t.active ≠ none → s.programs.length ∈ t.destroyed) ∧
    (t.active = none → ∀ op type args, ∃ e, tensor (Build.record op type args) t = .error e t ∧
      e.message =
      "Evaluation context has not been set. Are you doing operations outside a TensorProgram?") ∧
    ∀ k < t.programs.length, k ∉ t.destroyed → t.active = some k → ∀ op type args,
      ∃ n t', tensor (Build.record op type args) t = .ok n t' ∧
        (t'.program k).created = (t.program k).created ++ [n] ∧ ∀ j, j ≠ k →
        t'.program j = t.program j := by
  intro t
  obtain ⟨hactive, hdestroyed⟩ := active_leaves_create host options callback s
  refine ⟨?_, ?_, fun hopen => hdestroyed fun made t' hrecord => hopen ?_,
    fun hnone op type args => ?_, fun k hk _ hsome op type args => ?_⟩
  · rw [hactive]
    cases hrecord : record callback s with
    | ok made t' =>
      rw [leaves_of_ok hrecord]
      exact iff_of_true ((active_record callback s).of_ok hrecord) (.inl ⟨made, t', rfl⟩)
    | error e t' =>
      rw [leaves_of_error hrecord, (active_record callback s).of_error hrecord]
      simp
  · rintro b hb rfl
    exact active_create_tensor hb host options s
  · exact hactive.trans (leaves_of_ok hrecord ▸ (active_record callback s).of_ok hrecord)
  · exact ⟨.notRecording, tensor_record_of_none hnone op type args, rfl⟩
  · exact ⟨_, tensor_record_of_some hsome hk op type args⟩

/-- A function that uses an operation that does not exist. -/
def unknownOperation : Build (List NodeId) := do
  let x ← Build.constant .float 0
  return [← Build.apply "nosuch" [x]]

/-- The program cannot be made and is destroyed, but its graph stays open. -/
theorem active_create_unknown : ∃ t, leaves (create default "" (tensor unknownOperation)) {} = t ∧
    t.active = some 0 ∧ 0 ∈ t.destroyed := by
  have hsteady : Steady unknownOperation :=
    (Build.steady_sourceWith _ _ _ _).bind fun x => (Build.steady_apply _ _).bind fun _ =>
      Build.steady_pure _
  obtain ⟨-, hactive, hdestroyed, -⟩ := active_create_iff default "" (tensor unknownOperation) {}
  have hopen : (leaves (create default "" (tensor unknownOperation)) {}).active = some 0 :=
    (hactive unknownOperation hsteady rfl).trans (by decide +kernel)
  refine ⟨_, rfl, hopen, hdestroyed ?_⟩
  rw [hopen]
  exact Option.some_ne_none 0

/-- Where the making of a program fails, its graph stays open. -/
theorem not_forall_create_active_eq_none :
    ¬ ∀ (host : Host) (options : String) (callback : Making (List NodeId)) (s : Workshop),
      (leaves (create host options callback) s).active = none := by
  intro hall
  have hopen : (leaves (create default "" (tensor unknownOperation)) {}).active = some 0 :=
    by decide +kernel
  rw [hall] at hopen
  cases hopen

end Making

end KernelFusion
