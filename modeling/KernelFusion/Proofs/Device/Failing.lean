/-
Runs that fail.

A run fails when its inputs are refused, before anything has happened, and when a kernel is called
that is missing or that fails itself. In the second case the memory kernels in front of that call
have allocated their tensors, and nothing frees them.
-/
import KernelFusion.Proofs.Device.Accounts

namespace KernelFusion

open Bindings

namespace Run

variable {g : Graph} {effect : Effect} {compiled : Bool} {callback : Callback}
  {bound bound' : Bindings} {m m' : Machine} {number : Nat} {kn : Kernel}
  {ks before after : List Kernel} {inputs : List Buffer} {e : Fault}

/-! ### Where a run fails -/

lemma numberAfter_cons_of_memory (hkind : kn.kind = .memory) :
    numberAfter number (kn :: ks) = numberAfter number ks := by
  simp [numberAfter, hkind]

lemma numberAfter_cons_of_compute (hkind : kn.kind = .compute) :
    numberAfter number (kn :: ks) = numberAfter (number + 1) ks := by
  simp [numberAfter, hkind, Nat.add_assoc, Nat.add_comm]

lemma kernelsWith_of_memory (hkind : kn.kind = .memory) :
    kernelsWith g callback bound number (kn :: ks) m =
      kernelsWith g callback (bound.withBuffer g kn.first (allocation g bound kn.first m).1)
      number ks
        { m with heap := (allocation g bound kn.first m).2 } := by
  rw [kernelsWith, hkind]
  exact bind_of_ok memoryKernel_eq

lemma computeKernelWith_eq : computeKernelWith g callback bound kn number m =
    (call callback (launch g bound kn number m) >>=
      fun _ => pure (bound.sizesOf g (kn.shape.map g.target)).2) m := by
  rw [launch, ← (sizesOf_spec g bound (kn.shape.map g.target)).1,
    ← offset_sizesOf g bound (kn.shape.map g.target)]
  rfl

lemma kernelsWith_of_call_ok {words : Words} (hkind : kn.kind = .compute)
    (hcall : callback (launch g bound kn number m) m.heap.words = .ok ⟨⟩ words) :
    kernelsWith g callback bound number (kn :: ks) m =
      kernelsWith g callback (bound.sizesOf g (kn.shape.map g.target)).2 (number + 1) ks
        { m.withWords words with launches := m.launches ++ [launch g bound kn number m] } := by
  rw [kernelsWith, hkind]
  refine bind_of_ok ?_
  rw [computeKernelWith_eq]
  refine bind_of_ok (a := ⟨⟩) ?_
  rw [call, hcall]

lemma kernelsWith_of_call_error {words : Words} (hkind : kn.kind = .compute)
    (hcall : callback (launch g bound kn number m) m.heap.words = .error e words) :
    kernelsWith g callback bound number (kn :: ks) m =
      .error e (m.withWords words) := by
  rw [kernelsWith, hkind]
  refine bind_of_error ?_
  rw [computeKernelWith_eq]
  refine bind_of_error ?_
  rw [call, hcall]

/-- The kernels in front of one run, and calling this one fails. -/
inductive Breaks (g : Graph) (callback : Callback) (bound : Bindings) (number : Nat) (m : Machine)
    (before : List Kernel) (kn : Kernel) : Fault → Machine → Prop
  | intro {bound' : Bindings} {m' : Machine} {words : Words} {e : Fault}
    (hbefore : kernelsWith g callback bound number before m = .ok bound' m')
    (hkind : kn.kind = .compute)
    (hcall : callback (launch g bound' kn (numberAfter number before) m') m'.heap.words =
      .error e words) :
    Breaks g callback bound number m before kn e (m'.withWords words)

/-- A failed run broke at one kernel; those before it finished. -/
lemma exists_breaks (h : kernelsWith g callback bound number ks m = .error e m') :
    ∃ before kn after, ks = before ++ kn :: after ∧
    Breaks g callback bound number m before kn e m' := by
  induction ks generalizing bound number m with
  | nil => cases h
  | cons kn ks ih =>
    cases hkind : kn.kind with
    | memory =>
      rw [kernelsWith_of_memory hkind] at h
      obtain ⟨before, kn', after, rfl, hbreaks⟩ := ih h
      refine ⟨kn :: before, kn', after, rfl, ?_⟩
      cases hbreaks with
      | intro hbefore hkind' hcall =>
        refine .intro ((kernelsWith_of_memory hkind).trans hbefore) hkind' ?_
        rwa [numberAfter_cons_of_memory hkind]
    | compute =>
      cases hcall : callback (launch g bound kn number m) m.heap.words with
      | error e' words =>
        rw [kernelsWith_of_call_error hkind hcall] at h
        obtain ⟨rfl, rfl⟩ := EStateM.Result.error.inj h
        exact ⟨[], kn, ks, rfl, .intro rfl hkind hcall⟩
      | ok _ words =>
        rw [kernelsWith_of_call_ok hkind hcall] at h
        obtain ⟨before, kn', after, rfl, hbreaks⟩ := ih h
        refine ⟨kn :: before, kn', after, rfl, ?_⟩
        cases hbreaks with
        | intro hbefore hkind' hcall' =>
          refine .intro ((kernelsWith_of_call_ok hkind hcall).trans hbefore) hkind' ?_
          rwa [numberAfter_cons_of_compute hkind]

/-! ### What is left in memory -/

/-- The number of memory kernels. -/
def allocations (ks : List Kernel) : Nat := ks.countP fun kn => kn.kind = .memory

/-- The heap gains the allocations of the memory kernels, newest first. -/
lemma live_of_kernelsWith_eq_ok (h : kernelsWith g callback bound number ks m = .ok bound' m') :
    m'.heap.live = (List.range' m.heap.next (allocations ks)).reverse ++ m.heap.live ∧
      (allocations ks = 0 → m'.heap.frames = m.heap.frames) := by
  induction ks generalizing bound number m with
  | nil =>
    cases h
    exact ⟨rfl, fun _ => rfl⟩
  | cons kn ks ih =>
    cases hkind : kn.kind with
    | memory =>
      rw [kernelsWith_of_memory hkind] at h
      have hcount : allocations (kn :: ks) = allocations ks + 1 := by simp [allocations, hkind]
      refine ⟨?_, fun hzero => by omega⟩
      have hlive : m'.heap.live = (List.range' (m.heap.next + 1) (allocations ks)).reverse ++
          (m.heap.next :: m.heap.live) := (ih h).1
      rw [hlive, hcount, List.range'_succ, List.reverse_cons, List.append_assoc]
      rfl
    | compute =>
      have hcount : allocations (kn :: ks) = allocations ks := by simp [allocations, hkind]
      rw [hcount]
      cases hcall : callback (launch g bound kn number m) m.heap.words with
      | error e words =>
        rw [kernelsWith_of_call_error hkind hcall] at h
        cases h
      | ok _ words =>
        rw [kernelsWith_of_call_ok hkind hcall] at h
        exact (ih h :)

end Run

/-- The same frames are registered, and the same tensors are live. -/
structure Heap.SameTensors (h h' : Heap) : Prop where
  frames : h'.frames = h.frames
  live : h'.live = h.live

namespace Run

lemma Breaks.live_eq (h : Breaks g callback bound number m before kn e m') :
    m'.heap.live = (List.range' m.heap.next (allocations before)).reverse ++ m.heap.live := by
  cases h with
  | intro hbefore _ _ => exact (live_of_kernelsWith_eq_ok hbefore).1

lemma Breaks.sameTensors_iff (h : Breaks g callback bound number m before kn e m') :
    m.heap.SameTensors m'.heap ↔ ∀ k ∈ before, k.kind ≠ .memory := by
  have hnone : (∀ k ∈ before, k.kind ≠ .memory) ↔ allocations before = 0 := by
    simp [allocations, List.countP_eq_zero]
  rw [hnone]
  constructor
  · intro hsame
    have hlength := congrArg List.length (h.live_eq.symm.trans hsame.live)
    simpa using hlength
  · intro hzero
    refine ⟨?_, by rw [h.live_eq, hzero]; rfl⟩
    cases h with
    | intro hbefore _ _ => exact (live_of_kernelsWith_eq_ok hbefore).2 hzero

lemma executeWith_eq_error (h : executeWith g ks callback inputs m = .error e m') :
    (ofInputs g inputs = .error e ∧ m' = m) ∨
      ∃ bound, ofInputs g inputs = .ok bound ∧
        kernelsWith g callback bound 0 ks m = .error e m' := by
  rw [executeWith] at h
  cases hbind : ofInputs g inputs with
  | error e' =>
    rw [hbind] at h
    obtain ⟨rfl, rfl⟩ := EStateM.Result.error.inj h
    exact .inl ⟨rfl, rfl⟩
  | ok bound =>
    refine .inr ⟨bound, rfl, ?_⟩
    rw [hbind] at h
    dsimp only at h
    cases hrun : kernelsWith g callback bound 0 ks m with
    | error e' m₁ =>
      rw [bind_of_error hrun] at h
      obtain ⟨rfl, rfl⟩ := EStateM.Result.error.inj h
      rfl
    | ok bound' m₁ =>
      -- behind the last kernel nothing fails
      rw [bind_of_ok hrun, bind_of_ok (forM_free _ m₁)] at h
      cases h

/-- A failed run has its inputs refused, and then nothing has changed; or the call of a kernel
fails, and then one tensor is left in memory for each memory kernel in front of it. In this case the
memory has the same tensors as before, if and only if there are no such kernels. -/
theorem tensors_of_executeWith_eq_error (h : executeWith g ks callback inputs m = .error e m') :
    (Bindings.ofInputs g inputs = .error e ∧ m' = m) ∨
      ∃ bound before kn after, Bindings.ofInputs g inputs = .ok bound ∧ ks = before ++ kn :: after ∧
        Breaks g callback bound 0 m before kn e m' ∧
        m'.heap.live = (List.range' m.heap.next (allocations before)).reverse ++ m.heap.live ∧
        (m.heap.SameTensors m'.heap ↔ ∀ k ∈ before, k.kind ≠ .memory) := by
  rcases executeWith_eq_error h with hrefused | ⟨bound, hbound, hrun⟩
  · exact .inl hrefused
  · obtain ⟨before, kn, after, hks, hbreaks⟩ := exists_breaks hrun
    exact .inr ⟨bound, before, kn, after, hbound, hks, hbreaks, hbreaks.live_eq,
      hbreaks.sameTensors_iff⟩

/-- Kernels that change words and fail then. -/
def halting : Callback := fun launch => do
  modify (traceEffect launch)
  throw .memoryForeign

/-- The tensors that a failed run leaves in memory. -/
def leftBehind : EStateM.Result Fault Machine (List Buffer) → Option (List Nat)
  | .ok _ _ => none
  | .error _ m => some m.heap.live

lemma sineOfInput_fails (compiled : Bool) : ∃ ks f e m',
    executeWith f ks (if compiled then halting else Callback.ofEffect traceEffect false) [fourWords]
      (crowded []) = .error e m' ∧ m'.heap.live = [1, 0] := by
  have hend : seen (fun ks f => leftBehind (executeWith f ks
      (if compiled then halting else Callback.ofEffect traceEffect false) [fourWords] (crowded [])))
      (Build.transform [2] (Script.scene sineOfInput).graph) = some [1, 0] := by
    cases compiled <;> decide +kernel
  obtain ⟨ks, f, -, hend⟩ := exists_of_seen hend
  cases hrun : executeWith f ks (if compiled then halting else Callback.ofEffect traceEffect false)
      [fourWords] (crowded []) with
  | ok outs m' =>
    rw [hrun] at hend
    cases hend
  | error e m' =>
    rw [hrun] at hend
    exact ⟨ks, f, e, m', hrun, Option.some.inj hend⟩

/-- When the kernel of the sine fails, its two memory kernels have run. -/
theorem tensors_of_halting_sine : ∃ ks f e m', executeWith f ks halting [fourWords]
    (crowded []) = .error e m' ∧
    ∃ before kn after, ks = before ++ kn :: after ∧ kn.kind = .compute ∧
    allocations before = 2 := by
  obtain ⟨ks, f, e, m', hrun, hlive⟩ := sineOfInput_fails true
  refine ⟨ks, f, e, m', hrun, ?_⟩
  rcases tensors_of_executeWith_eq_error hrun with ⟨-, rfl⟩ | ⟨_, before, kn, after, -, hks,
    hbreaks, hleft, -⟩
  · cases hlive
  · have hcount := congrArg List.length (hlive.symm.trans hleft)
    refine ⟨before, kn, after, hks, ?_, by simpa [crowded] using hcount.symm⟩
    cases hbreaks with
    | intro _ hkind _ => exact hkind

/-- A run whose kernels have not been compiled leaves tensors behind. -/
theorem not_forall_execute_error_sameTensors :
    ¬ ∀ (g : Graph) (ks : List Kernel) (effect : Effect) (compiled : Bool) (inputs : List Buffer)
      (m m' : Machine) (e : Fault), execute g ks effect compiled inputs m = .error e m' →
      m.heap.SameTensors m'.heap := by
  intro hall
  obtain ⟨ks, f, e, m', hrun, hlive⟩ := sineOfInput_fails false
  have hsame := (hall f ks traceEffect false [fourWords] (crowded []) m' e hrun).live
  rw [hlive] at hsame
  cases hsame

end Run

end KernelFusion
