/-
Accepted inputs and declared shapes.

Binding compares constant sizes only. All other sizes take what the inputs have at their place, and
where several inputs declare one size, the last one decides.
-/
import KernelFusion.Proofs.Device.Running
import KernelFusion.Proofs.Recording.Scripts

namespace KernelFusion

open List

variable {g : Graph} {inputs : List Buffer} {bound : Bindings} {value : NodeId → Int}

/-- Under the given values of sizes, constants have their own value. -/
def Graph.KeepsConstants (g : Graph) (value : NodeId → Int) : Prop :=
  ∀ n, (g.node n).isConst → value n = signed (g.node n).word

/-- Under the given values of sizes, every declared shape is the shape that is handed in. -/
def Graph.Describes (g : Graph) (value : NodeId → Int) (inputs : List Buffer) : Prop :=
  ∀ q ∈ g.inputNodes.zip inputs, (g.declared q.1).map value = q.2.shape

/-- Every declared shape has the rank of the shape that is handed in. -/
def Graph.RanksAgree (g : Graph) (inputs : List Buffer) : Prop :=
  ∀ q ∈ g.inputNodes.zip inputs, (g.declared q.1).length = q.2.shape.length

/-- Wherever a size that is no constant is declared, the inputs have the same size. -/
def Graph.SharedSizesAgree (g : Graph) (inputs : List Buffer) : Prop :=
  ∀ q ∈ g.inputNodes.zip inputs, ∀ r ∈ g.inputNodes.zip inputs, ∀ (i j : Nat) (n : NodeId),
    (g.declared q.1)[i]? = some n → (g.declared r.1)[j]? = some n → (g.node n).isConst = false →
    q.2.shape[i]? = r.2.shape[j]?

namespace Bindings

/-- In every run, memory is allocated and kernels are launched with the given values of sizes. -/
def RunsWith (bound : Bindings) (g : Graph) (value : NodeId → Int) : Prop :=
  ∀ (effect : Effect) (compiled : Bool) (before : List Kernel) (kn : Kernel) (after : List Kernel)
    (m : Machine) (bound' : Bindings) (m' : Machine),
    Run.kernels g effect compiled bound 0 (before ++ kn :: after) m = .ok bound' m' →
    ∃ bound₁ m₁ bound₂ m₂, Run.kernels g effect compiled bound 0 before m = .ok bound₁ m₁ ∧
      Run.kernels g effect compiled bound 0 (before ++ [kn]) m = .ok bound₂ m₂ ∧
      (kn.kind = .memory → m₂.heap = (m₁.heap.allocate ((g.dimensions kn.first).map value)).2) ∧
      (kn.kind = .compute → ∃ launch, m₂.launches = m₁.launches ++ [launch] ∧
        launch.shape = Run.launchShape kn.mode ((kn.shape.map g.target).map value))

lemma runsWith_value (bound : Bindings) (g : Graph) : bound.RunsWith g (bound.value g) := by
  intro effect compiled before kn after m bound' m' hrun
  obtain ⟨bound₁, m₁, bound₂, m₂, hbefore, hstep, hnext⟩ := Run.steps_of_kernels_eq_ok hrun
  have hvalue : bound₁.value g = bound.value g := funext (Run.value_of_kernels_eq_ok hbefore)
  refine ⟨bound₁, m₁, bound₂, m₂, hbefore, hnext, fun hkind => ?_, fun hkind => ?_⟩
  · cases hstep with
    | memory _ => rw [Run.allocation, hvalue]
    | compute hkind' =>
      rw [hkind] at hkind'
      cases hkind'
  · cases hstep with
    | memory hkind' =>
      rw [hkind] at hkind'
      cases hkind'
    | compute _ => exact ⟨_, rfl, by rw [Run.launch, hvalue]⟩

/-- Inputs that agree on their shared sizes are described by what is bound. -/
lemma describes_value (h : ofInputs g inputs = .ok bound) (hranks : g.RanksAgree inputs)
    (hshared : g.SharedSizesAgree inputs) : g.Describes (bound.value g) inputs := by
  intro q hq
  refine ext_getElem? fun i => ?_
  rw [getElem?_map]
  have hlen := hranks q hq
  cases hi : (g.declared q.1)[i]? with
  | none =>
    rw [List.getElem?_eq_none_iff, hlen] at hi
    rw [getElem?_eq_none hi, Option.map_none]
  | some n =>
    have hlt : i < q.2.shape.length := hlen ▸ (List.getElem?_eq_some_iff.1 hi).1
    have hself : q.2.shape[i]? = some (q.2.shape.getD i 0) := by
      rw [getD_eq_getElem?_getD, getElem?_eq_getElem hlt, Option.getD_some]
    rw [hself, Option.map_some]
    congr 1
    cases hconst : (g.node n).isConst with
    | true =>
      -- constants have been compared
      obtain ⟨-, haccepts, -⟩ := ofInputs_eq_ok_iff.1 h
      rw [value_of_isConst hconst]
      exact haccepts (n, _) (mem_flatMap.2 ⟨q, hq, mem_sizesOfInput.2 ⟨i, hi, rfl⟩⟩) hconst
    | false =>
      obtain ⟨r, hr, j, hj, hvalue⟩ := exists_of_value h hconst hq (mem_of_getElem? hi)
      have hagree := hshared q hq r hr i j n hi hj hconst
      rw [hvalue, getD_eq_getElem?_getD, ← hagree, hself, Option.getD_some]

/-- For every program and every list of inputs that it accepts: there are values of sizes, with
constants having their own, under which every declared shape is the shape of the input, and with
which all kernels run, if and only if all inputs have the declared ranks and agree about the sizes
that they share. -/
theorem accepted_inputs_match_iff (h : ofInputs g inputs = .ok bound) :
    (∃ value, g.KeepsConstants value ∧ g.Describes value inputs ∧ bound.RunsWith g value) ↔
      g.RanksAgree inputs ∧ g.SharedSizesAgree inputs := by
  constructor
  · rintro ⟨value, -, hdescribes, -⟩
    constructor
    · intro q hq
      rw [← hdescribes q hq, length_map]
    · intro q hq r hr i j n hi hj _
      rw [← hdescribes q hq, ← hdescribes r hr, getElem?_map, getElem?_map, hi, hj]
  · rintro ⟨hranks, hshared⟩
    exact ⟨bound.value g, fun n hn => value_of_isConst hn, describes_value h hranks hshared,
      bound.runsWith_value g⟩

/-- Two tensors of one size, which the first one declares, are added. -/
def tiedSum : List Step :=
  [ .act (.input .float (.sizes [-1])) (some "A"),
    .act (.shape "A") (some "s"),
    .act (.input .float (.tensors ["s.0"])) (some "B"),
    .act (.call (.folding .add) ["A", "B"]) (some "y") ]

theorem accepted_tiedSum_inputs_match : ∃ ks f bound,
    Build.transform [4] (Script.scene tiedSum).graph = .ok ks f ∧
      ofInputs f [⟨0, [4], ⟨0, 4, 4⟩⟩, ⟨1, [4], ⟨4, 4, 8⟩⟩] = .ok bound ∧
      ∃ value, f.KeepsConstants value ∧
        f.Describes value [⟨0, [4], ⟨0, 4, 4⟩⟩, ⟨1, [4], ⟨4, 4, 8⟩⟩] ∧ bound.RunsWith f value := by
  -- both inputs declare one size and have the same one
  obtain ⟨ks, f, hrun, ⟨bound, hbound, -⟩, hshape⟩ : ∃ ks f,
      Build.transform [4] (Script.scene tiedSum).graph = .ok ks f ∧
      (∃ bound, ofInputs f [⟨0, [4], ⟨0, 4, 4⟩⟩, ⟨1, [4], ⟨4, 4, 8⟩⟩] = .ok bound ∧ True) ∧
      ∀ q ∈ f.inputNodes.zip [(⟨0, [4], ⟨0, 4, 4⟩⟩ : Buffer), ⟨1, [4], ⟨4, 4, 8⟩⟩],
        f.declared q.1 = [0] ∧ q.2.shape = [4] := by decide +kernel
  refine ⟨ks, f, bound, hrun, hbound, (accepted_inputs_match_iff hbound).2 ⟨fun q hq => ?_, ?_⟩⟩
  · rw [(hshape q hq).1, (hshape q hq).2]
    rfl
  · intro q hq r hr i j n hi hj _
    rw [(hshape q hq).1, getElem?_singleton, Option.ite_none_right_eq_some] at hi
    rw [(hshape r hr).1, getElem?_singleton, Option.ite_none_right_eq_some] at hj
    rw [(hshape q hq).2, (hshape r hr).2, hi.1, hj.1]

/-- Accepted inputs do not always match: two tensors that share their size are accepted with
different ones. -/
theorem not_forall_accepted_inputs_match :
    ¬ ∀ (l : List Step) (outputs : List NodeId) (ks : List Kernel) (f : Graph)
    (inputs : List Buffer)
      (bound : Bindings), Build.transform outputs (Script.scene l).graph = .ok ks f →
      ofInputs f inputs = .ok bound →
      ∃ value, f.KeepsConstants value ∧ f.Describes value inputs ∧ bound.RunsWith f value := by
  intro hall
  obtain ⟨ks, f, hrun, ⟨bound, hbound, -⟩, hinputs, hA, hB⟩ : ∃ ks f,
      Build.transform [4] (Script.scene tiedSum).graph = .ok ks f ∧
      (∃ bound, ofInputs f [⟨0, [4], ⟨0, 4, 4⟩⟩, ⟨1, [7], ⟨4, 7, 11⟩⟩] = .ok bound ∧ True) ∧
      f.inputNodes = [1, 3] ∧ f.declared 1 = [0] ∧ f.declared 3 = [0] := by decide +kernel
  obtain ⟨value, -, hdescribes, -⟩ := hall tiedSum [4] ks f _ bound hrun hbound
  rw [Graph.Describes, hinputs] at hdescribes
  have hfirst := hdescribes (1, ⟨0, [4], ⟨0, 4, 4⟩⟩) (by simp)
  have hsecond := hdescribes (3, ⟨1, [7], ⟨4, 7, 11⟩⟩) (by simp)
  rw [hA] at hfirst
  rw [hB] at hsecond
  have hfour : value 0 = 4 := by simpa using hfirst
  have hseven : value 0 = 7 := by simpa using hsecond
  omega

end Bindings

end KernelFusion
