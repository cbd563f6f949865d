/-
Arguments that lose their sources.

A node that supports the outputs keeps everything it takes. Memory stays as well, and what accesses
memory that is needed, such as a store; but what these nodes take is looked at by no sweep.
-/
import KernelFusion.Proofs.Pass.Prune

namespace KernelFusion.Graph

open Relation (ReflTransGen)

variable {g : Graph} {n m : NodeId}

lemma mem_order_prune (hl : g.Lists g.order) (ho : g.Ordered g.order)
    (hlast : g.last = g.order.getLast?) :
    n ∈ g.prune.order ↔ n ∈ g.order ∧ ((g.node n).isMemory ∨ g.IsNeeded n) := by
  rw [(prune_spec hl).1.order, List.mem_filter]
  exact and_congr_right fun hn => isLeft_iff hl ho hlast hn

lemma isNeeded_of_output (hn : n ∈ g.order) (hrole : (g.node n).role = .output) : g.IsNeeded n := by
  have hanchored : g.Anchored n := ⟨n, hn, hrole, .refl⟩
  have hsupports : g.Supports n := ⟨n, hn, hanchored, .refl⟩
  exact hsupports.isNeeded

/-- For every program whose arguments come from earlier nodes: memory and the needed nodes are left,
among them all outputs; and every argument that is left has its source left, if and only if this
holds of the nodes that are left and do not support the outputs. -/
theorem prune_keeps_sources_iff (hl : g.Lists g.order) (ho : g.Ordered g.order)
    (hlast : g.last = g.order.getLast?) :
    (∀ n, n ∈ g.prune.order ↔ n ∈ g.order ∧ ((g.node n).isMemory = true ∨ g.IsNeeded n)) ∧
      (∀ n ∈ g.order, (g.node n).role = .output → n ∈ g.prune.order) ∧
      ((∀ n ∈ g.prune.order, ∀ a ∈ (g.prune.node n).args, g.prune.source a ∈ g.prune.order) ↔
        ∀ n ∈ g.order, (g.node n).isMemory = true ∨ g.IsNeeded n → ¬ g.Supports n →
          ∀ a ∈ (g.node n).args, (g.node (g.source a)).isMemory = true ∨
          g.IsNeeded (g.source a)) := by
  have hmem : ∀ n, n ∈ g.prune.order ↔
      n ∈ g.order ∧ ((g.node n).isMemory = true ∨ g.IsNeeded n) := fun n =>
    mem_order_prune hl ho hlast
  have hthin := (prune_spec hl).2.1
  have hsource : ∀ a, g.prune.source a = g.source a := by
    intro a
    rw [source, source, target, target, hthin.labels]
  refine ⟨hmem, fun n hn hrole => (hmem n).2 ⟨hn, .inr (isNeeded_of_output hn hrole)⟩, ?_, ?_⟩
  · intro hkept n hn hleft _ a ha
    have hsource_mem := hkept n ((hmem n).2 ⟨hn, hleft⟩) a (by rwa [hthin.node_eq])
    rw [hsource] at hsource_mem
    exact ((hmem _).1 hsource_mem).2
  · intro hkept n hn a ha
    rw [hthin.node_eq] at ha
    obtain ⟨hnl, hleft⟩ := (hmem n).1 hn
    rw [hsource, hmem]
    refine ⟨(ho n hnl a ha).left_mem, ?_⟩
    by_cases hsupports : g.Supports n
    · exact .inr (hsupports.takes ⟨a, ha, rfl⟩).isNeeded
    · exact hkept n hnl hleft hsupports a ha

/-- A program that stores a constant to a memory and loads the memory. -/
def overwritten : List Step :=
  [ .act (.input .float (.sizes [4])) (some "A"),
    .act (.constant .float 0x3f800000 (.sizes [])) (some "c"),
    .act (.store "A" "c" []) none,
    .act (.load "A" []) (some "r") ]

/-- Its output is what it loads. -/
def overwrittenGraph : Graph := (Script.scene overwritten).graph.setRole 4 .output 0

lemma recorded_overwrittenGraph : overwrittenGraph.Recorded :=
  (Script.recorded (l := overwritten) (by decide +kernel)).graph.modifyNode (fun _ => rfl)
    (fun _ => rfl) (fun _ => rfl) (fun _ => rfl) fun _ => rfl

theorem prune_keeps_sources_of_overwritten_iff :
    overwrittenGraph.Lists overwrittenGraph.order ∧
    overwrittenGraph.Ordered overwrittenGraph.order ∧
      overwrittenGraph.last = overwrittenGraph.order.getLast? ∧
      (∀ n, n ∈ overwrittenGraph.prune.order ↔ n ∈ overwrittenGraph.order ∧
        ((overwrittenGraph.node n).isMemory = true ∨ overwrittenGraph.IsNeeded n)) ∧
      (∀ n ∈ overwrittenGraph.order, (overwrittenGraph.node n).role = .output →
        n ∈ overwrittenGraph.prune.order) ∧
      ((∀ n ∈ overwrittenGraph.prune.order, ∀ a ∈ (overwrittenGraph.prune.node n).args,
          overwrittenGraph.prune.source a ∈ overwrittenGraph.prune.order) ↔
        ∀ n ∈ overwrittenGraph.order,
          (overwrittenGraph.node n).isMemory = true ∨ overwrittenGraph.IsNeeded n →
          ¬ overwrittenGraph.Supports n → ∀ a ∈ (overwrittenGraph.node n).args,
          (overwrittenGraph.node (overwrittenGraph.source a)).isMemory = true ∨
            overwrittenGraph.IsNeeded (overwrittenGraph.source a)) := by
  have hrecorded := recorded_overwrittenGraph
  have horder := hrecorded.order
  have hl : overwrittenGraph.Lists overwrittenGraph.order := horder ▸ hrecorded.lists
  have ho : overwrittenGraph.Ordered overwrittenGraph.order := horder ▸ hrecorded.ordered
  have hlast : overwrittenGraph.last = overwrittenGraph.order.getLast? := horder ▸ hrecorded.last
  exact ⟨hl, ho, hlast, prune_keeps_sources_iff hl ho hlast⟩

/-- Not every argument that is left has its source left: here the store loses the constant. -/
theorem not_forall_prune_keeps_sources :
    ¬ ∀ g : Graph, g.Lists g.order → g.Ordered g.order → g.last = g.order.getLast? →
      ∀ n ∈ g.prune.order, ∀ a ∈ (g.prune.node n).args, g.prune.source a ∈ g.prune.order := by
  intro hall
  have hrecorded := recorded_overwrittenGraph
  have horder := hrecorded.order
  have hkept := hall overwrittenGraph (horder ▸ hrecorded.lists) (horder ▸ hrecorded.ordered)
    (horder ▸ hrecorded.last) 3 (by decide +kernel) ⟨.input, 0, 2⟩ (by decide +kernel)
  exact absurd hkept (by decide +kernel)

/-! ### Programs without accesses -/

/-- Some output of the program takes the node, directly or not, or the node is an output. -/
def ReachesOutput (g : Graph) (n : NodeId) : Prop :=
  ∃ o ∈ g.order, (g.node o).role = .output ∧ ReflTransGen g.Takes o n

section WithoutAccesses

variable (hfree : ∀ n ∈ g.order, ∀ a ∈ (g.node n).args, a.kind ≠ .memory)

include hfree

lemma eq_of_reflTransGen_accesses (hn : n ∈ g.order) (h : ReflTransGen g.Accesses n m) : m = n := by
  rcases h.cases_head with rfl | ⟨v, ⟨a, ha, hkind, -⟩, -⟩
  · rfl
  · exact absurd hkind (hfree n hn a ha)

lemma anchored_iff (hn : n ∈ g.order) : g.Anchored n ↔ (g.node n).role = .output := by
  constructor
  · rintro ⟨o, -, hrole, hpath⟩
    rwa [← eq_of_reflTransGen_accesses hfree hn hpath]
  · exact fun hrole => ⟨n, hn, hrole, .refl⟩

lemma supports_iff : g.Supports n ↔ g.ReachesOutput n := by
  constructor
  · rintro ⟨w, hw, hanchored, hpath⟩
    exact ⟨w, hw, (anchored_iff hfree hw).1 hanchored, hpath⟩
  · rintro ⟨o, ho, hrole, hpath⟩
    exact ⟨o, ho, (anchored_iff hfree ho).2 hrole, hpath⟩

lemma isNeeded_iff (hn : n ∈ g.order) : g.IsNeeded n ↔ g.ReachesOutput n := by
  rw [← supports_iff hfree]
  constructor
  · rintro ⟨m, hm, hpath⟩
    rwa [← eq_of_reflTransGen_accesses hfree hn hpath]
  · exact Supports.isNeeded

end WithoutAccesses

/-- For every program whose arguments come from earlier nodes and are not accesses to memory: what
is left are, in their old order, memory and the nodes that the outputs take, directly or not. -/
theorem prune_exact (hl : g.Lists g.order) (ho : g.Ordered g.order)
    (hlast : g.last = g.order.getLast?)
    (hfree : ∀ n ∈ g.order, ∀ a ∈ (g.node n).args, a.kind ≠ .memory) :
    g.prune.Lists g.prune.order ∧ g.prune.order.Sublist g.order ∧
      ∀ n, n ∈ g.prune.order ↔ n ∈ g.order ∧ ((g.node n).isMemory = true ∨ g.ReachesOutput n) := by
  have hleft := (prune_spec hl).1
  have horder := hleft.order
  refine ⟨by rwa [horder], ?_, fun n => ?_⟩
  · rw [horder]
    exact List.filter_sublist
  · rw [mem_order_prune hl ho hlast]
    exact and_congr_right fun hn => or_congr_right (isNeeded_iff hfree hn)

/-- A program with a memory that nobody takes and an operation that no output takes. -/
def branched : List Step :=
  [ .act (.input .float (.sizes [4])) (some "A"),
    .act (.input .float (.sizes [3])) (some "B"),
    .act (.call (.named "sin") ["A"]) (some "s"),
    .act (.call (.named "cos") ["A"]) (some "c"),
    .act (.call (.named "exp") ["s"]) (some "e") ]

/-- Its output is the last operation. -/
def branchedGraph : Graph := (Script.scene branched).graph.setRole 6 .output 0

/-- The memory that nobody takes stays, but its size does not. -/
theorem prune_exact_branchedGraph :
    branchedGraph.Lists branchedGraph.order ∧ branchedGraph.Ordered branchedGraph.order ∧
      branchedGraph.last = branchedGraph.order.getLast? ∧
      (∀ n ∈ branchedGraph.order, ∀ a ∈ (branchedGraph.node n).args, a.kind ≠ .memory) ∧
      branchedGraph.order = [0, 1, 2, 3, 4, 5, 6] ∧ branchedGraph.prune.order = [0, 1, 3, 4, 6] ∧
      branchedGraph.prune.Lists branchedGraph.prune.order ∧
      branchedGraph.prune.order.Sublist branchedGraph.order ∧
      ∀ n, n ∈ branchedGraph.prune.order ↔
        n ∈ branchedGraph.order ∧ ((branchedGraph.node n).isMemory = true ∨
        branchedGraph.ReachesOutput n) := by
  have hrecorded : branchedGraph.Recorded :=
    (Script.recorded (l := branched) (by decide +kernel)).graph.modifyNode (fun _ => rfl)
      (fun _ => rfl) (fun _ => rfl) (fun _ => rfl) fun _ => rfl
  have horder := hrecorded.order
  have hl : branchedGraph.Lists branchedGraph.order := horder ▸ hrecorded.lists
  have ho : branchedGraph.Ordered branchedGraph.order := horder ▸ hrecorded.ordered
  have hlast : branchedGraph.last = branchedGraph.order.getLast? := horder ▸ hrecorded.last
  have hfree : ∀ n ∈ branchedGraph.order, ∀ a ∈ (branchedGraph.node n).args, a.kind ≠ .memory := by
    decide +kernel
  exact ⟨hl, ho, hlast, hfree, by decide +kernel, by decide +kernel, prune_exact hl ho hlast hfree⟩

end KernelFusion.Graph
