/-
The ends of loops are not needed.

A node that is left by the passes, and neither is memory nor accesses it, has a value that may be
used (`Stages.uses_of_left`). When blocks are opened and closed by loops only, this leaves the
heads of loops, but none of their ends.
-/
import KernelFusion.Proofs.Kernel.Order

namespace KernelFusion.Graph

open List

open Relation (ReflTransGen)

variable {outputs : List NodeId} {g g' c o p s t f : Graph} {origin : NodeId → NodeId}
  {es : List (NodeId × Entry)} {done : List (NodeId × Nat)} {ks : List Kernel} {n m v : NodeId}
  {a : Argument} {policy : Policy}

/-! ### Outputs -/

/-- What has the role of an output may be used. -/
def OutputsUsed (policy : Policy) (g : Graph) : Prop :=
  ∀ n, (g.node n).role = .output → policy.uses (g.node n).op

lemma Changes.outputsUsed (hc : Changes policy g g') (h : g.OutputsUsed policy) :
    g'.OutputsUsed policy := by
  intro n hrole
  cases hc with
  | enter _ =>
    by_cases hn : n = g.nodes.size
    · -- a new node has no role
      subst hn
      rw [node_insert_self] at hrole
      cases hrole
    · rw [node_insert_of_ne hn] at hrole ⊢
      exact h n hrole
  | data m data =>
    have hop : ((g.setData m data).node n).op = (g.node n).op :=
      modifyNode_congr Node.op fun _ => rfl
    have hsame : ((g.setData m data).node n).role = (g.node n).role :=
      modifyNode_congr Node.role fun _ => rfl
    rw [hop]
    exact h n (hsame ▸ hrole)
  | @role m role slot hm _ =>
    have hop : ((g.setRole m role slot).node n).op = (g.node n).op :=
      modifyNode_congr Node.op fun _ => rfl
    rw [hop]
    by_cases hnm : n = m
    · exact hnm ▸ hm.2
    · rw [setRole, node_modifyNode, if_neg fun heq => hnm heq.1] at hrole
      exact h n hrole

lemma Traces.outputsUsed (ht : Traces policy opened g) : g.OutputsUsed policy := by
  refine (ht.of_changes (I := OutputsUsed policy) recordedUnder_opened (fun n hrole => ?_) ?_).2
  · rw [node_eq_default (Nat.zero_le n)] at hrole
    cases hrole
  · exact fun _ _ _ hc h => hc.outputsUsed h

namespace Stages

variable (hs : Stages outputs g c o p s t origin es done)

include hs

lemma uses_of_output (hroles : g.OutputsUsed policy)
    (houtputs : ∀ v ∈ outputs, policy.uses (g.node v).op) (hrole : (o.node n).role = .output) :
    policy.uses (g.node (origin n)).op := by
  have hstart : ((withOutputs outputs g).node n).role = .output := by
    rw [← (hs.sameRoles n).1, hs.pruned.thinned.node_eq, hrole]
  have hlt : n < g.nodes.size := by
    by_contra hge
    rw [node_eq_default (by rw [size_withOutputs]; exact Nat.le_of_not_lt hge)] at hstart
    cases hstart
  have horigin : origin n = n := by
    refine hs.rebuilt.covers.self n ?_
    rwa [hs.order_cut, mem_range]
  rw [horigin]
  by_cases hmem : n ∈ outputs
  · exact houtputs n hmem
  · rw [(role_withOutputs outputs hlt).2 hmem] at hstart
    exact hroles n hstart

lemma uses_of_takes (hg : g.RecordedUnder policy) (hm : m ∈ o.order) (htakes : o.Takes m n) :
    policy.uses (g.node (origin n)).op := by
  obtain ⟨a, ha, rfl⟩ := htakes
  obtain ⟨role, slot, cluster, hcut⟩ := hs.node_cut (origin m)
  have hmem := mem_map_of_mem (f := o.traced origin) ha
  rw [hs.rebuilt.covers.args m hm] at hmem
  obtain ⟨b, hb, htraced⟩ := mem_map.1 hmem
  have hsource : c.source b = origin (o.source a) := congrArg (fun x => x.2.2) htraced
  rw [← hsource, hs.tidy_cut.source_eq (hs.rebuilt.covers.mem m hm) hb]
  rw [hcut] at hb
  exact hg.used (origin m) b hb

lemma uses_of_left (hg : g.RecordedUnder policy) (hroles : g.OutputsUsed policy)
    (houtputs : ∀ v ∈ outputs, policy.uses (g.node v).op) (hn : n ∈ p.order)
    (hmemory : (p.node n).isMemory = false) (haccess : (p.node n).op.kind.accesses = false) :
    policy.uses (g.node (origin n)).op := by
  rw [hs.pruned.thinned.node_eq] at hmemory haccess
  obtain ⟨hno, hleft⟩ := (hs.left n).1 hn
  -- accesses of the node lead nowhere
  have hself : ∀ {v}, ReflTransGen o.Accesses n v → v = n := by
    intro v hpath
    rcases ReflTransGen.cases_head hpath with heq | ⟨w, ⟨a, ha, hkind, -⟩, -⟩
    · exact heq.symm
    · have hlength := (hs.tidy.regular n hno).memory
      rw [haccess, if_neg (by decide), length_eq_zero_iff] at hlength
      exact absurd (hlength ▸ Node.mem_labels.2 ⟨a, ha, hkind, rfl⟩) not_mem_nil
  obtain ⟨m, ⟨w, hw, hanchored, htaken⟩, haccesses⟩ := hleft.resolve_left (by simp [hmemory])
  obtain rfl := hself haccesses
  rcases ReflTransGen.cases_tail htaken with rfl | ⟨u, hpath, htakes⟩
  · obtain ⟨v, -, hrole, hpath⟩ := hanchored
    obtain rfl := hself hpath
    exact hs.uses_of_output hroles houtputs hrole
  · exact hs.uses_of_takes hg (hs.tidy.isOrdered.mem_of_reflTransGen hw hpath) htakes

end Stages

/-! ### Blocks -/

lemma Operation.accesses_of_isControl {op : Operation} (h : op ∈ Operation.table)
    (hcontrol : op.isControl) : op.kind.accesses = false := by
  have hall : ∀ op ∈ Operation.table, op.isControl → op.kind.accesses = false := by decide +kernel
  exact hall op h hcontrol

lemma Operation.loop_of_uses {op : Operation} (hcontrol : op.isControl)
    (hrecords : Policy.structured.records op) (huses : Policy.structured.uses op) :
    op.name = "loop_begin" := by
  have hnot : (op.name ≠ "if_begin" ∧ op.name ≠ "if_end") ∧ op.name ≠ "loop_end" := by
    simpa [Policy.records, Policy.uses, Policy.structured] using And.intro hrecords huses
  rcases Operation.isControl_iff.1 hcontrol with hname | hname | hname | hname
  · exact hname
  · exact absurd hname hnot.2
  · exact absurd hname hnot.1.1
  · exact absurd hname hnot.1.2

lemma Passing.isControl_of_entered {lp ls : List NodeId} (h : Passing p lp es done s ls) {e : Entry}
    (he : (n, e) ∈ es) : (s.node n).op.isControl = false := by
  obtain ⟨-, -, hfits⟩ := h.fits n e he
  have hname : (s.node n).op.name = "memory" ∨ (s.node n).op.name = "load" ∨
    (s.node n).op.name = "store" := by
    cases e with
    | memory v => exact .inl (by simpa [Node.isMemory] using hfits.isMemory)
    | load v m user => exact .inr (.inl hfits.loads.name)
    | store v m => exact .inr (.inr hfits.stores.name)
  rw [Operation.isControl]
  rcases hname with hname | hname | hname
  · rw [hname]; decide
  · rw [hname]; decide
  · rw [hname]; decide

/-- The only control operation left in a structured program opens a loop. -/
lemma Stages.loops (hs : Stages outputs g c o p s t origin es done)
    (hg : g.RecordedUnder .structured) (hknown : ∀ m < g.nodes.size, g.Known .structured m)
    (hroles : g.OutputsUsed .structured)
    (houtputs : ∀ v ∈ outputs, Policy.structured.uses (g.node v).op) (hn : n ∈ t.order)
    (hcontrol : (t.node n).op.isControl) : (t.node n).op.name = "loop_begin" := by
  have haddr := hs.addressing
  have hlt : n < s.nodes.size := by
    by_contra hge
    rw [(haddr.added n (Nat.le_of_not_lt hge) (haddr.lists.lt_size hn)).control] at hcontrol
    cases hcontrol
  rw [haddr.evolves.op n hlt] at hcontrol ⊢
  rcases hs.passing.entered n (haddr.old n hn hlt) with hnp | ⟨e, he⟩
  · have hold := hs.passing.extended.op n (hs.passing.old n hnp)
    have horigin : origin n < g.nodes.size := by
      have hmem := hs.rebuilt.covers.mem n ((hs.left n).1 hnp).1
      rwa [hs.order_cut, mem_range] at hmem
    rw [(hs.kinds hnp).1] at hcontrol hold ⊢
    obtain ⟨htable, hrecords, -⟩ := hknown _ horigin
    refine Operation.loop_of_uses hcontrol hrecords (hs.uses_of_left hg hroles houtputs hnp ?_ ?_)
    · rw [Node.isMemory, ← hold, decide_eq_false_iff_not]
      intro hname
      rw [Operation.isControl, hname] at hcontrol
      exact absurd hcontrol (by decide)
    · rw [← hold]
      exact Operation.accesses_of_isControl htable hcontrol
  · rw [hs.passing.isControl_of_entered he] at hcontrol
    cases hcontrol

lemma loops_of_transform {l : List Step} (hl : Step.allRegular l) (hp : Step.allObey .structured l)
    (houtputs : ∀ v ∈ outputs, v ∈ (Script.scene l).names.map Prod.snd)
    (hrun : Build.transform outputs (Script.scene l).graph = .ok ks f) :
    ∀ n ∈ f.order, (f.node n).op.isControl → (f.node n).op.name = "loop_begin" := by
  obtain ⟨h, htraces⟩ := Script.history hl hp
  obtain ⟨c, o, p, s, t, origin, es, done, hs, -, rfl⟩ := h.graph.toRecorded.stages hrun
  have huses : ∀ v ∈ outputs, Policy.structured.uses ((Script.scene l).graph.node v).op := by
    intro v hv
    obtain ⟨q, hq, rfl⟩ := mem_map.1 (houtputs v hv)
    exact (h.names q hq).2
  exact fun n hn hcontrol => hs.loops h.graph htraces.known htraces.outputsUsed huses hn hcontrol

end KernelFusion.Graph
