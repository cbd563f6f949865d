/-
What holds of every recorded graph.

Operations come from the table, nodes agree with their operations about types, they are known in
the order in which they were made, and roles are given to memory that had none.
-/
import KernelFusion.Proofs.Graph.Typing
import KernelFusion.Proofs.Recording.Scripts

namespace KernelFusion.Graph

open List

variable {p : Policy} {g g' : Graph} {n : NodeId} {op : Operation} {type : Scalar}
  {args : List Argument}

/-! ### Operations and types -/

/-- The operation is one of the table that the policy allows, and the node agrees with it. -/
structure Known (p : Policy) (g : Graph) (n : NodeId) : Prop where
  table : (g.node n).op ∈ Operation.table
  records : p.records (g.node n).op
  agrees : g.Agrees n

lemma Recorded.inputTypes_insert_of_lt (h : g.Recorded) (op : Operation) (type : Scalar)
    (args : List Argument) (hn : n < g.nodes.size) : (g.insert op type args).inputTypes n =
    g.inputTypes n := by
  have hext := Extended.insert g op type args
  have hnode : (g.insert op type args).node n = g.node n := node_insert_of_ne (Nat.ne_of_lt hn)
  rw [inputTypes, inputTypes, hnode]
  refine map_congr_left fun a ha => ?_
  have hlt := Nat.lt_trans (h.earlier n a (Node.mem_arguments.1 ha).1) hn
  rw [hext.source (h.labelled.size ▸ hlt), h.labelled.source hlt, hext.type _ hlt]

lemma inputTypes_value {ns ls : List NodeId} (h : g.Labelled) (hns : ∀ n ∈ ns, g.Offers p n) :
    (g.insert op type (block .input ns ++ block .shape ls)).inputTypes g.nodes.size =
      ns.map fun n => (g.node n).type := by
  refine inputTypes_insert h op type (fun n hn => (hns n hn).1) ?_
  rw [filter_append, filter_block_self, filter_block_of_ne (by decide), append_nil]

lemma inputTypes_access {m : NodeId} {xs is ls : List NodeId} (h : g.Labelled)
    (hxs : ∀ x ∈ xs, g.Offers p x) :
    (g.insert op type (block .memory [m] ++ block .input xs ++ block .index is ++
      block .shape ls)).inputTypes g.nodes.size = xs.map fun n => (g.node n).type := by
  refine inputTypes_insert h op type (fun x hx => (hxs x hx).1) ?_
  simp [filter_append, filter_block_self, filter_block_of_ne]

lemma inputTypes_source {ls : List NodeId} (h : g.Labelled) :
    (g.insert op type (block .shape ls)).inputTypes g.nodes.size = [] :=
  inputTypes_insert h op type (forall_mem_nil (α := NodeId) _) (filter_block_of_ne (by decide))

lemma Admits.known (h : g.RecordedUnder p) (hknown : ∀ m < g.nodes.size, g.Known p m)
    (ha : g.Admits p op type args) : (g.insert op type args).Known p g.nodes.size := by
  have hnode : (g.insert op type args).node g.nodes.size =
    { op, type, args, label := g.labels.size, cluster := g.current } := node_insert_self
  cases ha with
  | @value _ o ns ls hop hrecords _ _ hns ho _ =>
    refine ⟨by rwa [hnode], by rwa [hnode], .of_overload? (o := o) (by rwa [hnode]) ?_ fun _ => ?_⟩
    · rw [hnode, inputTypes_value h.labelled hns]
      exact ho
    · rw [hnode]
  | @access _ o m is xs ls hop hrecords _ _ _ _ _ hxs ho _ _ =>
    refine ⟨by rwa [hnode], by rwa [hnode], .of_overload? (o := o) (by rwa [hnode])
      ?_ fun hload => ?_⟩
    · rw [hnode, inputTypes_access h.labelled hxs]
      exact ho
    · rw [hnode] at hload ⊢
      exact (if_neg hload).symm
  | @source _ _ ls hop hrecords _ hyields _ =>
    exact ⟨by rwa [hnode], by rwa [hnode],
      .of_yields (by rwa [hnode]) (inputTypes_source h.labelled) (by rwa [hnode])⟩
  | @copy m hm =>
    obtain ⟨htable, hrecords, hagrees⟩ := hknown m hm.1
    refine ⟨by rwa [hnode], by rwa [hnode], hagrees.congr (by rw [hnode]) (by rw [hnode]) ?_⟩
    have hold := h.toRecorded.inputTypes_insert_of_lt (g.node m).op (g.node m).type
      (g.node m).args hm.1
    have hsame : ((g.insert (g.node m).op (g.node m).type (g.node m).args).node
        g.nodes.size).arguments .input = (g.node m).arguments .input := by
      rw [hnode, Node.arguments, Node.arguments]
    rw [← hold, inputTypes, inputTypes, hsame, node_insert_of_ne (Nat.ne_of_lt hm.1)]

lemma Changes.inputTypes_eq (h : g.RecordedUnder p) (hc : Changes p g g') (hn : n < g.nodes.size) :
    g'.inputTypes n = g.inputTypes n := by
  cases hc with
  | enter _ => exact h.toRecorded.inputTypes_insert_of_lt _ _ _ hn
  | data _ _ => exact inputTypes_modifyNode (fun _ => rfl) fun _ => rfl
  | role _ _ _ => exact inputTypes_modifyNode (fun _ => rfl) fun _ => rfl

lemma Changes.lt_or_enter (hc : Changes p g g') (hn : n < g'.nodes.size) :
    n < g.nodes.size ∨ n = g.nodes.size ∧ ∃ op type args, g.Admits p op type args ∧
      g' = g.insert op type args := by
  cases hc with
  | enter ha =>
    rw [size_nodes_insert] at hn
    rcases Nat.lt_succ_iff_lt_or_eq.1 hn with hlt | heq
    · exact .inl hlt
    · exact .inr ⟨heq, _, _, _, ha, rfl⟩
  | data _ _ => exact .inl (by simpa [setData] using hn)
  | role _ _ _ => exact .inl (by simpa [setRole] using hn)

/-- What holds of a node when it enters, if it holds of all nodes before, and is kept by every
change holds of all nodes. -/
lemma Traces.forall_nodes {P : Graph → NodeId → Prop} (ht : Traces p opened g)
    (hkept : ∀ {g g' m}, g.RecordedUnder p → Changes p g g' → m < g.nodes.size → P g m → P g' m)
    (hnew : ∀ {g op type args}, g.RecordedUnder p → g.Admits p op type args →
    (∀ m < g.nodes.size, P g m) →
      P (g.insert op type args) g.nodes.size) : ∀ m < g.nodes.size, P g m := by
  refine (ht.of_changes (I := fun g => ∀ m < g.nodes.size, P g m) recordedUnder_opened ?_ ?_).2
  · exact fun m hm => absurd hm (Nat.not_lt_zero m)
  · intro g₁ g₂ h hc hall m hm
    rcases hc.lt_or_enter hm with hlt | ⟨rfl, op, type, args, ha, rfl⟩
    · exact hkept h hc hlt (hall m hlt)
    · exact hnew h ha hall

lemma Traces.known (ht : Traces p opened g) : ∀ m < g.nodes.size, g.Known p m := by
  refine ht.forall_nodes (fun h hc hlt hknown => ?_) fun h ha hall => ha.known h hall
  obtain ⟨htable, hrecords, hagrees⟩ := hknown
  obtain ⟨hop, htype, -⟩ := hc.node hlt
  exact ⟨by rwa [hop], by rwa [hop], hagrees.congr hop htype (hc.inputTypes_eq h hlt)⟩

end KernelFusion.Graph
