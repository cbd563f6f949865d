/-
Graphs as they are recorded.

Nodes are listed in the order in which they are made, every label stands for the node of the same
index, no node belongs to a cluster, every argument comes from an earlier node, and indices and
coordinates are integers.
-/
import KernelFusion.Proofs.Build.Outcome
import KernelFusion.Proofs.Graph.Arguments
import KernelFusion.Proofs.Graph.Edits
import KernelFusion.Proofs.Graph.Listing
import KernelFusion.Program

namespace KernelFusion

open List

lemma Node.Regular.congr {n n' : Node} (h : n.Regular) (hop : n'.op = n.op)
    (hargs : n'.args = n.args) : n'.Regular := by
  have hlabels : ∀ k, n'.labels k = n.labels k := fun k => by rw [labels, labels, hargs]
  refine ⟨fun k => ?_, ?_, fun hm => ?_⟩
  · rw [hlabels, hargs]
    exact h.blocks k
  · rw [hlabels, hop]
    exact h.memory
  · rw [hargs]
    exact h.plain (by rwa [Node.isMemory, hop] at hm)

/-- Arguments in blocks of one kind each, from zero, are regular. -/
lemma Node.regular_of_blocks {n : Node} {m i x s : List LabelId}
    (hargs : n.args = block .memory m ++ block .input i ++ block .index x ++ block .shape s)
    (hmemory : m.length = if n.op.kind.accesses then 1 else 0)
    (hplain : n.isMemory → m = [] ∧ i = [] ∧ x = []) : n.Regular := by
  have hblock : ∀ k, (n.args.filter fun a => a.kind = k) = block k (match k with
      | .memory => m
      | .input => i
      | .index => x
      | .shape => s
      | .other => []) := by
    intro k
    rw [hargs, filter_append, filter_append, filter_append]
    cases k <;> simp [filter_block_self, filter_block_of_ne]
  have hlabels : ∀ k, n.labels k = match k with
      | .memory => m
      | .input => i
      | .index => x
      | .shape => s
      | .other => [] := by
    intro k
    rw [Node.labels, hblock, map_source_block]
  refine ⟨fun k => by rw [hlabels, hblock], by rw [hlabels]; exact hmemory, fun hm a ha => ?_⟩
  obtain ⟨rfl, rfl, rfl⟩ := hplain hm
  simp only [hargs, block_nil, nil_append] at ha
  exact kind_of_mem_block ha

lemma Node.regular_default : (default : Node).Regular :=
  ⟨fun _ => rfl, rfl, fun _ _ ha => absurd ha not_mem_nil⟩

namespace Graph

/-- Indices and coordinates are signed integers, and coordinates access no memory. -/
structure Typed (g : Graph) (l : List NodeId) : Prop where
  index : ∀ n ∈ l, ∀ a ∈ (g.node n).args, a.kind = .index → (g.node a.source).type = .int
  coordinate : ∀ n ∈ l, (g.node n).isCoordinate →
    (g.node n).type = .int ∧ (g.node n).op.kind.accesses = false

/-- The state of a graph while a program is recorded. -/
structure Recorded (g : Graph) : Prop where
  recording : g.recording
  splits : g.Splits (range g.nodes.size) []
  labelled : g.Labelled
  current : g.current = none
  clusters : g.clusters = #[]
  cluster : ∀ n, (g.node n).cluster = none
  earlier : ∀ n, ∀ a ∈ (g.node n).args, a.source < n
  regular : ∀ n, (g.node n).Regular
  typed : g.Typed (range g.nodes.size)
  last : g.last = (range g.nodes.size).getLast?

variable {g g' : Graph} {l l' : List NodeId} {n : NodeId} {op : Operation} {type : Scalar}
  {args : List Argument}

lemma Typed.congr (h : g.Typed l) (hsub : l' ⊆ l) (hop : ∀ n, (g'.node n).op = (g.node n).op)
    (htype : ∀ n, (g'.node n).type = (g.node n).type)
    (hargs : ∀ n, (g'.node n).args = (g.node n).args) : g'.Typed l' := by
  refine ⟨fun n hn a ha hkind => ?_, fun n hn hcoord => ?_⟩
  · rw [hargs] at ha
    rw [htype]
    exact h.index n (hsub hn) a ha hkind
  · rw [Node.isCoordinate, hop] at hcoord
    rw [hop, htype]
    exact h.coordinate n (hsub hn) hcoord

lemma Recorded.order (h : g.Recorded) : g.order = range g.nodes.size := by
  simpa using h.splits.order

lemma Recorded.lists (h : g.Recorded) : g.Lists (range g.nodes.size) := by
  simpa using h.splits.toLists

lemma recorded_opened : opened.Recorded := by
  have hnode : ∀ n, opened.node n = default := fun n => node_eq_default (Nat.zero_le n)
  refine ⟨rfl, ⟨⟨Chain.lists_nil _, rfl, rfl⟩, rfl, fun _ => rfl⟩, ⟨rfl, ?_, ?_⟩, rfl, rfl, ?_, ?_,
    ?_, ⟨?_, ?_⟩, rfl⟩
  · exact fun m hm => absurd hm (Nat.not_lt_zero m)
  · exact fun m hm => absurd hm (Nat.not_lt_zero m)
  · exact fun m => by rw [hnode]; rfl
  · exact fun m a ha => by rw [hnode] at ha; cases ha
  · exact fun m => by rw [hnode]; exact Node.regular_default
  · exact fun m hm => absurd hm not_mem_nil
  · exact fun m hm => absurd hm not_mem_nil

lemma Recorded.typed_insert (h : g.Recorded) (hargs : ∀ a ∈ args, a.source < g.nodes.size)
    (hindex : ∀ a ∈ args, a.kind = .index → (g.node a.source).type = .int)
    (hcoord : op.name = "dim_id" → type = .int ∧ op.kind.accesses = false) :
    (g.insert op type args).Typed (range (g.insert op type args).nodes.size) := by
  have hold : ∀ m, m ∈ range (g.insert op type args).nodes.size → m ≠ g.nodes.size →
      m ∈ range g.nodes.size := fun m hm hne => by
    rw [size_nodes_insert, mem_range] at hm
    exact mem_range.2 (by omega)
  refine ⟨fun m hm a ha hkind => ?_, fun m hm hm' => ?_⟩
  · by_cases hnew : m = g.nodes.size
    · subst hnew
      rw [node_insert_self] at ha
      rw [node_insert_of_ne (Nat.ne_of_lt (hargs a ha))]
      exact hindex a ha hkind
    · have hlt : m < g.nodes.size := mem_range.1 (hold m hm hnew)
      rw [node_insert_of_ne hnew] at ha
      rw [node_insert_of_ne (Nat.ne_of_lt (Nat.lt_trans (h.earlier m a ha) hlt))]
      exact h.typed.index m (hold m hm hnew) a ha hkind
  · by_cases hnew : m = g.nodes.size
    · subst hnew
      rw [node_insert_self] at hm' ⊢
      exact hcoord (by simpa [Node.isCoordinate] using hm')
    · rw [node_insert_of_ne hnew] at hm' ⊢
      exact h.typed.coordinate m (hold m hm hnew) hm'

lemma Recorded.insert (h : g.Recorded) (hreg : ({ op, type, args, label := 0 } : Node).Regular)
    (hargs : ∀ a ∈ args, a.source < g.nodes.size)
    (hindex : ∀ a ∈ args, a.kind = .index → (g.node a.source).type = .int)
    (hcoord : op.name = "dim_id" → type = .int ∧ op.kind.accesses = false) :
    (g.insert op type args).Recorded := by
  have hsplits : (g.insert op type args).Splits
      (range (g.insert op type args).nodes.size) [] := by
    rw [size_nodes_insert, range_succ]
    exact h.splits.insert op type args
  have hcluster : (g.insert op type args).clusters = g.headsWith g.nodes.size := rfl
  have hlast : (g.insert op type args).last =
      if g.following = none then some g.nodes.size else g.last := rfl
  refine ⟨h.recording, hsplits, h.labelled.insert, h.current, ?_,
    forall_node_insert (P := fun _ x => x.cluster = none) h.current fun m _ => h.cluster m,
    forall_node_insert (P := fun m x => ∀ a ∈ x.args, a.source < m) hargs fun m _ => h.earlier m,
    forall_node_insert (P := fun _ => Node.Regular) (hreg.congr rfl rfl) fun m _ => h.regular m,
    h.typed_insert hargs hindex hcoord, ?_⟩
  · rw [hcluster, headsWith, h.current, h.clusters]
    split <;> simp_all
  -- the cursor is at the end, so the new node is the last one
  · rw [hlast, h.splits.following, size_nodes_insert, range_succ, getLast?_concat]
    rfl

lemma Recorded.modifyNode (h : g.Recorded) {f : Node → Node} (hop : ∀ x, (f x).op = x.op)
    (hargs : ∀ x, (f x).args = x.args) (hlabel : ∀ x, (f x).label = x.label)
    (hcluster : ∀ x, (f x).cluster = x.cluster) (htype : ∀ x, (f x).type = x.type) :
    (g.modifyNode n f).Recorded := by
  have hsplits : (g.modifyNode n f).Splits (range (g.modifyNode n f).nodes.size) [] := by
    rw [size_nodes_modifyNode]
    exact ⟨h.splits.toLists.congr rfl rfl size_nodes_modifyNode, h.splits.cursor, h.splits.ahead⟩
  refine ⟨h.recording, hsplits, h.labelled.modifyNode hlabel, h.current, h.clusters, fun m => ?_,
    fun m => ?_, fun m => ?_, ?_, ?_⟩
  · rw [modifyNode_congr Node.cluster hcluster]
    exact h.cluster m
  · rw [modifyNode_congr Node.args hargs]
    exact h.earlier m
  · exact (h.regular m).congr (modifyNode_congr Node.op hop) (modifyNode_congr Node.args hargs)
  · refine h.typed.congr (fun m hm => ?_) (fun _ => modifyNode_congr Node.op hop)
      (fun _ => modifyNode_congr Node.type htype) fun _ => modifyNode_congr Node.args hargs
    rwa [size_nodes_modifyNode] at hm
  · rw [size_nodes_modifyNode]
    exact h.last

lemma Recorded.setRole (h : g.Recorded) (n : NodeId) (role : MemoryRole) (slot : Int) :
    (g.setRole n role slot).Recorded :=
  h.modifyNode (fun _ => rfl) (fun _ => rfl) (fun _ => rfl) (fun _ => rfl) fun _ => rfl

end Graph

end KernelFusion
