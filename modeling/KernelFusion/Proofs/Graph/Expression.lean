/-
The expressions that nodes compute.

The expression of a node is the tree of all operations that it depends on, with memory as leaves. A
graph *covers* another one if every node has an origin there that does the same with arguments of
the same origins; a node then computes the expression of its origin.
-/
import KernelFusion.Proofs.Graph.Arranged

namespace KernelFusion

open List

/-- What a node computes. -/
inductive Expression where
  | memory (n : NodeId)
  | apply (name : String) (type : Scalar) (data : List UInt32)
      (args : List (ArgKind × Int × Expression))

lemma idxOf_lt_of_precedes {l : List NodeId} {x y : NodeId} (h : Precedes l x y) (hl : l.Nodup) :
    l.idxOf x < l.idxOf y := by
  obtain ⟨a, b, rfl⟩ := append_of_mem h.right_mem
  have hx := h.mem_of_right hl
  have hy := (not_mem_of_nodup_append hl).1
  rw [idxOf_append_of_mem hx, idxOf_append_of_notMem hy]
  have hlt := idxOf_lt_length_of_mem hx
  omega

namespace Graph

/-- The expression of a node, down to a depth. -/
def unfold (g : Graph) : Nat → NodeId → Expression
  | 0, n => .memory n
  | depth + 1, n =>
    if (g.node n).isMemory then .memory n
    else .apply (g.node n).name (g.node n).type (g.node n).data
      ((g.node n).args.map fun a => (a.kind, a.index, g.unfold depth (g.source a)))

/-- The expression of a node. -/
def expression (g : Graph) (n : NodeId) : Expression := g.unfold g.nodes.size n

variable {c g : Graph} {l l₁ l₂ : List NodeId} {n m : NodeId} {origin : NodeId → NodeId}

lemma unfold_eq (hl : g.Lists l) (ho : g.Ordered l) (hn : n ∈ l) {d e : Nat} (hd : l.idxOf n < d)
    (he : l.idxOf n < e) : g.unfold d n = g.unfold e n := by
  induction d generalizing n e with
  | zero => exact absurd hd (Nat.not_lt_zero _)
  | succ d ih =>
    obtain ⟨e, rfl⟩ : ∃ e', e = e' + 1 := ⟨e - 1, by omega⟩
    rw [unfold, unfold]
    have hargs : ((g.node n).args.map fun a => (a.kind, a.index, g.unfold d (g.source a))) =
        (g.node n).args.map fun a => (a.kind, a.index, g.unfold e (g.source a)) := by
      refine map_congr_left fun a ha => ?_
      have hprec := ho n hn a ha
      have hlt := idxOf_lt_of_precedes hprec hl.chain.nodup
      rw [ih hprec.left_mem (e := e) (by omega) (by omega)]
    rw [hargs]

lemma expression_eq (hl : g.Lists l) (ho : g.Ordered l) (hn : n ∈ l) : g.expression n =
    if (g.node n).isMemory then .memory n
    else .apply (g.node n).name (g.node n).type (g.node n).data
      ((g.node n).args.map fun a => (a.kind, a.index, g.expression (g.source a))) := by
  have hidx := idxOf_lt_length_of_mem hn
  have hlen := hl.chain.length_le
  rw [hl.size] at hlen
  obtain ⟨d, hd⟩ : ∃ d, g.nodes.size = d + 1 := ⟨g.nodes.size - 1, by omega⟩
  have hargs : ((g.node n).args.map fun a => (a.kind, a.index, g.expression (g.source a))) =
      (g.node n).args.map fun a => (a.kind, a.index, g.unfold d (g.source a)) := by
    refine map_congr_left fun a ha => ?_
    have hprec := ho n hn a ha
    have hlt := idxOf_lt_of_precedes hprec hl.chain.nodup
    rw [expression, unfold_eq hl ho hprec.left_mem (e := d) (by omega) (by omega)]
  rw [hargs, expression, hd, unfold]

/-! ### Origins -/

/-- An argument, with the origin of its source. -/
def traced (g : Graph) (origin : NodeId → NodeId) (a : Argument) : ArgKind × Int × NodeId :=
  (a.kind, a.index, origin (g.source a))

/-- Every listed node does what its origin in the program `c` does, with arguments of the same
origins. The nodes of `c` and memory are their own origins. -/
structure Covers (c g : Graph) (l : List NodeId) (origin : NodeId → NodeId) : Prop where
  mem : ∀ n ∈ l, origin n ∈ c.order
  self : ∀ n ∈ c.order, origin n = n
  memory : ∀ n ∈ l, (g.node n).isMemory → origin n = n
  op : ∀ n ∈ l, (g.node n).op = (c.node (origin n)).op
  type : ∀ n ∈ l, (g.node n).type = (c.node (origin n)).type
  data : ∀ n ∈ l, (g.node n).data = (c.node (origin n)).data
  args : ∀ n ∈ l, (g.node n).args.map (g.traced origin) =
    (c.node (origin n)).args.map (c.traced id)

namespace Covers

lemma refl (c : Graph) : c.Covers c c.order id :=
  ⟨fun _ hn => hn, fun _ _ => rfl, fun _ _ _ => rfl, fun _ _ => rfl, fun _ _ => rfl, fun _ _ => rfl,
    fun _ _ => rfl⟩

variable (h : c.Covers g l origin)

include h

lemma isMemory (hn : n ∈ l) :
    (g.node n).isMemory = (c.node (origin n)).isMemory := by
  rw [Node.isMemory, Node.isMemory, h.op n hn]

lemma congr {g' : Graph} (hnodes : g'.nodes = g.nodes) (hlabels : g'.labels = g.labels) :
    c.Covers g' l origin := by
  have hnode : ∀ n, g'.node n = g.node n := fun n => by rw [node, node, hnodes]
  have htraced : g'.traced origin = g.traced origin := by
    funext a
    rw [traced, traced, source, source, target, target, hlabels]
  refine ⟨h.mem, h.self, fun n hn => ?_, fun n hn => ?_, fun n hn => ?_, fun n hn => ?_,
    fun n hn => ?_⟩
  · rw [hnode]
    exact h.memory n hn
  · rw [hnode]
    exact h.op n hn
  · rw [hnode]
    exact h.type n hn
  · rw [hnode]
    exact h.data n hn
  · rw [hnode, htraced]
    exact h.args n hn

/-- An argument moved to a node of the same origin computes the same. -/
lemma setSource (hl : g.Linked l) (hm : m ∈ l) {i : Nat} {a : Argument}
    (ha : (g.node n).args[i]? = some a) (horigin : origin m = origin (g.source a)) :
    c.Covers (g.setSource n i m) l origin := by
  have hop : ∀ v, ((g.setSource n i m).node v).op = (g.node v).op := fun v =>
    modifyNode_congr Node.op fun _ => rfl
  refine ⟨h.mem, h.self, fun v hv => ?_, fun v hv => ?_, fun v hv => ?_, fun v hv => ?_,
    fun v hv => ?_⟩
  · rw [Node.isMemory, hop]
    exact h.memory v hv
  · rw [hop]
    exact h.op v hv
  · rw [← h.type v hv]
    exact modifyNode_congr Node.type fun _ => rfl
  · rw [← h.data v hv]
    exact modifyNode_congr Node.data fun _ => rfl
  · rw [← h.args v hv]
    have htraced : (g.setSource n i m).traced origin = g.traced origin := rfl
    rw [htraced]
    by_cases hvn : v = n
    · subst hvn
      rw [args_setSource_self (hl.lt_size hv)]
      refine ext_getElem? fun j => ?_
      rw [getElem?_map, getElem?_map, getElem?_modify]
      by_cases hij : i = j
      · subst hij
        have hsource : g.source { a with source := g.label m } = m := (hl.label m hm).2
        simp [ha, traced, hsource, horigin]
      · simp [hij]
    · rw [node_setSource_of_ne hvn]

lemma expression_eq (hc : c.Lists c.order) (hco : c.Ordered c.order) (hg : g.Lists l)
    (hgo : g.Ordered l) (hn : n ∈ l) : g.expression n = c.expression (origin n) := by
  -- by induction on the place of the origin
  induction hi : c.order.idxOf (origin n) using Nat.strongRecOn generalizing n with
  | ind i ih =>
    rw [Graph.expression_eq hg hgo hn, Graph.expression_eq hc hco (h.mem n hn)]
    by_cases hmem : (g.node n).isMemory
    · rw [if_pos hmem, if_pos (by rw [← h.isMemory hn, hmem]), h.memory n hn hmem]
    · rw [if_neg hmem, if_neg (by rwa [← h.isMemory hn]), Node.name, Node.name, h.op n hn,
        h.type n hn, h.data n hn]
      -- the sources compute what their origins compute, and those are the same
      have hargs : ((g.node n).args.map fun a => (a.kind, a.index, g.expression (g.source a))) =
          ((g.node n).args.map (g.traced origin)).map fun q =>
            (q.1, q.2.1, c.expression q.2.2) := by
        rw [map_map]
        refine map_congr_left fun a ha => ?_
        have hmem : g.traced origin a ∈ (c.node (origin n)).args.map (c.traced id) := by
          rw [← h.args n hn]
          exact mem_map_of_mem ha
        obtain ⟨b, hb, hba⟩ := mem_map.1 hmem
        have hsource : c.source b = origin (g.source a) := congrArg (fun q => q.2.2) hba
        have hlt := idxOf_lt_of_precedes (hco _ (h.mem n hn) b hb) hc.chain.nodup
        rw [hsource, hi] at hlt
        rw [ih _ hlt (hgo n hn a ha).left_mem rfl]
        rfl
      rw [hargs, h.args n hn, map_map]
      rfl

end Covers

end Graph

end KernelFusion
