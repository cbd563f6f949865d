/-
Recorded graphs are well formed.

Nodes take their arguments from earlier nodes, number their sizes from zero on, and are typed: one
overload of the operation takes the types of the values and gives the type of the node, and a load
has the type of its memory. Types are followed along the history.
-/
import KernelFusion.Proofs.Graph.Precedes
import KernelFusion.Proofs.Recording.Invariants

namespace KernelFusion

open List

lemma Operation.inputs_of_maker {op : Operation} {o : Overload} (h : op ∈ table)
    (hname : op.name ∈ ["const", "memory", "dim_id", "thread_id"]) (ho : o ∈ op.overloads) :
    o.inputs = [] := by
  have hall : ∀ op ∈ table, op.name ∈ ["const", "memory", "dim_id", "thread_id"] →
      ∀ o ∈ op.overloads, o.inputs = [] := by decide +kernel
  exact hall op h hname o ho

lemma map_index_block {k : ArgKind} {ls : List LabelId} :
    (block k ls).map (·.index) = (range ls.length).map Int.ofNat := by
  refine ext_getElem? fun i => ?_
  rw [getElem?_map, getElem?_block, Option.map_map, getElem?_map]
  by_cases hi : i < ls.length
  · rw [getElem?_eq_getElem hi, getElem?_range hi]
    rfl
  · rw [getElem?_eq_none (Nat.le_of_not_lt hi), getElem?_eq_none (by simpa using hi)]
    rfl

namespace Graph

variable {p : Policy} {g g' : Graph} {n : NodeId} {op : Operation} {type : Scalar}
  {args : List Argument}

/-! ### Typed nodes -/

/-- The node is typed: an overload of its operation takes the types of its values and gives its own
type. A load is the exception, and has the type of its memory. -/
structure Typechecks (g : Graph) (n : NodeId) : Prop where
  overload : (g.node n).op.name ≠ "load" →
    ∃ o ∈ (g.node n).op.overloads, o.inputs = g.inputTypes n ∧ o.output = (g.node n).type
  load : (g.node n).op.name = "load" →
    ∃ a, (g.node n).arguments .memory = [a] ∧ (g.node n).type = (g.node (g.source a)).type

lemma Typechecks.of_overload? {o : Overload} (hload : (g.node n).op.name ≠ "load")
    (ho : (g.node n).op.overload? (g.inputTypes n) = some o) (htype : o.output = (g.node n).type) :
    g.Typechecks n := by
  obtain ⟨hmem, hinputs⟩ := Operation.mem_of_overload? ho
  exact ⟨fun _ => ⟨o, hmem, hinputs, htype⟩, fun hname => absurd hname hload⟩

lemma Typechecks.congr {n' : NodeId} (h : g.Typechecks n) (hop : (g'.node n').op = (g.node n).op)
    (htype : (g'.node n').type = (g.node n).type) (hargs : (g'.node n').args = (g.node n).args)
    (hsources : ∀ a ∈ (g.node n).args, (g'.node (g'.source a)).type = (g.node (g.source a)).type) :
    g'.Typechecks n' := by
  have harguments : ∀ k, (g'.node n').arguments k = (g.node n).arguments k := fun k => by
    rw [Node.arguments, Node.arguments, hargs]
  have hinputs : g'.inputTypes n' = g.inputTypes n := by
    rw [inputTypes, inputTypes, harguments]
    exact map_congr_left fun a ha => hsources a (Node.mem_arguments.1 ha).1
  refine ⟨fun hname => ?_, fun hname => ?_⟩
  · rw [hop] at hname ⊢
    rw [hinputs, htype]
    exact h.overload hname
  · rw [hop] at hname
    obtain ⟨a, ha, hmemory⟩ := h.load hname
    have hmem : a ∈ (g.node n).arguments .memory := by simp [ha]
    exact ⟨a, (harguments .memory).trans ha,
      by rw [htype, hmemory, hsources a (Node.mem_arguments.1 hmem).1]⟩

lemma Changes.sourceType_eq (h : g.RecordedUnder p) (hc : Changes p g g') (hn : n < g.nodes.size)
    {a : Argument} (ha : a ∈ (g.node n).args) :
    (g'.node (g'.source a)).type = (g.node (g.source a)).type := by
  have hlt : a.source < g.nodes.size := Nat.lt_trans (h.earlier n a ha) hn
  rw [(h.changes hc).labelled.source (Nat.lt_of_lt_of_le hlt hc.size_le), h.labelled.source hlt,
    (hc.node hlt).2.1]

lemma arguments_memory_insert {m : NodeId} {is xs ls : List NodeId} :
    ((g.insert op type (block .memory [m] ++ block .input xs ++ block .index is ++
      block .shape ls)).node g.nodes.size).arguments .memory = [⟨.memory, 0, m⟩] := by
  rw [node_insert_self]
  refine (Node.arguments_of_block ?_ : _ = block .memory [m])
  simp [filter_append, filter_block_self, filter_block_of_ne]

lemma Admits.typechecks (h : g.RecordedUnder p) (hwhole : p.whole)
    (hall : ∀ m < g.nodes.size, g.Typechecks m) (ha : g.Admits p op type args) :
    (g.insert op type args).Typechecks g.nodes.size := by
  have hrecorded := h.changes (.enter ha)
  have hnode : (g.insert op type args).node g.nodes.size =
    { op, type, args, label := g.labels.size, cluster := g.current } := node_insert_self
  have hload : op ∈ Operation.table → op.kind.accesses = false → op.name ≠ "load" :=
    fun hop haccess hname => by
      rw [Operation.accesses_of_load hop hname] at haccess
      cases haccess
  cases ha with
  | @value _ o ns ls hop _ haccess _ hns ho _ =>
    refine .of_overload? (o := o) (by rw [hnode]; exact hload hop haccess) ?_ (by rw [hnode])
    rw [hnode, inputTypes_value h.labelled hns]
    exact ho
  | @access _ o m is xs ls _ _ _ _ hm _ _ hxs ho _ _ =>
    by_cases hname : op.name = "load"
    · refine ⟨fun hne => absurd (by rw [hnode]; exact hname) hne, fun _ => ?_⟩
      refine ⟨_, arguments_memory_insert, ?_⟩
      have hlt : m < (g.insert op (if op.name = "load" then (g.node m).type else o.output)
          (block .memory [m] ++ block .input xs ++ block .index is ++
          block .shape ls)).nodes.size := by
        simpa using Nat.lt_succ_of_lt hm.1
      rw [hrecorded.labelled.source hlt, hnode, node_insert_of_ne (Nat.ne_of_lt hm.1)]
      exact if_pos hname
    · refine .of_overload? (o := o) (by rw [hnode]; exact hname) ?_ ?_
      · rw [hnode, inputTypes_access h.labelled hxs]
        exact ho
      · rw [hnode]
        exact (if_neg hname).symm
  | @source _ _ ls hop _ haccess hyields _ halone =>
    obtain ⟨o, ho, houtput⟩ := any_eq_true.1 hyields
    -- the policy lets operations without operands enter in this form, and no others
    have hnil : o.inputs = [] := by
      rw [Policy.alone, hwhole] at halone
      simpa using all_eq_true.1 halone o ho
    refine ⟨fun _ => ⟨o, by rwa [hnode], ?_, ?_⟩, fun hname => absurd ?_ (hload hop haccess)⟩
    · rw [hnil, inputTypes_source h.labelled]
    · rw [hnode]
      exact of_decide_eq_true houtput
    · rw [hnode] at hname
      exact hname
  | @copy m hm =>
    refine (hall m hm.1).congr (by rw [hnode]) (by rw [hnode]) (by rw [hnode]) fun a ha => ?_
    exact Changes.sourceType_eq h (.enter (.copy hm)) hm.1 ha

lemma Traces.typechecks (ht : Traces p opened g) (hwhole : p.whole) :
    ∀ m < g.nodes.size, g.Typechecks m := by
  refine ht.forall_nodes (fun h hc hlt hm => ?_) fun h ha hall => ha.typechecks h hwhole hall
  obtain ⟨hop, htype, hargs⟩ := hc.node hlt
  exact hm.congr hop htype hargs fun a ha => hc.sourceType_eq h hlt ha

/-! ### Well-formed graphs -/

/-- The listed nodes take their arguments from nodes listed in front of them, number their sizes
from zero on, and are typed. What makes a value from nothing has an overload without operands. -/
structure WellFormed (g : Graph) : Prop where
  earlier : ∀ n ∈ g.order, ∀ a ∈ (g.node n).args, Precedes g.order (g.source a) n
  sizes : ∀ n ∈ g.order, ∃ rank : Nat,
    ((g.node n).args.filter fun a => a.kind = .shape).map (·.index) =
    (range rank).map Int.ofNat
  typechecks : ∀ n ∈ g.order, g.Typechecks n
  makers : ∀ n ∈ g.order, (g.node n).op.name ∈ ["const", "memory", "dim_id", "thread_id"] →
    g.inputTypes n = [] ∧ ⟨[], (g.node n).type⟩ ∈ (g.node n).op.overloads

lemma Recorded.precedes_source (h : g.Recorded) (hn : n ∈ g.order) {a : Argument}
    (ha : a ∈ (g.node n).args) : Precedes g.order (g.source a) n := by
  rw [h.order] at hn ⊢
  have hlt := h.earlier n a ha
  have hn := mem_range.1 hn
  rw [h.labelled.source (Nat.lt_trans hlt hn)]
  exact precedes_range_iff.2 ⟨hlt, hn⟩

/-- For every sequence of calls of functions on tensors, loops included and whichever of the calls
fail: if operations that take operands are only recorded with operands, then the graph is well
formed. -/
theorem wellFormed_of_calls {l : List Step} (hl : Step.allRegular l = true)
    (hp : Step.allObey .complete l = true) : (Script.scene l).graph.WellFormed := by
  obtain ⟨hscene, ht⟩ := Script.history hl hp
  have h := hscene.graph.toRecorded
  have hlt : ∀ n ∈ (Script.scene l).graph.order, n < (Script.scene l).graph.nodes.size :=
    fun n hn => by
    rw [h.order] at hn
    exact mem_range.1 hn
  refine ⟨fun n hn a ha => h.precedes_source hn ha, fun n _ => ?_,
    fun n hn => ht.typechecks rfl n (hlt n hn), fun n hn hname => ?_⟩
  · exact ⟨_, by rw [(h.regular n).blocks .shape, map_index_block]⟩
  · have hnot : ((Script.scene l).graph.node n).op.name ≠ "load" := fun hload => by
      rw [hload] at hname
      exact absurd hname (by decide)
    obtain ⟨o, ho, hinputs, houtput⟩ := (ht.typechecks rfl n (hlt n hn)).overload hnot
    have hnil := Operation.inputs_of_maker (ht.known n (hlt n hn)).table hname ho
    rw [← hinputs, ← hnil, ← houtput]
    exact ⟨rfl, ho⟩

/-- A loop that scatters what it loads into an input. The store at an index that is no integer
fails, and so does the sum of numbers of different types. -/
def accumulation : List Step :=
  [ .act (.input .int (.sizes [4, -1])) (some "A"),
    .act (.indices (.like "A")) (some "i"),
    .act (.threadIndex (.like "A")) (some "t"),
    .act (.constant .float 0x3f800000 (.sizes [2])) (some "c"),
    .act (.store "A" "t" ["c"]) none,
    .act (.call (.folding .add) ["A", "c"]) none,
    .act (.constant .int 0 (.sizes [])) (some "z"),
    .act (.constant .int 3 (.sizes [])) (some "n"),
    .act (.constant .int 1 (.sizes [])) (some "o"),
    .loop "z" "n" "o" (some "k")
      [ .act (.load "A" ["i.0", "k"]) (some "x"),
        .act (.call (.folding .mul) ["x", "k"]) (some "y"),
        .act (.scatter .add "A" "y" ["i.0", "i.1"]) none ],
    .act (.copy "x") (some "w") ]

theorem wellFormed_accumulation : (Script.scene accumulation).graph.WellFormed ∧
    (Script.scene accumulation).graph.order = range 17 :=
  ⟨wellFormed_of_calls (by decide +kernel) (by decide +kernel), by decide +kernel⟩

end Graph

end KernelFusion
