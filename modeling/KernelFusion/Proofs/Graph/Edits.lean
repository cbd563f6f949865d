/-
What edits leave alone.

As long as no users are moved from one node to another, every label stands for the node of the same
index (`Graph.Labelled`). What a series of edits leaves alone is said by `Outline`, `Frame`,
`Extended` and `Grown`, each of which says more than the one before.
-/
import KernelFusion.Graph.Edit
import Mathlib.Tactic.Lemma

namespace KernelFusion

variable {l : LabelId}

lemma mem_modify {args : List Argument} {i : Nat} {x : Argument}
    (h : x ∈ args.modify i fun a => { a with source := l }) : x ∈ args ∨ x.source = l := by
  obtain ⟨j, hj⟩ := List.mem_iff_getElem?.1 h
  rw [List.getElem?_modify, Option.map_eq_map, Option.map_eq_some_iff] at hj
  obtain ⟨a, ha, rfl⟩ := hj
  by_cases hij : i = j
  · exact .inr (by simp [hij])
  · exact .inl (by simpa [hij] using List.mem_of_getElem? ha)

namespace Graph

variable {g : Graph} {n m : NodeId} {op : Operation} {type : Scalar} {args : List Argument}
  {data : List UInt32} {f : Node → Node} {a : Argument}

/-! ### Looking up nodes and labels -/

@[simp] lemma size_nodes_insert : (g.insert op type args).nodes.size = g.nodes.size + 1 := by
  simp [insert]

@[simp] lemma size_nodes_modifyNode :
    (g.modifyNode n f).nodes.size = g.nodes.size := by
  simp [modifyNode]

lemma node_eq_default (h : g.nodes.size ≤ n) : g.node n = default := by
  simp [node, Array.getElem?_eq_none h]

lemma node_insert_self : (g.insert op type args).node g.nodes.size =
    { op, type, args, label := g.labels.size, cluster := g.current } := by
  simp [node, insert]

lemma node_insert_of_ne (h : n ≠ g.nodes.size) : (g.insert op type args).node n = g.node n := by
  simp only [node, insert, Array.getD_eq_getD_getElem?, Array.getElem?_push, if_neg h]

lemma lt_size_of_node {P : Node → Prop} (h : P (g.node n)) (hdefault : ¬ P default) :
    n < g.nodes.size :=
  Nat.lt_of_not_le fun hge => hdefault (node_eq_default hge ▸ h)

/-- What holds of the new node and of all others holds of every node. -/
lemma forall_node_insert {P : NodeId → Node → Prop}
    (hnew : P g.nodes.size { op, type, args, label := g.labels.size, cluster := g.current })
    (hold : ∀ m, m ≠ g.nodes.size → P m (g.node m)) (m : NodeId) :
    P m ((g.insert op type args).node m) := by
  by_cases hm : m = g.nodes.size
  · subst hm
    rw [node_insert_self]
    exact hnew
  · rw [node_insert_of_ne hm]
    exact hold m hm

lemma node_modifyNode_self (h : n < g.nodes.size) :
    (g.modifyNode n f).node n = f (g.node n) := by
  simp only [node, modifyNode, Array.getD_eq_getD_getElem?, Array.getElem?_modify, if_pos]
  simp [h]

lemma node_modifyNode_of_ne (h : m ≠ n) :
    (g.modifyNode n f).node m = g.node m := by
  simp [node, modifyNode, Array.getElem?_modify, Ne.symm h]

lemma node_modifyNode (f : Node → Node) :
    (g.modifyNode n f).node m = if m = n ∧ n < g.nodes.size then f (g.node m) else g.node m := by
  by_cases hm : m = n
  · subst hm
    by_cases hlt : m < g.nodes.size
    · rw [node_modifyNode_self hlt, if_pos ⟨rfl, hlt⟩]
    · have hge := Nat.le_of_not_lt hlt
      rw [if_neg fun h => hlt h.2, node_eq_default hge, node_eq_default (by simpa using hge)]
  · rw [node_modifyNode_of_ne hm, if_neg fun h => hm h.1]

lemma modifyNode_congr {β : Type} (p : Node → β) (hf : ∀ x, p (f x) = p x) :
    p ((g.modifyNode n f).node m) = p (g.node m) := by
  rw [node_modifyNode]
  split
  · exact hf _
  · rfl

lemma modifyNode_eq_self (hf : f (g.node n) = g.node n) : g.modifyNode n f = g := by
  have hnodes : g.nodes.modify n f = g.nodes := by
    refine Array.ext (by simp) fun i hi hi' => ?_
    rw [Array.getElem_modify]
    split
    · subst_vars
      simpa [node, hi'] using hf
    · rfl
  rw [modifyNode, hnodes]

/-- A node that enters and gets its words at once. -/
def insertWith (g : Graph) (op : Operation) (type : Scalar) (args : List Argument)
    (data : List UInt32) : Graph :=
  (g.insert op type args).setData g.nodes.size data

lemma insertWith_nil : g.insertWith op type args [] = g.insert op type args :=
  modifyNode_eq_self (by rw [node_insert_self])

lemma node_insertWith_self : (g.insertWith op type args data).node g.nodes.size =
    { op, type, args, data, label := g.labels.size, cluster := g.current } := by
  rw [insertWith, setData, node_modifyNode_self (by simp), node_insert_self]

lemma node_insertWith_of_lt (hn : n < g.nodes.size) :
    (g.insertWith op type args data).node n = g.node n := by
  rw [insertWith, setData, node_modifyNode_of_ne (Nat.ne_of_lt hn),
    node_insert_of_ne (Nat.ne_of_lt hn)]

lemma size_nodes_insertWith : (g.insertWith op type args data).nodes.size = g.nodes.size + 1 := by
  rw [insertWith, setData, size_nodes_modifyNode, size_nodes_insert]

lemma target_insert_self : (g.insert op type args).target g.labels.size = g.nodes.size := by
  simp [target, insert]

lemma target_insert_of_ne (h : l ≠ g.labels.size) :
    (g.insert op type args).target l = g.target l := by
  simp only [target, insert, Array.getD_eq_getD_getElem?, Array.getElem?_push, if_neg h]

/-! ### Labels -/

/-- Every label stands for the node of the same index. -/
structure Labelled (g : Graph) : Prop where
  size : g.labels.size = g.nodes.size
  target : ∀ n < g.nodes.size, g.target n = n
  label : ∀ n < g.nodes.size, g.label n = n

lemma Labelled.source (h : g.Labelled) (ha : a.source < g.nodes.size) :
    g.source a = a.source := h.target _ ha

lemma Labelled.insert (h : g.Labelled) : (g.insert op type args).Labelled := by
  refine ⟨by simp [Graph.insert, h.size], fun m hm => ?_, fun m hm => ?_⟩
  · rw [size_nodes_insert] at hm
    by_cases hlast : m = g.nodes.size
    · subst hlast
      rw [← h.size, target_insert_self, h.size]
    · rw [target_insert_of_ne (h.size ▸ hlast), h.target m (by omega)]
  · rw [size_nodes_insert] at hm
    by_cases hlast : m = g.nodes.size
    · subst hlast
      rw [Graph.label, node_insert_self]
      exact h.size
    · rw [Graph.label, node_insert_of_ne hlast]
      exact h.label m (by omega)

lemma Labelled.modifyNode (h : g.Labelled) (hf : ∀ x, (f x).label = x.label) :
    (g.modifyNode n f).Labelled := by
  refine ⟨by simpa [Graph.modifyNode] using h.size, fun m hm => ?_, fun m hm => ?_⟩
  · exact h.target m (by simpa using hm)
  · rw [Graph.label, modifyNode_congr Node.label hf]
    exact h.label m (by simpa using hm)

lemma Labelled.insertWith (h : g.Labelled) : (g.insertWith op type args data).Labelled :=
  h.insert.modifyNode fun _ => rfl

lemma Labelled.congr {g' : Graph} (h : g.Labelled) (hnodes : g'.nodes = g.nodes)
    (hlabels : g'.labels = g.labels) : g'.Labelled := by
  refine ⟨by rw [hnodes, hlabels, h.size], fun m hm => ?_, fun m hm => ?_⟩
  · rw [Graph.target, hlabels]
    exact h.target m (hnodes ▸ hm)
  · rw [Graph.label, Graph.node, hnodes]
    exact h.label m (hnodes ▸ hm)

/-! ### What passes leave alone -/

variable {g' g'' : Graph}

/-- The nodes of the first graph keep their operation and their cluster in the second one. -/
structure Outline (g g' : Graph) : Prop where
  size : g.nodes.size ≤ g'.nodes.size
  mode : g'.kernelMode = g.kernelMode
  op : ∀ n < g.nodes.size, (g'.node n).op = (g.node n).op
  cluster : ∀ n < g.nodes.size, (g'.node n).cluster = (g.node n).cluster

namespace Outline

lemma refl (g : Graph) : g.Outline g := ⟨Nat.le_refl _, rfl, fun _ _ => rfl, fun _ _ => rfl⟩

lemma trans (h : g.Outline g') (h' : g'.Outline g'') : g.Outline g'' := by
  have hlt : ∀ n < g.nodes.size, n < g'.nodes.size := fun n hn => Nat.lt_of_lt_of_le hn h.size
  refine ⟨Nat.le_trans h.size h'.size, h'.mode.trans h.mode, fun n hn => ?_, fun n hn => ?_⟩
  · rw [h'.op n (hlt n hn), h.op n hn]
  · rw [h'.cluster n (hlt n hn), h.cluster n hn]

lemma isMemory (h : g.Outline g') (hn : n < g.nodes.size) :
    (g'.node n).isMemory = (g.node n).isMemory := by
  rw [Node.isMemory, Node.isMemory, h.op n hn]

lemma of_nodes (hnodes : ∀ n < g.nodes.size, g'.node n = g.node n)
    (hsize : g.nodes.size ≤ g'.nodes.size) (hmode : g'.kernelMode = g.kernelMode) : g.Outline g' :=
  ⟨hsize, hmode, fun n hn => by rw [hnodes n hn], fun n hn => by rw [hnodes n hn]⟩

lemma insert (g : Graph) (op : Operation) (type : Scalar) (args : List Argument) :
    g.Outline (g.insert op type args) :=
  of_nodes (fun _ hn => node_insert_of_ne (Nat.ne_of_lt hn)) (by simp) rfl

lemma modifyNode (hop : ∀ x, (f x).op = x.op)
    (hcluster : ∀ x, (f x).cluster = x.cluster) : g.Outline (g.modifyNode n f) :=
  ⟨by simp, rfl, fun _ _ => modifyNode_congr Node.op hop,
    fun _ _ => modifyNode_congr Node.cluster hcluster⟩

end Outline

/-- The nodes of the first graph keep everything but their arguments in the second one. -/
structure Frame (g g' : Graph) : Prop extends g.Outline g' where
  type : ∀ n < g.nodes.size, (g'.node n).type = (g.node n).type
  data : ∀ n < g.nodes.size, (g'.node n).data = (g.node n).data

namespace Frame

lemma refl (g : Graph) : g.Frame g := ⟨Outline.refl g, fun _ _ => rfl, fun _ _ => rfl⟩

lemma trans (h : g.Frame g') (h' : g'.Frame g'') : g.Frame g'' := by
  have hlt : ∀ n < g.nodes.size, n < g'.nodes.size := fun n hn => Nat.lt_of_lt_of_le hn h.size
  refine ⟨h.toOutline.trans h'.toOutline, fun n hn => ?_, fun n hn => ?_⟩
  · rw [h'.type n (hlt n hn), h.type n hn]
  · rw [h'.data n (hlt n hn), h.data n hn]

lemma of_nodes (hnodes : ∀ n < g.nodes.size, g'.node n = g.node n)
    (hsize : g.nodes.size ≤ g'.nodes.size) (hmode : g'.kernelMode = g.kernelMode) : g.Frame g' :=
  ⟨Outline.of_nodes hnodes hsize hmode, fun n hn => by rw [hnodes n hn],
    fun n hn => by rw [hnodes n hn]⟩

lemma setSource (g : Graph) (n : NodeId) (i : Nat) (s : NodeId) : g.Frame (g.setSource n i s) :=
  ⟨Outline.modifyNode (fun _ => rfl) fun _ => rfl, fun _ _ =>
    modifyNode_congr Node.type fun _ => rfl, fun _ _ => modifyNode_congr Node.data fun _ => rfl⟩

end Frame

/-- Moreover labels keep standing for the nodes they stood for. -/
structure Extended (g g' : Graph) : Prop extends g.Frame g' where
  recording : g'.recording = g.recording
  label : ∀ n < g.nodes.size, g'.label n = g.label n
  labels : g.labels.size ≤ g'.labels.size
  target : ∀ i < g.labels.size, g'.target i = g.target i
  labelled : g.Labelled → g'.Labelled

namespace Extended

lemma refl (g : Graph) : g.Extended g :=
  ⟨Frame.refl g, rfl, fun _ _ => rfl, Nat.le_refl _, fun _ _ => rfl, fun h => h⟩

lemma trans (h : g.Extended g') (h' : g'.Extended g'') : g.Extended g'' := by
  refine ⟨h.toFrame.trans h'.toFrame, h'.recording.trans h.recording, fun n hn => ?_,
    Nat.le_trans h.labels h'.labels, fun i hi => ?_, fun hl => h'.labelled (h.labelled hl)⟩
  · rw [h'.label n (Nat.lt_of_lt_of_le hn h.size), h.label n hn]
  · rw [h'.target i (Nat.lt_of_lt_of_le hi h.labels), h.target i hi]

lemma source (h : g.Extended g') (ha : a.source < g.labels.size) :
    g'.source a = g.source a := h.target _ ha

lemma of_nodes (hnodes : g'.nodes = g.nodes) (hlabels : g'.labels = g.labels)
    (hrecording : g'.recording = g.recording) (hmode : g'.kernelMode = g.kernelMode) :
    g.Extended g' := by
  have hnode : ∀ n, g'.node n = g.node n := fun n => by rw [node, node, hnodes]
  refine ⟨Frame.of_nodes (fun n _ => hnode n) (Nat.le_of_eq (by rw [hnodes])) hmode, hrecording,
    fun n _ => ?_, Nat.le_of_eq (by rw [hlabels]), fun i _ => ?_, fun hl => hl.congr hnodes hlabels⟩
  · rw [Graph.label, hnode]
    rfl
  · rw [Graph.target, hlabels]
    rfl

lemma insert (g : Graph) (op : Operation) (type : Scalar) (args : List Argument) :
    g.Extended (g.insert op type args) := by
  have hnode : ∀ n < g.nodes.size, (g.insert op type args).node n = g.node n := fun n hn =>
    node_insert_of_ne (Nat.ne_of_lt hn)
  refine ⟨Frame.of_nodes hnode (by simp) rfl, rfl, fun n hn => ?_, by simp [Graph.insert],
    fun i hi => ?_, Labelled.insert⟩
  · rw [Graph.label, hnode n hn]
    rfl
  · exact target_insert_of_ne (Nat.ne_of_lt hi)

lemma modifyNode (h : g.Extended g') (hn : g.nodes.size ≤ n)
    (hlabel : ∀ x, (f x).label = x.label) : g.Extended (g'.modifyNode n f) := by
  have hnode : ∀ m < g.nodes.size, (g'.modifyNode n f).node m = g'.node m := fun m hm =>
    node_modifyNode_of_ne (Nat.ne_of_lt (Nat.lt_of_lt_of_le hm hn))
  refine ⟨⟨⟨by simpa using h.size, h.mode, fun m hm => ?_, fun m hm => ?_⟩, fun m hm => ?_,
    fun m hm => ?_⟩, h.recording, fun m hm => ?_, h.labels, h.target,
    fun hl => (h.labelled hl).modifyNode hlabel⟩
  · rw [hnode m hm, h.op m hm]
  · rw [hnode m hm, h.cluster m hm]
  · rw [hnode m hm, h.type m hm]
  · rw [hnode m hm, h.data m hm]
  · rw [Graph.label, hnode m hm]
    exact h.label m hm

lemma insertWith (g : Graph) (op : Operation) (type : Scalar) (args : List Argument)
    (data : List UInt32) : g.Extended (g.insertWith op type args data) :=
  (Extended.insert g op type args).modifyNode (Nat.le_refl _) fun _ => rfl

lemma setSource (g : Graph) (n : NodeId) (i : Nat) (s : NodeId) : g.Extended (g.setSource n i s) :=
  ⟨Frame.setSource g n i s, rfl, fun _ _ => modifyNode_congr Node.label fun _ => rfl, Nat.le_refl _,
    fun _ _ => rfl, fun hl => hl.modifyNode fun _ => rfl⟩

lemma setRole (g : Graph) (n : NodeId) (role : MemoryRole) (slot : Int) :
    g.Extended (g.setRole n role slot) :=
  ⟨⟨Outline.modifyNode (fun _ => rfl) fun _ => rfl, fun _ _ =>
    modifyNode_congr Node.type fun _ => rfl,
    fun _ _ => modifyNode_congr Node.data fun _ => rfl⟩, rfl,
    fun _ _ => modifyNode_congr Node.label fun _ => rfl, Nat.le_refl _, fun _ _ => rfl,
    fun hl => hl.modifyNode fun _ => rfl⟩

end Extended

/-- Only the nodes of the first graph have roles in the second one, the same ones. -/
def SameRoles (g g' : Graph) : Prop :=
  ∀ n, (g'.node n).role = (g.node n).role ∧ (g'.node n).slot = (g.node n).slot

namespace SameRoles

lemma refl (g : Graph) : g.SameRoles g := fun _ => ⟨rfl, rfl⟩

lemma trans (h : g.SameRoles g') (h' : g'.SameRoles g'') : g.SameRoles g'' := fun n =>
  ⟨(h' n).1.trans (h n).1, (h' n).2.trans (h n).2⟩

lemma of_nodes (hnodes : g'.nodes = g.nodes) : g.SameRoles g' := fun n => by
  rw [node, hnodes]
  exact ⟨rfl, rfl⟩

lemma insert (g : Graph) (op : Operation) (type : Scalar) (args : List Argument) :
    g.SameRoles (g.insert op type args) := by
  refine forall_node_insert (P := fun n x => x.role = (g.node n).role ∧ x.slot = (g.node n).slot) ?_
    fun _ _ => ⟨rfl, rfl⟩
  rw [node_eq_default (Nat.le_refl _)]
  exact ⟨rfl, rfl⟩

lemma modifyNode (hrole : ∀ x, (f x).role = x.role ∧ (f x).slot = x.slot) :
    g.SameRoles (g.modifyNode n f) := fun _ =>
  ⟨modifyNode_congr Node.role fun x => (hrole x).1, modifyNode_congr Node.slot fun x => (hrole x).2⟩

end SameRoles

/-- Moreover roles stay, and nothing enters at the end. -/
structure Grown (g g' : Graph) : Prop extends g.Extended g' where
  last : g'.last = g.last
  roles : g.SameRoles g'

namespace Grown

lemma refl (g : Graph) : g.Grown g := ⟨Extended.refl g, rfl, SameRoles.refl g⟩

lemma trans (h : g.Grown g') (h' : g'.Grown g'') : g.Grown g'' :=
  ⟨h.toExtended.trans h'.toExtended, h'.last.trans h.last, h.roles.trans h'.roles⟩

lemma of_nodes (hnodes : g'.nodes = g.nodes) (hlabels : g'.labels = g.labels)
    (hrecording : g'.recording = g.recording) (hmode : g'.kernelMode = g.kernelMode)
    (hlast : g'.last = g.last) : g.Grown g' :=
  ⟨Extended.of_nodes hnodes hlabels hrecording hmode, hlast, SameRoles.of_nodes hnodes⟩

lemma insert (hfollowing : g.following ≠ none) : g.Grown (g.insert op type args) := by
  refine ⟨Extended.insert g op type args, ?_, SameRoles.insert g op type args⟩
  have hlast : (g.insert op type args).last =
      if g.following = none then some g.nodes.size else g.last := rfl
  rw [hlast, if_neg hfollowing]

lemma modifyNode (h : g.Grown g') (hn : g.nodes.size ≤ n) (hlabel : ∀ x, (f x).label = x.label)
    (hrole : ∀ x, (f x).role = x.role ∧ (f x).slot = x.slot) : g.Grown (g'.modifyNode n f) :=
  ⟨h.toExtended.modifyNode hn hlabel, h.last, h.roles.trans (SameRoles.modifyNode hrole)⟩

lemma setSource (g : Graph) (n : NodeId) (i : Nat) (s : NodeId) : g.Grown (g.setSource n i s) :=
  ⟨Extended.setSource g n i s, rfl, SameRoles.modifyNode fun _ => ⟨rfl, rfl⟩⟩

end Grown

/-! ### Moving arguments -/

lemma args_setSource_self (hn : n < g.nodes.size) (i : Nat) :
    ((g.setSource n i m).node n).args =
      (g.node n).args.modify i fun a => { a with source := g.label m } := by
  rw [Graph.setSource, node_modifyNode_self hn]

lemma getElem?_args_setSource (hn : n < g.nodes.size) (i : Nat) (v : NodeId) (j : Nat) :
    ((g.setSource n i m).node v).args[j]? =
      if v = n ∧ j = i then (g.node n).args[i]?.map fun a => { a with source := g.label m }
      else (g.node v).args[j]? := by
  by_cases hv : v = n
  · subst hv
    rw [args_setSource_self hn, List.getElem?_modify]
    by_cases hj : j = i
    · subst hj
      simp
    · simp [hj, Ne.symm hj]
  · rw [if_neg fun h => hv h.1, Graph.setSource, node_modifyNode_of_ne hv]

lemma node_setSource_of_ne {v : NodeId} (hv : v ≠ n) (i : Nat) :
    (g.setSource n i m).node v = g.node v := node_modifyNode_of_ne hv

end Graph

end KernelFusion
