/-
Programs in which values are defined before they are used.

In an *ordered* program every argument comes from a node in front. In a *linked* one the labels of
the listed nodes stand for them. An *arranged* program is both, its clusters are runs that start
with their heads, and it records: this is all that the passes need.
-/
import KernelFusion.Proofs.Graph.Grouped

namespace KernelFusion.Graph

variable {g g' : Graph} {l l₁ l₂ : List NodeId} {n m : NodeId} {k : ClusterId} {a : Argument}
  {op : Operation} {type : Scalar} {args : List Argument}

/-! ### Ordered programs -/

/-- Every argument of a listed node comes from a node in front of it. -/
def Ordered (g : Graph) (l : List NodeId) : Prop :=
  ∀ n ∈ l, ∀ a ∈ (g.node n).args, Precedes l (g.source a) n

instance {l : List NodeId} : Decidable (g.Ordered l) :=
  inferInstanceAs (Decidable (∀ n ∈ l, ∀ a ∈ (g.node n).args, _))

lemma Ordered.source_mem (h : g.Ordered l) (hl : l.Nodup) (hsplit : l = l₁ ++ n :: l₂)
    (ha : a ∈ (g.node n).args) : g.source a ∈ l₁ := by
  subst hsplit
  exact (h n (by simp) a ha).mem_of_right hl

lemma Ordered.of_args (h : g.Ordered l) (hlabels : g'.labels = g.labels)
    (hargs : ∀ n ∈ l, ∀ a ∈ (g'.node n).args, a ∈ (g.node n).args ∨ Precedes l (g.source a) n) :
    g'.Ordered l := by
  intro n hn a ha
  have hsource : g'.source a = g.source a := by rw [source, source, target, target, hlabels]
  rw [hsource]
  rcases hargs n hn a ha with hold | hprec
  · exact h n hn a hold
  · exact hprec

/-! ### Labels of listed nodes -/

/-- The labels of the listed nodes stand for them, and their arguments name labels that exist. -/
structure Linked (g : Graph) (l : List NodeId) : Prop extends g.Lists l where
  label : ∀ n ∈ l, g.label n < g.labels.size ∧ g.target (g.label n) = n
  inside : ∀ n ∈ l, ∀ a ∈ (g.node n).args, a.source < g.labels.size

namespace Linked

lemma congr (h : g.Linked l) (hnodes : g'.nodes = g.nodes) (hchain : g'.chain = g.chain)
    (hlabels : g'.labels = g.labels) (hfirst : g'.first = g.first) : g'.Linked l := by
  refine ⟨h.toLists.congr hchain hfirst (by rw [hnodes]), fun n hn => ?_, fun n hn a ha => ?_⟩
  · rw [Graph.label, node, Graph.target, hlabels, hnodes]
    exact h.label n hn
  · rw [node, hnodes] at ha
    rw [hlabels]
    exact h.inside n hn a ha

lemma source_insert (h : g.Linked l) (hn : n ∈ l) (ha : a ∈ (g.node n).args) :
    (g.insert op type args).source a = g.source a :=
  target_insert_of_ne (Nat.ne_of_lt (h.inside n hn a ha))

lemma insert (h : g.Linked (l₁ ++ l₂)) (hs : g.Splits l₁ l₂)
    (hargs : ∀ x ∈ args, x.source < g.labels.size) :
    (g.insert op type args).Linked (l₁ ++ g.nodes.size :: l₂) := by
  have hsize : (g.insert op type args).labels.size = g.labels.size + 1 := by simp [Graph.insert]
  refine ⟨?_, fun v hv => ?_, fun v hv x hx => ?_⟩
  · have hlists := (hs.insert op type args).toLists
    simpa using hlists
  · rw [hsize]
    rcases mem_append_cons.1 hv with rfl | hv
    · rw [Graph.label, node_insert_self]
      exact ⟨Nat.lt_succ_self _, target_insert_self⟩
    · obtain ⟨hlt, htarget⟩ := h.label v hv
      rw [Graph.label, h.toLists.node_insert hv]
      exact ⟨Nat.lt_succ_of_lt hlt, (target_insert_of_ne (Nat.ne_of_lt hlt)).trans htarget⟩
  · rw [hsize]
    rcases mem_append_cons.1 hv with rfl | hv
    · rw [node_insert_self] at hx
      exact Nat.lt_succ_of_lt (hargs x hx)
    · rw [h.toLists.node_insert hv] at hx
      exact Nat.lt_succ_of_lt (h.inside v hv x hx)

lemma modifyNode (h : g.Linked l) {f : Node → Node} (hlabel : ∀ x, (f x).label = x.label)
    (hargs : ∀ x, ∀ a ∈ (f x).args, a ∈ x.args ∨ a.source < g.labels.size) :
    (g.modifyNode n f).Linked l := by
  refine ⟨h.toLists.congr rfl rfl size_nodes_modifyNode, fun v hv => ?_, fun v hv x hx => ?_⟩
  · rw [Graph.label, modifyNode_congr Node.label hlabel]
    exact h.label v hv
  · rw [node_modifyNode] at hx
    split at hx
    · rcases hargs _ x hx with hx | hx
      · exact h.inside v hv x hx
      · exact hx
    · exact h.inside v hv x hx

lemma ordered_insert (h : g.Linked (l₁ ++ l₂)) (ho : g.Ordered (l₁ ++ l₂))
    (hargs : ∀ x ∈ args, x.source < g.labels.size ∧ g.source x ∈ l₁) :
    (g.insert op type args).Ordered (l₁ ++ g.nodes.size :: l₂) := by
  intro v hv x hx
  rcases mem_append_cons.1 hv with rfl | hv
  · rw [node_insert_self] at hx
    obtain ⟨hlt, hmem⟩ := hargs x hx
    have hsource : (g.insert op type args).source x = g.source x :=
      target_insert_of_ne (Nat.ne_of_lt hlt)
    rw [hsource]
    exact Precedes.of_mem hmem (by simp)
  · rw [h.toLists.node_insert hv] at hx
    rw [h.source_insert hv hx]
    exact (ho v hv x hx).mono sublist_insert

end Linked

/-! ### Arranged programs -/

/-- The state of a program that the passes work on. -/
structure Arranged (g : Graph) (l : List NodeId) : Prop where
  linked : g.Linked l
  ordered : g.Ordered l
  runs : g.Runs (fun _ => true) l
  recording : g.recording

namespace Arranged

lemma lists (h : g.Arranged l) : g.Lists l := h.linked.toLists

lemma congr (h : g.Arranged l) (hnodes : g'.nodes = g.nodes) (hchain : g'.chain = g.chain)
    (hlabels : g'.labels = g.labels) (hclusters : g'.clusters = g.clusters)
    (hfirst : g'.first = g.first) (hrecording : g'.recording = g.recording) : g'.Arranged l := by
  have hnode : ∀ n, g'.node n = g.node n := fun n => by rw [node, node, hnodes]
  refine ⟨h.linked.congr hnodes hchain hlabels hfirst,
    h.ordered.of_args hlabels fun n _ a ha => .inl (hnode n ▸ ha), ?_, hrecording.trans h.recording⟩
  · exact h.runs.congr (fun n _ => by rw [hnode]) (fun n _ => by rw [hnode])
      fun _ _ k _ => by rw [head?, head?, hclusters]

/-- Moving an argument to an earlier node keeps the order. -/
lemma setSource (h : g.Arranged l) (hs : Precedes l m n) (i : Nat) :
    (g.setSource n i m).Arranged l := by
  obtain ⟨hlt, htarget⟩ := h.linked.label m hs.left_mem
  refine ⟨h.linked.modifyNode (fun _ => rfl) fun x a ha => ?_,
    h.ordered.of_args rfl fun v hv x hx => ?_, ?_, h.recording⟩
  · rcases mem_modify ha with ha | ha
    · exact .inl ha
    · exact .inr (ha ▸ hlt)
  · by_cases hvn : v = n
    · subst hvn
      rw [args_setSource_self (h.lists.lt_size hv)] at hx
      rcases mem_modify hx with hx | hx
      · exact .inl hx
      · rw [Graph.source, hx, htarget]
        exact .inr hs
    · rw [node_setSource_of_ne hvn] at hx
      exact .inl hx
  · exact h.runs.congr (fun v _ => modifyNode_congr Node.op fun _ => rfl)
      (fun v _ => modifyNode_congr Node.cluster fun _ => rfl) fun _ _ _ _ => rfl

end Arranged

end KernelFusion.Graph
