/-
Graphs whose clusters are runs of the program.

The clusters of a graph are *runs* if the nodes of a cluster stand next to each other and its head
belongs to it. In a *grouped* graph moreover no cluster mixes memory with other nodes, and only
memory may be outside of all clusters. A pass that puts new nodes in front of heads or takes heads
out lets the clusters still *span* the nodes that were there when it began.
-/
import KernelFusion.Proofs.Graph.Edits
import KernelFusion.Proofs.Graph.Precedes

namespace KernelFusion

open List

lemma takeWhile_eq_filter {α : Type} {q : α → Bool} {l : List α}
    (h : ∀ x y, Precedes l x y → q y → q x) : l.takeWhile q = l.filter q := by
  induction l with
  | nil => rfl
  | cons a l ih =>
    have hrest : l.takeWhile q = l.filter q :=
      ih fun x y hxy => h x y (Precedes.cons_iff.2 (.inr hxy))
    cases ha : q a with
    | true => rw [takeWhile_cons_of_pos ha, filter_cons_of_pos ha, hrest]
    | false =>
      rw [takeWhile_cons_of_neg (by simp [ha]), filter_cons_of_neg (by simp [ha])]
      -- behind the first element that fails no other one holds
      refine (filter_eq_nil_iff.2 fun y hy hqy => ?_).symm
      have hqa := h a y (Precedes.cons_iff.2 (.inl ⟨rfl, hy⟩)) hqy
      rw [ha] at hqa
      cases hqa

namespace Graph

/-- The clusters are runs of the program; nodes of the kinds that `p` selects are not in front of
the head of their cluster. -/
structure Runs (g : Graph) (p : OpKind → Bool) (l : List NodeId) : Prop where
  between : ∀ {x y z k}, Precedes l x y → Precedes l y z → (g.node x).cluster = some k →
    (g.node z).cluster = some k → (g.node y).cluster = some k
  head : ∀ {n k}, n ∈ l → (g.node n).cluster = some k → ∃ h, g.head? k = some h ∧ h ∈ l ∧
    (g.node h).cluster = some k ∧ (p (g.node n).op.kind → h = n ∨ Precedes l h n)

/-- The clusters are runs, they do not mix memory with other nodes, and they hold all other
nodes. -/
structure Grouped (g : Graph) (p : OpKind → Bool) (l : List NodeId) : Prop extends g.Runs p l where
  apart : ∀ {n m k}, n ∈ l → m ∈ l → (g.node n).cluster = some k → (g.node m).cluster = some k →
    (g.node n).isMemory = (g.node m).isMemory
  clustered : ∀ {n}, n ∈ l → (g.node n).isMemory = false → ∃ k, (g.node n).cluster = some k

/-- The clusters are runs of the program; nodes below `z` are not in front of the head of their
cluster. -/
structure Spans (g : Graph) (z : NodeId) (l : List NodeId) : Prop where
  between : ∀ {x y w k}, Precedes l x y → Precedes l y w → (g.node x).cluster = some k →
    (g.node w).cluster = some k → (g.node y).cluster = some k
  head : ∀ {n k}, n ∈ l → n < z → (g.node n).cluster = some k → ∃ h, g.head? k = some h ∧ h ∈ l ∧
    (g.node h).cluster = some k ∧ (h = n ∨ Precedes l h n)

variable {g g' : Graph} {p q : OpKind → Bool} {l l₁ l₂ a b l' : List NodeId}
  {n m w h z x y v : NodeId} {k : ClusterId} {op : Operation} {type : Scalar} {args : List Argument}

namespace Runs

lemma congr (hg : g.Runs p l) (hop : ∀ n ∈ l, (g'.node n).op = (g.node n).op)
    (hcluster : ∀ n ∈ l, (g'.node n).cluster = (g.node n).cluster)
    (hhead : ∀ n ∈ l, ∀ k, (g.node n).cluster = some k → g'.head? k = g.head? k) : g'.Runs p l := by
  refine ⟨fun hxy hyz hx hz => ?_, fun hn hk => ?_⟩
  · rw [hcluster _ hxy.left_mem] at hx
    rw [hcluster _ hyz.right_mem] at hz
    rw [hcluster _ hxy.right_mem]
    exact hg.between hxy hyz hx hz
  · rw [hcluster _ hn] at hk
    obtain ⟨h, hh, hmem, hkh, hp⟩ := hg.head hn hk
    exact ⟨h, (hhead _ hn _ hk).trans hh, hmem, (hcluster h hmem).trans hkh, by rwa [hop _ hn]⟩

lemma weaken (hg : g.Runs p l) (hq : ∀ k, q k → p k) :
    g.Runs q l := by
  refine ⟨hg.between, fun hn hk => ?_⟩
  obtain ⟨h, hh, hmem, hkh, hp⟩ := hg.head hn hk
  exact ⟨h, hh, hmem, hkh, fun hqn => hp (hq _ hqn)⟩

lemma spans (hg : g.Runs p l) (hp : ∀ n ∈ l, n < z → p (g.node n).op.kind) : g.Spans z l := by
  refine ⟨hg.between, fun hn hz hk => ?_⟩
  obtain ⟨h, hh, hmem, hkh, hle⟩ := hg.head hn hk
  exact ⟨h, hh, hmem, hkh, hle (hp _ hn hz)⟩

lemma spans_zero (hg : g.Runs p l) : g.Spans 0 l :=
    hg.spans fun _ _ hz => absurd hz (Nat.not_lt_zero _)

end Runs

namespace Spans

lemma congr (hg : g.Spans z l) (hcluster : ∀ n ∈ l, (g'.node n).cluster = (g.node n).cluster)
    (hhead : ∀ k, g'.head? k = g.head? k) : g'.Spans z l := by
  refine ⟨fun hxy hyw hx hw => ?_, fun hn hz hk => ?_⟩
  · rw [hcluster _ hxy.left_mem] at hx
    rw [hcluster _ hyw.right_mem] at hw
    rw [hcluster _ hxy.right_mem]
    exact hg.between hxy hyw hx hw
  · rw [hcluster _ hn] at hk
    obtain ⟨h, hh, hmem, hkh, hle⟩ := hg.head hn hz hk
    exact ⟨h, (hhead _).trans hh, hmem, (hcluster h hmem).trans hkh, hle⟩

lemma takeWhile_eq (hg : g.Spans z (a ++ n :: b)) (hn : (g.node n).cluster = some k) :
    ((n :: b).takeWhile fun m => (g.node m).cluster = some k) =
      (n :: b).filter fun m => (g.node m).cluster = some k := by
  refine takeWhile_eq_filter fun x y hxy hy => ?_
  simp only [decide_eq_true_eq] at hy ⊢
  have hsub : (n :: b).Sublist (a ++ n :: b) := sublist_append_right _ _
  rcases mem_cons.1 hxy.left_mem with rfl | hx
  · exact hn
  · exact hg.between ((Precedes.cons_iff.2 (.inl ⟨rfl, hx⟩)).mono hsub) (hxy.mono hsub) hn hy

end Spans

namespace Grouped

lemma congr (hg : g.Grouped p l) (hop : ∀ n ∈ l, (g'.node n).op = (g.node n).op)
    (hcluster : ∀ n ∈ l, (g'.node n).cluster = (g.node n).cluster)
    (hhead : ∀ k, g'.head? k = g.head? k) : g'.Grouped p l := by
  have hmemory : ∀ n ∈ l, (g'.node n).isMemory = (g.node n).isMemory := by
    intro n hn
    rw [Node.isMemory, Node.isMemory, hop n hn]
  refine ⟨hg.toRuns.congr hop hcluster fun _ _ k _ => hhead k, fun hn hm hkn hkm => ?_,
    fun hn hmem => ?_⟩
  · rw [hcluster _ hn] at hkn
    rw [hcluster _ hm] at hkm
    rw [hmemory _ hn, hmemory _ hm]
    exact hg.apart hn hm hkn hkm
  · rw [hmemory _ hn] at hmem
    rw [hcluster _ hn]
    exact hg.clustered hn hmem

lemma weaken (hg : g.Grouped p l) (hq : ∀ k, q k → p k) :
    g.Grouped q l :=
  ⟨hg.toRuns.weaken hq, hg.apart, hg.clustered⟩

end Grouped

/-! ### Nodes that enter -/

lemma head?_replaced {j : ClusterId} {new : Option NodeId} (k : ClusterId) :
    ((if g.head? j = some h then g.clusters.setIfInBounds j new else g.clusters)[k]?).join =
      if j = k ∧ g.head? k = some h then new else g.head? k := by
  by_cases hj : j = k
  · subst hj
    by_cases hhead : g.head? j = some h
    · have hlt : j < g.clusters.size := by
        by_contra hge
        rw [head?, Array.getElem?_eq_none (Nat.le_of_not_lt hge)] at hhead
        cases hhead
      simp [hhead, hlt]
    · rw [if_neg hhead, if_neg fun hboth => hhead hboth.2, head?]
  · rw [if_neg fun hboth : j = k ∧ _ => hj hboth.1]
    split
    · rw [Array.getElem?_setIfInBounds_ne hj, head?]
    · rw [head?]

lemma head?_insert (k : ClusterId) : (g.insert op type args).head? k =
    if g.cursor ≠ none ∧ g.current = some k ∧ g.following ≠ none ∧ g.head? k = g.following
    then some g.nodes.size else g.head? k := by
  have hclusters : (g.insert op type args).clusters = g.headsWith g.nodes.size := rfl
  rw [head?, hclusters, headsWith]
  cases hcursor : g.cursor with
  | none => simp [head?]
  | some c =>
    cases hcurrent : g.current with
    | none => simp [head?]
    | some j =>
      cases hfollowing : g.following with
      | none => simp [head?]
      | some f =>
        dsimp only
        rw [head?_replaced]
        simp

/-- The place of a node, if the new node counts as the one next to it. -/
def twin (w n x : NodeId) : NodeId := if x = w then n else x

lemma twin_self : twin w n w = n := if_pos rfl

lemma twin_of_ne (h : x ≠ w) : twin w n x = x := if_neg h

/-- The program with a new node next to one of its nodes, in the same cluster. -/
structure Twinned (g g' : Graph) (n : NodeId) (l l' : List NodeId) : Prop where
  mem : ∀ v, v ∈ l' ↔ v = g.nodes.size ∨ v ∈ l
  sub : l.Sublist l'
  fresh : g.nodes.size ∉ l
  old : n ∈ l
  node : ∀ v ∈ l, g'.node v = g.node v
  self : (g'.node g.nodes.size).cluster = (g.node n).cluster
  pair : ∀ {x y}, Precedes l' x y → twin g.nodes.size n x = twin g.nodes.size n y ∨
    Precedes l (twin g.nodes.size n x) (twin g.nodes.size n y)

namespace Twinned

lemma twin_mem (ht : Twinned g g' n l l') (hv : v ∈ l') : twin g.nodes.size n v ∈ l := by
  rcases (ht.mem v).1 hv with rfl | hv
  · rw [twin_self]
    exact ht.old
  · rwa [twin_of_ne (ne_of_mem_of_not_mem hv ht.fresh)]

lemma apply_node (ht : Twinned g g' n l l') {β : Type} {q : Node → β}
    (hself : q (g'.node g.nodes.size) = q (g.node n)) (hv : v ∈ l') :
    q (g'.node v) = q (g.node (twin g.nodes.size n v)) := by
  rcases (ht.mem v).1 hv with rfl | hv
  · rw [twin_self, hself]
  · rw [twin_of_ne (ne_of_mem_of_not_mem hv ht.fresh), ht.node v hv]

lemma between (ht : Twinned g g' n l l')
    (hg : ∀ {x y z k}, Precedes l x y → Precedes l y z → (g.node x).cluster = some k →
      (g.node z).cluster = some k → (g.node y).cluster = some k)
    (hxy : Precedes l' x y) (hyz : Precedes l' y z) (hx : (g'.node x).cluster = some k)
    (hz : (g'.node z).cluster = some k) : (g'.node y).cluster = some k := by
  rw [ht.apply_node ht.self hxy.left_mem] at hx
  rw [ht.apply_node ht.self hyz.right_mem] at hz
  rw [ht.apply_node ht.self hxy.right_mem]
  rcases ht.pair hxy with heq | hxy
  · rw [← heq]
    exact hx
  · rcases ht.pair hyz with heq | hyz
    · rw [heq]
      exact hz
    · exact hg hxy hyz hx hz

lemma grouped (ht : Twinned g g' n l l') (hg : g.Grouped p l) (hruns : g'.Runs p l')
    (hmemory : (g'.node g.nodes.size).isMemory = (g.node n).isMemory) : g'.Grouped p l' := by
  refine ⟨hruns, fun hn hm hkn hkm => ?_, fun hn hmem => ?_⟩
  · rw [ht.apply_node ht.self hn] at hkn
    rw [ht.apply_node ht.self hm] at hkm
    rw [ht.apply_node hmemory hn, ht.apply_node hmemory hm]
    exact hg.apart (ht.twin_mem hn) (ht.twin_mem hm) hkn hkm
  · rw [ht.apply_node hmemory hn] at hmem
    rw [ht.apply_node ht.self hn]
    exact hg.clustered (ht.twin_mem hn) hmem

end Twinned

lemma Splits.size_notMem (hs : g.Splits l₁ l₂) : g.nodes.size ∉ l₁ ++ l₂ :=
  fun h => Nat.lt_irrefl _ (hs.toLists.lt_size h)

lemma Splits.insertWith (hs : g.Splits l₁ l₂) (op : Operation) (type : Scalar)
    (args : List Argument)
    (data : List UInt32) : (g.insertWith op type args data).Splits (l₁ ++ [g.nodes.size]) l₂ := by
  have hsplits := hs.insert op type args
  exact ⟨hsplits.toLists.congr rfl rfl size_nodes_modifyNode, hsplits.cursor, hsplits.ahead⟩

lemma Lists.node_insert (hl : g.Lists l) (hn : n ∈ l) : (g.insert op type args).node n = g.node n :=
  node_insert_of_ne (Nat.ne_of_lt (hl.lt_size hn))

lemma Splits.twinned (hs : g.Splits l₁ l₂) (op : Operation) (type : Scalar) (args : List Argument)
    (hn : (∃ b, l₂ = n :: b) ∨ ∃ a, l₁ = a ++ [n]) (hcurrent : g.current = (g.node n).cluster) :
    Twinned g (g.insert op type args) n (l₁ ++ l₂) (l₁ ++ g.nodes.size :: l₂) := by
  have hw := hs.size_notMem
  refine ⟨fun v => mem_append_cons, sublist_insert, hw, ?_, fun v hv => hs.toLists.node_insert hv,
    ?_, fun {x y} h => ?_⟩
  · rcases hn with ⟨b, rfl⟩ | ⟨a, rfl⟩
    · simp
    · simp
  · rw [node_insert_self]
    exact hcurrent
  have hold : ∀ l : List NodeId, (∀ v ∈ l, v ∈ l₁ ++ l₂) →
    l.map (twin g.nodes.size n) = l := fun l hl =>
    (map_congr_left fun v hv => twin_of_ne (ne_of_mem_of_not_mem (hl v hv) hw)).trans (map_id l)
  have hmap : (l₁ ++ g.nodes.size :: l₂).map (twin g.nodes.size n) = l₁ ++ n :: l₂ := by
    rw [map_append, map_cons, twin_self, hold l₁ fun v => mem_append_left l₂,
      hold l₂ fun v => mem_append_right l₁]
  have hxy : Precedes (l₁ ++ n :: l₂) (twin g.nodes.size n x) (twin g.nodes.size n y) :=
    hmap ▸ Sublist.map (twin g.nodes.size n) h
  rcases hxy.insert_cases with ⟨hx, hy⟩ | ⟨hy, hx⟩ | hxy
  · rw [hx]
    rcases hn with ⟨b, rfl⟩ | ⟨a, rfl⟩
    · exact (mem_cons.1 hy).imp Eq.symm Precedes.of_mem_tail
    · exact .inr (Precedes.of_mem (by simp) hy)
  · rw [hy]
    rcases hn with ⟨b, rfl⟩ | ⟨a, rfl⟩
    · exact .inr (Precedes.of_mem hx mem_cons_self)
    · rw [append_assoc]
      rcases mem_append.1 hx with hx | hx
      · exact .inr (Precedes.of_mem hx mem_cons_self)
      · exact .inl (mem_singleton.1 hx)
  · exact .inr hxy

lemma Runs.head_mono (hg : g.Runs p l) (hsub : l.Sublist l') (hnode : ∀ v ∈ l, g'.node v = g.node v)
    (hn : n ∈ l) (hk : (g.node n).cluster = some k) (hhead : g'.head? k = g.head? k) :
    ∃ h, g'.head? k = some h ∧ h ∈ l' ∧ (g'.node h).cluster = some k ∧
      (p (g.node n).op.kind → h = n ∨ Precedes l' h n) := by
  obtain ⟨h, hh, hmem, hkh, hle⟩ := hg.head hn hk
  refine ⟨h, hhead.trans hh, hsub.subset hmem, by rw [hnode h hmem, hkh], fun hp => ?_⟩
  exact (hle hp).imp id fun hprec => hprec.mono hsub

lemma precedes_of_head (hnodup : (l₁ ++ h :: l₂).Nodup)
    (hv : h = v ∨ Precedes (l₁ ++ h :: l₂) h v) :
    Precedes (l₁ ++ w :: h :: l₂) w v := by
  rcases hv with rfl | hprec
  · exact Precedes.of_mem_tail mem_cons_self
  · exact Precedes.of_mem_tail (mem_cons_of_mem _ (hprec.mem_of_left hnodup))

/-- Runs stay whole when a node is recorded before another of its cluster. -/
lemma Runs.insert_before (hg : g.Runs p (l₁ ++ n :: l₂)) (hs : g.Splits l₁ (n :: l₂))
    (hn : (g.node n).cluster = some k) (hcurrent : g.current = some k)
    (hp : p op.kind → l₁ ≠ [] ∧ p (g.node n).op.kind) :
    (g.insert op type args).Runs p (l₁ ++ g.nodes.size :: n :: l₂) := by
  have ht := hs.twinned op type args (.inl ⟨l₂, rfl⟩) (hcurrent.trans hn.symm)
  have hnodup := hs.chain.nodup
  refine ⟨ht.between hg.between, fun {v j} hv hj => ?_⟩
  by_cases hnew : g.cursor ≠ none ∧ g.current = some j ∧ g.following ≠ none ∧
      g.head? j = g.following
  · -- the node in front of which the new one enters was the head
    refine ⟨g.nodes.size, by rw [head?_insert, if_pos hnew], by simp, ?_, fun hpv => ?_⟩
    · rw [ht.self, hn, ← hcurrent, hnew.2.1]
    · rcases mem_append_cons.1 hv with rfl | hv
      · exact .inl rfl
      · rw [ht.node v hv] at hj hpv
        obtain ⟨h, hh, -, -, hle⟩ := hg.head hv hj
        have hfollow := hnew.2.2.2
        rw [hh, hs.following, head?_cons] at hfollow
        obtain rfl : h = n := Option.some.inj hfollow
        exact .inr (precedes_of_head hnodup (hle hpv))
  · rcases mem_append_cons.1 hv with rfl | hv
    · -- the new node is behind the head
      rw [ht.self, hn] at hj
      obtain rfl : k = j := Option.some.inj hj
      obtain ⟨h, hh, hmemh, hkh, hle⟩ := hg.head ht.old hn
      refine ⟨h, by rw [head?_insert, if_neg hnew, hh], ht.sub.subset hmemh,
        by rw [ht.node h hmemh, hkh], fun hpv => ?_⟩
      rw [node_insert_self] at hpv
      obtain ⟨hl₁, hpn⟩ := hp hpv
      rcases hle hpn with rfl | hprec
      · refine absurd ⟨?_, hcurrent, ?_, ?_⟩ hnew
        · rw [hs.cursor]
          simpa using hl₁
        · rw [hs.following]
          simp
        · rw [hs.following, hh]
          rfl
      · exact .inr (Precedes.of_mem (hprec.mem_of_right hnodup) (by simp))
    · rw [ht.node v hv] at hj ⊢
      exact hg.head_mono ht.sub ht.node hv hj (by rw [head?_insert, if_neg hnew])

lemma Spans.insert_before (hg : g.Spans z (l₁ ++ n :: l₂)) (hs : g.Splits l₁ (n :: l₂))
    (hz : z ≤ g.nodes.size) (hn : (g.node n).cluster = some k) (hcurrent : g.current = some k) :
    (g.insert op type args).Spans z (l₁ ++ g.nodes.size :: n :: l₂) := by
  have ht := hs.twinned op type args (.inl ⟨l₂, rfl⟩) (hcurrent.trans hn.symm)
  refine ⟨ht.between hg.between, fun {v j} hv hvz hj => ?_⟩
  have hvl : v ∈ l₁ ++ n :: l₂ :=
    (mem_append_cons.1 hv).resolve_left (Nat.ne_of_lt (Nat.lt_of_lt_of_le hvz hz))
  rw [ht.node v hvl] at hj
  obtain ⟨h, hh, hmem, hkh, hle⟩ := hg.head hvl hvz hj
  rw [head?_insert]
  split
  · -- the node in front of which the new one enters was the head
    rename_i hnew
    obtain ⟨-, hcj, -, hfollow⟩ := hnew
    rw [hh, hs.following, head?_cons] at hfollow
    obtain rfl : h = n := Option.some.inj hfollow
    exact ⟨g.nodes.size, rfl, by simp, by rw [ht.self, hn, ← hcurrent, hcj],
      .inr (precedes_of_head hs.chain.nodup hle)⟩
  · exact ⟨h, hh, ht.sub.subset hmem, by rw [ht.node h hmem, hkh],
      hle.imp id fun hprec => hprec.mono ht.sub⟩

lemma Grouped.insert_before (hg : g.Grouped p (l₁ ++ n :: l₂)) (hs : g.Splits l₁ (n :: l₂))
    (hn : (g.node n).cluster = some k) (hcurrent : g.current = some k)
    (hmem : (g.node n).isMemory = false) (hop : op.name ≠ "memory")
    (hp : p op.kind → l₁ ≠ [] ∧ p (g.node n).op.kind) :
    (g.insert op type args).Grouped p (l₁ ++ g.nodes.size :: n :: l₂) := by
  refine (hs.twinned op type args (.inl ⟨l₂, rfl⟩) (hcurrent.trans hn.symm)).grouped hg
    (hg.toRuns.insert_before hs hn hcurrent hp) ?_
  rw [node_insert_self, hmem]
  simpa [Node.isMemory] using hop

lemma Runs.insert_after (hg : g.Runs p (l₁ ++ [n] ++ l₂)) (hs : g.Splits (l₁ ++ [n]) l₂)
    (hn : (g.node n).cluster = some k) (hcurrent : g.current = some k) (hp : p (g.node n).op.kind) :
    (g.insert op type args).Runs p (l₁ ++ [n] ++ g.nodes.size :: l₂) := by
  have ht := hs.twinned op type args (.inr ⟨l₁, rfl⟩) (hcurrent.trans hn.symm)
  have hnodup : (l₁ ++ n :: l₂).Nodup := by simpa using hs.chain.nodup
  obtain ⟨h, hh, hmemh, hkh, hle⟩ := hg.head ht.old hn
  have hle : h = n ∨ Precedes (l₁ ++ n :: l₂) h n := by simpa using hle hp
  -- the head is not behind the node, so it stays the head
  have hold : ∀ j, (g.insert op type args).head? j = g.head? j := by
    intro j
    rw [head?_insert, if_neg]
    rintro ⟨-, hj, -, hfollow⟩
    obtain rfl := Option.mem_unique hcurrent hj
    rw [hs.following, hh] at hfollow
    have hafter : Precedes (l₁ ++ n :: l₂) n h :=
      Precedes.of_mem_tail (mem_of_mem_head? hfollow.symm)
    exact hafter.not_le hnodup hle
  refine ⟨ht.between hg.between, fun {v j} hv hj => ?_⟩
  rcases mem_append_cons.1 hv with rfl | hv
  · rw [ht.self, hn] at hj
    obtain rfl : k = j := Option.some.inj hj
    refine ⟨h, (hold k).trans hh,
      ht.sub.subset hmemh, by rw [ht.node h hmemh, hkh], fun _ => .inr ?_⟩
    have hin : h ∈ l₁ ++ [n] := by
      rcases hle with rfl | hprec
      · simp
      · exact mem_append_left _ (hprec.mem_of_right hnodup)
    exact Precedes.of_mem hin mem_cons_self
  · rw [ht.node v hv] at hj ⊢
    exact hg.head_mono ht.sub ht.node hv hj (hold j)

lemma mem_of_cluster_insert (hcurrent : g.current = none) (hv : v ∈ l₁ ++ g.nodes.size :: l₂)
    (hk : ((g.insert op type args).node v).cluster = some k) : v ∈ l₁ ++ l₂ := by
  rcases mem_append_cons.1 hv with rfl | hv
  · rw [node_insert_self, hcurrent] at hk
    cases hk
  · exact hv

/-- Runs stay whole when an unclustered node is recorded before a head. -/
lemma Runs.insert_outside (hg : g.Runs p (l₁ ++ h :: l₂)) (hs : g.Splits l₁ (h :: l₂))
    (hh : (g.node h).cluster = some k) (hhead : g.head? k = some h) (hcurrent : g.current = none)
    (hp : ∀ k, p k) :
    (g.insert op type args).Runs p (l₁ ++ g.nodes.size :: h :: l₂) := by
  have hw := hs.size_notMem
  have hnodup := hs.chain.nodup
  have hnode : ∀ v ∈ l₁ ++ h :: l₂, (g.insert op type args).node v = g.node v := fun v hv =>
    hs.toLists.node_insert hv
  have hsub : (l₁ ++ h :: l₂).Sublist (l₁ ++ g.nodes.size :: h :: l₂) := sublist_insert
  -- the head is the first node of its cluster
  have hfirst : ∀ x ∈ l₁, (g.node x).cluster ≠ some k := by
    intro x hx hk
    obtain ⟨h', hh', -, -, hle⟩ := hg.head (mem_append_left _ hx) hk
    obtain rfl := Option.mem_unique hhead hh'
    have hbefore : Precedes (l₁ ++ h :: l₂) x h := Precedes.of_mem hx mem_cons_self
    exact hbefore.not_le hnodup (hle (hp _))
  refine ⟨fun {x y z j} hxy hyz hx hz => ?_, fun {v j} hv hj => ?_⟩
  · have hxl := mem_of_cluster_insert hcurrent hxy.left_mem hx
    have hzl := mem_of_cluster_insert hcurrent hyz.right_mem hz
    rw [hnode x hxl] at hx
    rw [hnode z hzl] at hz
    rcases hxy.between_cases hw hxl hzl hyz with ⟨rfl, hxl₁, hz'⟩ | ⟨hxy', hyz'⟩
    · -- between two nodes of a cluster the new one would be in front of no head
      exfalso
      have hjh : (g.node h).cluster = some j := by
        rcases mem_cons.1 hz' with rfl | hz'
        · exact hz
        · have hxh : Precedes (l₁ ++ h :: l₂) x h := Precedes.of_mem hxl₁ mem_cons_self
          exact hg.between hxh (Precedes.of_mem_tail hz') hx hz
      obtain rfl := Option.mem_unique hh hjh
      exact hfirst x hxl₁ hx
    · rw [hnode y hxy'.right_mem]
      exact hg.between hxy' hyz' hx hz
  · have hvl := mem_of_cluster_insert hcurrent hv hj
    rw [hnode v hvl] at hj ⊢
    exact hg.head_mono hsub hnode hvl hj (by rw [head?_insert, if_neg (by simp [hcurrent])])

lemma Runs.insert_loose (hg : g.Runs p (l₁ ++ n :: l₂)) (hs : g.Splits l₁ (n :: l₂))
    (hn : (g.node n).cluster = none) (hcurrent : g.current = none) :
    (g.insert op type args).Runs p (l₁ ++ g.nodes.size :: n :: l₂) := by
  have ht := hs.twinned op type args (.inl ⟨l₂, rfl⟩) (hcurrent.trans hn.symm)
  refine ⟨ht.between hg.between, fun {v j} hv hj => ?_⟩
  have hvl := mem_of_cluster_insert hcurrent hv hj
  rw [ht.node v hvl] at hj ⊢
  exact hg.head_mono ht.sub ht.node hvl hj (by rw [head?_insert, if_neg (by simp [hcurrent])])

/-! ### Nodes that are taken out -/

lemma node_remove (n m : NodeId) : (g.remove n).node m = g.node m := rfl

lemma head?_remove (n : NodeId) (k : ClusterId) : (g.remove n).head? k =
    if (g.node n).cluster = some k ∧ g.head? k = some n then g.next? n else g.head? k := by
  rw [head?, Graph.remove]
  dsimp only
  cases hcluster : (g.node n).cluster with
  | none => simp [head?]
  | some j =>
    dsimp only
    rw [head?_replaced]
    simp

lemma Spans.remove (hg : g.Spans z (a ++ n :: b)) (hl : g.Lists (a ++ n :: b)) :
    (g.remove n).Spans z (a ++ b) := by
  have hnodup := hl.chain.nodup
  have hsub : (a ++ b).Sublist (a ++ n :: b) := sublist_insert
  refine ⟨fun hxy hyw => hg.between (hxy.mono hsub) (hyw.mono hsub), fun {v k} hv hvz hk => ?_⟩
  have hvn : v ≠ n := by
    rintro rfl
    obtain ⟨hna, hnb⟩ := not_mem_of_nodup_append hnodup
    exact (mem_append.1 hv).elim hna hnb
  rw [node_remove] at hk
  obtain ⟨h, hh, hmem, hkh, hle⟩ := hg.head (hsub.subset hv) hvz hk
  by_cases hhn : h = n
  · -- the node behind the old head is in the cluster and becomes the head
    subst hhn
    have hprec : Precedes (a ++ h :: b) h v := hle.resolve_left fun heq => hvn heq.symm
    have hvb := hprec.mem_of_left hnodup
    obtain ⟨x, b', rfl⟩ : ∃ x b', b = x :: b' := exists_cons_of_ne_nil (ne_nil_of_mem hvb)
    have hxv : x = v ∨ Precedes (a ++ h :: x :: b') x v := by
      rcases mem_cons.1 hvb with rfl | hvb
      · exact .inl rfl
      · have hprec : Precedes ((a ++ [h]) ++ x :: b') x v := Precedes.of_mem_tail hvb
        exact .inr (by simpa using hprec)
    have hkx : (g.node x).cluster = some k := by
      rcases hxv with rfl | hxv
      · exact hk
      · exact hg.between (Precedes.of_mem_tail mem_cons_self) hxv hkh hk
    refine ⟨x, ?_, by simp, hkx, ?_⟩
    · rw [head?_remove, if_pos ⟨hkh, hh⟩, hl.next]
      rfl
    · rcases mem_cons.1 hvb with rfl | hvb
      · exact .inl rfl
      · exact .inr (Precedes.of_mem_tail hvb)
  · have hmem' : h ∈ a ++ b := (mem_append_cons.1 hmem).resolve_left hhn
    refine ⟨h, ?_, hmem', hkh, hle.imp id fun hprec => ?_⟩
    · rw [head?_remove, if_neg, hh]
      rintro ⟨-, heq⟩
      exact hhn (Option.mem_unique hh heq)
    · rcases hprec.insert_cases with ⟨heq, -⟩ | ⟨heq, -⟩ | hprec
      · exact absurd heq hhn
      · exact absurd heq hvn
      · exact hprec

lemma Runs.remove (hg : g.Runs p (a ++ n :: b)) (hl : g.Lists (a ++ n :: b))
    (hp : ∀ k, p k) : (g.remove n).Runs p (a ++ b) := by
  have hspans : ∀ z, (g.remove n).Spans z (a ++ b) :=
    fun z => (hg.spans fun _ _ _ => hp _).remove hl
  refine ⟨(hspans 0).between, fun {v k} hv hk => ?_⟩
  obtain ⟨h, hh, hmem, hkh, hle⟩ := (hspans (v + 1)).head hv (Nat.lt_succ_self v) hk
  exact ⟨h, hh, hmem, hkh, fun _ => hle⟩

/-! ### The runs of clusters -/

lemma Lists.mem_fromNode_iff (hl : g.Lists l) (hn : n ∈ l) :
    m ∈ g.fromNode n ↔ n = m ∨ Precedes l n m := by
  obtain ⟨a, b, rfl⟩ := append_of_mem hn
  rw [hl.fromNode, mem_cons]
  constructor
  · rintro (rfl | hm)
    · exact .inl rfl
    · exact .inr (Precedes.of_mem_tail hm)
  · rintro (rfl | hprec)
    · exact .inl rfl
    · exact .inr (hprec.mem_of_left hl.chain.nodup)

lemma Spans.mem_run_iff (hg : g.Spans z l) (hl : g.Lists l) (hh : g.head? k = some h) (hmem : h ∈ l)
    (hk : (g.node h).cluster = some k) :
    n ∈ g.run k ↔ (h = n ∨ Precedes l h n) ∧ (g.node n).cluster = some k := by
  have hrun : g.run k = (g.fromNode h).filter fun m => (g.node m).cluster = some k := by
    obtain ⟨a, b, rfl⟩ := append_of_mem hmem
    rw [run, hh]
    dsimp only
    rw [hl.fromNode, hg.takeWhile_eq hk]
  rw [hrun, mem_filter, decide_eq_true_eq, hl.mem_fromNode_iff hmem]

lemma Spans.mem_run (hg : g.Spans z l) (hl : g.Lists l) (hn : n ∈ l) (hz : n < z)
    (hk : (g.node n).cluster = some k) : n ∈ g.run k := by
  obtain ⟨h, hh, hmem, hkh, hle⟩ := hg.head hn hz hk
  exact (hg.mem_run_iff hl hh hmem hkh).2 ⟨hle, hk⟩

lemma Runs.mem_run_iff (hg : g.Runs p l) (hl : g.Lists l) (hh : g.head? k = some h) (hmem : h ∈ l)
    (hk : (g.node h).cluster = some k) :
    n ∈ g.run k ↔ (h = n ∨ Precedes l h n) ∧ (g.node n).cluster = some k :=
  hg.spans_zero.mem_run_iff hl hh hmem hk

lemma Runs.mem_front (hg : g.Runs p (a ++ h :: b)) (hk : (g.node h).cluster = some k)
    (hmn : Precedes (a ++ h :: b) m n) (hn : (g.node n).cluster = some k)
    (hm : (g.node m).cluster ≠ some k) : m ∈ a := by
  rcases mem_append.1 hmn.left_mem with hma | hmb
  · exact hma
  · rcases mem_cons.1 hmb with rfl | hmb
    · exact absurd hk hm
    · exact absurd (hg.between (Precedes.of_mem_tail hmb) hmn hk hn) hm

lemma Runs.mem_run (hg : g.Runs p l) (hl : g.Lists l) (hn : n ∈ l)
    (hk : (g.node n).cluster = some k) (hp : p (g.node n).op.kind) : n ∈ g.run k := by
  obtain ⟨h, hh, hmem, hkh, hle⟩ := hg.head hn hk
  exact (hg.mem_run_iff hl hh hmem hkh).2 ⟨hle hp, hk⟩

end Graph

end KernelFusion
