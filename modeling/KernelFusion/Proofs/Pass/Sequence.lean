/-
Definitions before uses while nodes enter in front of others.

A program is in sequence if every argument of a node comes from a node in front of it. It stays so
if nodes enter in front of another one and take what stands there, and if users move to a node in
front of the old one.
-/
import KernelFusion.Proofs.Pass.Address
import KernelFusion.Proofs.Pass.Prune

namespace KernelFusion

open List

namespace Graph

variable {g g' : Graph} {z : Nat} {F F' : NodeId → Prop} {A B l : List NodeId} {n m v : NodeId}
  {op : Operation} {type : Scalar} {args : List Argument} {data : List UInt32} {a : Argument}

/-- Every argument comes from an earlier node. A node below `z` has no other label than itself,
unless it is in `F`: the users of those nodes have moved. -/
structure Sequential (z : Nat) (F : NodeId → Prop) (g : Graph) : Prop extends g.Linked g.order where
  ordered : g.Ordered g.order
  bound : z ≤ g.nodes.size
  owned : ∀ i < g.labels.size, g.target i < z → g.target i = i ∨ F (g.target i)

lemma Labelled.sequential (h : g.Labelled) (hl : g.Lists g.order) (ho : g.Ordered g.order)
    (hinside : ∀ n ∈ g.order, ∀ a ∈ (g.node n).args, a.source < g.nodes.size) :
    Sequential g.nodes.size F g := by
  refine ⟨⟨hl, fun n hn => ?_, fun n hn a ha => h.size ▸ hinside n hn a ha⟩, ho, Nat.le_refl _,
    fun i hi _ => .inl (h.target i (h.size ▸ hi))⟩
  have hlt := hl.lt_size hn
  rw [h.label n hlt, h.size]
  exact ⟨hlt, h.target n hlt⟩

namespace Sequential

variable (h : Sequential z F g)

include h

lemma source (hn : n ∈ g.order) (ha : a ∈ (g.node n).args) :
    a.source < g.labels.size ∧ Precedes g.order (g.source a) n :=
  ⟨h.inside n hn a ha, h.ordered n hn a ha⟩

lemma source_mem (hs : g.Splits A (n :: B)) (hm : m ∈ n :: A) (ha : a ∈ (g.node m).args) :
    a.source < g.labels.size ∧ g.source a ∈ A := by
  have horder := hs.toLists.order
  have hnodup := hs.chain.nodup
  have hml : m ∈ g.order := by
    rw [horder]
    rcases mem_cons.1 hm with rfl | hm
    · simp
    · exact mem_append_left _ hm
  obtain ⟨hlt, hprec⟩ := h.source hml ha
  rw [horder] at hprec
  refine ⟨hlt, ?_⟩
  rcases mem_cons.1 hm with rfl | hm
  · exact hprec.mem_of_right hnodup
  · obtain ⟨A₁, A₂, rfl⟩ := append_of_mem hm
    rw [append_assoc, cons_append] at hprec hnodup
    exact mem_append_left _ (hprec.mem_of_right hnodup)

lemma named (hn : n ∈ g.order) : g.Named n :=
  ⟨(h.label n hn).1, (h.label n hn).2⟩

lemma label_eq (hn : n ∈ g.order) (hz : n < z) (hF : ¬ F n) : g.label n = n := by
  obtain ⟨hlt, htarget⟩ := h.label n hn
  rcases h.owned _ hlt (htarget.symm ▸ hz) with heq | hmoved
  · exact heq.symm.trans htarget
  · exact absurd (htarget ▸ hmoved) hF

lemma mono (hF : ∀ n, F n → F' n) : Sequential z F' g :=
  ⟨h.toLinked, h.ordered, h.bound, fun i hi hz => (h.owned i hi hz).imp_right (hF _)⟩

lemma congr (hnodes : g'.nodes = g.nodes) (hchain : g'.chain = g.chain)
    (hlabels : g'.labels = g.labels) (hfirst : g'.first = g.first) : Sequential z F g' := by
  have horder : g'.order = g.order := by rw [Graph.order, Graph.order, hchain, hfirst]
  have htarget : ∀ i, g'.target i = g.target i := fun i => by rw [target, target, hlabels]
  refine ⟨horder ▸ h.toLinked.congr hnodes hchain hlabels hfirst, ?_, hnodes ▸ h.bound, ?_⟩
  · rw [horder]
    exact h.ordered.of_args hlabels fun n _ a ha => .inl (by rwa [node, hnodes] at ha)
  · simpa only [hlabels, htarget] using h.owned

lemma enter (n : NodeId) (inCluster : Bool) :
    Sequential z F (g.enter .before n inCluster) := h.congr rfl rfl rfl rfl

lemma leave (old : Graph) : Sequential z F (g.leave old) :=
  h.congr rfl rfl rfl rfl

lemma modifyNode {f : Node → Node} (hlabel : ∀ x, (f x).label = x.label)
    (hargs : ∀ a ∈ (f (g.node n)).args, a ∈ (g.node n).args ∨
      a.source < g.labels.size ∧ Precedes g.order (g.source a) n) :
    Sequential z F (g.modifyNode n f) := by
  have hcases : ∀ m, ∀ a ∈ ((g.modifyNode n f).node m).args, a ∈ (g.node m).args ∨
      a.source < g.labels.size ∧ Precedes g.order (g.source a) m := by
    intro m a ha
    rw [node_modifyNode] at ha
    split at ha
    · rename_i hm
      obtain ⟨rfl, -⟩ := hm
      exact hargs a ha
    · exact .inl ha
  refine ⟨⟨h.toLists.congr rfl rfl size_nodes_modifyNode, fun m hm => ?_, fun m hm a ha => ?_⟩,
    h.ordered.of_args rfl fun m _ a ha => (hcases m a ha).imp_right And.right,
    size_nodes_modifyNode.symm ▸ h.bound, h.owned⟩
  · rw [Graph.label, modifyNode_congr Node.label hlabel]
    exact h.label m hm
  · rcases hcases m a ha with ha | ha
    · exact h.inside m hm a ha
    · exact ha.1

lemma addArgument (hprec : Precedes g.order v n) (k : ArgKind) (i : Int) :
    Sequential z F (g.addArgument n v k i) := by
  refine h.modifyNode (fun _ => rfl) fun a ha => ?_
  obtain ⟨hlt, htarget⟩ := h.label v hprec.left_mem
  refine (mem_append.1 ha).imp_right fun ha => ?_
  obtain rfl := mem_singleton.1 ha
  rw [Graph.source, htarget]
  exact ⟨hlt, hprec⟩

lemma removeArguments (n : NodeId) (k : ArgKind) :
    Sequential z F (g.removeArguments n k) :=
  h.modifyNode (fun _ => rfl) fun _ ha => .inl (mem_filter.1 ha).1

lemma insertWith (hs : g.Splits A B) (hargs : ∀ x ∈ args, x.source < g.labels.size ∧
    g.source x ∈ A) :
    Sequential z F (g.insertWith op type args data) := by
  have horder := hs.toLists.order
  have hlinked : g.Linked (A ++ B) := horder ▸ h.toLinked
  have hlists := (hs.insert op type args).toLists
  have horder' : (g.insert op type args).order = A ++ g.nodes.size :: B := by
    rw [hlists.order]
    simp
  have hinserted : Sequential z F (g.insert op type args) := by
    refine ⟨?_, ?_, ?_, fun i hi hz => ?_⟩
    · rw [horder']
      exact hlinked.insert hs fun x hx => (hargs x hx).1
    · rw [horder']
      exact hlinked.ordered_insert (horder ▸ h.ordered) hargs
    · rw [size_nodes_insert]
      exact Nat.le_succ_of_le h.bound
    · have hsize : (g.insert op type args).labels.size = g.labels.size + 1 := by simp [Graph.insert]
      rw [hsize] at hi
      rcases Nat.lt_succ_iff_lt_or_eq.1 hi with hi | rfl
      · rw [target_insert_of_ne (Nat.ne_of_lt hi)] at hz ⊢
        exact h.owned i hi hz
      · rw [target_insert_self] at hz
        exact absurd hz (Nat.not_lt.2 h.bound)
  exact hinserted.modifyNode (fun _ => rfl) fun _ ha => .inl ha

/-! ### Moving users -/

/-- Redirecting a label to an earlier new node keeps operands first. -/
lemma redirect (hprec : Precedes g.order v n) (hF : F n) (hv : z ≤ v) :
    Sequential z F (g.redirect n v) := by
  have hn := hprec.right_mem
  have hargs : ∀ m, ((g.redirect n v).node m).args = (g.node m).args := fun m =>
    (modifyNode_congr (f := fun x => { x with label := g.labels.size })
    Node.args fun _ => rfl).trans rfl
  have hlists : (g.redirect n v).Lists g.order := h.toLists.congr rfl rfl size_nodes_modifyNode
  refine ⟨⟨hlists, fun m hm => ?_, fun m hm a ha => ?_⟩, fun m hm a ha => ?_, ?_, fun i hi hz => ?_⟩
  · by_cases hmn : m = n
    · subst hmn
      rw [label_redirect_self (h.lt_size hm), size_labels_redirect]
      exact ⟨Nat.lt_succ_self _, target_redirect_self v⟩
    · obtain ⟨hlt, htarget⟩ := (h.named hm).redirect (h.named hn) hmn v
      exact ⟨hlt, htarget⟩
  · rw [hargs] at ha
    rw [size_labels_redirect]
    exact Nat.lt_succ_of_lt (h.inside m hm a ha)
  · rw [hargs] at ha
    obtain ⟨hlt, hbefore⟩ := h.source hm ha
    rw [Graph.source, target_redirect hlt]
    split
    · -- a user of the node is behind it
      rename_i heq
      rw [Graph.source, ← heq, (h.named hn).target] at hbefore
      exact hprec.trans hbefore h.chain.nodup
    · exact hbefore
  · rw [Graph.redirect, size_nodes_modifyNode]
    exact h.bound
  · rw [size_labels_redirect] at hi
    rcases Nat.lt_succ_iff_lt_or_eq.1 hi with hi | rfl
    · rw [target_redirect hi] at hz ⊢
      split at hz
      · exact absurd hz (Nat.not_lt.2 hv)
      · rename_i hne
        rw [if_neg hne]
        exact h.owned i hi hz
    · rw [target_redirect_self]
      exact .inr hF

lemma replaceCoordinates {coordinates : List NodeId} {found : List (NodeId × Int)}
    (hnew : ∀ v ∈ coordinates, z ≤ v) (hfound : ∀ c ∈ found, F c.1 ∧ ∀ v ∈ coordinates,
    Precedes g.order v c.1)
    (hrun : Build.replaceCoordinates coordinates found g = .ok ⟨⟩ g') : Sequential z F g' := by
  induction found generalizing g with
  | nil =>
    cases hrun
    exact h
  | cons c rest ih =>
    obtain ⟨n, dim⟩ := c
    obtain ⟨hF, hprec⟩ := hfound (n, dim) mem_cons_self
    by_cases hdim : dim < 0 ∨ (coordinates.length : Int) ≤ dim
    · rw [Build.replaceCoordinates, if_pos hdim] at hrun
      cases hrun
    · rw [Build.replaceCoordinates, if_neg hdim] at hrun
      have hi : dim.toNat < coordinates.length := by omega
      have hmem : coordinates.getD dim.toNat 0 ∈ coordinates := by
        rw [getD_eq_getElem?_getD, getElem?_eq_getElem hi]
        exact getElem_mem hi
      exact ih (h.redirect (hprec _ hmem) hF (hnew _ hmem))
        (fun c hc => hfound c (mem_cons_of_mem _ hc)) hrun

lemma remove_all {out : List NodeId} (hout : out.Sublist g.order)
    (hfree : ∀ m ∈ g.order, ∀ a ∈ (g.node m).args, g.source a ∉ out) :
    Sequential z F (out.foldl Graph.remove g) ∧
      (out.foldl Graph.remove g).order = g.order.filter fun m => m ∉ out := by
  have hthin := h.toLists.without (hout.nodup h.chain.nodup) fun m hm => hout.subset hm
  have hlists := hthin.lists
  have horder := hlists.order
  have hmem : ∀ m ∈ g.order.filter (fun m => m ∉ out), m ∈ g.order :=
    fun m hm => (mem_filter.1 hm).1
  have htarget : ∀ i, (out.foldl Graph.remove g).target i = g.target i := fun i => by
    rw [target, target, hthin.labels]
  refine ⟨⟨⟨horder ▸ hlists, fun m hm => ?_, fun m hm a ha => ?_⟩, fun m hm a ha => ?_,
    hthin.nodes ▸ h.bound, ?_⟩, horder⟩
  · rw [horder] at hm
    rw [Graph.label, hthin.node_eq, htarget, hthin.labels]
    exact h.label m (hmem m hm)
  · rw [horder] at hm
    rw [hthin.node_eq] at ha
    rw [hthin.labels]
    exact h.inside m (hmem m hm) a ha
  · rw [horder] at hm ⊢
    rw [hthin.node_eq] at ha
    rw [Graph.source, htarget]
    exact (h.ordered m (hmem m hm) a ha).filter (by simpa using hfree m (hmem m hm) a ha)
      (mem_filter.1 hm).2
  · simpa only [hthin.labels, htarget] using h.owned

end Sequential

end Graph

namespace Build

open KernelFusion.Graph

variable {g g' : Graph} {I : Graph → Prop} {z : Nat} {F : NodeId → Prop} {A B : List NodeId}
  {n m v : NodeId} {name : String} {α : Type} {op : Operation} {type : Scalar}
  {args shape : List Argument} {data : List UInt32}

/-! ### Recording in front of a node -/

/-- Nodes have entered in front of `n`, where `B` are the nodes behind it, and an invariant stays
true. -/
structure Fronts (I : Graph → Prop) (n : NodeId) (B : List NodeId) (g g' : Graph) : Prop where
  evolves : Evolves nothing nothing g g'
  retains : I g → I g'
  enters : ∀ {A}, g.Splits A (n :: B) → ∃ A', g'.Splits (A ++ A') (n :: B) ∧
    ∀ v, v ∈ A' ↔ g.nodes.size ≤ v ∧ v < g'.nodes.size

instance : IsPreorder Graph (Fronts I n B) where
  refl g := ⟨Evolves.refl _ _ g, id, fun {A} hs => ⟨[], by simpa using hs, fun v => by simp⟩⟩
  trans _ _ _ h₁ h₂ := ⟨h₁.evolves.trans h₂.evolves, fun h => h₂.retains (h₁.retains h),
    fun {A} hs => by
    obtain ⟨A₁, hs₁, hA₁⟩ := h₁.enters hs
    obtain ⟨A₂, hs₂, hA₂⟩ := h₂.enters hs₁
    refine ⟨A₁ ++ A₂, by simpa using hs₂, fun v => ?_⟩
    have hle₁ := h₁.evolves.size
    have hle₂ := h₂.evolves.size
    rw [mem_append, hA₁, hA₂]
    constructor
    · rintro (⟨hge, hlt⟩ | ⟨hge, hlt⟩)
      · exact ⟨hge, Nat.lt_of_lt_of_le hlt hle₂⟩
      · exact ⟨Nat.le_trans hle₁ hge, hlt⟩
    · rintro ⟨hge, hlt⟩
      exact (Nat.lt_or_ge v _).imp (fun hlt' => ⟨hge, hlt'⟩) fun hge' => ⟨hge', hlt⟩⟩

lemma fronts_insertWith
    (hI : I g → I (g.insertWith op type args data)) :
    Fronts I n B g (g.insertWith op type args data) := by
  refine ⟨Evolves.insertWith g op type args data, hI, fun hs =>
    ⟨[g.nodes.size], hs.insertWith op type args data, fun v => ?_⟩⟩
  rw [mem_singleton, size_nodes_insertWith, Nat.lt_succ_iff, and_comm]
  exact Nat.le_antisymm_iff

lemma keeps_fronts_sourceWith (shape : List Argument) (type : Scalar) (data : List UInt32) :
    Keeps (Fronts (fun _ => True) n B) (sourceWith name shape type data) g
      fun v g' => g.nodes.size ≤ v ∧ v < g'.nodes.size := by
  refine keeps_sourceWith_of fun op _ _ => ⟨fronts_insertWith fun _ => trivial, Nat.le_refl _, ?_⟩
  exact size_nodes_insertWith ▸ Nat.lt_succ_self _

lemma recorder_fronts : Recorder (Fronts (fun _ => True) n B) fun _ _ => True where
  stable h _ := h
  constant _ type w := (keeps_fronts_sourceWith [] type [w]).mono fun _ _ _ _ => trivial
  apply _ _ _ := keeps_apply_of fun op o _ _ => by
    rw [← insertWith_nil]
    exact ⟨fronts_insertWith fun _ => trivial, trivial⟩

/-- The node stands in front of `n` in a program in sequence. -/
def InFront (z : Nat) (F : NodeId → Prop) (n : NodeId) (B : List NodeId) (v : NodeId) (g : Graph) :
    Prop :=
  Sequential z F g ∧ ∃ A, g.Splits A (n :: B) ∧ v ∈ A

lemma InFront.mem (h : InFront z F n B v g) (hs : g.Splits A (n :: B)) : v ∈ A := by
  obtain ⟨-, A', hs', hv⟩ := h
  rwa [append_cancel_right (hs'.toLists.order.symm.trans hs.toLists.order)] at hv

lemma InFront.fronts (h : InFront z F n B v g) (hg : Fronts (Sequential z F) n B g g') :
    InFront z F n B v g' := by
  obtain ⟨hseq, A, hs, hv⟩ := h
  obtain ⟨A', hs', -⟩ := hg.enters hs
  exact ⟨hg.retains hseq, A ++ A', hs', mem_append_left _ hv⟩

lemma InFront.precedes (h : InFront z F n B v g) : Precedes g.order v n := by
  obtain ⟨-, A, hs, hv⟩ := h
  rw [hs.toLists.order]
  exact Precedes.of_mem hv mem_cons_self

section

variable (hg : Sequential z F g) (hs : g.Splits A (n :: B))

include hg hs

lemma inFront_insertWith (hargs : ∀ x ∈ args, x.source < g.labels.size ∧ g.source x ∈ A) :
    Fronts (Sequential z F) n B g (g.insertWith op type args data) ∧
      InFront z F n B g.nodes.size (g.insertWith op type args data) := by
  have hfronts : Fronts (Sequential z F) n B g (g.insertWith op type args data) :=
    fronts_insertWith fun h => h.insertWith hs hargs
  obtain ⟨A', hs', hA'⟩ := hfronts.enters hs
  refine ⟨hfronts, hfronts.retains hg, A ++ A', hs', mem_append_right _ ?_⟩
  rw [hA', size_nodes_insertWith]
  exact ⟨Nat.le_refl _, Nat.lt_succ_self _⟩

lemma keeps_inFront_sourceWith (hshape : ∀ x ∈ shape, x.source < g.labels.size ∧ g.source x ∈ A)
    (type : Scalar) (data : List UInt32) :
    Keeps (Fronts (Sequential z F) n B) (sourceWith name shape type data) g (InFront z F n B) :=
  keeps_sourceWith_of fun _ _ _ => inFront_insertWith hg hs hshape

lemma keeps_inFront_source (hshape : ∀ x ∈ shape, x.source < g.labels.size ∧ g.source x ∈ A)
    (type : Scalar) :
    Keeps (Fronts (Sequential z F) n B) (source name shape type) g (InFront z F n B) := by
  refine keeps_source_of fun _ _ _ => ?_
  rw [← insertWith_nil]
  exact inFront_insertWith hg hs hshape

lemma keeps_inFront_apply {ns : List NodeId} (hns : ∀ m ∈ ns, m ∈ A) :
    Keeps (Fronts (Sequential z F) n B) (apply name ns) g (InFront z F n B) := by
  refine keeps_apply_of fun op o _ _ => ?_
  rw [← insertWith_nil]
  refine inFront_insertWith hg hs fun x hx => ?_
  rcases mem_append.1 hx with hx | hx
  · rw [argumentsFrom_eq] at hx
    obtain ⟨i, l, hl, rfl⟩ := mem_block.1 hx
    obtain ⟨m, hm, rfl⟩ := mem_map.1 (mem_of_getElem? hl)
    obtain ⟨hlt, htarget⟩ := hg.label m (hs.toLists.order ▸ mem_append_left _ (hns m hm))
    refine ⟨hlt, ?_⟩
    rw [Graph.source, htarget]
    exact hns m hm
  · obtain ⟨m, hm, ha, -⟩ := exists_of_mem_commonShape hx
    exact hg.source_mem hs (mem_cons_of_mem _ (hns m hm)) ha

end

lemma recorder_inFront : Recorder (Fronts (Sequential z F) n B) (InFront z F n B) where
  stable h hg := h.fronts hg
  constant h type w := by
    obtain ⟨hseq, A, hs, -⟩ := h
    exact keeps_inFront_sourceWith hseq hs (by simp) type [w]
  apply h _ hns := by
    obtain ⟨hseq, A, hs, -⟩ := h
    exact keeps_inFront_apply hseq hs fun m hm => (hns m hm).mem hs

lemma reckons_inFront : Reckons (Fronts (Sequential z F) n B) (fun v _ g => InFront z F n B v g)
    (fun _ _ => True) fun x _ _ => x :=
  recorder_inFront.reckons

end Build

end KernelFusion
