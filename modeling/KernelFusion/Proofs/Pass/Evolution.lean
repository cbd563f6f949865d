/-
How the address pass goes on.

`Evolves` says what stays of the tables, apart from the nodes whose indices may change and those
whose users may move. `Flattening` says where the listed nodes come from, and which ones may be
missing. Both hold however the pass ends, in every mode.
-/
import KernelFusion.Proofs.Build.Reckoning
import KernelFusion.Proofs.Graph.Arguments
import KernelFusion.Proofs.Graph.Grouped
import Mathlib.Data.List.TakeWhile

namespace KernelFusion

open List

namespace Graph

variable {s g g' g'' : Graph} {E F : NodeId → Prop} {l A B : List NodeId} {n m : NodeId}
  {j k : ClusterId} {op : Operation} {type : Scalar} {args : List Argument}

/-! ### What stays of the tables -/

/-- Nodes keep everything but their index arguments, and these only change at nodes in `E`. Labels
keep standing for their nodes, apart from those of nodes in `F`. -/
structure Evolves (E F : NodeId → Prop) (g g' : Graph) : Prop extends g.Frame g' where
  tensorMode : g'.tensorMode = g.tensorMode
  recording : g'.recording = g.recording
  args : ∀ n < g.nodes.size, ¬ E n → (g'.node n).args = (g.node n).args
  others : ∀ n < g.nodes.size, ∀ k ≠ ArgKind.index,
    ((g'.node n).args.filter fun a => a.kind = k) = (g.node n).args.filter fun a => a.kind = k
  roles : g.SameRoles g'
  labels : g.labels.size ≤ g'.labels.size
  label : ∀ n < g.nodes.size, ¬ F n → g'.label n = g.label n
  target : ∀ i < g.labels.size, ¬ F (g.target i) → g'.target i = g.target i

namespace Evolves

lemma refl (E F : NodeId → Prop) (g : Graph) : Evolves E F g g :=
  ⟨Frame.refl g, rfl, rfl, fun _ _ _ => rfl, fun _ _ _ _ => rfl, SameRoles.refl g, Nat.le_refl _,
    fun _ _ _ => rfl, fun _ _ _ => rfl⟩

lemma trans (h : Evolves E F g g') (h' : Evolves E F g' g'') : Evolves E F g g'' := by
  have hlt : ∀ n < g.nodes.size, n < g'.nodes.size := fun n hn => Nat.lt_of_lt_of_le hn h.size
  refine ⟨h.toFrame.trans h'.toFrame, h'.tensorMode.trans h.tensorMode,
    h'.recording.trans h.recording, fun n hn hE => ?_, fun n hn k hk => ?_, h.roles.trans h'.roles,
    Nat.le_trans h.labels h'.labels, fun n hn hF => ?_, fun i hi hF => ?_⟩
  · rw [h'.args n (hlt n hn) hE, h.args n hn hE]
  · rw [h'.others n (hlt n hn) k hk, h.others n hn k hk]
  · rw [h'.label n (hlt n hn) hF, h.label n hn hF]
  · have htarget := h.target i hi hF
    rw [h'.target i (Nat.lt_of_lt_of_le hi h.labels) (htarget.symm ▸ hF), htarget]

instance : IsPreorder Graph (Evolves E F) where
  refl := refl E F
  trans _ _ _ := trans

lemma mono {E' F' : NodeId → Prop} (h : Evolves E F g g') (hE : ∀ n, E n → E' n)
    (hF : ∀ n, F n → F' n) : Evolves E' F' g g' :=
  ⟨h.toFrame, h.tensorMode, h.recording, fun n hn hE' => h.args n hn fun hn' => hE' (hE n hn'),
    h.others, h.roles, h.labels, fun n hn hF' => h.label n hn fun hn' => hF' (hF n hn'),
    fun i hi hF' => h.target i hi fun hi' => hF' (hF _ hi')⟩

lemma of_extended (h : g.Extended g') (hroles : g.SameRoles g')
    (hargs : ∀ n < g.nodes.size, g'.node n = g.node n) (htensor : g'.tensorMode = g.tensorMode) :
    Evolves E F g g' :=
  ⟨h.toFrame, htensor, h.recording, fun n hn _ => by rw [hargs n hn],
    fun n hn k _ => by rw [hargs n hn], hroles, h.labels,
    fun n hn _ => h.label n hn, fun i hi _ => h.target i hi⟩

lemma of_tables (hnodes : g'.nodes = g.nodes) (hlabels : g'.labels = g.labels)
    (hmode : g'.kernelMode = g.kernelMode) (htensor : g'.tensorMode = g.tensorMode)
    (hrecording : g'.recording = g.recording) : Evolves E F g g' :=
  of_extended (Extended.of_nodes hnodes hlabels hrecording hmode) (SameRoles.of_nodes hnodes)
    (fun n _ => by rw [node, node, hnodes]) htensor

lemma insert (g : Graph) (op : Operation) (type : Scalar) (args : List Argument) :
    Evolves E F g (g.insert op type args) :=
  of_extended (Extended.insert g op type args) (SameRoles.insert g op type args)
    (fun _ hn => node_insert_of_ne (Nat.ne_of_lt hn)) rfl

lemma insertWith (g : Graph) (op : Operation) (type : Scalar) (args : List Argument)
    (data : List UInt32) : Evolves E F g (g.insertWith op type args data) :=
  of_extended (Extended.insertWith g op type args data)
    ((SameRoles.insert g op type args).trans (SameRoles.modifyNode fun _ => ⟨rfl, rfl⟩))
    (fun _ hn => node_insertWith_of_lt hn) rfl

lemma modifyArgs {change : Node → List Argument} (hE : E n)
    (hothers : ∀ x, ∀ k ≠ ArgKind.index, ((change x).filter fun a => a.kind = k) =
      x.args.filter fun a => a.kind = k) :
    Evolves E F g (g.modifyNode n fun x => { x with args := change x }) := by
  refine ⟨⟨Outline.modifyNode (fun _ => rfl) fun _ => rfl,
    fun _ _ => modifyNode_congr Node.type fun _ => rfl,
    fun _ _ => modifyNode_congr Node.data fun _ => rfl⟩, rfl, rfl, fun m _ hm => ?_,
    fun m _ k hk => ?_, SameRoles.modifyNode fun _ => ⟨rfl, rfl⟩, Nat.le_refl _, fun _ _ _ => ?_,
    fun _ _ _ => rfl⟩
  · have hne : m ≠ n := fun heq => hm (heq ▸ hE)
    rw [node_modifyNode_of_ne hne]
  · exact modifyNode_congr (f := fun x => { x with args := change x })
      (fun x => x.args.filter fun a => a.kind = k) fun x => hothers x k hk
  · exact modifyNode_congr Node.label fun _ => rfl

lemma redirect (hF : F n) (hn : g.target (g.label n) = n) (copy : NodeId) :
    Evolves E F g (g.redirect n copy) := by
  have hnode : ∀ {β : Type} (p : Node → β), (∀ x l, p { x with label := l } = p x) → ∀ m,
      p ((g.redirect n copy).node m) = p (g.node m) := by
    intro β p hp m
    exact (modifyNode_congr p fun x => hp x _).trans rfl
  refine ⟨⟨⟨?_, rfl, fun m _ => hnode Node.op (fun _ _ => rfl) m,
    fun m _ => hnode Node.cluster (fun _ _ => rfl) m⟩, fun m _ =>
    hnode Node.type (fun _ _ => rfl) m, fun m _ => hnode Node.data (fun _ _ => rfl) m⟩, rfl, rfl,
    fun m _ _ => hnode Node.args (fun _ _ => rfl) m,
    fun m _ k _ => hnode (fun x => x.args.filter fun a => a.kind = k) (fun _ _ => rfl) m,
    fun m => ⟨hnode Node.role (fun _ _ => rfl) m, hnode Node.slot (fun _ _ => rfl) m⟩, ?_,
    fun m _ hm => ?_, fun i hi hi' => ?_⟩
  · exact Nat.le_of_eq (size_nodes_modifyNode
      (f := fun x => { x with label := g.labels.size })).symm
  · show g.labels.size ≤ ((g.labels.setIfInBounds (g.label n) copy).push n).size
    simp
  · have hne : m ≠ n := fun heq => hm (heq ▸ hF)
    rw [Graph.label, Graph.redirect, node_modifyNode_of_ne hne]
    rfl
  · have hne : g.label n ≠ i := by
      rintro rfl
      exact hi' (hn.symm ▸ hF)
    show ((g.labels.setIfInBounds (g.label n) copy).push n).getD i 0 = g.labels.getD i 0
    have hi₁ : i ≠ (g.labels.setIfInBounds (g.label n) copy).size := by
      rw [Array.size_setIfInBounds]
      exact Nat.ne_of_lt hi
    simp only [Array.getD_eq_getD_getElem?, Array.getElem?_push, if_neg hi₁,
      Array.getElem?_setIfInBounds_ne hne]

lemma isCoordinate (h : Evolves E F g g') (hn : n < g.nodes.size) :
    (g'.node n).isCoordinate = (g.node n).isCoordinate := by
  rw [Node.isCoordinate, Node.isCoordinate, h.op n hn]

end Evolves

/-! ### Where the listed nodes come from -/

variable {done : ClusterId → Prop} {gone : NodeId → Prop}

lemma eq_of_fromNode_eq_cons {h x : NodeId} {rest : List NodeId} (hw : g.fromNode h = x :: rest) :
    x = h := by
  rw [fromNode, Chain.onward] at hw
  cases hsize : g.chain.links.size with
  | zero => simp [hsize, Chain.walk] at hw
  | succ steps =>
    rw [hsize, Chain.walk] at hw
    exact (cons.inj hw).1.symm

/-- The state of the pass on `s` when it has touched the clusters in `done`: what is listed is old,
or it has entered in one of these clusters and accesses no memory; what is missing is a coordinate
in one of them. The nodes in `gone` are missing. -/
structure Flattening (s : Graph) (done : ClusterId → Prop) (gone : NodeId → Prop) (g : Graph)
    (l : List NodeId) : Prop where
  lists : g.Lists l
  outline : s.Outline g
  spans : g.Spans s.nodes.size l
  heads : ∀ k, ¬ done k → g.head? k = s.head? k
  entered : ∀ n ∈ l, n ∈ s.order ∨ s.nodes.size ≤ n ∧ (g.node n).op.kind.accesses = false ∧
    (s.kernelMode = .linear → (g.node n).isCoordinate = false) ∧
    ∃ k, done k ∧ (g.node n).cluster = some k
  stays : ∀ n ∈ s.order, n ∉ l → s.kernelMode = .linear ∧ (s.node n).isCoordinate ∧
    ∃ k, done k ∧ (s.node n).cluster = some k
  absent : ∀ n ∈ l, n < s.nodes.size → ¬ gone n
  live : ∀ {k h}, done k → g.head? k = some h → (g.node h).cluster = some k → h ∈ l

namespace Flattening

section

variable (hg : Flattening s done gone g l)

include hg

lemma congr (hop : ∀ v, (g'.node v).op = (g.node v).op)
    (hcluster : ∀ v, (g'.node v).cluster = (g.node v).cluster)
    (hsize : g'.nodes.size = g.nodes.size) (hchain : g'.chain = g.chain)
    (hclusters : g'.clusters = g.clusters) (hfirst : g'.first = g.first)
    (hmode : g'.kernelMode = g.kernelMode) :
    Flattening s done gone g' l := by
  have hhead : ∀ k, g'.head? k = g.head? k := fun k => by rw [head?, head?, hclusters]
  refine ⟨hg.lists.congr hchain hfirst hsize, ⟨hsize ▸ hg.outline.size, hmode.trans hg.outline.mode,
    fun v hv => (hop v).trans (hg.outline.op v hv),
    fun v hv => (hcluster v).trans (hg.outline.cluster v hv)⟩,
    hg.spans.congr (fun v _ => hcluster v) hhead, fun k hk => (hhead k).trans (hg.heads k hk),
    fun v hv => ?_, hg.stays, hg.absent, fun {k h} hk hh hkh => ?_⟩
  · rw [Node.isCoordinate, hop, hcluster]
    exact hg.entered v hv
  · rw [hhead] at hh
    rw [hcluster] at hkh
    exact hg.live hk hh hkh

lemma modifyNode {f : Node → Node} (hop : ∀ x, (f x).op = x.op) (hcluster : ∀ x,
    (f x).cluster = x.cluster) :
    Flattening s done gone (g.modifyNode n f) l :=
  hg.congr (fun _ => modifyNode_congr Node.op hop) (fun _ => modifyNode_congr Node.cluster hcluster)
    size_nodes_modifyNode rfl rfl rfl rfl

lemma addArgument (n v : NodeId) (K : ArgKind) (i : Int) :
    Flattening s done gone (g.addArgument n v K i) l :=
  hg.modifyNode (fun _ => rfl) fun _ => rfl

lemma removeArguments (n : NodeId) (K : ArgKind) :
    Flattening s done gone (g.removeArguments n K) l :=
  hg.modifyNode (fun _ => rfl) fun _ => rfl

lemma redirect (n copy : NodeId) :
    Flattening s done gone (g.redirect n copy) l := by
  have hmoved : Flattening s done gone
      { g with labels := (g.labels.setIfInBounds (g.label n) copy).push n } l :=
    hg.congr (fun _ => rfl) (fun _ => rfl) rfl rfl rfl rfl rfl
  exact hmoved.modifyNode (fun _ => rfl) fun _ => rfl

lemma enter (p : Place) (n : NodeId) (inCluster : Bool) :
    Flattening s done gone (g.enter p n inCluster) l := by
  cases p <;> exact hg.congr (fun _ => rfl) (fun _ => rfl) rfl rfl rfl rfl rfl

lemma leave (old : Graph) :
    Flattening s done gone (g.leave old) l :=
  hg.congr (fun _ => rfl) (fun _ => rfl) rfl rfl rfl rfl rfl

lemma mono {done' : ClusterId → Prop} (hdone : ∀ k, done k → done' k)
    (hlive : ∀ {k h}, done' k → g.head? k = some h → (g.node h).cluster = some k → h ∈ l) :
    Flattening s done' gone g l := by
  refine ⟨hg.lists, hg.outline, hg.spans, fun k hk => hg.heads k fun hk' => hk (hdone k hk'),
    fun n hn => ?_, fun n hn hnl => ?_, hg.absent, hlive⟩
  · rcases hg.entered n hn with hn | ⟨hsize, haccess, hcoord, k, hk, hkn⟩
    · exact .inl hn
    · exact .inr ⟨hsize, haccess, hcoord, k, hdone k hk, hkn⟩
  · obtain ⟨hlinear, hcoord, k, hk, hkn⟩ := hg.stays n hn hnl
    exact ⟨hlinear, hcoord, k, hdone k hk, hkn⟩

end

lemma remove (hg : Flattening s done gone g (A ++ n :: B)) (hn : n < s.nodes.size)
    (hlinear : s.kernelMode = .linear) (hcoord : (s.node n).isCoordinate)
    (hk : (s.node n).cluster = some k) (hdone : done k) :
    Flattening s done gone (g.remove n) (A ++ B) := by
  have hsub : (A ++ B).Sublist (A ++ n :: B) := sublist_insert
  have hout : g.Outline (g.remove n) := Outline.of_nodes (fun _ _ => rfl) (Nat.le_refl _) rfl
  refine ⟨hg.lists.remove, hg.outline.trans hout, hg.spans.remove hg.lists, fun j hj => ?_,
    fun v hv => hg.entered v (hsub.subset hv), fun v hv hvl => ?_,
    fun v hv => hg.absent v (hsub.subset hv), fun {j h} hj hh hkh => ?_⟩
  · rw [head?_remove, if_neg, hg.heads j hj]
    rintro ⟨hkj, -⟩
    rw [hg.outline.cluster n hn, hk] at hkj
    exact hj (Option.some.inj hkj ▸ hdone)
  · by_cases hvn : v = n
    · exact hvn ▸ ⟨hlinear, hcoord, k, hdone, hk⟩
    · exact hg.stays v hv fun hvl' => hvl ((mem_append_cons.1 hvl').resolve_left hvn)
  · -- the node behind a head that is taken out becomes the head
    rw [head?_remove] at hh
    split at hh
    · rw [hg.lists.next] at hh
      exact mem_append_right _ (mem_of_head? hh)
    · rename_i hnot
      refine (mem_append_cons.1 (hg.live hj hh hkh)).resolve_left ?_
      rintro rfl
      exact hnot ⟨hkh, hh⟩

lemma insert (hg : Flattening s done gone g (A ++ n :: B)) (hs : g.Splits A (n :: B))
    (hk : (g.node n).cluster = some k) (hcurrent : g.current = some k) (hdone : done k)
    (haccess : op.kind.accesses = false) (hop : s.kernelMode = .linear → op.name ≠ "dim_id") :
    Flattening s done gone (g.insert op type args) (A ++ g.nodes.size :: n :: B) := by
  have hold : ∀ v < g.nodes.size, (g.insert op type args).node v = g.node v := fun v hv =>
    node_insert_of_ne (Nat.ne_of_lt hv)
  refine ⟨?_, hg.outline.trans (Outline.insert g op type args),
    hg.spans.insert_before hs hg.outline.size hk hcurrent, fun j hj => ?_, fun v hv => ?_,
    fun v hv hvl => ?_, fun v hv hvs => ?_, fun {j h} hj hh hkh => ?_⟩
  · have hlists := (hs.insert op type args).toLists
    simpa using hlists
  · rw [head?_insert, if_neg, hg.heads j hj]
    rintro ⟨-, hcj, -⟩
    rw [hcurrent] at hcj
    exact hj (Option.some.inj hcj ▸ hdone)
  · rcases mem_append_cons.1 hv with rfl | hv
    · refine .inr ⟨hg.outline.size, ?_, fun hlinear => ?_, k, hdone, ?_⟩
      · rw [node_insert_self]
        exact haccess
      · rw [node_insert_self]
        simpa [Node.isCoordinate] using hop hlinear
      · rw [node_insert_self]
        exact hcurrent
    · rw [hold v (hs.toLists.lt_size hv)]
      exact hg.entered v hv
  · exact hg.stays v hv fun hvl' => hvl (mem_append_cons.2 (.inr hvl'))
  · rcases mem_append_cons.1 hv with rfl | hv
    · exact absurd hvs (Nat.not_lt.2 hg.outline.size)
    · exact hg.absent v hv hvs
  · rw [head?_insert] at hh
    split at hh
    · cases hh
      simp
    · by_cases hnew : h = g.nodes.size
      · simp [hnew]
      · rw [node_insert_of_ne hnew] at hkh
        exact mem_append_cons.2 (.inr (hg.live hj hh hkh))

lemma of_mem_run (hg : Flattening s done gone g l) (hdone : done k) (hm : m ∈ g.run k) :
    m ∈ l ∧ (g.node m).cluster = some k := by
  rw [run] at hm
  split at hm
  · rename_i h hh
    have hkm : (g.node m).cluster = some k := by simpa using mem_takeWhile_imp hm
    have hfrom : m ∈ g.fromNode h := (takeWhile_sublist _).subset hm
    -- the run is empty if the head is not in the cluster
    have hkh : (g.node h).cluster = some k := by
      by_contra hnot
      cases hw : g.fromNode h with
      | nil => exact not_mem_nil (hw ▸ hfrom)
      | cons x rest =>
        obtain rfl := eq_of_fromNode_eq_cons hw
        rw [hw, takeWhile_cons_of_neg (by simpa using hnot)] at hm
        exact not_mem_nil hm
    have hmem := hg.live hdone hh hkh
    refine ⟨?_, hkm⟩
    rcases (hg.lists.mem_fromNode_iff hmem).1 hfrom with rfl | hprec
    · exact hmem
    · exact hprec.right_mem
  · cases hm

end Flattening

/-- The state while nodes enter in front of `n`, a node of the cluster `k`; `B` are the nodes behind
it. -/
structure Inserting (s : Graph) (done : ClusterId → Prop) (gone : NodeId → Prop) (n : NodeId)
    (B : List NodeId) (k : ClusterId) (g : Graph) (A : List NodeId) :
    Prop extends Flattening s done gone g (A ++ n :: B) where
  splits : g.Splits A (n :: B)
  current : g.current = some k
  cluster : (g.node n).cluster = some k
  touched : done k

namespace Inserting

lemma insert (hg : Inserting s done gone n B k g A) (haccess : op.kind.accesses = false)
    (hop : s.kernelMode = .linear → op.name ≠ "dim_id") :
    Inserting s done gone n B k (g.insert op type args) (A ++ [g.nodes.size]) := by
  have hn : (g.insert op type args).node n = g.node n :=
    node_insert_of_ne (Nat.ne_of_lt (hg.lists.lt_size (by simp)))
  refine ⟨?_, hg.splits.insert op type args, hg.current, by rw [hn, hg.cluster], hg.touched⟩
  have hflat : Flattening s done gone (g.insert op type args) (A ++ g.nodes.size :: n :: B) :=
    hg.toFlattening.insert hg.splits hg.cluster hg.current hg.touched haccess hop
  simpa using hflat

lemma modifyNode (hg : Inserting s done gone n B k g A) {f : Node → Node}
    (hop : ∀ x, (f x).op = x.op) (hcluster : ∀ x, (f x).cluster = x.cluster) :
    Inserting s done gone n B k (g.modifyNode m f) A :=
  ⟨hg.toFlattening.modifyNode hop hcluster,
    ⟨hg.splits.toLists.congr rfl rfl size_nodes_modifyNode, hg.splits.cursor, hg.splits.ahead⟩,
    hg.current, by rw [modifyNode_congr Node.cluster hcluster, hg.cluster], hg.touched⟩

end Inserting

end Graph

namespace Build

open KernelFusion.Graph

variable {s g g' : Graph} {E F : NodeId → Prop} {I : Graph → Prop} {done : ClusterId → Prop}
  {gone : NodeId → Prop} {l A B : List NodeId} {n m : NodeId} {k : ClusterId} {name : String}

/-- The tables evolve, the current cluster is the same again, and an invariant stays true. -/
structure Proceeds (E F : NodeId → Prop) (I : Graph → Prop) (g g' : Graph) : Prop where
  evolves : Graph.Evolves E F g g'
  current : g'.current = g.current
  retains : I g → I g'

instance : IsPreorder Graph (Proceeds E F I) where
  refl g := ⟨Evolves.refl E F g, rfl, id⟩
  trans _ _ _ h₁ h₂ := ⟨h₁.evolves.trans h₂.evolves, h₂.current.trans h₁.current,
    fun h => h₂.retains (h₁.retains h)⟩

/-! ### Arithmetic in front of a node -/

/-- Nodes enter in front of a node, behind those that were there. -/
def InsertingAt (s : Graph) (done : ClusterId → Prop) (gone : NodeId → Prop) (A : List NodeId)
    (n : NodeId) (B : List NodeId) (k : ClusterId) (g : Graph) : Prop :=
  ∃ A', A ⊆ A' ∧ Inserting s done gone n B k g A'

lemma proceeds_insertWith {op : Operation} {type : Scalar} {args : List Argument}
    {data : List UInt32} (haccess : op.kind.accesses = false)
    (hop : s.kernelMode = .linear → op.name ≠ "dim_id") :
    Proceeds E F (InsertingAt s done gone A n B k) g (g.insertWith op type args data) :=
  ⟨Evolves.insertWith g op type args data, rfl, fun ⟨_, hA, hg⟩ =>
    ⟨_, subset_append_of_subset_left _ hA,
      (hg.insert haccess hop).modifyNode (fun _ => rfl) fun _ => rfl⟩⟩

lemma keeps_proceeds_apply (hname : Operation.computes name) (ns : List NodeId) :
    Keeps (Proceeds E F (InsertingAt s done gone A n B k)) (apply name ns) g fun _ _ => True := by
  refine keeps_apply_of fun op o hop _ => ⟨?_, trivial⟩
  obtain ⟨haccess, -, hcoord, -⟩ := Operation.of_computes hname hop
  rw [← insertWith_nil]
  exact proceeds_insertWith haccess fun _ => hcoord

lemma keeps_proceeds_source (hname : Operation.computes name) (shape : List Argument)
    (type : Scalar) :
    Keeps (Proceeds E F (InsertingAt s done gone A n B k)) (source name shape type) g
      fun _ _ => True := by
  refine keeps_source_of fun op hop _ => ⟨?_, trivial⟩
  obtain ⟨haccess, -, hcoord, -⟩ := Operation.of_computes hname hop
  rw [← insertWith_nil]
  exact proceeds_insertWith haccess fun _ => hcoord

lemma keeps_proceeds_sourceWith (hname : Operation.onValues name)
    (hcoord : s.kernelMode = .linear → Operation.computes name) (shape : List Argument)
    (type : Scalar) (data : List UInt32) :
    Keeps (Proceeds E F (InsertingAt s done gone A n B k)) (sourceWith name shape type data) g
      fun _ _ => True := by
  refine keeps_sourceWith_of fun op hop _ => ⟨?_, trivial⟩
  obtain ⟨haccess, -⟩ : op.kind.accesses = false ∧ op.name ≠ "memory" := by
    simpa using Operation.of_namedBy hname hop
  exact proceeds_insertWith haccess fun hlinear =>
    (Operation.of_computes (hcoord hlinear) hop).2.2.1

lemma recorder_proceeds :
    Recorder (Proceeds E F (InsertingAt s done gone A n B k)) fun _ _ => True where
  stable h _ := h
  constant _ type w :=
    keeps_proceeds_sourceWith (by decide +kernel) (fun _ => by decide +kernel) [] type [w]
  apply _ hname _ := keeps_proceeds_apply hname _

end Build

end KernelFusion
