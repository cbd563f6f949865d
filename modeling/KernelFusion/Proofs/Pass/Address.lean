/-
Flat addresses leave everything but the indices of accesses alone.

No access is added, and what is added agrees with its operation about types. Arithmetic that enters
in front of the first node of the program does not become the head of its cluster, but it still
stands in front of all accesses.
-/
import KernelFusion.Proofs.Graph.Sparse
import KernelFusion.Proofs.Graph.Typing
import KernelFusion.Proofs.Pass.Coordinates

namespace KernelFusion

open List Operation

/-- Is the operation of a name one that the pass may add? -/
def Operation.isAddable : String → Bool :=
  namedBy fun op => !op.kind.accesses && op.name != "memory" && !op.isControl

lemma Operation.isAddable_of_computes {name : String} (h : computes name) :
    isAddable name := by
  unfold isAddable namedBy
  split
  · rename_i op hop
    obtain ⟨haccess, hmemory, -, hcontrol⟩ := of_computes h hop
    simp [haccess, hmemory, hcontrol]
  · rfl

namespace Graph

variable {s g g' : Graph} {ls l A B : List NodeId} {n m v : NodeId} {k : ClusterId} {op : Operation}
  {type : Scalar} {args : List Argument} {data : List UInt32} {E : NodeId → Prop}

/-! ### Arguments from earlier nodes -/

/-- Arguments come from earlier nodes of the program, as far as these are listed, and so do the
sizes of the memory that a node accesses. -/
structure Forward (s : Graph) (ls : List NodeId) : Prop where
  ordered : ∀ n ∈ ls, ∀ a ∈ (s.node n).args, a.kind ≠ .shape → a.source ∈ ls →
    Precedes ls a.source n
  sizes : ∀ n ∈ ls, (s.node n).op.kind.accesses → ∀ m, s.memoryOf? n = some m →
    ∀ a ∈ (s.node m).args, a.kind = .shape → a.source ∈ ls → Precedes ls a.source n

/-- A coordinate, or the first node of all, which stands for a coordinate that is missing. Arguments
may come from it wherever it stands. -/
def IsRoot (g : Graph) (n : NodeId) : Prop := (g.node n).isCoordinate ∨ n = 0

lemma Outline.isRoot (h : g.Outline g') (hn : n < g.nodes.size) (hroot : g.IsRoot n) :
    g'.IsRoot n := by
  refine hroot.imp_left fun hcoord => ?_
  rwa [Node.isCoordinate, h.op n hn]

/-! ### What the pass adds -/

/-- An added node: its operation comes from the table and agrees with its operands. -/
structure IsAdded (g : Graph) (n : NodeId) : Prop where
  table : (g.node n).op ∈ table
  accesses : (g.node n).op.kind.accesses = false
  isMemory : (g.node n).isMemory = false
  control : (g.node n).op.isControl = false
  kinds : ∀ a ∈ (g.node n).args, a.kind = .input ∨ a.kind = .shape
  earlier : ∀ a ∈ (g.node n).args, a.kind ≠ .shape → a.source < n
  agrees : g.Agrees n

lemma IsAdded.evolves (h : g.IsAdded n) (he : Evolves E nothing g g') (hn : n < g.nodes.size)
    (hE : ¬ E n) (hl : g.Labelled) (hl' : g'.Labelled) : g'.IsAdded n := by
  have hop := he.op n hn
  have hargs := he.args n hn hE
  refine ⟨by rw [hop]; exact h.table, by rw [hop]; exact h.accesses,
    ?_, by rw [hop]; exact h.control,
    by rw [hargs]; exact h.kinds, by rw [hargs]; exact h.earlier, ?_⟩
  · rw [he.isMemory hn]
    exact h.isMemory
  · refine h.agrees.congr hop (he.type n hn) ?_
    rw [inputTypes, inputTypes, Node.arguments, Node.arguments, hargs]
    refine map_congr_left fun a ha => ?_
    obtain ⟨ha, hkind⟩ := Node.mem_arguments.1 ha
    have hlt := Nat.lt_trans (h.earlier a ha (by rw [hkind]; decide)) hn
    rw [hl'.source (Nat.lt_of_lt_of_le hlt he.size), hl.source hlt, he.type _ hlt]

lemma inputTypes_insertWith {ns : List NodeId} (h : g.Labelled) (op : Operation) (type : Scalar)
    (data : List UInt32) (hns : ∀ m ∈ ns, m < g.nodes.size)
    (hinputs : (args.filter fun a => a.kind = .input) = block .input ns) :
    (g.insertWith op type args data).inputTypes g.nodes.size = ns.map fun m => (g.node m).type := by
  rw [← inputTypes_insert h op type hns hinputs]
  exact inputTypes_modifyNode (fun _ => rfl) fun _ => rfl

/-- A flat address in place of the indices of a node. -/
def setIndex (g : Graph) (n flat : NodeId) : Graph :=
  (g.removeArguments n .index).addArgument n flat .index 0

lemma size_nodes_setIndex : (g.setIndex n v).nodes.size = g.nodes.size := by
  rw [setIndex, addArgument, removeArguments, size_nodes_modifyNode, size_nodes_modifyNode]

lemma Labelled.setIndex (h : g.Labelled) : (g.setIndex n v).Labelled := by
  have hremoved : (g.removeArguments n .index).Labelled := h.modifyNode fun _ => rfl
  exact hremoved.modifyNode fun _ => rfl

lemma mem_args_setIndex {a : Argument} (h : g.Labelled) (hv : v < g.nodes.size)
    (ha : a ∈ ((g.setIndex n v).node m).args) :
    a ∈ (g.node m).args ∨ m = n ∧ a = ⟨.index, 0, v⟩ := by
  have hlabel : (g.removeArguments n .index).label v = v := by
    have hsame : (g.removeArguments n .index).label v = g.label v :=
      modifyNode_congr Node.label fun _ => rfl
    rw [hsame, h.label v hv]
  rw [setIndex, addArgument, hlabel, node_modifyNode] at ha
  have hold : ∀ a ∈ ((g.removeArguments n .index).node m).args, a ∈ (g.node m).args := by
    intro a ha
    rw [removeArguments, node_modifyNode] at ha
    split at ha
    · exact (mem_filter.1 ha).1
    · exact ha
  split at ha
  · rename_i hm
    exact (mem_append.1 ha).imp (hold a) fun ha => ⟨hm.1, mem_singleton.1 ha⟩
  · exact .inl (hold a ha)

/-! ### The state of the pass -/

/-- The state of the pass: compared with the start, no access has been added and only indices of
accesses have been changed. -/
structure Addressing (s : Graph) (ls : List NodeId) (g : Graph) (l : List NodeId) : Prop where
  lists : g.Lists l
  labelled : g.Labelled
  grouped : g.Grouped OpKind.accesses l
  evolves : Evolves (fun n => (s.node n).op.kind.accesses) nothing s g
  listed : ls.Sublist l
  old : ∀ n ∈ l, n < s.nodes.size → n ∈ ls
  inside : ∀ n ∈ l, ∀ a ∈ (g.node n).args, a.kind ≠ .shape → a.source < g.nodes.size
  added : ∀ n, s.nodes.size ≤ n → n < g.nodes.size → g.IsAdded n
  ordered : s.Forward ls → ∀ n ∈ l, ∀ a ∈ (g.node n).args, a.kind ≠ .shape → a.source ∈ l →
    g.IsRoot a.source ∨ Precedes l a.source n

namespace Addressing

lemma outline (hg : Addressing s ls g l) : s.Outline g := hg.evolves.toOutline

lemma fresh (hg : Addressing s ls g l) : ∀ n ∈ l, (g.node n).op.kind.accesses → n ∈ ls := by
  intro n hn hacc
  refine hg.old n hn (Nat.lt_of_not_le fun hle => ?_)
  rw [(hg.added n hle (hg.lists.lt_size hn)).accesses] at hacc
  cases hacc

lemma change (hg : Addressing s ls g l) (he : Evolves E nothing g g')
    (hE : ∀ n, E n → (s.node n).op.kind.accesses) (hsize : g'.nodes.size = g.nodes.size)
    (hlists : g'.Lists l) (hlabelled : g'.Labelled) (hclusters : g'.clusters = g.clusters)
    (hargs : ∀ n ∈ l, ∀ a ∈ (g'.node n).args, a ∈ (g.node n).args ∨ a.source < g.nodes.size ∧
      (s.Forward ls → a.source ∈ l → g.IsRoot a.source ∨ Precedes l a.source n)) :
    Addressing s ls g' l := by
  have hroot : ∀ n ∈ l, g.IsRoot n → g'.IsRoot n := fun n hn => he.isRoot (hg.lists.lt_size hn)
  refine ⟨hlists, hlabelled, ?_, hg.evolves.trans (he.mono hE fun _ h => h), hg.listed, hg.old,
    fun n hn a ha hkind => ?_, fun n hle hlt => ?_, fun hf n hn a ha hkind hsource => ?_⟩
  · exact hg.grouped.congr (fun n hn => he.op n (hg.lists.lt_size hn))
      (fun n hn => he.cluster n (hg.lists.lt_size hn)) fun k => by rw [head?, head?, hclusters]
  · rw [hsize]
    rcases hargs n hn a ha with ha | ha
    · exact hg.inside n hn a ha hkind
    · exact ha.1
  · rw [hsize] at hlt
    refine (hg.added n hle hlt).evolves he hlt (fun hn => ?_) hg.labelled hlabelled
    have haccess := hE n hn
    rw [node_eq_default hle] at haccess
    cases haccess
  · refine Or.imp_left (hroot _ hsource) ?_
    rcases hargs n hn a ha with ha | ha
    · exact hg.ordered hf n hn a ha hkind hsource
    · exact ha.2 hf hsource

lemma insert (hg : Addressing s ls g (A ++ n :: B)) (hs : g.Splits A (n :: B))
    (hk : (g.node n).cluster = some k) (hcurrent : g.current = some k)
    (hn : (g.node n).isMemory = false)
    (hnew : (g.insertWith op type args data).IsAdded g.nodes.size)
    (hargs : s.Forward ls → ∀ a ∈ args, a.kind ≠ .shape → a.source ∈ A ++ n :: B →
      g.IsRoot a.source ∨ a.source ∈ A) :
    Addressing s ls (g.insertWith op type args data) (A ++ g.nodes.size :: n :: B) := by
  have he : Evolves nothing nothing g (g.insertWith op type args data) :=
    Evolves.insertWith g op type args data
  have hopnew : ((g.insertWith op type args data).node g.nodes.size).op = op := by
    rw [node_insertWith_self]
  have hold : ∀ v ∈ A ++ n :: B, (g.insertWith op type args data).node v = g.node v := fun v hv =>
    node_insertWith_of_lt (hg.lists.lt_size hv)
  have hmem : ∀ v < g.nodes.size, v ∈ A ++ g.nodes.size :: n :: B → v ∈ A ++ n :: B :=
    fun v hv hv' =>
    (mem_append_cons.1 hv').resolve_left (Nat.ne_of_lt hv)
  have hlists : (g.insertWith op type args data).Lists (A ++ g.nodes.size :: n :: B) := by
    simpa using (hs.insertWith op type args data).toLists
  refine ⟨hlists, hg.labelled.insertWith, ?_,
    hg.evolves.trans (he.mono (fun _ h => h.elim) fun _ h => h), hg.listed.trans sublist_insert,
    fun v hv hlt => ?_, fun v hv a ha hkind => ?_, fun v hle hlt => ?_,
    fun hf v hv a ha hkind hsource => ?_⟩
  · have haccess : op.kind.accesses = false := hopnew ▸ hnew.accesses
    have hmemory : op.name ≠ "memory" := by simpa [Node.isMemory, hopnew] using hnew.isMemory
    have hgrouped : (g.insert op type args).Grouped OpKind.accesses (A ++ g.nodes.size :: n :: B) :=
      hg.grouped.insert_before hs hk hcurrent hn hmemory fun hacc => by
        rw [haccess] at hacc
        cases hacc
    exact hgrouped.congr (fun _ _ => modifyNode_congr Node.op fun _ => rfl)
      (fun _ _ => modifyNode_congr Node.cluster fun _ => rfl) fun _ => rfl
  · exact hg.old v (hmem v (Nat.lt_of_lt_of_le hlt hg.outline.size) hv) hlt
  · rw [size_nodes_insertWith]
    refine Nat.lt_succ_of_lt ?_
    rcases mem_append_cons.1 hv with rfl | hv
    · exact hnew.earlier a ha hkind
    · rw [hold v hv] at ha
      exact hg.inside v hv a ha hkind
  · rw [size_nodes_insertWith] at hlt
    rcases Nat.lt_succ_iff_lt_or_eq.1 hlt with hlt | rfl
    · exact (hg.added v hle hlt).evolves he hlt (fun h => h) hg.labelled hg.labelled.insertWith
    · exact hnew
  · rcases mem_append_cons.1 hv with rfl | hv
    · -- the new node uses what stands in front of it
      have hlt := hnew.earlier a ha hkind
      rw [node_insertWith_self] at ha
      refine (hargs hf a ha hkind (hmem _ hlt hsource)).imp (he.isRoot hlt) fun hA => ?_
      exact Precedes.of_mem hA mem_cons_self
    · rw [hold v hv] at ha
      have hlt := hg.inside v hv a ha hkind
      refine (hg.ordered hf v hv a ha hkind (hmem _ hlt hsource)).imp (he.isRoot hlt)
        fun hprec => ?_
      exact hprec.mono sublist_insert

lemma mem_of_mem_run (hg : Addressing s ls g l) (hlt : n < s.nodes.size) (hn : n ∈ ls)
    (hk : (s.node n).cluster = some k) (hv : v ∈ g.run k) : v ∈ l := by
  obtain ⟨h, hh, hmem, hkh, -⟩ := hg.grouped.head (hg.listed.subset hn)
    ((hg.outline.cluster n hlt).trans hk)
  rcases ((hg.grouped.mem_run_iff hg.lists hh hmem hkh).1 hv).1 with rfl | hprec
  · exact hmem
  · exact hprec.right_mem

lemma memoryOf?_eq (hs : s.Sparse ls) (hg : Addressing s ls g l) (hn : n ∈ ls) :
    g.memoryOf? n = s.memoryOf? n := by
  have hlt := hs.lists.lt_size hn
  have hplaces : (g.node n).places .memory = (s.node n).places .memory := by
    rw [Node.places, Node.places, Node.arguments, Node.arguments,
      hg.evolves.others n hlt .memory (by decide)]
  have hreg := hs.regular n hn
  rw [memoryOf?, memoryOf?, hplaces]
  refine Option.map_congr fun a ha => ?_
  have hmem : a ∈ (s.node n).places .memory := mem_of_find?_eq_some ha
  rw [hreg.places_eq, ← hreg.blocks] at hmem
  have hlt' := hs.inside n hn a (mem_of_mem_filter hmem)
  rw [hs.labelled.source hlt', hg.labelled.source (Nat.lt_of_lt_of_le hlt' hg.outline.size)]

end Addressing

/-- The state while nodes enter in front of `n`, a node of the cluster `k`; `B` are the nodes behind
it. -/
structure Working (s : Graph) (ls : List NodeId) (n : NodeId) (B : List NodeId) (k : ClusterId)
    (g : Graph) (A : List NodeId) : Prop extends Addressing s ls g (A ++ n :: B) where
  splits : g.Splits A (n :: B)
  current : g.current = some k
  cluster : (g.node n).cluster = some k
  value : (g.node n).isMemory = false

/-- A node that can be an operand in front of `n`. -/
structure Ready (s : Graph) (ls : List NodeId) (n : NodeId) (B : List NodeId) (g : Graph)
    (A : List NodeId) (v : NodeId) : Prop where
  lt : v < g.nodes.size
  front : s.Forward ls → v ∈ A ++ n :: B → g.IsRoot v ∨ v ∈ A

lemma Ready.of_isRoot (hlt : v < g.nodes.size) (hroot : g.IsRoot v) : Ready s ls n B g A v :=
  ⟨hlt, fun _ _ => .inl hroot⟩

lemma Ready.of_precedes (hlt : v < g.nodes.size) (hnodup : (A ++ n :: B).Nodup)
    (hfront : s.Forward ls → v ∈ A ++ n :: B → g.IsRoot v ∨ Precedes (A ++ n :: B) v n) :
    Ready s ls n B g A v :=
  ⟨hlt, fun hf hv => (hfront hf hv).imp_right fun hprec => hprec.mem_of_right hnodup⟩

namespace Working

lemma unique {A' : List NodeId} (hg : Working s ls n B k g A) (hg' : Working s ls n B k g A') :
    A = A' :=
  append_cancel_right (hg.lists.order.symm.trans hg'.lists.order)

lemma insert (hg : Working s ls n B k g A)
    (hnew : (g.insertWith op type args data).IsAdded g.nodes.size)
    (hargs : ∀ a ∈ args, a.kind ≠ .shape → Ready s ls n B g A a.source) :
    Working s ls n B k (g.insertWith op type args data) (A ++ [g.nodes.size]) := by
  have hn : (g.insertWith op type args data).node n = g.node n :=
    node_insertWith_of_lt (hg.lists.lt_size (by simp))
  have haddressing := hg.toAddressing.insert hg.splits hg.cluster hg.current hg.value hnew
    fun hf a ha hkind => (hargs a ha hkind).front hf
  have hsplits := hg.splits.insertWith op type args data
  exact ⟨by simpa using haddressing, hsplits,
    hg.current, by rw [hn, hg.cluster], by rw [hn, hg.value]⟩

end Working

end Graph

namespace Build

open KernelFusion.Graph

variable {s g g' : Graph} {ls l B A coordinates : List NodeId} {n m v : NodeId} {k : ClusterId}
  {name : String}

/-! ### Arithmetic in front of a node -/

/-- Nodes have entered in front of a node. -/
structure Works (s : Graph) (ls : List NodeId) (n : NodeId) (B : List NodeId) (k : ClusterId)
    (g g' : Graph) : Prop where
  evolves : Evolves nothing nothing g g'
  retains : ∀ {A}, Working s ls n B k g A → ∃ A', Working s ls n B k g' (A ++ A') ∧
    ∀ v ∈ A', g.nodes.size ≤ v

instance : IsPreorder Graph (Works s ls n B k) where
  refl g := ⟨Evolves.refl _ _ g, fun {A} hg => ⟨[], by simpa using hg, by simp⟩⟩
  trans _ _ _ h₁ h₂ := ⟨h₁.evolves.trans h₂.evolves, fun {A} hg => by
    obtain ⟨A₁, hg₁, hA₁⟩ := h₁.retains hg
    obtain ⟨A₂, hg₂, hA₂⟩ := h₂.retains hg₁
    refine ⟨A₁ ++ A₂, by simpa using hg₂, fun v hv => ?_⟩
    exact (mem_append.1 hv).elim (hA₁ v) fun hv => Nat.le_trans h₁.evolves.size (hA₂ v hv)⟩

/-- A node that can be an operand in front of a node. -/
def ReadyAt (s : Graph) (ls : List NodeId) (n : NodeId) (B : List NodeId) (k : ClusterId)
    (v : NodeId) (g : Graph) : Prop :=
  ∃ A, Working s ls n B k g A ∧ Ready s ls n B g A v

lemma ReadyAt.works (h : ReadyAt s ls n B k v g) (hw : Works s ls n B k g g') :
    ReadyAt s ls n B k v g' := by
  obtain ⟨A, hg, hv⟩ := h
  obtain ⟨A', hg', hA'⟩ := hw.retains hg
  refine ⟨A ++ A', hg', Nat.lt_of_lt_of_le hv.lt hw.evolves.size, fun hf hmem => ?_⟩
  -- what has entered is newer than the operand
  have hold : v ∈ A ++ n :: B := by
    rw [append_assoc] at hmem
    rcases mem_append.1 hmem with hmem | hmem
    · exact mem_append_left _ hmem
    · rcases mem_append.1 hmem with hmem | hmem
      · exact absurd (hA' v hmem) (Nat.not_le.2 hv.lt)
      · exact mem_append_right _ hmem
  exact (hv.front hf hold).imp (hw.evolves.isRoot hv.lt) (mem_append_left A')

lemma works_insertWith {op : Operation} {type : Scalar} {args : List Argument} {data : List UInt32}
    (hg : Working s ls n B k g A) (hnew : (g.insertWith op type args data).IsAdded g.nodes.size)
    (hargs : ∀ a ∈ args, a.kind ≠ .shape → Ready s ls n B g A a.source) :
    Works s ls n B k g (g.insertWith op type args data) ∧
      ReadyAt s ls n B k g.nodes.size (g.insertWith op type args data) := by
  have hworking := hg.insert hnew hargs
  refine ⟨⟨Evolves.insertWith g op type args data, fun hg' => ?_⟩,
    ⟨_, hworking, ?_, fun _ _ => .inr (by simp)⟩⟩
  · obtain rfl := hg.unique hg'
    exact ⟨[g.nodes.size], hworking, by simp⟩
  · rw [size_nodes_insertWith]
    exact Nat.lt_succ_self _

/-- An operation on ready operands is ready. -/
lemma keeps_works_apply {ns : List NodeId} (hname : isAddable name) (hv : ReadyAt s ls n B k v g)
    (hns : ∀ m ∈ ns, ReadyAt s ls n B k m g) :
    Keeps (Works s ls n B k) (apply name ns) g (ReadyAt s ls n B k) := by
  obtain ⟨A, hg, -⟩ := hv
  have hready : ∀ m ∈ ns, Ready s ls n B g A m := fun m hm => by
    obtain ⟨A', hg', hm⟩ := hns m hm
    exact hg.unique hg' ▸ hm
  refine keeps_apply_of fun op o hop ho => ?_
  obtain ⟨htable, -⟩ := mem_table_of_find hop
  obtain ⟨⟨haccess, hmem⟩, hcontrol⟩ :
      (op.kind.accesses = false ∧ op.name ≠ "memory") ∧ op.isControl = false := by
    simpa using of_namedBy hname hop
  have hlabel : ns.map g.label = ns := by
    rw [map_congr_left fun m hm => hg.labelled.label m (hready m hm).lt, map_id']
  rw [argumentsFrom_eq, hlabel, ← insertWith_nil]
  have hkinds : ∀ a ∈ block .input ns ++ g.commonShape ns,
      a.kind = .input ∧ a.source ∈ ns ∨ a.kind = .shape := fun a ha => by
    refine (mem_append.1 ha).imp (fun ha => ⟨kind_of_mem_block ha, ?_⟩) kind_of_mem_commonShape
    obtain ⟨i, l, hl, rfl⟩ := mem_block.1 ha
    exact mem_of_getElem? hl
  have hsource : ∀ a ∈ block .input ns ++ g.commonShape ns, a.kind ≠ .shape →
      Ready s ls n B g A a.source := fun a ha hkind =>
    hready _ ((hkinds a ha).resolve_right hkind).2
  have hfilter : ((block .input ns ++ g.commonShape ns).filter fun a => a.kind = .input) =
      block .input ns := by
    have hfilter := filter_operands (g := g) ns
    rwa [argumentsFrom_eq, hlabel] at hfilter
  refine works_insertWith hg ?_ hsource
  have htypes := inputTypes_insertWith hg.labelled op o.output []
    (fun m hm => (hready m hm).lt) hfilter
  have hnode : (g.insertWith op o.output (block .input ns ++ g.commonShape ns) []).node
      g.nodes.size = _ := node_insertWith_self
  refine ⟨by rwa [hnode], by rwa [hnode], by simpa [hnode, Node.isMemory] using hmem,
    by rwa [hnode],
    ?_, ?_, .of_overload? (o := o) (by rwa [hnode]) ?_ fun _ => by rw [hnode]⟩
  · rw [hnode]
    exact fun a ha => (hkinds a ha).imp_left And.left
  · rw [hnode]
    exact fun a ha hkind => (hsource a ha hkind).lt
  · rw [htypes, hnode]
    exact ho

lemma keeps_works_sourceWith (hname : isAddable name) (hg : Working s ls n B k g A)
    {shape : List Argument} (hshape : ∀ a ∈ shape, a.kind = .shape) (type : Scalar)
    (data : List UInt32) :
    Keeps (Works s ls n B k) (sourceWith name shape type data) g fun v g' =>
      ReadyAt s ls n B k v g' ∧ (g'.node v).op.name = Text.removeSpaces name := by
  refine keeps_sourceWith_of fun op hop hyields => ?_
  obtain ⟨htable, hopname⟩ := mem_table_of_find hop
  obtain ⟨⟨haccess, hmem⟩, hcontrol⟩ :
      (op.kind.accesses = false ∧ op.name ≠ "memory") ∧ op.isControl = false := by
    simpa using of_namedBy hname hop
  have hinputs : (shape.filter fun a => a.kind = .input) = block .input [] := by
    rw [block_nil, filter_eq_nil_iff]
    intro a ha
    simp [hshape a ha]
  have htypes := inputTypes_insertWith hg.labelled op type data (by simp) hinputs
  have hnode : (g.insertWith op type shape data).node g.nodes.size = _ := node_insertWith_self
  have hnew : (g.insertWith op type shape data).IsAdded g.nodes.size := by
    refine ⟨by rwa [hnode], by rwa [hnode], by simpa [hnode, Node.isMemory] using hmem,
      by rwa [hnode],
      ?_, ?_, .of_yields (by rwa [hnode]) htypes (by rwa [hnode])⟩
    · rw [hnode]
      exact fun a ha => .inr (hshape a ha)
    · rw [hnode]
      exact fun a ha hkind => absurd (hshape a ha) hkind
  obtain ⟨hworks, hready⟩ := works_insertWith hg hnew fun a ha hkind => absurd (hshape a ha) hkind
  exact ⟨hworks, hready, by rw [hnode, hopname]⟩

lemma recorder_works : Recorder (Works s ls n B k) (ReadyAt s ls n B k) where
  stable h hw := h.works hw
  constant h type w := by
    obtain ⟨A, hg, -⟩ := h
    exact (keeps_works_sourceWith (by decide +kernel) hg (by simp) type [w]).mono fun _ _ _ h => h.1
  apply h hname hns := keeps_works_apply (isAddable_of_computes hname) h hns

/-! ### One node after the other -/

/-- The pass goes on. -/
structure Goes (s : Graph) (ls : List NodeId) (g g' : Graph) : Prop where
  evolves : Evolves (fun n => (s.node n).op.kind.accesses) nothing g g'
  retains : (∃ l, Addressing s ls g l) → ∃ l, Addressing s ls g' l

instance : IsPreorder Graph (Goes s ls) where
  refl g := ⟨Evolves.refl _ _ g, id⟩
  trans _ _ _ h₁ h₂ := ⟨h₁.evolves.trans h₂.evolves, fun h => h₂.retains (h₁.retains h)⟩

lemma Works.goes (hw : Works s ls n B k g g') (hg : Working s ls n B k g A) :
    Goes s ls g g' := by
  obtain ⟨A', hg', -⟩ := hw.retains hg
  exact ⟨hw.evolves.mono (fun _ h => h.elim) fun _ h => h, fun _ => ⟨_, hg'.toAddressing⟩⟩

lemma addressing_of_tables (hg : Addressing s ls g l) (hnodes : g'.nodes = g.nodes)
    (hlabels : g'.labels = g.labels) (hchain : g'.chain = g.chain) (hfirst : g'.first = g.first)
    (hclusters : g'.clusters = g.clusters) (he : Evolves nothing nothing g g') :
    Addressing s ls g' l :=
  hg.change he (fun _ h => h.elim) (by rw [hnodes]) (hg.lists.congr hchain hfirst (by rw [hnodes]))
    (hg.labelled.congr hnodes hlabels) hclusters fun n hn a ha => by
      rw [Graph.node, hnodes] at ha
      exact .inl ha

lemma keeps_before {act : Build α} {P : α → Graph → Prop} (hg : Addressing s ls g l) (hn : n ∈ l)
    (hnm : (g.node n).isMemory = false) (hback : ∀ {a g'} old, P a g' → P a (Graph.leave g' old))
    (hact : ∀ A B k, l = A ++ n :: B → Working s ls n B k (g.enter .before n true) A →
      Keeps (Goes s ls) act (g.enter .before n true) P) :
    Keeps (Goes s ls) (before n true act) g P := by
  obtain ⟨A, B, rfl⟩ := append_of_mem hn
  obtain ⟨k, hk⟩ := hg.grouped.clustered hn hnm
  have hentered : Evolves nothing nothing g (g.enter .before n true) :=
    Evolves.of_tables rfl rfl rfl rfl rfl
  have hworking : Working s ls n B k (g.enter .before n true) A :=
    ⟨addressing_of_tables hg rfl rfl rfl rfl rfl hentered, hg.lists.enter_before true, hk, hk, hnm⟩
  have hstart : Goes s ls g (g.enter .before n true) :=
    ⟨hentered.mono (fun _ h => h.elim) fun _ h => h, fun _ => ⟨_, hworking.toAddressing⟩⟩
  have hmeets := (hact A B k rfl hworking).meets
  have hplaced := placed_eq .before n true act g
  -- on success the cursor goes back, on failure it stays; the pass does not depend on it
  cases hrun : act (g.enter .before n true) with
  | ok a g' =>
    obtain ⟨hgoes, hp⟩ := hmeets.of_ok hrun
    have hleave : Goes s ls g' (g'.leave g) := by
      refine ⟨Evolves.leave g' g, fun ⟨l', hg'⟩ => ⟨l', ?_⟩⟩
      exact addressing_of_tables hg' rfl rfl rfl rfl rfl (Evolves.leave g' g)
    rw [hrun] at hplaced
    exact ⟨meets_of_ok hplaced ⟨trans_of _ (trans_of _ hstart hgoes) hleave, hback g hp⟩⟩
  | error e g' =>
    rw [hrun] at hplaced
    exact ⟨meets_of_error hplaced (trans_of _ hstart (hmeets.of_error hrun))⟩

lemma ready_size (hs : s.Sparse ls) (hm : s.MemoryListed ls) (hg : Working s ls n B k g A)
    (hn : n ∈ ls) (hacc : (s.node n).op.kind.accesses)
    (dim : Nat) : Ready s ls n B g A ((g.size? ((g.memoryOf? n).getD 0) dim).getD 0) := by
  have hpos : 0 < g.nodes.size :=
    Nat.zero_lt_of_lt (hg.lists.lt_size (mem_append_right A mem_cons_self))
  obtain ⟨m, hmem⟩ : ∃ m, s.memoryOf? n = some m := by
    obtain ⟨x, hx⟩ := (hs.regular n hn).exists_memory hacc
    exact ⟨x, (hs.memoryOf?_iff hn hacc).2 hx⟩
  rw [hg.memoryOf?_eq hs hn, hmem, Option.getD_some, size?]
  cases hsize : (g.node m).sizeAt? dim with
  | none => exact .of_isRoot hpos (.inr rfl)
  | some a =>
    have hml := hm n hn hacc m hmem
    have hmlt := hs.lists.lt_size hml
    -- the sizes of memory are those it had when the pass began
    have ha : a ∈ (s.node m).args ∧ a.kind = .shape := by
      obtain ⟨ha, hkind⟩ := Node.mem_of_sizeAt? hsize
      have hfilter : a ∈ (g.node m).args.filter fun a => a.kind = .shape := by simp [ha, hkind]
      rw [hg.evolves.others m hmlt .shape (by decide)] at hfilter
      simpa using hfilter
    have hlt := hs.inside m hml a ha.1
    have hlt' := Nat.lt_of_lt_of_le hlt hg.outline.size
    rw [Option.map_some, Option.getD_some, hg.labelled.source hlt']
    refine .of_precedes hlt' hg.lists.chain.nodup fun hf hsource => .inr ?_
    exact (hf.sizes n hn hacc m hmem a ha.1 ha.2 (hg.old _ hsource hlt)).mono hg.listed

lemma ready_index (hg : Working s ls n B k g A) (hcoords : ∀ c ∈ coordinates,
    c < g.nodes.size ∧ g.IsRoot c)
    (dim : Nat) :
    Ready s ls n B g A (indexNode (g.sources n .index) coordinates dim) := by
  have hn : n ∈ A ++ n :: B := mem_append_right A mem_cons_self
  have hpos : 0 < g.nodes.size := Nat.zero_lt_of_lt (hg.lists.lt_size hn)
  rw [indexNode]
  cases hlookup : (g.sources n .index).lookup (dim : Int) with
  | some v =>
    obtain ⟨a, ha, heq⟩ := mem_map.1 (mem_of_lookup hlookup)
    obtain ⟨-, rfl⟩ := Prod.mk.inj heq
    obtain ⟨ha, hkind⟩ := Node.mem_of_mem_places ha
    have hshape : a.kind ≠ .shape := by rw [hkind]; decide
    have hlt := hg.inside n hn a ha hshape
    rw [Option.getD_some, hg.labelled.source hlt]
    exact .of_precedes hlt hg.lists.chain.nodup fun hf hsource =>
      hg.ordered hf n hn a ha hshape hsource
  | none =>
    rw [Option.getD_none, getD_eq_getElem?_getD]
    cases hc : coordinates[dim]? with
    | none => exact .of_isRoot hpos (.inr rfl)
    | some c =>
      obtain ⟨hlt, hroot⟩ := hcoords c (mem_of_getElem? hc)
      exact .of_isRoot hlt hroot

/-- Flattening one access keeps the addressing. -/
lemma keeps_flattenAccess (hs : s.Sparse ls) (hm : s.MemoryListed ls) (hg : Addressing s ls g l)
    (hn : n ∈ ls) (hacc : (s.node n).op.kind.accesses) (hcoords : ∀ c ∈ coordinates,
    c < g.nodes.size ∧ g.IsRoot c) :
    Keeps (Goes s ls) (flattenAccess none coordinates n) g fun _ _ => True := by
  have hlt := hs.lists.lt_size hn
  have hnm : (g.node n).isMemory = false := by
    rw [hg.outline.isMemory hlt]
    exact hs.isMemory_of_accesses hn hacc
  refine keeps_before hg (hg.listed.subset hn) hnm (fun _ _ => trivial) fun A B k _ hworking =>
    keeps_get_bind ?_
  dsimp only
  have hreckons : Reckons (Works s ls n B k) (fun v _ g => ReadyAt s ls n B k v g)
      (fun _ _ => True) fun x _ _ => x := recorder_works.reckons
  have hsize : ∀ dim, ReadyAt s ls n B k _ (g.enter .before n true) := fun dim =>
    ⟨A, hworking, ready_size hs hm hworking hn hacc dim⟩
  refine Keeps.bind (Keeps.weaken (hreckons.ends_flatIndex (d := fun _ => 0) (x := fun _ => 0)
    (.inr (.inr (refl_of _))) (fun dim _ => hsize dim) (fun _ => hsize 0) fun dim _ =>
      ⟨A, hworking, ready_index hworking hcoords dim⟩) fun _ hw => hw.goes hworking)
    fun flat g₁ h₁ hready => keeps_modify ?_ trivial
  obtain ⟨A₁, hg₁, hready⟩ := hready
  have hlt₁ := hg₁.lists.lt_size (mem_append_right A₁ mem_cons_self)
  -- the index arguments go and a flat one enters
  have he : Evolves (· = n) nothing g₁ (g₁.setIndex n flat) :=
    (Evolves.removeIndices g₁ n).trans (Evolves.addIndex _ n flat)
  have hE : ∀ v, v = n → (s.node v).op.kind.accesses := fun v hv => hv ▸ hacc
  refine ⟨he.mono hE fun _ h => h, fun _ => ⟨A₁ ++ n :: B, ?_⟩⟩
  refine hg₁.toAddressing.change he hE size_nodes_setIndex
    (hg₁.lists.congr rfl rfl size_nodes_setIndex) hg₁.labelled.setIndex rfl fun v hv a ha => ?_
  refine (mem_args_setIndex hg₁.labelled hready.lt ha).imp_right ?_
  rintro ⟨rfl, rfl⟩
  exact ⟨hready.lt, fun hf hsource => (hready.front hf hsource).imp_right fun hA =>
    Precedes.of_mem hA mem_cons_self⟩

/-- A coordinate that is there. -/
def HasRoot (c : NodeId) (g : Graph) : Prop := c < g.nodes.size ∧ g.IsRoot c

lemma HasRoot.goes {c : NodeId} (h : HasRoot c g) (hg : Goes s ls g g') : HasRoot c g' :=
  ⟨Nat.lt_of_lt_of_le h.1 hg.evolves.size, hg.evolves.isRoot h.1 h.2⟩

lemma keeps_multiCoordinates (hs : s.Sparse ls) (hg : Addressing s ls g l) (hn : n ∈ ls)
    (hnm : (s.node n).isMemory = false) (hk : (s.node n).cluster = some k) (rank : Nat) :
    Keeps (Goes s ls) (multiCoordinates k rank) g fun cs g' => ∀ c ∈ cs, HasRoot c g' := by
  have hlt := hs.lists.lt_size hn
  refine keeps_get_bind ?_
  cases hp : presentCoordinates rank (coordinateNodes g (g.run k)) with
  | error e => exact keeps_throw
  | ok present =>
    refine keeps_mapM (fun h hgoes => h.goes hgoes) fun i _ g' hgoes => ?_
    cases hl : present.lookup (i : Int) with
    | some m =>
      obtain ⟨hrun, hcoord, -⟩ :=
        mem_coordinateNodes.1 (mem_of_presentCoordinates hp (mem_of_lookup hl))
      have hml := hg.lists.lt_size (hg.mem_of_mem_run hlt hn hk hrun)
      exact ends_pure (HasRoot.goes ⟨hml, .inl hcoord⟩ hgoes)
    | none =>
      refine keeps_get_bind ?_
      obtain ⟨l', hg'⟩ := hgoes.retains ⟨l, hg⟩
      have hnl := hg'.listed.subset hn
      have hkg := (hg'.outline.cluster n hlt).trans hk
      -- a missing coordinate enters in front of the head
      obtain ⟨h, hh, hmem, hkh, -⟩ := hg'.grouped.head hnl hkg
      have hhm : (g'.node h).isMemory = false := by
        rw [hg'.grouped.apart hmem hnl hkh hkg, hg'.outline.isMemory hlt, hnm]
      rw [hh]
      refine keeps_before hg' hmem hhm (fun _ h => h) fun A B k _ hworking => keeps_get_bind ?_
      have hdim : isAddable "dim_id" = true := by decide +kernel
      have hshape : ∀ a ∈ ((g'.enter .before h true).node h).arguments .shape, a.kind = .shape :=
        fun a ha => (Node.mem_arguments.1 ha).2
      refine ((keeps_works_sourceWith hdim hworking hshape .int [word i]).weaken
        fun _ hw => hw.goes hworking).mono fun v g₁ _ hv => ?_
      obtain ⟨⟨A₁, -, hready⟩, hop⟩ := hv
      refine ⟨hready.lt, .inl ?_⟩
      rw [Node.isCoordinate, hop]
      decide +kernel

variable (hs : s.Sparse ls) (hm : s.MemoryListed ls) (hmode : s.kernelMode = .multi)

include hs hm hmode

/-- Flattening one cluster keeps the addressing. -/
lemma keeps_flattenCluster (hg : Addressing s ls g l) (hn : n ∈ ls)
    (hnm : (s.node n).isMemory = false) (hk : (s.node n).cluster = some k) :
    Keeps (Goes s ls) (flattenCluster k) g fun _ _ => True := by
  refine keeps_get_bind ?_
  cases g.head? k with
  | none => exact ends_pure trivial
  | some h =>
    dsimp only
    split
    · exact ends_pure trivial
    · rw [hg.outline.mode, hmode]
      refine Keeps.bind (keeps_multiCoordinates hs hg hn hnm hk _)
        fun coordinates g₁ hgoes₁ hroots => ?_
      refine Keeps.bind (P := fun q g => q = (none, coordinates) ∧ ∀ c ∈ coordinates, HasRoot c g)
        (ends_pure ⟨rfl, hroots⟩) fun q g₂ hgoes₂ hq => ?_
      obtain ⟨rfl, hroots⟩ := hq
      obtain ⟨l₂, hg₂⟩ := hgoes₂.retains (hgoes₁.retains ⟨l, hg⟩)
      refine keeps_get_bind (keeps_forM fun v hv g₃ hgoes₃ => ?_)
      obtain ⟨hv, hacc⟩ := mem_filter.1 hv
      -- the accesses of the run were there when the pass began
      have hvs := hg₂.fresh v (hg₂.mem_of_mem_run (hs.lists.lt_size hn) hn hk hv) hacc
      rw [hg₂.outline.op v (hs.lists.lt_size hvs)] at hacc
      obtain ⟨l₃, hg₃⟩ := hgoes₃.retains ⟨l₂, hg₂⟩
      exact keeps_flattenAccess hs hm hg₃ hvs hacc fun c hc => (hroots c hc).goes hgoes₃

lemma keeps_flatten (hstart : Addressing s ls s ls) : Keeps (Goes s ls)
    flatten s fun _ _ => True := by
  refine keeps_get_bind (keeps_forM fun k hk g hgoes => ?_)
  obtain ⟨n, hn, hnm, hkn⟩ := mem_clusterOrder.1 hk
  rw [hs.lists.order] at hn
  obtain ⟨l, hg⟩ := hgoes.retains ⟨ls, hstart⟩
  exact keeps_flattenCluster hs hm hmode hg hn hnm hkn

end Build

lemma Graph.Sparse.addressed {s f : Graph} {ls : List NodeId} (hs : s.Sparse ls)
    (hm : s.MemoryListed ls) (hmode : s.kernelMode = .multi)
    (hrun : Build.flatten s = .ok ⟨⟩ f) : ∃ lf, Addressing s ls f lf := by
  have hstart : Addressing s ls s ls := by
    refine ⟨hs.lists, hs.labelled, hs.grouped.weaken fun _ _ => rfl, Evolves.refl _ _ s,
      Sublist.refl ls, fun _ hn _ => hn, fun n hn a ha _ => hs.inside n hn a ha,
      fun n hle hlt => absurd hlt (Nat.not_lt.2 hle), fun hf n hn a ha hkind hsource => ?_⟩
    exact .inr (hf.ordered n hn a ha hkind hsource)
  exact ((Build.keeps_flatten hs hm hmode hstart).meets.of_ok hrun).1.retains ⟨ls, hstart⟩

end KernelFusion
