/-
What enters when values go through memory.

A ledger says of each node that has entered what it is there for (`Entry`): the memory of a value,
a store of the value in it, or a load for a user. Nodes that have entered never change again.
-/
import KernelFusion.Proofs.Graph.Tidy
import KernelFusion.Proofs.Recording.Calls

namespace KernelFusion.Graph

open List

variable {g g' p : Graph} {l l' l₁ l₂ lp values : List NodeId} {n m v w x : NodeId} {i : Nat}
  {a : Argument} {op : Operation} {type : Scalar} {args : List Argument} {k : ArgKind}
  {loads : List (NodeId × Entry)}

/-! ### Loads and stores -/

/-- What a node takes, apart from sizes. -/
def taken (g : Graph) (n : NodeId) : List (ArgKind × NodeId) :=
  ((g.node n).args.filter fun a => a.kind ≠ .shape).map fun a => (a.kind, g.source a)

lemma mem_taken (ha : a ∈ (g.node n).args) (hkind : a.kind ≠ .shape) :
    (a.kind, g.source a) ∈ g.taken n :=
  mem_map_of_mem (mem_filter.2 ⟨ha, by simpa using hkind⟩)

lemma exists_of_mem_taken (h : (k, v) ∈ g.taken n) :
    ∃ a ∈ (g.node n).args, a.kind ≠ .shape ∧ a.kind = k ∧ g.source a = v := by
  obtain ⟨a, ha, heq⟩ := mem_map.1 h
  obtain ⟨ha, hkind⟩ := mem_filter.1 ha
  obtain ⟨hk, hv⟩ := Prod.mk.inj heq
  exact ⟨a, ha, by simpa using hkind, hk, hv⟩

lemma Extended.taken_eq (h : g.Extended g') (hargs : (g'.node n).args = (g.node n).args)
    (hinside : ∀ a ∈ (g.node n).args, a.source < g.labels.size) : g'.taken n = g.taken n := by
  rw [taken, taken, hargs]
  refine map_congr_left fun a ha => ?_
  rw [h.source (hinside a (mem_filter.1 ha).1)]

lemma taken_insert (hinside : ∀ a ∈ args, a.source < g.labels.size) :
    (g.insert op type args).taken g.nodes.size =
      (args.filter fun a => a.kind ≠ .shape).map fun a => (a.kind, g.source a) := by
  rw [taken, node_insert_self]
  refine map_congr_left fun a ha => ?_
  rw [(Extended.insert g op type args).source (hinside a (mem_filter.1 ha).1)]

/-- The node loads the memory. -/
structure Loads (g : Graph) (n m : NodeId) : Prop where
  name : (g.node n).op.name = "load"
  taken : g.taken n = [(.memory, m)]

/-- The node stores the value in the memory. -/
structure Stores (g : Graph) (n m v : NodeId) : Prop where
  name : (g.node n).op.name = "store"
  taken : g.taken n = [(.memory, m), (.input, v)]

lemma Linked.map_block (hg : g.Linked l) (hk : k ≠ .shape) {ns : List NodeId}
    (hns : ∀ v ∈ ns, v ∈ l) :
    ((block k (ns.map g.label)).filter fun a => a.kind ≠ .shape).map
    (fun a => (a.kind, g.source a)) =
      ns.map fun v => (k, v) := by
  have hfilter : (block k (ns.map g.label)).filter (fun a => a.kind ≠ .shape) =
      block k (ns.map g.label) := by
    rw [filter_eq_self]
    intro a ha
    simpa [kind_of_mem_block ha] using hk
  rw [hfilter]
  refine ext_getElem? fun i => ?_
  rw [getElem?_map, getElem?_block, getElem?_map, getElem?_map]
  cases hi : ns[i]? with
  | none => rfl
  | some v =>
    have htarget := (hg.label v (hns v (mem_of_getElem? hi))).2
    exact congrArg (fun u => some (k, u)) htarget

lemma Linked.taken_access (hg : g.Linked l) (hm : m ∈ l) (hvalues : ∀ v ∈ values, v ∈ l) :
    ((g.accessArguments m [] values).filter fun a => a.kind ≠ .shape).map
      (fun a => (a.kind, g.source a)) = (.memory, m) :: values.map fun v => (.input, v) := by
  have hshape : ((g.node m).arguments .shape).filter (fun a => a.kind ≠ .shape) = [] := by
    rw [filter_eq_nil_iff]
    intro a ha
    simpa using (Node.mem_arguments.1 ha).2
  have hsingle : ∀ v ∈ [m], v ∈ l := by simpa using hm
  have hmemory := hg.map_block (k := .memory) (by decide) hsingle
  have hinput := hg.map_block (k := .input) (by decide) hvalues
  have hlabel : [g.label m] = [m].map g.label := rfl
  rw [accessArguments_eq, headD_nil, hlabel, filter_append, filter_append,
    filter_append, hshape, map_append, map_append, map_append, hmemory, hinput]
  simp

lemma Linked.accessArguments_lt (hg : g.Linked l) (hm : m ∈ l) (hvalues : ∀ v ∈ values, v ∈ l)
    (ha : a ∈ g.accessArguments m [] values) :
    a.source < g.labels.size := by
  have hlabel : ∀ v ∈ l, g.label v < g.labels.size := fun v hv => (hg.label v hv).1
  rw [accessArguments_eq] at ha
  simp only [mem_append, map_nil, block_nil, not_mem_nil, or_false, headD_nil] at ha
  rcases ha with (ha | ha) | ha
  · obtain ⟨i, y, hy, rfl⟩ := mem_block.1 ha
    obtain rfl : y = g.label m := by simpa using mem_of_getElem? hy
    exact hlabel m hm
  · obtain ⟨i, y, hy, rfl⟩ := mem_block.1 ha
    obtain ⟨v, hv, rfl⟩ := mem_map.1 (mem_of_getElem? hy)
    exact hlabel v (hvalues v hv)
  · exact hg.inside m hm a (Node.mem_arguments.1 ha).1

lemma mem_of_mem_accessArguments (ha : a ∈ g.accessArguments m [] values)
    (hkind : a.kind = .shape) : a ∈ (g.node m).args := by
  rw [accessArguments_eq] at ha
  simp only [mem_append, map_nil, block_nil, not_mem_nil, or_false, headD_nil] at ha
  rcases ha with (ha | ha) | ha
  · rw [kind_of_mem_block ha] at hkind
    cases hkind
  · rw [kind_of_mem_block ha] at hkind
    cases hkind
  · exact (Node.mem_arguments.1 ha).1

lemma regular_access (hm : (g.node m).Regular) (haccess : op.kind.accesses)
    (hop : op.name ≠ "memory") :
    ({ op, type, args := g.accessArguments m [] values, label := 0 } : Node).Regular := by
  refine Node.regular_of_blocks (m := [g.label m]) (i := values.map g.label) (x := [])
    (s := (g.node m).labels .shape) ?_ (by simp [haccess]) fun hmem => absurd ?_ hop
  · rw [accessArguments_eq, headD_nil, hm.arguments_eq]
    rfl
  · simpa [Node.isMemory] using hmem

/-! ### The ledger -/

/-- What a node enters for. -/
inductive Entry where
  | memory (value : NodeId)
  | load (value memory user : NodeId)
  | store (value memory : NodeId)

/-- What brings a value to other clusters: memory brings itself, and other values have their
memory. -/
def Brings (p : Graph) (es : List (NodeId × Entry)) (m v : NodeId) : Prop :=
  ((p.node v).isMemory ∧ m = v) ∨ (m, Entry.memory v) ∈ es

/-- Every node enters once, a load takes memory or the memory of a value, and a memory gets at most
one value. -/
structure Balanced (p : Graph) (es : List (NodeId × Entry)) : Prop where
  nodup : (es.map Prod.fst).Nodup
  load : ∀ {x v m n}, (x, Entry.load v m n) ∈ es → Brings p es m v
  store : ∀ {w v m}, (w, Entry.store v m) ∈ es → (m, Entry.memory v) ∈ es
  once : ∀ {w w' v v' m}, (w, Entry.store v m) ∈ es → (w', Entry.store v' m) ∈ es → w = w'

/-- The ledger has what the entry relies on, and no memory is written twice. -/
def Backs (p : Graph) (es : List (NodeId × Entry)) : Entry → Prop
  | .memory _ => True
  | .load v m _ => Brings p es m v
  | .store v m => (m, Entry.memory v) ∈ es ∧ ∀ w v', (w, Entry.store v' m) ∉ es

variable {es : List (NodeId × Entry)} {e e' : Entry} {done : List (NodeId × Nat)}

lemma Balanced.entry_eq (h : p.Balanced es) (he : (x, e) ∈ es) (he' : (x, e') ∈ es) : e = e' :=
  congrArg Prod.snd (inj_on_of_nodup_map h.nodup he he' rfl)

lemma Balanced.concat (h : p.Balanced es) (hx : ∀ e, (x, e) ∉ es) (he : Backs p es e) :
    p.Balanced (es ++ [(x, e)]) := by
  have hcases : ∀ {y f}, (y, f) ∈ es ++ [(x, e)] → (y, f) ∈ es ∨ (y = x ∧ f = e) := by
    intro y f hf
    simpa using hf
  have hold : ∀ {q}, q ∈ es → q ∈ es ++ [(x, e)] := fun hq => mem_append_left _ hq
  refine ⟨?_, fun hf => ?_, fun hf => ?_, fun hf hf' => ?_⟩
  · rw [map_append, map_singleton, nodup_append]
    refine ⟨h.nodup, nodup_singleton _, ?_⟩
    rintro y hy z hz rfl
    obtain ⟨⟨y', f⟩, hf, rfl⟩ := mem_map.1 hy
    obtain rfl : y' = x := mem_singleton.1 hz
    exact hx f hf
  · rcases hcases hf with hf | ⟨rfl, hnew⟩
    · exact (h.load hf).imp_right hold
    · subst hnew
      exact he.imp_right hold
  · rcases hcases hf with hf | ⟨rfl, hnew⟩
    · exact hold (h.store hf)
    · subst hnew
      exact hold he.1
  · rcases hcases hf with hw | ⟨rfl, hnew⟩
    · rcases hcases hf' with hw' | ⟨rfl, hnew⟩
      · exact h.once hw hw'
      · subst hnew
        exact absurd hw (he.2 _ _)
    · rcases hcases hf' with hw' | ⟨rfl, -⟩
      · subst hnew
        exact absurd hw' (he.2 _ _)
      · rfl

/-- Every memory has got its value. -/
def AllStored (es : List (NodeId × Entry)) : Prop :=
  ∀ m v, (m, Entry.memory v) ∈ es → ∃ w, (w, Entry.store v m) ∈ es

/-- Nothing but loads. -/
def OnlyLoads (es : List (NodeId × Entry)) : Prop := ∀ q ∈ es, ∃ v m n, q.2 = Entry.load v m n

lemma onlyLoads_singleton : OnlyLoads [(x, .load v m n)] := by
  intro q hq
  rw [mem_singleton.1 hq]
  exact ⟨v, m, n, rfl⟩

lemma AllStored.append (h : AllStored es) (hloads : OnlyLoads loads) :
    AllStored (es ++ loads) := by
  intro m v hm
  rcases mem_append.1 hm with hm | hm
  · obtain ⟨w, hw⟩ := h m v hm
    exact ⟨w, mem_append_left _ hw⟩
  · obtain ⟨v, m, n, heq⟩ := hloads _ hm
    cases heq

lemma AllStored.spilled (h : AllStored es) (hloads : OnlyLoads loads) :
    AllStored (es ++ [(m, .memory v)] ++ loads ++ [(w, .store v m)]) := by
  intro m' v' hm
  simp only [mem_append, mem_singleton, Prod.mk.injEq, reduceCtorEq, and_false, or_false,
    Entry.memory.injEq] at hm
  rcases hm with (hm | ⟨rfl, rfl⟩) | hm
  · obtain ⟨w', hw⟩ := h m' v' hm
    exact ⟨w', by simp [hw]⟩
  · exact ⟨w, by simp⟩
  · obtain ⟨v, m, n, heq⟩ := hloads _ hm
    cases heq

/-- The node is the memory of a value: outside of all clusters, in front of the value and behind
everything that is in front of the cluster of the value. -/
structure IsMemoryOf (p : Graph) (lp : List NodeId) (g : Graph) (l : List NodeId) (v x : NodeId) :
    Prop where
  table : (g.node x).op ∈ Operation.table
  isMemory : (g.node x).isMemory
  type : (g.node x).type = (p.node v).type
  sizes : ∀ a ∈ (g.node x).args, a ∈ (p.node v).args
  taken : g.taken x = []
  cluster : (g.node x).cluster = none
  front : Precedes l x v
  behind : ∀ y, Precedes lp y v → ¬ p.SameCluster y v → Precedes l y x
  mem : v ∈ lp
  value : (p.node v).isMemory = false

/-- The node loads a value for a user: in the cluster of the user and in front of it. -/
structure IsLoadOf (p : Graph) (lp : List NodeId) (g : Graph) (l : List NodeId) (v m n x : NodeId) :
    Prop where
  table : (g.node x).op ∈ Operation.table
  loads : g.Loads x m
  sizes : ∀ a ∈ (g.node x).args, a.kind = .shape → a ∈ (p.node v).args
  type : (g.node x).type = (p.node v).type
  cluster : (g.node x).cluster = (p.node n).cluster
  front : Precedes l x n
  behind : Precedes l v x
  before : Precedes lp v n
  takes : ∃ k ≠ ArgKind.memory, (k, v) ∈ p.taken n
  parted : (p.node v).isMemory = false → ¬ p.SameCluster v n

/-- The node stores a value: in the cluster of the value and behind it. -/
structure IsStoreOf (p g : Graph) (l : List NodeId) (v m x : NodeId) : Prop where
  table : (g.node x).op ∈ Operation.table
  stores : g.Stores x m v
  sizes : ∀ a ∈ (g.node x).args, a.kind = .shape → a ∈ (p.node v).args
  type : (g.node x).type = .void
  cluster : (g.node x).cluster = (p.node v).cluster
  behind : Precedes l v x

/-- The node is what its entry says. -/
def Fits (p : Graph) (lp : List NodeId) (g : Graph) (l : List NodeId) (x : NodeId) : Entry → Prop
  | .memory v => p.IsMemoryOf lp g l v x
  | .load v m n => p.IsLoadOf lp g l v m n x
  | .store v m => p.IsStoreOf g l v m x

lemma Fits.mono (h : Fits p lp g l x e) (hext : g.Extended g') (hx : x < g.nodes.size)
    (hargs : (g'.node x).args = (g.node x).args)
    (hinside : ∀ a ∈ (g.node x).args, a.source < g.labels.size) (hsub : l.Sublist l') :
    Fits p lp g' l' x e := by
  have htaken := hext.taken_eq hargs hinside
  have hop := hext.op x hx
  have hcluster := hext.cluster x hx
  cases e with
  | memory v =>
    obtain ⟨htable, hmem, htype, hsizes, htake, hnone, hfront, hbehind, hv, hvalue⟩ := h
    exact ⟨hop ▸ htable, (hext.isMemory hx).trans hmem, (hext.type x hx).trans htype,
      hargs ▸ hsizes, htaken.trans htake, hcluster.trans hnone, hfront.mono hsub,
      fun y hy hne => (hbehind y hy hne).mono hsub, hv, hvalue⟩
  | load v m n =>
    obtain ⟨htable, hloads, hsizes, htype, hsame, hfront, hbehind, hbefore, htakes, hparted⟩ := h
    exact ⟨hop ▸ htable, ⟨by rw [hop, hloads.name], htaken.trans hloads.taken⟩, hargs ▸ hsizes,
      (hext.type x hx).trans htype, hcluster.trans hsame, hfront.mono hsub,
      hbehind.mono hsub, hbefore, htakes, hparted⟩
  | store v m =>
    obtain ⟨htable, hstores, hsizes, htype, hsame, hbehind⟩ := h
    exact ⟨hop ▸ htable, ⟨by rw [hop, hstores.name], htaken.trans hstores.taken⟩, hargs ▸ hsizes,
      (hext.type x hx).trans htype, hcluster.trans hsame, hbehind.mono hsub⟩

/-! ### The state of the pass -/

/-- Does the pass move an argument of a node? It moves values from other clusters, and memory that
is taken for a value. -/
def Moves (p : Graph) (lp : List NodeId) (n : NodeId) (a : Argument) : Prop :=
  a.kind ≠ .shape ∧ Precedes lp (p.source a) n ∧
    if (p.node (p.source a)).isMemory = true then a.kind ≠ .memory ∧ (p.node n).isMemory = false
    else ¬ p.SameCluster (p.source a) n

/-- The node has entered for an argument of a user. -/
def EntersFor (p : Graph) (es : List (NodeId × Entry)) (n : NodeId) (a : Argument) (x : NodeId) :
    Prop :=
  if a.kind = .memory then (x, Entry.memory (p.source a)) ∈ es
  else ∃ m, (x, Entry.load (p.source a) m n) ∈ es

lemma EntersFor.append (h : p.EntersFor es n a x) (es' : List (NodeId × Entry)) :
    p.EntersFor (es ++ es') n a x := by
  unfold EntersFor at h ⊢
  split
  · rename_i hkind
    rw [if_pos hkind] at h
    exact mem_append_left _ h
  · rename_i hkind
    rw [if_neg hkind] at h
    obtain ⟨m, hm⟩ := h
    exact ⟨m, mem_append_left _ hm⟩

/-- Everything that the pass moves has moved. -/
def AllMoved (p : Graph) (lp : List NodeId) (done : List (NodeId × Nat)) : Prop :=
  ∀ (n : NodeId) (i : Nat) (a : Argument), (p.node n).args[i]? = some a → p.Moves lp n a →
    (n, i) ∈ done

/-- The state of the pass: `es` is the ledger, and `done` are the places whose arguments have
moved. -/
structure Passing (p : Graph) (lp : List NodeId) (es : List (NodeId × Entry))
    (done : List (NodeId × Nat)) (g : Graph) (l : List NodeId) : Prop extends g.Linked l where
  runs : g.Runs (fun _ => true) l
  extended : p.Extended g
  places : ∀ n < p.nodes.size, (g.node n).args.map Argument.place =
  (p.node n).args.map Argument.place
  listed : lp.Sublist l
  old : ∀ n ∈ lp, n < p.nodes.size
  regular : (∀ n ∈ lp, (p.node n).Regular) → ∀ n ∈ l, (g.node n).Regular
  sizes : ∀ n ∈ l, ∀ a ∈ (g.node n).args, a.kind = .shape → ∃ v ∈ lp, a ∈ (p.node v).args
  entered : ∀ x ∈ l, x ∈ lp ∨ ∃ e, (x, e) ∈ es
  fits : ∀ x e, (x, e) ∈ es → x ∈ l ∧ p.nodes.size ≤ x ∧ Fits p lp g l x e
  balanced : p.Balanced es
  kept : ∀ n ∈ lp, ∀ i, (n, i) ∉ done → (g.node n).args[i]? = (p.node n).args[i]?
  moved : ∀ n i, (n, i) ∈ done → ∃ a b, (p.node n).args[i]? = some a ∧
    (g.node n).args[i]? = some b ∧ p.Moves lp n a ∧ p.EntersFor es n a (g.source b)

namespace Passing

section

variable (hg : Passing p lp es done g l)

include hg

lemma cluster_eq (hn : n ∈ lp) :
    (g.node n).cluster = (p.node n).cluster := hg.extended.cluster n (hg.old n hn)

lemma isMemory_eq (hn : n ∈ lp) :
    (g.node n).isMemory = (p.node n).isMemory := hg.extended.isMemory (hg.old n hn)

lemma exists_argument (hn : n ∈ lp) (ha : (p.node n).args[i]? = some a) :
    ∃ b, (g.node n).args[i]? = some b ∧ b.place = a.place := by
  have hplace := congrArg (fun q => q[i]?) (hg.places n (hg.old n hn))
  simp only [getElem?_map, ha, Option.map_some] at hplace
  exact Option.map_eq_some_iff.1 hplace

lemma exists_old_argument (hn : n ∈ lp) {b : Argument} (hb : (g.node n).args[i]? = some b) :
    ∃ a, (p.node n).args[i]? = some a ∧ a.place = b.place := by
  have hplace := congrArg (fun q => q[i]?) (hg.places n (hg.old n hn))
  simp only [getElem?_map, hb, Option.map_some] at hplace
  exact Option.map_eq_some_iff.1 hplace.symm

lemma mem_of_shape (hn : n ∈ lp) (ha : a ∈ (g.node n).args) (hkind : a.kind = .shape) :
    a ∈ (p.node n).args := by
  obtain ⟨i, hi⟩ := mem_iff_getElem?.1 ha
  have hdone : (n, i) ∉ done := by
    intro hdone
    obtain ⟨b, -, hb, -, hmoves, -⟩ := hg.moved n i hdone
    obtain ⟨c, hc, hplace⟩ := hg.exists_old_argument hn hi
    obtain rfl := Option.mem_unique hb hc
    exact hmoves.1 ((congrArg Prod.fst hplace).trans hkind)
  rw [hg.kept n hn i hdone] at hi
  exact mem_of_getElem? hi

lemma congr (hlinked : g'.Linked l) (hext : g.Extended g')
    (hargs : ∀ n, (g'.node n).args = (g.node n).args) (hhead : ∀ k, g'.head? k = g.head? k) :
    Passing p lp es done g' l := by
  refine ⟨hlinked, ?_, hg.extended.trans hext, ?_, hg.listed, hg.old, fun hreg n hn => ?_, ?_,
    hg.entered, fun x e he => ?_, hg.balanced, ?_, fun n i hi => ?_⟩
  · exact hg.runs.congr (fun n hn => hext.op n (hg.lt_size hn))
      (fun n hn => hext.cluster n (hg.lt_size hn)) fun _ _ k _ => hhead k
  · simpa only [hargs] using hg.places
  · exact (hg.regular hreg n hn).congr (hext.op n (hg.lt_size hn)) (hargs n)
  · simpa only [hargs] using hg.sizes
  · obtain ⟨hx, hge, hfits⟩ := hg.fits x e he
    exact ⟨hx, hge, hfits.mono hext (hg.lt_size hx) (hargs x) (hg.inside x hx) (Sublist.refl l)⟩
  · simpa only [hargs] using hg.kept
  · obtain ⟨a, b, ha, hb, hmoves, hfor⟩ := hg.moved n i hi
    have hn := hg.listed.subset hmoves.2.1.right_mem
    refine ⟨a, b, ha, by rw [hargs, hb], hmoves, ?_⟩
    rw [hext.source (hg.inside n hn b (mem_of_getElem? hb))]
    exact hfor

lemma enter (q : Place) (n : NodeId) (inCluster : Bool) :
    Passing p lp es done (g.enter q n inCluster) l := by
  cases q <;> exact hg.congr (hg.toLinked.congr rfl rfl rfl rfl) (Extended.of_nodes rfl rfl rfl rfl)
    (fun _ => rfl) fun _ => rfl

lemma leave (old : Graph) :
    Passing p lp es done (g.leave old) l :=
  hg.congr (hg.toLinked.congr rfl rfl rfl rfl) (Extended.of_nodes rfl rfl rfl rfl) (fun _ => rfl)
    fun _ => rfl

lemma setRole (n : NodeId) (role : MemoryRole) (slot : Int) :
    Passing p lp es done (g.setRole n role slot) l :=
  hg.congr (hg.toLinked.modifyNode (fun _ => rfl) fun _ _ ha => .inl ha)
    (Extended.setRole g n role slot) (fun _ => modifyNode_congr Node.args fun _ => rfl) fun _ => rfl

end

lemma insert (hg : Passing p lp es done g (l₁ ++ l₂)) (hs : g.Splits l₁ l₂)
    (hruns : (g.insert op type args).Runs (fun _ => true) (l₁ ++ g.nodes.size :: l₂))
    (hinside : ∀ a ∈ args, a.source < g.labels.size)
    (hregular : (∀ n ∈ l₁ ++ l₂, (g.node n).Regular) →
      ({ op, type, args, label := 0 } : Node).Regular)
    (hsizes : ∀ a ∈ args, a.kind = .shape → ∃ v ∈ lp, a ∈ (p.node v).args)
    (hfits : Fits p lp (g.insert op type args) (l₁ ++ g.nodes.size :: l₂) g.nodes.size e)
    (he : Backs p es e) :
    Passing p lp (es ++ [(g.nodes.size, e)]) done (g.insert op type args)
      (l₁ ++ g.nodes.size :: l₂) := by
  have hnode : ∀ v ∈ l₁ ++ l₂, (g.insert op type args).node v = g.node v := fun v hv =>
    hs.toLists.node_insert hv
  have hsub : (l₁ ++ l₂).Sublist (l₁ ++ g.nodes.size :: l₂) := sublist_insert
  have hext := Extended.insert g op type args
  have hlisted : ∀ n ∈ lp, n ∈ l₁ ++ l₂ := fun n hn => hg.listed.subset hn
  refine ⟨hg.toLinked.insert hs hinside, hruns, hg.extended.trans hext, fun n hn => ?_,
    hg.listed.trans hsub, hg.old, fun hreg n hn => ?_, fun n hn a ha hkind => ?_, fun x hx => ?_,
    fun x f hf => ?_, ?_, fun n hn i hi => ?_, fun n i hi => ?_⟩
  · rw [node_insert_of_ne (Nat.ne_of_lt (Nat.lt_of_lt_of_le hn hg.extended.size))]
    exact hg.places n hn
  · rcases mem_append_cons.1 hn with rfl | hn
    · rw [node_insert_self]
      exact (hregular (hg.regular hreg)).congr rfl rfl
    · rw [hnode n hn]
      exact hg.regular hreg n hn
  · rcases mem_append_cons.1 hn with rfl | hn
    · rw [node_insert_self] at ha
      exact hsizes a ha hkind
    · rw [hnode n hn] at ha
      exact hg.sizes n hn a ha hkind
  · rcases mem_append_cons.1 hx with rfl | hx
    · exact .inr ⟨e, by simp⟩
    · rcases hg.entered x hx with hx | ⟨f, hf⟩
      · exact .inl hx
      · exact .inr ⟨f, mem_append_left _ hf⟩
  · rcases mem_append.1 hf with hf | hf
    · obtain ⟨hx, hge, hfits⟩ := hg.fits x f hf
      exact ⟨hsub.subset hx, hge, hfits.mono hext (hg.lt_size hx) (by rw [hnode x hx])
        (hg.inside x hx) hsub⟩
    · obtain ⟨rfl, rfl⟩ := Prod.mk.inj (mem_singleton.1 hf)
      exact ⟨by simp, hg.extended.size, hfits⟩
  · refine hg.balanced.concat (fun f hf => ?_) he
    exact hs.size_notMem (hg.fits _ f hf).1
  · rw [hnode n (hlisted n hn)]
    exact hg.kept n hn i hi
  · obtain ⟨a, b, ha, hb, hmoves, hfor⟩ := hg.moved n i hi
    have hn := hlisted n hmoves.2.1.right_mem
    refine ⟨a, b, ha, by rw [hnode n hn, hb], hmoves, ?_⟩
    rw [hg.toLinked.source_insert hn (mem_of_getElem? hb)]
    exact hfor.append _

variable (hg : Passing p lp es done g l)

include hg

/-- A moved argument is entered as done. -/
lemma setSource (ha : (p.node n).args[i]? = some a) (hmoves : p.Moves lp n a) (hx : x ∈ l)
    (hfor : p.EntersFor es n a x) :
    Passing p lp es (done ++ [(n, i)]) (g.setSource n i x) l := by
  have hnp : n ∈ lp := hmoves.2.1.right_mem
  have hn : n < g.nodes.size := Nat.lt_of_lt_of_le (hg.old n hnp) hg.extended.size
  have hargs : ∀ v j, ((g.setSource n i x).node v).args[j]? =
      if v = n ∧ j = i then (g.node n).args[i]?.map fun a => { a with source := g.label x }
      else (g.node v).args[j]? := getElem?_args_setSource hn i
  have hext := Extended.setSource g n i x
  obtain ⟨b, hb, hplace⟩ := hg.exists_argument hnp ha
  have hkind : b.kind = a.kind := congrArg Prod.fst hplace
  refine ⟨hg.toLinked.modifyNode (fun _ => rfl) fun y c hc => ?_, ?_, hg.extended.trans hext,
    fun v hv => ?_, hg.listed, hg.old, fun hreg v hv => ?_, fun v hv c hc hshape => ?_, hg.entered,
    fun y e he => ?_, hg.balanced, fun v hv j hj => ?_, fun v j hj => ?_⟩
  · rcases mem_modify hc with hc | hc
    · exact .inl hc
    · exact .inr (hc ▸ (hg.label x hx).1)
  · exact hg.runs.congr (fun v _ => modifyNode_congr Node.op fun _ => rfl)
      (fun v _ => modifyNode_congr Node.cluster fun _ => rfl) fun _ _ _ _ => rfl
  · refine Eq.trans ?_ (hg.places v hv)
    exact modifyNode_congr (fun y => y.args.map Argument.place) fun _ => map_place_modify _ _ _
  · exact (hg.regular hreg v hv).reroute (modifyNode_congr Node.op fun _ => rfl)
      (modifyNode_congr (fun y => y.args.map Argument.place) fun _ => map_place_modify _ _ _)
  · -- the moved argument is no size
    obtain ⟨j, hj⟩ := mem_iff_getElem?.1 hc
    rw [hargs] at hj
    split at hj
    · rw [hb] at hj
      cases hj
      exact absurd (hkind.symm.trans hshape) hmoves.1
    · exact hg.sizes v hv c (mem_of_getElem? hj) hshape
  · obtain ⟨hy, hge, hfits⟩ := hg.fits y e he
    have hne : y ≠ n := by
      rintro rfl
      exact absurd (hg.old y hnp) (Nat.not_lt.2 hge)
    exact ⟨hy, hge, hfits.mono hext (hg.lt_size hy) (by rw [node_setSource_of_ne hne])
      (hg.inside y hy) (Sublist.refl l)⟩
  · rw [mem_append, not_or] at hj
    rw [hargs, if_neg, hg.kept v hv j hj.1]
    rintro ⟨rfl, rfl⟩
    exact hj.2 (by simp)
  · by_cases heq : v = n ∧ j = i
    · obtain ⟨rfl, rfl⟩ := heq
      refine ⟨a, { b with source := g.label x },
        ha, by rw [hargs, if_pos ⟨rfl, rfl⟩, hb]; rfl, hmoves,
        ?_⟩
      have hsource : (g.setSource v j x).source { b with source := g.label x } = x :=
        (hg.label x hx).2
      rw [hsource]
      exact hfor
    · have hj : (v, j) ∈ done := by
        rcases mem_append.1 hj with hj | hj
        · exact hj
        · exact absurd (Prod.mk.inj (mem_singleton.1 hj)) heq
      obtain ⟨c, d, hc, hd, hrest⟩ := hg.moved v j hj
      exact ⟨c, d, hc, by rw [hargs, if_neg heq, hd], hrest⟩

lemma precedes_of_brings (hm : Brings p es m v) (hprec : Precedes lp v n) : Precedes l m n := by
  have hvn := hprec.mono hg.listed
  rcases hm with ⟨-, rfl⟩ | hm
  · exact hvn
  · obtain ⟨-, -, hmemory⟩ := hg.fits m _ hm
    exact hmemory.front.trans hvn hg.chain.nodup

lemma type_of_brings (hm : Brings p es m v) (hv : v ∈ lp) :
    (g.node m).type = (p.node v).type := by
  rcases hm with ⟨-, rfl⟩ | hm
  · exact hg.extended.type m (hg.old m hv)
  · exact (hg.fits m _ hm).2.2.type

lemma sizes_of_brings (hm : Brings p es m v) (hv : v ∈ lp) (ha : a ∈ (g.node m).args)
    (hkind : a.kind = .shape)
    : a ∈ (p.node v).args := by
  rcases hm with ⟨-, rfl⟩ | hm
  · exact hg.mem_of_shape hv ha hkind
  · exact (hg.fits m _ hm).2.2.sizes a ha

lemma value_of_entered (he : (x, e) ∈ es) (ha : a ∈ (g.node x).args) (hshape : a.kind ≠ .shape)
    (hmemory : a.kind ≠ .memory) : ∃ m, e = .store (g.source a) m := by
  obtain ⟨-, -, hfits⟩ := hg.fits x e he
  have hmem := mem_taken ha hshape
  cases e with
  | memory v =>
    rw [hfits.taken] at hmem
    cases hmem
  | load v m n =>
    rw [hfits.loads.taken] at hmem
    exact absurd (congrArg Prod.fst (mem_singleton.1 hmem)) hmemory
  | store v m =>
    rw [hfits.stores.taken] at hmem
    simp only [mem_cons, Prod.mk.injEq, hmemory, false_and, not_mem_nil, or_false, false_or] at hmem
    exact ⟨m, by rw [hmem.2]⟩

lemma value_of_store (he : (w, Entry.store v m) ∈ es) :
    v ∈ lp ∧ (p.node v).isMemory = false := by
  obtain ⟨-, -, hmemory⟩ := hg.fits m _ (hg.balanced.store he)
  exact ⟨hmemory.mem, hmemory.value⟩

lemma brings_of_entered (he : (x, e) ∈ es) (ha : a ∈ (g.node x).args) (hkind : a.kind = .memory) :
    ∃ v ∈ lp, Precedes l v x ∧ Brings p es (g.source a) v := by
  obtain ⟨-, -, hfits⟩ := hg.fits x e he
  have hmem := mem_taken ha (by rw [hkind]; decide)
  cases e with
  | memory v =>
    rw [hfits.taken] at hmem
    cases hmem
  | load v m n =>
    rw [hfits.loads.taken, mem_singleton] at hmem
    rw [(Prod.mk.inj hmem).2]
    exact ⟨v, hfits.before.left_mem, hfits.behind, hg.balanced.load he⟩
  | store v m =>
    rw [hfits.stores.taken] at hmem
    simp only [mem_cons, Prod.mk.injEq, hkind, true_and, reduceCtorEq, false_and,
      not_mem_nil, or_false] at hmem
    rw [hmem]
    exact ⟨v, (hg.value_of_store he).1, hfits.behind, .inr (hg.balanced.store he)⟩

lemma memory_of_entered (he : (x, e) ∈ es) (ha : a ∈ (g.node x).args) (hkind : a.kind = .memory) :
    (g.node (g.source a)).isMemory ∧ Precedes l (g.source a) x := by
  obtain ⟨v, hv, hprec, ⟨hmem, heq⟩ | hm⟩ := hg.brings_of_entered he ha hkind
  · rw [heq]
    exact ⟨(hg.isMemory_eq hv).trans hmem, hprec⟩
  · obtain ⟨-, -, hmemory⟩ := hg.fits _ _ hm
    exact ⟨hmemory.isMemory, hmemory.front.trans hprec hg.chain.nodup⟩

lemma exists_moved (hn : n ∈ lp) {b : Argument} (hb : (g.node n).args[i]? = some b)
    (hdone : (n, i) ∈ done) :
    ∃ a, (p.node n).args[i]? = some a ∧ a.kind = b.kind ∧ p.Moves lp n a ∧
      (b.kind = .memory → (g.source b, Entry.memory (p.source a)) ∈ es) ∧
      (b.kind ≠ .memory → ∃ m, (g.source b, Entry.load (p.source a) m n) ∈ es) := by
  obtain ⟨a, b', ha, hb', hmoves, hfor⟩ := hg.moved n i hdone
  obtain rfl := Option.mem_unique hb' hb
  obtain ⟨c, hc, hplace⟩ := hg.exists_old_argument hn hb
  obtain rfl := Option.mem_unique hc ha
  have hkind : c.kind = b'.kind := congrArg Prod.fst hplace
  refine ⟨c, ha, hkind, hmoves, fun hmemory => ?_, fun hmemory => ?_⟩
  · rwa [EntersFor, if_pos (hkind.trans hmemory)] at hfor
  · rwa [EntersFor, if_neg (hkind ▸ hmemory)] at hfor

/-- After the pass an argument precedes its user or is an old one. -/
lemma precedes_or_old (hn : n ∈ l) (ha : a ∈ (g.node n).args) (hshape : a.kind ≠ .shape) :
    Precedes l (g.source a) n ∨ n ∈ lp ∧ a ∈ (p.node n).args := by
  rcases hg.entered n hn with hnp | ⟨e, he⟩
  · obtain ⟨i, hi⟩ := mem_iff_getElem?.1 ha
    by_cases hdone : (n, i) ∈ done
    · obtain ⟨b, -, -, hmoves, hmemory, hload⟩ := hg.exists_moved hnp hi hdone
      by_cases hkind : a.kind = .memory
      · obtain ⟨-, -, hmem⟩ := hg.fits _ _ (hmemory hkind)
        exact .inl (hmem.front.trans (hmoves.2.1.mono hg.listed) hg.chain.nodup)
      · obtain ⟨m, hm⟩ := hload hkind
        exact .inl (hg.fits _ _ hm).2.2.front
    · rw [hg.kept n hnp i hdone] at hi
      exact .inr ⟨hnp, mem_of_getElem? hi⟩
  · by_cases hkind : a.kind = .memory
    · exact .inl (hg.memory_of_entered he ha hkind).2
    · obtain ⟨m, rfl⟩ := hg.value_of_entered he ha hshape hkind
      exact .inl (hg.fits n _ he).2.2.behind

lemma kept_of_isMemory (hn : n ∈ lp) {b : Argument} (hb : (g.node n).args[i]? = some b)
    (hmemory : b.kind ≠ .memory) (hsource : (g.node (g.source b)).isMemory) :
    (p.node n).args[i]? = some b := by
  by_cases hdone : (n, i) ∈ done
  · obtain ⟨a, -, -, -, -, hload⟩ := hg.exists_moved hn hb hdone
    obtain ⟨m, hm⟩ := hload hmemory
    rw [Node.isMemory, (hg.fits _ _ hm).2.2.loads.name] at hsource
    exact absurd hsource (by decide)
  · rw [← hg.kept n hn i hdone]
    exact hb

/-- What became of each argument: moved to its entry or left alone. -/
lemma argument (hall : p.AllMoved lp done) (hn : n ∈ lp) (ha : (p.node n).args[i]? = some a) :
    (p.Moves lp n a → ∃ b, (g.node n).args[i]? = some b ∧ b.place = a.place ∧
      p.EntersFor es n a (g.source b)) ∧
    (¬ p.Moves lp n a → (g.node n).args[i]? = some a) := by
  constructor
  · intro hmoves
    obtain ⟨a', b, ha', hb, -, hfor⟩ := hg.moved n i (hall n i a ha hmoves)
    obtain rfl := Option.mem_unique ha' ha
    obtain ⟨c, hc, hplace⟩ := hg.exists_argument hn ha
    obtain rfl := Option.mem_unique hc hb
    exact ⟨c, hb, hplace, hfor⟩
  · intro hmoves
    rw [hg.kept n hn i, ha]
    intro hdone
    obtain ⟨a', -, ha', -, hmoves', -⟩ := hg.moved n i hdone
    obtain rfl := Option.mem_unique ha' ha
    exact hmoves hmoves'

end Passing

end KernelFusion.Graph
