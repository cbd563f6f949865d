/-
Copies of computations.

Copies enter at the cursor as one block, in the order of the nodes they are copies of. Every copy
finds the copies of its operands: in an ordered program these have been copied before it, and no
node is copied twice. Memory and sizes are those of the node.
-/
import KernelFusion.Proofs.Graph.Expression
import KernelFusion.Proofs.Pass.Closure
import KernelFusion.Proofs.Recording.Forms

namespace KernelFusion

open List

/-- The graph with a copy of a node that has its own arguments. -/
def Graph.withCopy (g : Graph) (n : NodeId) (args : List Argument) : Graph :=
  g.insertWith (g.node n).op (g.node n).type args (g.node n).data

/-! ### Looking up copies -/

/-- An argument of a copy. -/
def Graph.copyArgument (g : Graph) (copies : Copies) (a : Argument) : Argument :=
  if g.isComputed a then
    match copies.lookup (g.source a) with
    | some c => { a with source := g.label c }
    | none => a
  else a

section Lookup

variable {α β : Type} [BEq α] [LawfulBEq α] {l : List (α × β)} {x : α}

lemma isSome_lookup_iff : (l.lookup x).isSome ↔ x ∈ l.map Prod.fst := by
  rw [Option.isSome_iff_exists]
  refine ⟨?_, exists_lookup_eq_some⟩
  rintro ⟨y, hy⟩
  exact mem_map_of_mem (mem_of_lookup hy)

lemma filterMap_lookup_keys (h : (l.map Prod.fst).Nodup) :
    (l.map Prod.fst).filterMap (fun x => l.lookup x) = l.map Prod.snd := by
  rw [filterMap_map, ← filterMap_eq_map]
  exact filterMap_congr fun q hq => lookup_eq_some_of_mem h hq

end Lookup

namespace Build

variable {g g₀ : Graph} {copies : Copies} {n : NodeId}

lemma copiedArguments_eq (h : ∀ a ∈ (g.node n).args, g.isComputed a →
      (copies.lookup (g.source a)).isSome) :
    copiedArguments copies n g = .ok ((g.node n).args.map (g.copyArgument copies)) g := by
  refine mapM_of_ok fun a ha => ?_
  unfold Graph.copyArgument
  by_cases hc : g.isComputed a
  · rw [if_pos hc, if_pos hc]
    obtain ⟨c, hlookup⟩ := Option.isSome_iff_exists.1 (h a ha hc)
    rw [hlookup]
    rfl
  · rw [if_neg hc, if_neg hc]
    rfl

lemma copyNode_eq (h : g.recording) (args : List Argument) :
    copyNode n args g = .ok g.nodes.size (g.withCopy n args) := by
  have hrecord := record_eq h (g.node n).op (g.node n).type args
  refine (bind_of_ok (x := get) (s := g) rfl).trans ?_
  refine (bind_of_ok hrecord).trans ?_
  rfl

end Build

namespace Graph

variable {c g g₀ g' : Graph} {A B N : List NodeId} {h n m w : NodeId} {k : ClusterId}
  {copies : Copies} {l l₁ l₂ targets todo : List NodeId} {origin : NodeId → NodeId} {a b : Argument}
  {args : List Argument} {q : NodeId × NodeId}

lemma source_withCopy (ha : a.source < g.labels.size) : (g.withCopy n args).source a =
    g.source a := by
  show (g.insert (g.node n).op (g.node n).type args).target a.source = g.target a.source
  exact target_insert_of_ne (Nat.ne_of_lt ha)

/-! ### What a node is computed from -/

/-- The node takes a value from another one that is not memory. -/
def ComputedFrom (g : Graph) (n m : NodeId) : Prop :=
  ∃ a ∈ (g.node n).args, a.kind ≠ .shape ∧ (g.node m).isMemory = false ∧ g.source a = m

lemma isComputed_iff :
    g.isComputed a ↔ a.kind ≠ .shape ∧ (g.node (g.source a)).isMemory = false := by
  simp [isComputed]

lemma mem_operandNodes : m ∈ g.operandNodes n ↔ g.ComputedFrom n m := by
  rw [operandNodes, mem_map]
  constructor
  · rintro ⟨a, ha, rfl⟩
    obtain ⟨ha, hcomp⟩ := mem_filter.1 ha
    obtain ⟨hkind, hmem⟩ := isComputed_iff.1 hcomp
    exact ⟨a, ha, hkind, hmem, rfl⟩
  · rintro ⟨a, ha, hkind, hmem, rfl⟩
    exact ⟨a, mem_filter.2 ⟨ha, isComputed_iff.2 ⟨hkind, hmem⟩⟩, rfl⟩

lemma mem_closure_iff :
    n ∈ g.closure targets ↔ ∃ t ∈ targets, Relation.ReflTransGen g.ComputedFrom t n := by
  constructor
  · refine closure_subset (p := fun n => ∃ t ∈ targets, Relation.ReflTransGen g.ComputedFrom t n)
      ?_ ?_ n
    · rintro v ⟨t, ht, hv⟩ m hm
      exact ⟨t, ht, hv.tail (mem_operandNodes.1 hm)⟩
    · exact fun t ht => ⟨t, ht, Relation.ReflTransGen.refl⟩
  · rintro ⟨t, ht, hn⟩
    induction hn with
    | refl => exact (closure_spec g targets).1 t ht
    | tail _ hstep ih => exact (closure_spec g targets).2 _ ih _ (mem_operandNodes.2 hstep)

lemma Ordered.closure_subset (ho : g.Ordered l) (htargets : ∀ t ∈ targets, t ∈ l) :
    ∀ n ∈ g.closure targets, n ∈ l := by
  refine Graph.closure_subset (fun n hn m hm => ?_) htargets
  obtain ⟨a, ha, -, -, rfl⟩ := mem_operandNodes.1 hm
  exact (ho n hn a ha).left_mem

lemma Ordered.mem_front_of_operand (ho : g.Ordered l) (hl : g.Lists l) {pre post : List NodeId}
    (hsplit : (g.order.filter fun n => (g.closure targets).contains n) = pre ++ n :: post)
    (hm : m ∈ g.operandNodes n) : m ∈ pre := by
  rw [hl.order] at hsplit
  have hnodup := hl.chain.nodup.filter fun n => (g.closure targets).contains n
  have hn : n ∈ l.filter fun n => (g.closure targets).contains n := by
    rw [hsplit]
    simp
  obtain ⟨hn, hnc⟩ := mem_filter.1 hn
  have hmc := (closure_spec g targets).2 n (contains_iff_mem.1 hnc) m hm
  have hprec : Precedes l m n := by
    obtain ⟨a, ha, -, -, rfl⟩ := mem_operandNodes.1 hm
    exact ho n hn a ha
  have hfiltered := hprec.filter (q := fun n => (g.closure targets).contains n)
    (contains_iff_mem.2 hmc) hnc
  rw [hsplit] at hfiltered hnodup
  exact hfiltered.mem_of_right hnodup

/-! ### Recording copies -/

/-- The argument `b` of a copy stands for the argument `a`: a value comes from the copy of its
source, memory and sizes stay. -/
structure CopiesArgument (g : Graph) (copies : Copies) (g' : Graph) (a b : Argument) : Prop where
  kind : b.kind = a.kind
  index : b.index = a.index
  moved : a.kind ≠ .shape → (g.node (g.source a)).isMemory = false →
    copies.lookup (g.source a) = some (g'.source b)
  kept : a.kind = .shape ∨ (g.node (g.source a)).isMemory → b = a ∧ g'.source b = g.source a

lemma CopiesArgument.withCopy (ha : g.CopiesArgument copies g' a b) (hb : b.source < g'.labels.size)
    (hn : n ∉ copies.map Prod.fst) :
    g.CopiesArgument ((n, w) :: copies) (g'.withCopy m args) a b := by
  refine ⟨ha.kind, ha.index, fun hkind hmem => ?_, fun hkept => ?_⟩
  · have hfound := ha.moved hkind hmem
    have hne : (g.source a == n) = false := by
      rw [beq_eq_false_iff_ne]
      rintro rfl
      exact hn (isSome_lookup_iff.1 (by rw [hfound]; rfl))
    rw [lookup_cons, hne, source_withCopy hb]
    exact hfound
  · rw [source_withCopy hb]
    exact ha.kept hkept

/-- The node `w` is a new node that does what `n` does, in the current cluster. -/
structure Duplicates (g : Graph) (copies : Copies) (g' : Graph) (n w : NodeId) : Prop where
  fresh : g.nodes.size ≤ w
  op : (g'.node w).op = (g.node n).op
  type : (g'.node w).type = (g.node n).type
  data : (g'.node w).data = (g.node n).data
  cluster : (g'.node w).cluster = g.current
  args : Forall₂ (g.CopiesArgument copies g') (g.node n).args (g'.node w).args

lemma Duplicates.exists_argument (hd : g.Duplicates copies g' n w) (hb : b ∈ (g'.node w).args) :
    ∃ a ∈ (g.node n).args, g.CopiesArgument copies g' a b := by
  obtain ⟨i, rfl⟩ := get_of_mem hb
  have hi : i.1 < (g.node n).args.length := Nat.lt_of_lt_of_eq i.2 hd.args.length_eq.symm
  exact ⟨_, get_mem _ ⟨i.1, hi⟩, hd.args.get hi i.2⟩

/-- The state while copies are recorded at the cursor between `l₁` and `l₂`. -/
structure Duplicating (g : Graph) (l₁ l₂ : List NodeId) (copies : Copies) (g' : Graph) : Prop where
  splits : g'.Splits (l₁ ++ (copies.map Prod.snd).reverse) l₂
  linked : g'.Linked (l₁ ++ (copies.map Prod.snd).reverse ++ l₂)
  extended : g.Extended g'
  grown : l₂ ≠ [] → g.Grown g'
  current : g'.current = g.current
  same : ∀ n < g.nodes.size, g'.node n = g.node n
  keys : (copies.map Prod.fst).Nodup
  duplicates : ∀ q ∈ copies, g.Duplicates copies g' q.1 q.2
  runs : ∀ {h B k}, l₂ = h :: B → (copies ≠ [] → l₁ ≠ []) → (g.node h).cluster = some k →
  g.current = some k →
    g.Runs (fun _ => true) (l₁ ++ l₂) →
    g'.Runs (fun _ => true) (l₁ ++ (copies.map Prod.snd).reverse ++ l₂)

namespace Duplicating

lemma refl (hs : g.Splits l₁ l₂) (hl : g.Linked (l₁ ++ l₂)) : g.Duplicating l₁ l₂ [] g :=
  ⟨by simpa using hs, by simpa using hl, Extended.refl g, fun _ => Grown.refl g, rfl,
    fun _ _ => rfl,
    nodup_nil, by simp, fun _ _ _ _ hruns => by simpa using hruns⟩

lemma mem_copies (hq : q ∈ copies) :
    q.2 ∈ l₁ ++ (copies.map Prod.snd).reverse ++ l₂ := by
  have hq' : q.2 ∈ copies.map Prod.snd := mem_map_of_mem hq
  simp only [mem_append, mem_reverse]
  exact .inl (.inr hq')

section

variable (hd : g.Duplicating l₁ l₂ copies g') (hl : g.Linked (l₁ ++ l₂)) (ho : g.Ordered (l₁ ++ l₂))
  (hn : n ∈ l₁ ++ l₂)

include hd hl ho hn

lemma source_eq (ha : a ∈ (g.node n).args) :
    g'.source a = g.source a ∧ g'.isComputed a = g.isComputed a := by
  have hsource := hd.extended.source (hl.inside n hn a ha)
  have hlt := hl.lt_size (ho n hn a ha).left_mem
  exact ⟨hsource, by rw [isComputed, isComputed, hsource, hd.same _ hlt]⟩

lemma copyArgument (ha : a ∈ (g.node n).args) (hfound : ∀ m ∈ g.operandNodes n,
    (copies.lookup m).isSome)
    :
    (g'.copyArgument copies a).source < g'.labels.size ∧
      g.CopiesArgument copies g' a (g'.copyArgument copies a) := by
  obtain ⟨hsource, hcomp⟩ := hd.source_eq hl ho hn ha
  rw [Graph.copyArgument, hcomp, hsource]
  by_cases hc : g.isComputed a
  · obtain ⟨v, hv⟩ := Option.isSome_iff_exists.1
      (hfound _ (mem_map_of_mem (mem_filter.2 ⟨ha, hc⟩)))
    obtain ⟨hlabel, htarget⟩ := hd.linked.label v (mem_copies (mem_of_lookup hv))
    obtain ⟨hkind, hmem⟩ := isComputed_iff.1 hc
    rw [if_pos hc, hv]
    refine ⟨hlabel, rfl, rfl, fun _ _ => ?_, fun hkept => ?_⟩
    · rw [hv]
      exact congrArg some htarget.symm
    · simp [hkind, hmem] at hkept
  · rw [if_neg hc]
    exact ⟨Nat.lt_of_lt_of_le (hl.inside n hn a ha) hd.extended.labels, rfl, rfl,
      fun hkind hmem => absurd (isComputed_iff.2 ⟨hkind, hmem⟩) hc, fun _ => ⟨rfl, hsource⟩⟩

lemma step (hnew : n ∉ copies.map Prod.fst) (hfound : ∀ m ∈ g.operandNodes n,
    (copies.lookup m).isSome)
    (hargs : args = (g.node n).args.map (g'.copyArgument copies)) :
    g.Duplicating l₁ l₂ ((n, g'.nodes.size) :: copies) (g'.withCopy n args) := by
  have hnode := hd.same n (hl.lt_size hn)
  have hinside : ∀ x ∈ args, x.source < g'.labels.size := by
    intro x hx
    rw [hargs] at hx
    obtain ⟨a, ha, rfl⟩ := mem_map.1 hx
    exact (hd.copyArgument hl ho hn ha hfound).1
  have hsplits : (g'.withCopy n args).Splits
      (l₁ ++ (copies.map Prod.snd).reverse ++ [g'.nodes.size]) l₂ :=
    hd.splits.insertWith _ _ _ _
  have hlinked : (g'.withCopy n args).Linked
      (l₁ ++ (copies.map Prod.snd).reverse ++ g'.nodes.size :: l₂) :=
    (hd.linked.insert hd.splits hinside).modifyNode (fun _ => rfl) fun _ _ ha => .inl ha
  have hextended : g'.Extended (g'.withCopy n args) := Extended.insertWith g' _ _ _ _
  refine ⟨by simpa using hsplits, by simpa using hlinked, hd.extended.trans hextended,
    fun hl₂ => ?_,
    hd.current, fun v hv => ?_, nodup_cons.2 ⟨hnew, hd.keys⟩, fun q hq => ?_,
    fun hsplit hl₁ hk hcurrent hruns => ?_⟩
  · refine (hd.grown hl₂).trans ((Grown.insert ?_).modifyNode (Nat.le_refl _) (fun _ => rfl)
      fun _ => ⟨rfl, rfl⟩)
    rw [hd.splits.following]
    simpa using hl₂
  · rw [withCopy, node_insertWith_of_lt (Nat.lt_of_lt_of_le hv hd.extended.size), hd.same v hv]
  · rcases mem_cons.1 hq with rfl | hq
    · -- the new copy
      have hself : (g'.withCopy n args).node g'.nodes.size = _ := node_insertWith_self
      rw [hnode, hd.current] at hself
      refine ⟨hd.extended.size, by rw [hself], by rw [hself], by rw [hself], by rw [hself], ?_⟩
      rw [hself, hargs, forall₂_map_right_iff, forall₂_same]
      intro a ha
      obtain ⟨hlt, hcopies⟩ := hd.copyArgument hl ho hn ha hfound
      exact hcopies.withCopy hlt hnew
    · -- the copies before it
      have hcopy := hd.duplicates q hq
      have hmem : q.2 ∈ l₁ ++ (copies.map Prod.snd).reverse ++ l₂ := mem_copies hq
      have hself : (g'.withCopy n args).node q.2 = g'.node q.2 :=
        node_insertWith_of_lt (hd.linked.lt_size hmem)
      refine ⟨hcopy.fresh, by rw [hself, hcopy.op], by rw [hself, hcopy.type],
        by rw [hself, hcopy.data], by rw [hself, hcopy.cluster], ?_⟩
      rw [hself]
      refine forall₂_iff_get.2 ⟨hcopy.args.length_eq, fun i hi hi' => ?_⟩
      exact (hcopy.args.get hi hi').withCopy (hd.linked.inside _ hmem _ (get_mem _ _)) hnew
  · have hl₁ := hl₁ (cons_ne_nil _ _)
    have hruns := hd.runs hsplit (fun _ => hl₁) hk hcurrent hruns
    have hs := hd.splits
    subst hsplit
    rw [← hd.same _ (hl.lt_size (by simp))] at hk
    have hruns' : (g'.insert (g'.node n).op (g'.node n).type args).Runs (fun _ => true) _ :=
      hruns.insert_before hs hk (hd.current.trans hcurrent) fun _ => ⟨by simp [hl₁], rfl⟩
    have hcopied : (g'.withCopy n args).Runs (fun _ => true) _ :=
      hruns'.congr (fun _ _ => modifyNode_congr Node.op fun _ => rfl)
        (fun _ _ => modifyNode_congr Node.cluster fun _ => rfl) fun _ _ _ _ => rfl
    simpa using hcopied

end

/-- Copying a list in order makes a copy of each. -/
lemma copyNodes (hl : g.Linked (l₁ ++ l₂)) (ho : g.Ordered (l₁ ++ l₂)) (hrecording : g.recording)
    (hd : g.Duplicating l₁ l₂ copies g') (htodo : ∀ n ∈ todo, n ∈ l₁ ++ l₂)
    (hnodup : (todo.reverse ++ copies.map Prod.fst).Nodup)
    (hclosed : ∀ pre n post, todo = pre ++ n :: post → ∀ m ∈ g.operandNodes n,
      m ∈ pre ∨ m ∈ copies.map Prod.fst) :
    ∃ copies' g'', Build.copyNodes copies todo g' = .ok copies' g'' ∧
      g.Duplicating l₁ l₂ copies' g'' ∧ copies'.map Prod.fst = todo.reverse ++
      copies.map Prod.fst := by
  induction todo generalizing copies g' with
  | nil => exact ⟨copies, g', rfl, hd, rfl⟩
  | cons n rest ih =>
    have hn := htodo n mem_cons_self
    have hfound : ∀ m ∈ g.operandNodes n, (copies.lookup m).isSome := fun m hm =>
      isSome_lookup_iff.2 ((hclosed [] n rest rfl m hm).resolve_left not_mem_nil)
    have hrest : (rest.reverse ++ n :: copies.map Prod.fst).Nodup := by simpa using hnodup
    have hnode := hd.same n (hl.lt_size hn)
    -- what the rest takes has been copied before, or it is this node
    obtain ⟨copies', g'', hrun, hd', hkeys⟩ := ih
      (hd.step hl ho hn (not_mem_of_nodup_append hrest).2 hfound rfl)
      (fun m hm => htodo m (mem_cons_of_mem _ hm)) hrest fun pre m post hsplit v hv => by
        have hv := hclosed (n :: pre) m post (by rw [hsplit]; rfl) v hv
        simp only [map_cons, mem_cons] at hv ⊢
        tauto
    have hargs : Build.copiedArguments copies n g' =
        .ok ((g.node n).args.map (g'.copyArgument copies)) g' := by
      rw [← hnode]
      refine Build.copiedArguments_eq fun a ha hcomp => ?_
      rw [hnode] at ha
      obtain ⟨hsource, hcomp'⟩ := hd.source_eq hl ho hn ha
      rw [hsource]
      exact hfound _ (mem_map_of_mem (mem_filter.2 ⟨ha, hcomp' ▸ hcomp⟩))
    have hcopy := Build.copyNode_eq (n := n) (hd.extended.recording.trans hrecording)
      ((g.node n).args.map (g'.copyArgument copies))
    refine ⟨copies', g'', ?_, hd', by simpa using hkeys⟩
    rw [Build.copyNodes, bind_of_ok hargs, bind_of_ok hcopy]
    exact hrun

end Duplicating

/-- The graph `g'` is `g` with copies of what the targets are computed from. -/
structure CopiesComputation (g : Graph) (targets : List NodeId) (copies : Copies) (g' : Graph) :
    Prop where
  domain : ∀ n, (∃ w, copies.lookup n = some w) ↔
    ∃ t ∈ targets, Relation.ReflTransGen g.ComputedFrom t n
  duplicates : ∀ n w, copies.lookup n = some w → g.Duplicates copies g' n w
  block : ∃ l₁ l₂, g.order = l₁ ++ l₂ ∧ g.cursor = l₁.getLast? ∧
    g'.order = l₁ ++ g.order.filterMap (fun n => copies.lookup n) ++ l₂
  lists : g'.Lists g'.order
  same : ∀ n < g.nodes.size, g'.node n = g.node n
  source : ∀ n ∈ g.order, ∀ a ∈ (g.node n).args, g'.source a = g.source a

/-- Copying targets copies all they are computed from, at the cursor. -/
lemma Splits.copyComputation (hs : g.Splits l₁ l₂) (hl : g.Linked (l₁ ++ l₂))
    (ho : g.Ordered (l₁ ++ l₂)) (hrecording : g.recording)
    (htargets : ∀ t ∈ targets, t ∈ l₁ ++ l₂) :
    ∃ copies g', Build.copyComputation targets g = .ok copies g' ∧
      g.Duplicating l₁ l₂ copies g' ∧ g.CopiesComputation targets copies g' ∧
      g.order.filterMap (fun n => copies.lookup n) = (copies.map Prod.snd).reverse := by
  have horder := hl.order
  have hnodup : ((g.order.filter fun n => (g.closure targets).contains n).reverse ++
      ([] : Copies).map Prod.fst).Nodup := by
    rw [horder, map_nil, append_nil, nodup_reverse]
    exact hl.chain.nodup.filter _
  obtain ⟨copies, g', hrun, hd, hkeys⟩ := Duplicating.copyNodes hl ho hrecording (.refl hs hl)
    (fun n hn => horder ▸ (mem_filter.1 hn).1) hnodup fun _ _ _ hsplit _ hm =>
      .inl (ho.mem_front_of_operand hl.toLists hsplit hm)
  rw [map_nil, append_nil] at hkeys
  have hmem : ∀ n, (copies.lookup n).isSome ↔ n ∈ g.closure targets := by
    intro n
    rw [isSome_lookup_iff, hkeys, mem_reverse, mem_filter, horder, contains_iff_mem]
    exact ⟨And.right, fun hn => ⟨ho.closure_subset htargets n hn, hn⟩⟩
  -- the copies have been recorded in the order of their originals
  have hblock : g.order.filterMap (fun n => copies.lookup n) = (copies.map Prod.snd).reverse := by
    rw [← filterMap_lookup_keys hd.keys, ← filterMap_reverse, hkeys, reverse_reverse,
      filterMap_filter]
    refine filterMap_congr fun n _ => ?_
    split
    · rfl
    · rename_i hn
      rw [contains_iff_mem, ← hmem, Bool.not_eq_true, Option.isSome_eq_false_iff,
        Option.isNone_iff_eq_none] at hn
      exact hn
  refine ⟨copies, g', hrun, hd, ⟨fun n => ?_, fun n w hw => hd.duplicates (n, w) (mem_of_lookup hw),
    ⟨l₁, l₂, horder, hs.cursor, ?_⟩, ?_, hd.same, fun n hn a ha => ?_⟩, hblock⟩
  · rw [← mem_closure_iff, ← hmem, Option.isSome_iff_exists]
  · rw [hd.linked.order, hblock]
  · rw [hd.linked.order]
    exact hd.linked.toLists
  · rw [horder] at hn
    exact (hd.source_eq hl ho hn ha).1

/-! ### Copies in front of a cluster -/

/-- The state when copies `N` have been recorded in front of `h`, a node of the current cluster
`k`. -/
structure Copying (c g₀ : Graph) (A B : List NodeId) (h : NodeId) (k : ClusterId) (copies : Copies)
    (N : List NodeId) (origin : NodeId → NodeId) (g : Graph) : Prop where
  arranged : g.Arranged (A ++ N ++ h :: B)
  grown : g₀.Grown g
  same : ∀ n < g₀.nodes.size, g.node n = g₀.node n
  fresh : ∀ w ∈ N, g₀.nodes.size ≤ w ∧ (g.node w).isMemory = false ∧ (g.node w).cluster = some k
  copied : ∀ q ∈ copies, q.1 ∈ A ∧ q.2 ∈ N ∧ origin q.2 = origin q.1
  covers : c.Covers g (A ++ N ++ h :: B) origin
  sizes : ∀ w ∈ N, ∀ a ∈ (g.node w).args, a.kind = .shape → g.source a ∈ A
  values : ∀ w ∈ N, ∀ a ∈ (g.node w).args, a.kind ≠ .shape →
    g.source a ∈ N ∨ (g.node (g.source a)).isMemory

/-- The origin of a copy is that of the node it was made from. -/
def originWith (copies : Copies) (origin : NodeId → NodeId) (w : NodeId) : NodeId :=
  match (copies.map Prod.swap).lookup w with
  | some n => origin n
  | none => origin w

namespace Duplicating

variable (hd : g₀.Duplicating A (h :: B) copies g)

include hd

lemma originWith_copy (hq : q ∈ copies) :
    originWith copies origin q.2 = origin q.1 := by
  have hnodup : ((copies.map Prod.swap).map Prod.fst).Nodup := by
    have hN := (nodup_append.1 (nodup_append.1 hd.linked.chain.nodup).1).2.1
    rw [map_map]
    exact nodup_reverse.1 hN
  have hfound := lookup_eq_some_of_mem hnodup (mem_map_of_mem (f := Prod.swap) hq)
  rw [originWith, hfound]

variable (h₀ : g₀.Arranged (A ++ h :: B))

include h₀

lemma originWith_old (hn : n ∈ A ++ h :: B) : originWith copies origin n = origin n := by
  rw [originWith]
  split
  · rename_i v hv
    obtain ⟨q, hq, heq⟩ := mem_map.1 (mem_of_lookup hv)
    obtain rfl : q.2 = n := congrArg Prod.fst heq
    exact absurd (h₀.lists.lt_size hn) (Nat.not_lt.2 (hd.duplicates q hq).fresh)
  · rfl

lemma traced_eq (hn : n ∈ A ++ h :: B) (ha : a ∈ (g₀.node n).args)
    (hcopies : g₀.CopiesArgument copies g a b) :
    g.traced (originWith copies origin) b = g₀.traced origin a := by
  rw [traced, traced, hcopies.kind, hcopies.index]
  by_cases hcomp : a.kind ≠ .shape ∧ (g₀.node (g₀.source a)).isMemory = false
  · rw [hd.originWith_copy (mem_of_lookup (hcopies.moved hcomp.1 hcomp.2))]
  · rw [(hcopies.kept (by simpa [or_iff_not_imp_left] using hcomp)).2,
      hd.originWith_old h₀ (h₀.ordered n hn a ha).left_mem]

/-- Copies compute what their originals do. -/
lemma covers (hcovers : c.Covers g₀ (A ++ h :: B) origin) (hsub : c.order ⊆ A ++ h :: B)
    (hcopied : ∀ q ∈ copies, q.1 ∈ A ∧ (g₀.node q.1).isMemory = false) :
    c.Covers g (A ++ (copies.map Prod.snd).reverse ++ h :: B) (originWith copies origin) := by
  -- a node is a copy or an old one
  have hcases : ∀ {p : NodeId → Prop}, (∀ q ∈ copies, q.1 ∈ A ++ h :: B → p q.2) →
      (∀ v ∈ A ++ h :: B, p v) → ∀ v ∈ A ++ (copies.map Prod.snd).reverse ++ h :: B, p v := by
    intro p hnew hold v hv
    simp only [mem_append, mem_reverse, mem_map] at hv hnew hold
    rcases hv with (hv | ⟨q, hq, rfl⟩) | hv
    · exact hold v (.inl hv)
    · exact hnew q hq (.inl (hcopied q hq).1)
    · exact hold v (.inr hv)
  have hnode : ∀ v ∈ A ++ h :: B, g.node v = g₀.node v :=
    fun v hv => hd.same v (h₀.lists.lt_size hv)
  have hcopy : ∀ q ∈ copies, originWith copies origin q.2 = origin q.1 := fun q hq =>
    hd.originWith_copy hq
  have hold : ∀ v ∈ A ++ h :: B, originWith copies origin v = origin v := fun v hv =>
    hd.originWith_old h₀ hv
  refine ⟨hcases (fun q hq hqA => ?_) fun v hv => ?_, fun v hv => ?_,
    hcases (fun q hq hqA hmem => ?_) fun v hv => ?_, hcases (fun q hq hqA => ?_) fun v hv => ?_,
    hcases (fun q hq hqA => ?_) fun v hv => ?_, hcases (fun q hq hqA => ?_) fun v hv => ?_,
    hcases (fun q hq hqA => ?_) fun v hv => ?_⟩
  · rw [hcopy q hq]
    exact hcovers.mem _ hqA
  · rw [hold v hv]
    exact hcovers.mem v hv
  · rw [hold v (hsub hv), hcovers.self v hv]
  · rw [Node.isMemory, (hd.duplicates q hq).op] at hmem
    exact absurd hmem (Bool.eq_false_iff.1 (hcopied q hq).2)
  · rw [hnode v hv, hold v hv]
    exact hcovers.memory v hv
  · rw [(hd.duplicates q hq).op, hcopy q hq, hcovers.op _ hqA]
  · rw [hnode v hv, hold v hv, hcovers.op v hv]
  · rw [(hd.duplicates q hq).type, hcopy q hq, hcovers.type _ hqA]
  · rw [hnode v hv, hold v hv, hcovers.type v hv]
  · rw [(hd.duplicates q hq).data, hcopy q hq, hcovers.data _ hqA]
  · rw [hnode v hv, hold v hv, hcovers.data v hv]
  · rw [hcopy q hq, ← hcovers.args _ hqA]
    have hargs := (hd.duplicates q hq).args
    rw [← forall₂_eq_eq_eq, forall₂_map_left_iff, forall₂_map_right_iff]
    refine forall₂_iff_get.2 ⟨hargs.length_eq.symm, fun i hi hi' => ?_⟩
    exact hd.traced_eq h₀ hqA (get_mem _ _) (hargs.get hi' hi)
  · rw [hnode v hv, hold v hv, ← hcovers.args v hv]
    refine map_congr_left fun a ha => ?_
    rw [traced, traced, (hd.source_eq h₀.linked h₀.ordered hv ha).1,
      hold _ (h₀.ordered v hv a ha).left_mem]

lemma argument_cases (hcopied : ∀ q ∈ copies, q.1 ∈ A)
    (hblock : g₀.order.filterMap (fun n => copies.lookup n) = (copies.map Prod.snd).reverse)
    (hq : q ∈ copies) (hb : b ∈ (g.node q.2).args) :
    (b.kind ≠ .shape ∧ Precedes (copies.map Prod.snd).reverse (g.source b) q.2) ∨
      (b.kind = .shape ∨ (g.node (g.source b)).isMemory) ∧ g.source b ∈ A := by
  have hqA := hcopied q hq
  have hql : q.1 ∈ A ++ h :: B := mem_append_left _ hqA
  obtain ⟨a, ha, hcopies⟩ := (hd.duplicates q hq).exists_argument hb
  have hprec := h₀.ordered q.1 hql a ha
  rw [hcopies.kind]
  by_cases hkept : a.kind = .shape ∨ (g₀.node (g₀.source a)).isMemory
  · obtain ⟨A₁, A₂, rfl⟩ := append_of_mem hqA
    have hsplit : A₁ ++ q.1 :: A₂ ++ h :: B = A₁ ++ q.1 :: (A₂ ++ h :: B) := by simp
    have hmem := mem_append_left (q.1 :: A₂) (h₀.ordered.source_mem h₀.lists.chain.nodup hsplit ha)
    rw [(hcopies.kept hkept).2, hd.same _ (h₀.lists.lt_size hprec.left_mem)]
    exact .inr ⟨hkept, hmem⟩
  · -- the copies stand in the order of their originals
    rw [not_or, Bool.not_eq_true] at hkept
    have hcopy := Sublist.filterMap (fun n => copies.lookup n) hprec
    simp only [← h₀.lists.order, hblock, filterMap_cons, hcopies.moved hkept.1 hkept.2,
      lookup_eq_some_of_mem hd.keys hq, filterMap_nil] at hcopy
    exact .inl ⟨hkept.1, hcopy⟩

section

variable (hcopied : ∀ q ∈ copies, q.1 ∈ A ∧ (g₀.node q.1).isMemory = false)
  (hblock : g₀.order.filterMap (fun n => copies.lookup n) = (copies.map Prod.snd).reverse)

include hcopied hblock

lemma ordered : g.Ordered (A ++ (copies.map Prod.snd).reverse ++ h :: B) := by
  intro v hv x hx
  have hsub : (A ++ h :: B).Sublist (A ++ (copies.map Prod.snd).reverse ++ h :: B) :=
    (sublist_append_left A _).append (Sublist.refl _)
  by_cases hvN : v ∈ (copies.map Prod.snd).reverse
  · obtain ⟨q, hq, rfl⟩ := mem_map.1 (mem_reverse.1 hvN)
    refine Precedes.mono ?_ (sublist_append_left _ _)
    rcases hd.argument_cases h₀ (fun q hq => (hcopied q hq).1)
      hblock hq hx with ⟨-, hprec⟩ | ⟨-, hmem⟩
    · exact hprec.mono (sublist_append_right _ _)
    · exact Precedes.of_mem hmem hvN
  · have hv : v ∈ A ++ h :: B := by
      simp only [mem_append] at hv ⊢
      tauto
    rw [hd.same v (h₀.lists.lt_size hv)] at hx
    rw [(hd.source_eq h₀.linked h₀.ordered hv hx).1]
    exact (h₀.ordered v hv x hx).mono hsub

lemma copying (hsub : c.order ⊆ A ++ h :: B) (hcovers : c.Covers g₀ (A ++ h :: B) origin)
    (hcurrent : g₀.current = some k) (hk : (g₀.node h).cluster = some k) :
    Copying c g₀ A B h k copies (copies.map Prod.snd).reverse (originWith copies origin) g := by
  have hcases := fun {q b} => hd.argument_cases h₀ (fun q hq => (hcopied q hq).1) hblock
    (q := q) (b := b)
  have hnew : ∀ {w}, w ∈ (copies.map Prod.snd).reverse → ∃ q ∈ copies, q.2 = w := fun hw =>
    mem_map.1 (mem_reverse.1 hw)
  refine ⟨⟨hd.linked, hd.ordered h₀ hcopied hblock, ?_, hd.extended.recording.trans h₀.recording⟩,
    hd.grown (by simp), hd.same, fun w hw => ?_, fun q hq => ⟨(hcopied q hq).1, ?_, ?_⟩,
    hd.covers h₀ hcovers hsub hcopied, fun w hw a ha hkind => ?_, fun w hw a ha hkind => ?_⟩
  · refine hd.runs rfl (fun hne => ?_) hk hcurrent h₀.runs
    obtain ⟨q, hq⟩ := exists_mem_of_ne_nil _ hne
    exact ne_nil_of_mem (hcopied q hq).1
  · obtain ⟨q, hq, rfl⟩ := hnew hw
    have hcopy := hd.duplicates q hq
    refine ⟨hcopy.fresh, ?_, hcopy.cluster.trans hcurrent⟩
    rw [Node.isMemory, hcopy.op]
    exact (hcopied q hq).2
  · exact mem_reverse.2 (mem_map_of_mem hq)
  · rw [hd.originWith_copy hq, hd.originWith_old h₀ (mem_append_left _ (hcopied q hq).1)]
  · obtain ⟨q, hq, rfl⟩ := hnew hw
    rcases hcases hq ha with ⟨hvalue, -⟩ | ⟨-, hmem⟩
    · exact absurd hkind hvalue
    · exact hmem
  · obtain ⟨q, hq, rfl⟩ := hnew hw
    rcases hcases hq ha with ⟨-, hprec⟩ | ⟨hkept, -⟩
    · exact .inl hprec.left_mem
    · exact .inr (hkept.resolve_left hkind)

end

end Duplicating

lemma copyComputation_ok (h₀ : g₀.Arranged (A ++ h :: B)) (hs : g₀.Splits A (h :: B))
    (hsub : c.order ⊆ A ++ h :: B) (hcovers : c.Covers g₀ (A ++ h :: B) origin)
    (hcurrent : g₀.current = some k) (hk : (g₀.node h).cluster = some k)
    (htargets : ∀ n ∈ targets, n ∈ A ∧ (g₀.node n).isMemory = false) :
    ∃ copies N origin g, Build.copyComputation targets g₀ = .ok copies g ∧
      Copying c g₀ A B h k copies N origin g ∧ ∀ n ∈ targets, (copies.lookup n).isSome := by
  obtain ⟨copies, g, hrun, hd, hcopies, hblock⟩ :=
    hs.copyComputation h₀.linked h₀.ordered h₀.recording
    (fun t ht => mem_append_left _ (htargets t ht).1)
  have hinside : ∀ n ∈ g₀.closure targets, n ∈ A ∧ (g₀.node n).isMemory = false := by
    refine closure_subset (fun n hn m hm => ?_) htargets
    obtain ⟨a, ha, -, hmem, rfl⟩ := mem_operandNodes.1 hm
    obtain ⟨A₁, A₂, rfl⟩ := append_of_mem hn.1
    have hsplit : A₁ ++ n :: A₂ ++ h :: B = A₁ ++ n :: (A₂ ++ h :: B) := by simp
    exact ⟨mem_append_left _ (h₀.ordered.source_mem h₀.lists.chain.nodup hsplit ha), hmem⟩
  have hcopied : ∀ q ∈ copies, q.1 ∈ A ∧ (g₀.node q.1).isMemory = false := fun q hq =>
    hinside _ (mem_closure_iff.2 ((hcopies.domain q.1).1 ⟨_, lookup_eq_some_of_mem hd.keys hq⟩))
  refine ⟨copies, _, _, g, hrun, hd.copying h₀ hcopied hblock hsub hcovers hcurrent hk,
    fun t ht => ?_⟩
  obtain ⟨w, hw⟩ := (hcopies.domain t).2 ⟨t, ht, Relation.ReflTransGen.refl⟩
  rw [hw]
  rfl

end Graph

end KernelFusion
