/-
Both kernel modes address the same elements.

The passes record different nodes in the two modes, but the value of a node follows from the values
of its arguments by one rule (`Lowered.yields`), in which the mode does not occur any more. There
is one exception: in linear mode an access that takes a coordinate of its own cluster for memory is
redirected to the computed one, and its indices are flattened for other sizes.
-/
import KernelFusion.Proofs.Kernel.Slots
import KernelFusion.Proofs.Pass.Locations
import KernelFusion.Proofs.Pass.Transfer

namespace KernelFusion

open List Build

namespace Build

/-- Does the run succeed? -/
def succeeds (act : Build Unit) (g : Graph) : Bool :=
  match act g with
  | .ok _ _ => true
  | .error _ _ => false

/-- The graph when the run has ended. -/
def ending (act : Build Unit) (g : Graph) : Graph :=
  match act g with
  | .ok _ g' => g'
  | .error _ g' => g'

lemma eq_ok_ending {act : Build Unit} {g : Graph} (h : succeeds act g) :
    act g = .ok ⟨⟩ (ending act g) := by
  unfold succeeds at h
  unfold ending
  split at h
  · rename_i heq
    rw [heq]
  · cases h

end Build

namespace Graph

variable {σ : Setting} {p s f L M : Graph} {k : ClusterId} {q q' : Position} {n h : NodeId}
  {v w : UInt32} {xs box : List UInt32} {ds : NodeId → List UInt32} {mode : KernelMode}
  {sizes : List Nat}

/-! ### Programs with values in memory -/

/-- A program that has been cut into clusters and in which values are defined before they are
used. -/
structure Clustered (p : Graph) : Prop extends p.Formed p.order where
  ordered : ∀ n ∈ p.order, ∀ a ∈ (p.node n).args, p.Before a.source n

/-- A program in which values go through memory: a node works with values of its own cluster, and it
accesses memory, or something of its own cluster. -/
structure Posted (s : Graph) : Prop extends s.Sparse s.order where
  joined : ∀ n ∈ s.order, ∀ a ∈ (s.node n).args, a.kind ≠ .memory → a.kind ≠ .shape →
    s.SameCluster a.source n ∧ s.Before a.source n
  reached : ∀ n ∈ s.order, (s.node n).op.kind.accesses → ∀ m, s.memoryOf? n = some m →
    m ∈ s.order ∧ ((s.node m).isMemory ∨ s.SameCluster m n)

namespace Clustered

variable (hp : p.Clustered)

include hp

lemma pruned : p.Pruned p p.order :=
  ⟨⟨hp.toFormed, fun n hn a ha => hp.lists.lt_size (hp.ordered n hn a ha).left_mem,
    fun n hn a ha _ _ => hp.ordered n hn a ha⟩, ⟨rfl, rfl, rfl, rfl⟩,
    fun n hn a ha _ => hp.ordered n hn a ha, fun n hn a ha _ => hp.ordered n hn a ha⟩

lemma isOrdered : p.Ordered p.order := by
  intro n hn a ha
  rw [hp.pruned.source_eq hn ha]
  exact hp.ordered n hn a ha

lemma posted (hrun : spill p = .ok ⟨⟩ s) : s.Posted := by
  obtain ⟨es, done, ls, hs, -, hall⟩ := hp.pruned.spillable.spill hrun
  obtain ⟨ls', hspilled⟩ := hp.pruned.spilled hrun
  have hsparse : s.Sparse s.order := hspilled.lists.order ▸ hspilled.toSparse
  have horder := hs.toLists.order
  refine ⟨hsparse, fun n hn a ha hmemory hshape => ?_, fun n hn haccess m hm => ?_⟩
  · cases hmem : (s.node n).isMemory with
    | true => exact absurd ((hsparse.regular n hn).plain hmem a ha) hshape
    | false =>
      obtain ⟨⟨k, hka, hkn⟩, hprec⟩ := hs.inside_cluster hp.pruned.spillable hp.isOrdered hall
        (horder ▸ hn) hmem ha hmemory hshape
      rw [hsparse.source_eq hn ha] at hka hprec
      rw [← horder] at hprec
      exact ⟨hka.trans hkn.symm, hprec⟩
  · obtain ⟨m', hm', hor⟩ := hspilled.accessed n (hspilled.lists.order ▸ hn) haccess
    obtain rfl := Option.mem_unique hm hm'
    rcases hor with hmem | ⟨hnp, hmp, hsame⟩
    · obtain ⟨a, ha, hkind, rfl⟩ := hsparse.exists_argument hn hm
      exact ⟨(hsparse.ordered n hn a ha (by rw [hkind]; decide) hmem).left_mem, .inl hmem⟩
    · obtain ⟨a, ha, -, rfl⟩ := hp.pruned.exists_argument hnp hmp
      have hmem := (hp.ordered n hnp a ha).left_mem
      refine ⟨horder ▸ hs.listed.subset hmem, .inr ?_⟩
      rw [SameCluster, hs.cluster_eq hmem, hs.cluster_eq hnp]
      exact hsame

end Clustered

/-! ### Modes -/

/-- The graph, for kernels of one mode. -/
def inMode (s : Graph) (mode : KernelMode) : Graph := { s with kernelMode := mode }

lemma Posted.inMode (hs : s.Posted) (mode : KernelMode) : (s.inMode mode).Posted := by
  refine ⟨⟨⟨hs.lists.congr rfl rfl rfl, hs.labelled.congr rfl rfl, hs.recording, ?_,
    hs.regular, ?_⟩, hs.toSparse.inside, hs.toSparse.ordered⟩, hs.joined, hs.reached⟩
  · exact ⟨⟨hs.grouped.between, hs.grouped.head⟩, hs.grouped.apart, hs.grouped.clustered⟩
  · exact ⟨hs.typed.index, hs.typed.coordinate⟩

lemma Yields.inMode {p : Option Position} (h : s.Yields σ k p n v) (mode : KernelMode) :
    (s.inMode mode).Yields σ k p n v := by
  induction h with
  | constant hn hkind => exact .constant (g := s.inMode mode) hn hkind
  | outside hn hword hcoord hk => exact .outside (g := s.inMode mode) hn hword hcoord hk
  | thread hp hk hkind => exact .thread (g := s.inMode mode) hp hk hkind
  | coordinate hp hk hkind hdim hv => exact .coordinate (g := s.inMode mode) hp hk hkind hdim hv
  | operation hk hkind hlt _ ih => exact .operation (g := s.inMode mode) hk hkind hlt ih
  | access hp hk hkind _ ih => exact .access (g := s.inMode mode) hp hk hkind ih

lemma HasSizes.inMode {ds : List UInt32} (h : s.HasSizes σ k n ds) (mode : KernelMode) :
    (s.inMode mode).HasSizes σ k n ds :=
  h.imp fun _ _ hd => ⟨hd.1, hd.2.inMode mode⟩

lemma Indexed.inMode {m : NodeId} {ds : List UInt32} (h : s.Indexed σ k box n m ds)
    (mode : KernelMode) : (s.inMode mode).Indexed σ k box n m ds :=
  ⟨h.memory, h.sized.inMode mode, h.clamp, h.whole, h.rest⟩

/-! ### What becomes of the nodes of a cluster -/

/-- The graph `f` has been made from `s` for an element with the coordinates `xs`. An access of the
cluster gets the address that its indices select in memory of the sizes `ds`. -/
structure Lowered (σ : Setting) (s f : Graph) (k : ClusterId) (q : Position) (xs : List UInt32)
    (ds : NodeId → List UInt32) : Prop where
  size : s.nodes.size ≤ f.nodes.size
  labels : s.labels.size ≤ f.labels.size
  node : ∀ n < s.nodes.size, (f.node n).op = (s.node n).op ∧ (f.node n).type = (s.node n).type ∧
    (f.node n).data = (s.node n).data ∧ (f.node n).cluster = (s.node n).cluster
  inputs : ∀ n < s.nodes.size, ((f.node n).args.filter fun a => a.kind = .input) =
    (s.node n).args.filter fun a => a.kind = .input
  stays : ∀ n ∈ s.order, (s.node n).isCoordinate = false → f.target n = n
  coordinate : ∀ n ∈ s.order, (s.node n).isCoordinate → (s.node n).cluster = some k →
    ∃ v, xs[(signed (s.node n).word).toNat]? = some v ∧ f.Yields σ k (some q) (f.target n) v
  address : ∀ n ∈ s.order, (s.node n).cluster = some k → (s.node n).op.kind.accesses →
    ∀ W : NodeId → UInt32, (∀ a ∈ (s.node n).args, a.kind = .index →
      f.Yields σ k (some q) (f.target a.source) (W a.source)) →
    ∃ a, (f.node n).arguments .index = [a] ∧ f.Yields σ k (some q) (f.source a)
      (σ.address s.tensorMode (ds n) ((s.sources n .index).map (Prod.map id W)) xs)

/-- Provided coordinates give every node of the cluster its value. -/
lemma Provided.lowered {D D' : ClusterId → Prop} {g gm g' : Graph} {thread : Option NodeId}
    {coordinates l : List NodeId} {memory : NodeId → NodeId}
    (hp : Provided σ s f k q gm thread coordinates xs)
    (ht : Treats s k h f D D' g gm g' thread coordinates l) (hs : s.Posted)
    (hrank : box.length = xs.length)
    (hthread : thread ≠ none → σ.address s.tensorMode box [] xs = q.thread)
    (hindexed : ∀ n ∈ s.order, (s.node n).cluster = some k → (s.node n).op.kind.accesses →
      s.Indexed σ k box n (memory n) (ds n) ∧
        (thread = none ∨ s.sources n .index ≠ [] → ¬ MovedIn s anywhere (memory n))) :
    Lowered σ s f k q xs ds := by
  have hf := hp.begins.trans hp.ends
  refine ⟨hf.size, hf.labels, fun n hn => ⟨hf.op n hn, hf.type n hn, hf.data n hn, hf.cluster n hn⟩,
    fun n hn => hf.others n hn .input (by decide), fun n hn hcoord => ?_, fun n hn hcoord hkn => ?_,
    fun n hn hkn haccess W hW => ?_⟩
  · refine GoesOn.target hf hs.labelled (hs.lists.lt_size hn) fun hmoved => ?_
    rw [hmoved.2.1] at hcoord
    cases hcoord
  · obtain ⟨-, v, hv, hbears⟩ := hp.moved n hn hcoord hkn
    have hlt := GoesOn.lt_labels hp.begins hs.labelled (hs.lists.lt_size hn)
    rw [Evolves.target hp.ends n hlt hbears.stays]
    exact ⟨v, hv, hbears.yields ((goesOn_within s gm k).2.trans hp.ends)⟩
  · obtain ⟨hi, hstays⟩ := hindexed n hn hkn haccess
    refine hp.addressed ht hs.toSparse hn hkn haccess hi
      (hs.reached n hn haccess _ hi.memory).1 hrank
      hthread hstays fun a ha hkind => ?_
    obtain ⟨hsame, hbefore⟩ := hs.joined n hn a ha (by rw [hkind]; decide) (by rw [hkind]; decide)
    exact ⟨hbefore.left_mem, hsame.trans hkn, hW a ha hkind⟩

lemma Lowered.of_inMode (h : Lowered σ (s.inMode mode) f k q xs ds) :
    Lowered σ s f k q xs ds :=
  ⟨h.size, h.labels, h.node, h.inputs, h.stays, h.coordinate, h.address⟩

/-! ### Values -/

/-- The value of a node of the cluster, from those of its arguments. -/
def reckon (σ : Setting) (s : Graph) (thread : UInt32) (xs : List UInt32)
    (ds : NodeId → List UInt32) (W : NodeId → UInt32) (n : NodeId) : UInt32 :=
  let operands := ((s.node n).arguments .input).map fun a => W a.source
  match (s.node n).op.valueKind with
  | .word => (s.node n).word
  | .thread => thread
  | .coordinate => xs.getD (signed (s.node n).word).toNat 0
  | .operands => σ.compute (s.node n).op.name (s.node n).type (s.node n).data operands
  | .memory => σ.access n operands
      [σ.address s.tensorMode (ds n) ((s.sources n .index).map (Prod.map id W)) xs]

namespace Lowered

variable (hf : Lowered σ s f k q xs ds)

include hf

lemma arguments_input (hn : n < s.nodes.size) :
    (f.node n).arguments .input = (s.node n).arguments .input := by
  rw [Node.arguments, Node.arguments, hf.inputs n hn]

lemma mem_args (hn : n < s.nodes.size) {a : Argument} (ha : a ∈ (f.node n).args)
    (hkind : a.kind = .input) : a ∈ (s.node n).args := by
  have hmem := Node.mem_arguments.2 ⟨ha, hkind⟩
  rw [hf.arguments_input hn] at hmem
  exact (Node.mem_arguments.1 hmem).1

lemma stays_of_valueKind (hn : n ∈ s.order) (hkind : (s.node n).op.valueKind ≠ .coordinate) :
    f.target n = n :=
  hf.stays n hn (Bool.eq_false_iff.2 fun hcoord => hkind (Node.isCoordinate_iff_valueKind.1 hcoord))

section

variable {W : NodeId → UInt32} (hs : s.Posted) (hn : n ∈ s.order)
  (hkn : (s.node n).cluster = some k)
  (hW : ∀ a ∈ (s.node n).args, a.kind = .input ∨ a.kind = .index →
    f.Yields σ k (some q) (f.target a.source) (W a.source))

include hs hn hkn hW

/-- An access yields what lies at the address of its indices. -/
lemma yields_access (hkind : (s.node n).op.valueKind = .memory) :
    f.Yields σ k (some q) n (σ.access n (((s.node n).arguments .input).map fun a => W a.source)
      [σ.address s.tensorMode (ds n) ((s.sources n .index).map (Prod.map id W)) xs]) := by
  have hlt := hs.lists.lt_size hn
  obtain ⟨hop, -, -, hcluster⟩ := hf.node n hlt
  rw [hkn] at hcluster
  obtain ⟨b, hb, hyields⟩ := hf.address n hn hkn (Operation.accesses_of_valueKind_memory hkind) W
    fun a ha hindex => hW a ha (.inr hindex)
  generalize σ.address s.tensorMode (ds n) _ xs = flat at *
  have hbkind : b.kind = .index := (Node.mem_arguments.1 (hb ▸ mem_singleton_self b)).2
  obtain ⟨value, hoperand, hindex⟩ : ∃ value : Argument → UInt32,
      (∀ a, a.kind = .input → value a = W a.source) ∧ ∀ a, a.kind = .index → value a = flat :=
    ⟨fun a => if a.kind = .index then flat else W a.source,
      fun a ha => if_neg (by rw [ha]; decide), fun a ha => if_pos ha⟩
  have hoperands : ((f.node n).arguments .input).map value =
      ((s.node n).arguments .input).map fun a => W a.source := by
    rw [hf.arguments_input hlt]
    exact map_congr_left fun a ha => hoperand a (Node.mem_arguments.1 ha).2
  have hflat : ((f.node n).arguments .index).map value = [flat] := by
    rw [hb, map_singleton, hindex b hbkind]
  rw [← hoperands, ← hflat]
  refine .access rfl hcluster (by rw [hop, hkind]) fun a ha hor => ?_
  rcases hor with hinput | hakind
  · rw [hoperand a hinput]
    exact hW a (hf.mem_args hlt ha hinput) (.inl hinput)
  · have hmem := Node.mem_arguments.2 ⟨ha, hakind⟩
    rw [hb, mem_singleton] at hmem
    rw [hindex a hakind, hmem]
    exact hyields

/-- Every node yields what `reckon` computes from the spilled program. -/
lemma yields : f.Yields σ k (some q) (f.target n) (reckon σ s q.thread xs ds W n) := by
  have hlt := hs.lists.lt_size hn
  obtain ⟨hop, htype, hdata, hcluster⟩ := hf.node n hlt
  rw [hkn] at hcluster
  rw [reckon]
  cases hkind : (s.node n).op.valueKind with
  | coordinate =>
    obtain ⟨v, hv, hyields⟩ := hf.coordinate n hn (Node.isCoordinate_iff_valueKind.2 hkind) hkn
    rw [getD_eq_getElem?_getD, hv]
    exact hyields
  | word =>
    have hword : (f.node n).word = (s.node n).word := by rw [Node.word, Node.word, hdata]
    rw [hf.stays_of_valueKind hn (by rw [hkind]; decide), ← hword]
    exact .constant (Nat.lt_of_lt_of_le hlt hf.size) (by rw [hop, hkind])
  | thread =>
    rw [hf.stays_of_valueKind hn (by rw [hkind]; decide)]
    exact .thread rfl hcluster (by rw [hop, hkind])
  | operands =>
    rw [hf.stays_of_valueKind hn (by rw [hkind]; decide), ← hop, ← htype, ← hdata,
      ← hf.arguments_input hlt]
    refine .operation hcluster (by rw [hop, hkind]) (fun a ha hinput => ?_) fun a ha hinput =>
      hW a (hf.mem_args hlt ha hinput) (.inl hinput)
    have hsource := hs.toSparse.inside n hn a (hf.mem_args hlt ha hinput)
    rw [← hs.labelled.size] at hsource
    exact Nat.lt_of_lt_of_le hsource hf.labels
  | memory =>
    rw [hf.stays_of_valueKind hn (by rw [hkind]; decide)]
    exact hf.yields_access hs hn hkn hW hkind

end

omit hf

lemma alike (hL : Lowered σ s L k q xs ds) (hM : Lowered σ s M k q' xs ds)
    (hthread : q.thread = q'.thread) (hs : s.Posted) (hn : n ∈ s.order)
    (hkn : (s.node n).cluster = some k) :
    ∃ w, L.Yields σ k (some q) (L.target n) w ∧ M.Yields σ k (some q') (M.target n) w := by
  -- what a node works with stands in front of it
  induction hi : s.order.idxOf n using Nat.strong_induction_on generalizing n with
  | _ i ih =>
    subst hi
    have hvalue : ∀ m, s.Before m n → (s.node m).cluster = some k → ∃ w,
        L.Yields σ k (some q) (L.target m) w ∧ M.Yields σ k (some q') (M.target m) w :=
      fun m hbefore hkm =>
        ih _ (idxOf_lt_of_precedes hbefore hs.lists.chain.nodup) hbefore.left_mem hkm rfl
    choose! W hW using hvalue
    have hsources : ∀ a ∈ (s.node n).args, a.kind = .input ∨ a.kind = .index →
        L.Yields σ k (some q) (L.target a.source) (W a.source) ∧
          M.Yields σ k (some q') (M.target a.source) (W a.source) := by
      intro a ha hor
      have hkind : a.kind ≠ .memory ∧ a.kind ≠ .shape := by
        rcases hor with hkind | hkind <;> rw [hkind] <;> decide
      obtain ⟨hsame, hbefore⟩ := hs.joined n hn a ha hkind.1 hkind.2
      exact hW _ hbefore (hsame.trans hkn)
    refine ⟨reckon σ s q.thread xs ds W n, hL.yields hs hn hkn fun a ha hor =>
      (hsources a ha hor).1, ?_⟩
    rw [hthread]
    exact hM.yields hs hn hkn fun a ha hor => (hsources a ha hor).2

end Lowered

/-! ### Addresses -/

/-- The threads of a cluster run over a box of the given sizes, and its accesses find their
elements. -/
structure RunsOver (σ : Setting) (s : Graph) (k : ClusterId) (sizes : List Nat) : Prop where
  head : ∃ h, s.head? k = some h ∧ s.HasSizes σ k h (sizes.map UInt32.ofNat)
  rank : sizes ≠ [] ∧ sizes.length < 2 ^ 31
  positive : ∀ d ∈ sizes, 1 ≤ d
  count : sizes.prod < 2 ^ 31
  indexed : ∀ n ∈ s.order, (s.node n).cluster = some k → (s.node n).op.kind.accesses →
    ∃ m ds, s.Indexed σ k (sizes.map UInt32.ofNat) n m ds

lemma RunsOver.treats (hr : s.RunsOver σ k sizes) (hs : s.Posted) (hn : n ∈ s.order)
    (hnm : (s.node n).isMemory = false) (hkn : (s.node n).cluster = some k)
    (hrun : flatten (s.inMode mode) = .ok ⟨⟩ f) :
    ∃ h D D' g gm g' thread coordinates l, s.head? k = some h ∧ h ∈ s.order ∧
      (s.node h).cluster = some k ∧ s.HasSizes σ k h (sizes.map UInt32.ofNat) ∧
      Treats (s.inMode mode) k h f D D' g gm g' thread coordinates l := by
  obtain ⟨h, hh, hsizes⟩ := hr.head
  obtain ⟨h', hh', hmem, hkh, -⟩ := hs.grouped.head hn hkn
  obtain rfl := Option.mem_unique hh hh'
  have hshape : s.sources h .shape ≠ [] := by
    rw [← length_pos_iff, hsizes.length_sources, length_map, length_pos_iff]
    exact hr.rank.1
  obtain ⟨D, D', g, gm, g', thread, coordinates, l, ht⟩ :=
    (hs.inMode mode).treats hn hnm hkn hh hshape hrun
  exact ⟨h, D, D', g, gm, g', thread, coordinates, l, hh, hmem, hkh, hsizes, ht⟩

section Lowering

variable {sizes : List Nat} {t : Nat} {memory : NodeId → NodeId} (hr : s.RunsOver σ k sizes)
  (hs : s.Posted) (hn : n ∈ s.order) (hnm : (s.node n).isMemory = false)
  (hkn : (s.node n).cluster = some k)
  (hindexed : ∀ n ∈ s.order, (s.node n).cluster = some k → (s.node n).op.kind.accesses →
    s.Indexed σ k (sizes.map UInt32.ofNat) n (memory n) (ds n))

include hr hs hn hnm hkn hindexed

/-- A linear kernel's thread stands for the element its number names. -/
lemma lowered_linear (ht : t < sizes.prod)
    (hapart : ∀ n ∈ s.order, (s.node n).cluster = some k →
      (s.node n).op.kind.accesses → s.sources n .index ≠ [] →
      (s.node (memory n)).isCoordinate → (s.node (memory n)).cluster ≠ some k)
    (hrun : flatten (s.inMode .linear) = .ok ⟨⟩ f) (place : List UInt32) :
    Lowered σ s f k ⟨UInt32.ofNat t, place⟩
    ((RowMajor.coordinates sizes t).map UInt32.ofNat) ds := by
  obtain ⟨h, D, D', g, gm, g', thread, coordinates, l, hh, hmem, hkh, hsizes, htreats⟩ :=
    hr.treats hs hn hnm hkn hrun
  have hs' := hs.inMode .linear
  have hc := Address.coordinates_ofNat hr.positive hr.count ht
  obtain ⟨⟨t', rfl⟩, hp⟩ := htreats.provided_linear (q := ⟨UInt32.ofNat t, place⟩)
    hs'.toSparse hh hmem
    hkh rfl (hsizes.inMode .linear)
  rw [hc] at hp
  refine (hp.lowered htreats hs' (by simp)
    (fun _ => σ.address_nil _ hr.rank.1 hr.positive hr.count ht)
    fun n hn hkn haccess => ⟨(hindexed n hn hkn haccess).inMode .linear, ?_⟩).of_inMode
  rintro (hnone | hindices) ⟨-, hcoord, -⟩
  · cases hnone
  · obtain ⟨-, hmemory | hsame⟩ := hs.reached n hn haccess _ (hindexed n hn hkn haccess).memory
    · exact Node.not_isCoordinate_of_isMemory hmemory hcoord
    · exact hapart n hn hkn haccess hindices hcoord (hsame.trans hkn)

lemma lowered_multi (t : Nat) (hrun : flatten (s.inMode .multi) = .ok ⟨⟩ f) :
    Lowered σ s f k ⟨UInt32.ofNat t, (RowMajor.coordinates sizes t).map UInt32.ofNat⟩
      ((RowMajor.coordinates sizes t).map UInt32.ofNat) ds := by
  obtain ⟨h, D, D', g, gm, g', thread, coordinates, l, hh, hmem, hkh, hsizes, htreats⟩ :=
    hr.treats hs hn hnm hkn hrun
  have hs' := hs.inMode .multi
  obtain ⟨rfl, hp⟩ := htreats.provided_multi
    (q := ⟨UInt32.ofNat t, (RowMajor.coordinates sizes t).map UInt32.ofNat⟩)
    hs'.toSparse hh hmem hkh
    nofun (by rw [(hsizes.inMode .multi).length_sources]; simp) (by simpa using hr.rank.2)
  refine (hp.lowered htreats hs' (by simp)
    (absurd rfl) fun n hn hkn haccess => ⟨(hindexed n hn hkn haccess).inMode .multi, ?_⟩).of_inMode
  rintro - ⟨hlinear, -⟩
  cases hlinear

end Lowering

/-- The flat address of an access, for one thread. -/
def Addressed (σ : Setting) (g : Graph) (k : ClusterId) (q : Position) (n : NodeId) (w : UInt32) :
    Prop :=
  ∃ a, (g.node n).arguments .index = [a] ∧ g.Yields σ k (some q) (g.source a) w

lemma Addressed.unique (hv : f.Addressed σ k q n v) (hw : f.Addressed σ k q n w) : w = v := by
  obtain ⟨a, ha, hv⟩ := hv
  obtain ⟨b, hb, hw⟩ := hw
  obtain rfl : a = b := singleton_inj.1 (ha.symm.trans hb)
  exact hw.unique hv

lemma Lowered.addressed (hL : Lowered σ s L k q xs ds) (hM : Lowered σ s M k q' xs ds)
    (hthread : q.thread = q'.thread) (hs : s.Posted) (hn : n ∈ s.order)
    (hkn : (s.node n).cluster = some k) (haccess : (s.node n).op.kind.accesses) :
    ∃ v, L.Addressed σ k q n v ∧ M.Addressed σ k q' n v := by
  choose! W hW using fun m (hm : m ∈ s.order) => hL.alike hM hthread hs hm
  have hindices : ∀ a ∈ (s.node n).args, a.kind = .index →
      L.Yields σ k (some q) (L.target a.source) (W a.source) ∧
        M.Yields σ k (some q') (M.target a.source) (W a.source) := by
    intro a ha hkind
    obtain ⟨hsame, hbefore⟩ := hs.joined n hn a ha (by rw [hkind]; decide) (by rw [hkind]; decide)
    exact hW _ hbefore.left_mem (hsame.trans hkn)
  exact ⟨_, hL.address n hn hkn haccess W fun a ha hkind => (hindices a ha hkind).1,
    hM.address n hn hkn haccess W fun a ha hkind => (hindices a ha hkind).2⟩

lemma coordinates_gone (hr : s.RunsOver σ k sizes) (hs : s.Posted)
    (hrun : flatten (s.inMode .linear) = .ok ⟨⟩ f) (hn : n ∈ f.order)
    (hkn : (f.node n).cluster = some k) : (f.node n).isCoordinate = false := by
  refine Bool.eq_false_iff.2 fun hcoord => ?_
  have hs' := hs.inMode .linear
  obtain ⟨_, ⟨lf, hlf⟩, hevolves⟩ := hs'.flattened hrun
  have hmem : n ∈ s.order := hlf.coordinate_old rfl (by rwa [← hlf.lists.order]) hcoord
  have hlt := hs'.lists.lt_size hmem
  rw [hevolves.isCoordinate hlt] at hcoord
  rw [hevolves.cluster n hlt] at hkn
  have hnm : (s.node n).isMemory = false := Bool.eq_false_iff.2 fun hmemory =>
    Node.not_isCoordinate_of_isMemory hmemory hcoord
  obtain ⟨h, D, D', g, gm, g', thread, coordinates, l, -, -, -, -, ht⟩ :=
    hr.treats hs hmem hnm hkn hrun
  exact ht.gone n hn ⟨rfl, hcoord, k, rfl, hkn⟩

/-! ### Constant sizes -/

/-- The sizes of a node are constants. -/
def ConstantSizes (s : Graph) (n : NodeId) : Prop :=
  ∀ z ∈ s.sources n .shape, z.2 < s.nodes.size ∧ (s.node z.2).isConst ∧ (s.node z.2).type = .int

instance (s : Graph) (n : NodeId) : Decidable (s.ConstantSizes n) := by
  unfold ConstantSizes
  infer_instance

/-- These constants. -/
def constantSizes (s : Graph) (n : NodeId) : List UInt32 :=
  (s.sources n .shape).map fun z => (s.node z.2).word

lemma ConstantSizes.hasSizes (h : s.ConstantSizes n) : s.HasSizes σ k n (s.constantSizes n) := by
  rw [HasSizes, constantSizes, forall₂_map_left_iff, forall₂_map_right_iff, forall₂_same]
  intro z hz
  obtain ⟨hlt, hconst, htype⟩ := h z hz
  exact ⟨.inl htype, .constant hlt (Node.valueKind_of_isConst hconst)⟩

lemma runsOver_of_constants (hrank : sizes ≠ [] ∧ sizes.length < 2 ^ 31) (hpos : ∀ d ∈ sizes, 1 ≤ d)
    (hcount : sizes.prod < 2 ^ 31)
    (hconstant : s.head? k = some h ∧ s.ConstantSizes h ∧
      s.constantSizes h = sizes.map UInt32.ofNat ∧
      ∀ n ∈ s.order, (s.node n).cluster = some k → (s.node n).op.kind.accesses →
        ∃ m ∈ s.order, s.memoryOf? n = some m ∧ s.ConstantSizes m ∧
          (s.tensorMode = .clamp → s.constantSizes m ≠ []) ∧
          (s.sources n .index = [] → s.constantSizes m = sizes.map UInt32.ofNat) ∧
          ∀ dim < max (s.constantSizes m).length 1, (s.sources n .index).lookup (dim : Int) = none →
            dim < (sizes.map UInt32.ofNat).length) : s.RunsOver σ k sizes := by
  obtain ⟨hhead, hsizes, hbox, hindexed⟩ := hconstant
  refine ⟨⟨h, hhead, hbox ▸ hsizes.hasSizes⟩, hrank, hpos, hcount, fun n hn hkn haccess => ?_⟩
  obtain ⟨m, -, hm, hm', hclamp, hwhole, hrest⟩ := hindexed n hn hkn haccess
  exact ⟨m, _, hm, hm'.hasSizes, hclamp, hwhole, hrest⟩

/-- All accesses of the cluster have addresses, which are the same in both modes, and linear mode
leaves no coordinate in it. -/
structure AddressesAgree (σ : Setting) (s L M : Graph) (k : ClusterId)
    (sizes : List Nat) : Prop where
  alike : ∀ t < sizes.prod, ∀ place : List UInt32, ∀ n ∈ s.order, (s.node n).cluster = some k →
    (s.node n).op.kind.accesses → ∃ v, ∀ w,
      (L.Addressed σ k ⟨UInt32.ofNat t, place⟩ n w ↔ w = v) ∧
      (M.Addressed σ k ⟨UInt32.ofNat t, (RowMajor.coordinates sizes t).map UInt32.ofNat⟩ n w ↔
      w = v)
  gone : ∀ n ∈ L.order, (L.node n).cluster = some k → (L.node n).isCoordinate = false

/-- For every program that has been cut into clusters and whose values go through memory: in both
modes all accesses of a cluster get the same addresses, for every thread, if no access selects by
indices from a coordinate of the cluster. -/
theorem modes_address_alike {sizes : List Nat} (hp : p.Clustered)
    (hspill : Build.spill p = .ok ⟨⟩ s) (hlinear : Build.flatten (s.inMode .linear) = .ok ⟨⟩ L)
    (hmulti : Build.flatten (s.inMode .multi) = .ok ⟨⟩ M) (hr : s.RunsOver σ k sizes)
    (hapart : ∀ n ∈ s.order, (s.node n).cluster = some k → (s.node n).op.kind.accesses = true →
      s.sources n .index ≠ [] → ∀ m, s.memoryOf? n = some m → (s.node m).isCoordinate = true →
      (s.node m).cluster ≠ some k) :
    AddressesAgree σ s L M k sizes := by
  have hs := hp.posted hspill
  refine ⟨fun t ht place n hn hkn haccess => ?_, fun n hn hkn => ?_⟩
  · have hindexed := hr.indexed
    choose! memory ds hindexed using hindexed
    have hnm := hs.isMemory_of_accesses hn haccess
    have hL := lowered_linear hr hs hn hnm hkn hindexed ht (fun n hn hkn haccess hindices =>
      hapart n hn hkn haccess hindices _ (hindexed n hn hkn haccess).memory) hlinear place
    have hM := lowered_multi hr hs hn hnm hkn hindexed t hmulti
    obtain ⟨v, hLv, hMv⟩ := hL.addressed hM rfl hs hn hkn haccess
    exact ⟨v, fun w => ⟨⟨hLv.unique, fun h => h ▸ hLv⟩, ⟨hMv.unique, fun h => h ▸ hMv⟩⟩⟩
  · exact coordinates_gone hr hs hlinear hn hkn

/-- A program in front of the last two passes. -/
def cutOf (l : List Step) (tensorMode : TensorMode) (outputs : List NodeId) : Graph :=
  ending (prepareIn .linear tensorMode outputs) (Script.scene l).graph

/-- A program whose values go through memory. -/
def postedOf (l : List Step) (tensorMode : TensorMode) (outputs : List NodeId) : Graph :=
  ending spill (cutOf l tensorMode outputs)

/-- A program with flat addresses. -/
def flatOf (l : List Step) (tensorMode : TensorMode) (outputs : List NodeId) (mode : KernelMode) :
    Graph :=
  ending flatten ((postedOf l tensorMode outputs).inMode mode)

/-- Values are defined before they are used, and all passes succeed in both modes. -/
def passes (l : List Step) (tensorMode : TensorMode) (outputs : List NodeId) : Bool :=
  let p := cutOf l tensorMode outputs
  Step.allRegular l &&
    (p.order.all fun n => (p.node n).args.all fun a => [a.source, n].isSublist p.order) &&
    succeeds spill p &&
    succeeds flatten ((postedOf l tensorMode outputs).inMode .linear) &&
    succeeds flatten ((postedOf l tensorMode outputs).inMode .multi)

lemma of_passes {l : List Step} {tensorMode : TensorMode} {outputs : List NodeId}
    (h : passes l tensorMode outputs) :
    (cutOf l tensorMode outputs).Clustered ∧
      spill (cutOf l tensorMode outputs) = .ok ⟨⟩ (postedOf l tensorMode outputs) ∧
      flatten ((postedOf l tensorMode outputs).inMode .linear) =
        .ok ⟨⟩ (flatOf l tensorMode outputs .linear) ∧
      flatten ((postedOf l tensorMode outputs).inMode .multi) =
        .ok ⟨⟩ (flatOf l tensorMode outputs .multi) := by
  simp only [passes, Bool.and_eq_true, all_eq_true, isSublist_iff_sublist] at h
  obtain ⟨⟨⟨⟨hl, hordered⟩, hspill⟩, hlinear⟩, hmulti⟩ := h
  obtain ⟨p, o, lp, hrun, hp, -⟩ := (Script.recorded hl).graph.prepareIn .linear tensorMode outputs
  have hcut : cutOf l tensorMode outputs = p := by rw [cutOf, ending, hrun]
  refine ⟨⟨?_, hordered⟩, eq_ok_ending hspill, eq_ok_ending hlinear, eq_ok_ending hmulti⟩
  rw [hcut, hp.lists.order]
  exact hp.toFormed

/-- A program that compares the elements of its input with others, which are selected by the first
index only. -/
def rows : List Step :=
  [ .act (.input .float (.sizes [2, 3])) (some "A"),
    .act (.index (.like "A") 1) (some "j"),
    .act (.load "A" ["j"]) (some "x"),
    .act (.call (.named "max") ["A", "x"]) (some "y") ]

theorem modes_address_rows_alike :
    (cutOf rows .clamp [5]).Clustered ∧
      Build.spill (cutOf rows .clamp [5]) = .ok ⟨⟩ (postedOf rows .clamp [5]) ∧
      Build.flatten ((postedOf rows .clamp [5]).inMode .linear) =
        .ok ⟨⟩ (flatOf rows .clamp [5] .linear) ∧
      Build.flatten ((postedOf rows .clamp [5]).inMode .multi) =
        .ok ⟨⟩ (flatOf rows .clamp [5] .multi) ∧
      (postedOf rows .clamp [5]).RunsOver .plain 2 [2, 3] ∧
      AddressesAgree .plain (postedOf rows .clamp [5]) (flatOf rows .clamp [5] .linear)
        (flatOf rows .clamp [5] .multi) 2 [2, 3] := by
  have hpasses : passes rows .clamp [5] = true := by decide +kernel
  obtain ⟨hcut, hspill, hlinear, hmulti⟩ := of_passes hpasses
  have hr : (postedOf rows .clamp [5]).RunsOver .plain 2 [2, 3] :=
    runsOver_of_constants (h := 3) (by decide) (by decide) (by decide) (by decide +kernel)
  exact ⟨hcut, hspill, hlinear, hmulti, hr,
    modes_address_alike hcut hspill hlinear hmulti hr (by decide +kernel)⟩

/-- Both modes agree on all clusters of all programs. -/
def ModesAlwaysAgree : Prop :=
  ∀ {σ : Setting} {p s L M : Graph} {k : ClusterId} {sizes : List Nat}, p.Clustered →
    spill p = .ok ⟨⟩ s → flatten (s.inMode .linear) = .ok ⟨⟩ L →
    flatten (s.inMode .multi) = .ok ⟨⟩ M → s.RunsOver σ k sizes →
    AddressesAgree σ s L M k sizes

/-- A program that selects from the coordinates `d`, which its only kernel recomputes. -/
def crossed : List Step :=
  [ .act (.input .float (.sizes [4])) (some "A"),
    .act (.index (.like "A") 0) (some "i"),
    .act (.index (.extent (.sizes [2, 3])) 0) (some "d"),
    .act (.load "d" ["i", "i"]) (some "x"),
    .act (.index (.extent (.sizes [5])) 0) (some "z"),
    .act (.call (.named "max") ["i", "x"]) (some "y") ]

lemma Yields.binary {p : Option Position} {x y : NodeId} {u : UInt32}
    (h : (f.node n).cluster = some k ∧ (f.node n).op.valueKind = .operands ∧
      (∀ a ∈ (f.node n).args, a.kind = .input → a.source < f.labels.size ∧
        (f.source a = x ∧ a.index = 0 ∨ f.source a = y ∧ a.index = 1)) ∧
      σ.compute (f.node n).op.name (f.node n).type (f.node n).data
        (((f.node n).arguments .input).map fun a => if a.index = 0 then u else v) = w)
    (hx : f.Yields σ k p x u) (hy : f.Yields σ k p y v) : f.Yields σ k p n w := by
  obtain ⟨hk, hkind, hargs, rfl⟩ := h
  refine .operation hk hkind (fun a ha hinput => (hargs a ha hinput).1) fun a ha hinput => ?_
  rcases (hargs a ha hinput).2 with ⟨rfl, hindex⟩ | ⟨rfl, hindex⟩
  · rw [if_pos hindex]
    exact hx
  · rw [if_neg (by rw [hindex]; decide)]
    exact hy

/-- The program with flat addresses. -/
def flatCrossed (mode : KernelMode) : Graph := flatOf crossed .unchecked [9] mode

lemma crossed_linear :
    (flatCrossed .linear).Addressed .plain 6 ⟨1, []⟩ 14 1 := by
  have hends : ((flatCrossed .linear).node 14).arguments .index = [⟨.index, 0, 17⟩] ∧
      (flatCrossed .linear).source ⟨.index, 0, 17⟩ = 17 ∧
      ((flatCrossed .linear).node 17).cluster = some 6 ∧
      ((flatCrossed .linear).node 17).op.valueKind = .thread := by decide +kernel
  obtain ⟨hindex, hsource, hcluster, hkind⟩ := hends
  exact ⟨_, hindex, by rw [hsource]; exact .thread rfl hcluster hkind⟩

lemma crossed_multi :
    (flatCrossed .multi).Addressed .plain 6 ⟨1, [1]⟩ 14 4 := by
  have hends : ((flatCrossed .multi).node 14).arguments .index = [⟨.index, 0, 18⟩] ∧
      (flatCrossed .multi).source ⟨.index, 0, 18⟩ = 18 ∧
      ((flatCrossed .multi).node 13).cluster = some 6 ∧
      ((flatCrossed .multi).node 13).op.valueKind = .coordinate ∧
      ((flatCrossed .multi).node 13).word = 0 ∧
      4 < (flatCrossed .multi).nodes.size ∧
      ((flatCrossed .multi).node 4).op.valueKind = .word ∧
      ((flatCrossed .multi).node 4).word = 3 := by decide +kernel
  obtain ⟨hindex, hsource, hcluster, hkind, hdim, hlt, hconst, hword⟩ := hends
  have hcoord : (flatCrossed .multi).Yields .plain 6 (some ⟨1, [1]⟩) 13 1 :=
    .coordinate rfl hcluster hkind (by rw [hdim]; decide) (by rw [hdim]; decide)
  have hsize : (flatCrossed .multi).Yields .plain 6 (some ⟨1, [1]⟩) 4 3 :=
    hword ▸ .constant hlt hconst
  have hrow : (flatCrossed .multi).Yields .plain 6 (some ⟨1, [1]⟩) 17 3 :=
    .binary (by decide +kernel) hcoord hsize
  have hflat : (flatCrossed .multi).Yields .plain 6 (some ⟨1, [1]⟩) 18 4 :=
    .binary (by decide +kernel) hrow hcoord
  exact ⟨_, hindex, by rw [hsource]; exact hflat⟩

/-- There are programs on which the modes differ. -/
theorem not_modesAlwaysAgree : ¬ ModesAlwaysAgree := by
  intro hall
  have hpasses : passes crossed .unchecked [9] = true := by decide +kernel
  obtain ⟨hcut, hspill, hlinear, hmulti⟩ := of_passes hpasses
  have hr : (postedOf crossed .unchecked [9]).RunsOver .plain 6 [4] :=
    runsOver_of_constants (h := 11) (by decide) (by decide) (by decide) (by decide +kernel)
  have haccess : 14 ∈ (postedOf crossed .unchecked [9]).order ∧
      ((postedOf crossed .unchecked [9]).node 14).cluster = some 6 ∧
      ((postedOf crossed .unchecked [9]).node 14).op.kind.accesses = true := by decide +kernel
  obtain ⟨v, hv⟩ := (hall hcut hspill hlinear hmulti hr).alike 1 (by decide) [] 14 haccess.1
    haccess.2.1 haccess.2.2
  have hone : (1 : UInt32) = v := (hv 1).1.1 crossed_linear
  have hfour : (4 : UInt32) = v := (hv 4).2.1 crossed_multi
  rw [← hone] at hfour
  exact absurd hfour (by decide)

end Graph

end KernelFusion
