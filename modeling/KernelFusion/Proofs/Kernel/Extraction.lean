/-
What is extracted as kernels.

Every memory that is no input and every cluster that writes gets one kernel, in program order. The
extraction fails if and only if some writing cluster has no node with a *full* shape: one with as
many different indices as its greatest index calls for. A shape without negative indices is full if
and only if its indices are `0`, `1`, up to some number.
-/
import KernelFusion.Proofs.Kernel.Slots
import Mathlib.Data.Int.Interval

namespace KernelFusion

open List

/-! ### The indices of arguments -/

section Indices

variable {args : List Argument} {i : Int}

lemma exists_mem_lastOfEachIndex :
    (∃ a ∈ lastOfEachIndex args, a.index = i) ↔ ∃ a ∈ args, a.index = i := by
  fun_induction lastOfEachIndex args with
  | case1 a b rest hab ih =>
    rw [ih]
    simp [hab]
  | case2 a b rest hab ih =>
    simp only [exists_mem_cons_iff] at ih ⊢
    rw [ih]
  | case3 => exact Iff.rfl

lemma pairwise_lastOfEachIndex (h : args.Pairwise fun a b => a.index ≤ b.index) :
    (lastOfEachIndex args).Pairwise fun a b => a.index < b.index := by
  fun_induction lastOfEachIndex args with
  | case1 a b rest hab ih => exact ih (pairwise_cons.1 h).2
  | case2 a b rest hab ih =>
    obtain ⟨ha, hrest⟩ := pairwise_cons.1 h
    refine pairwise_cons.2 ⟨fun c hc => ?_, ih hrest⟩
    have hlt : a.index < b.index := lt_of_le_of_ne (ha b mem_cons_self) hab
    rcases mem_cons.1 (lastOfEachIndex_sublist.subset hc) with rfl | hc
    · exact hlt
    · exact Int.lt_of_lt_of_le hlt ((pairwise_cons.1 hrest).1 c hc)
  | case3 args hnot =>
    rcases args with _ | ⟨a, _ | ⟨b, rest⟩⟩
    · exact List.Pairwise.nil
    · exact pairwise_singleton _ _
    · exact absurd rfl (hnot a b rest)

lemma isGreatest_getLast? {l : List Int} (h : l.Pairwise (· < ·)) (hlast : l.getLast? = some i) :
    IsGreatest {j | j ∈ l} i := by
  obtain ⟨l, rfl⟩ := getLast?_eq_some_iff.1 hlast
  refine ⟨by simp, fun j hj => ?_⟩
  rcases mem_append.1 hj with hj | hj
  · exact Int.le_of_lt ((pairwise_append.1 h).2.2 j hj i (by simp))
  · exact Int.le_of_eq (mem_singleton.1 hj)

end Indices

namespace Node

variable {n : Node} {k : ArgKind} {i : Int}

/-- The indices of the arguments of one use. -/
def indices (n : Node) (k : ArgKind) : Finset Int :=
  ((n.args.filter fun a => a.kind = k).map (·.index)).toFinset

lemma mem_indices : i ∈ n.indices k ↔ ∃ a ∈ n.args, a.kind = k ∧ a.index = i := by
  simp [indices, and_assoc]

/-- The sizes of a node have the indices from zero up to some number. -/
def IsDense (n : Node) : Prop :=
  ∃ r : Nat, 0 < r ∧ ∀ i : Int, i ∈ n.indices .shape ↔ 0 ≤ i ∧ i < r

/-- The sizes of a node have as many different indices as the greatest one calls for. -/
def IsFull (n : Node) : Prop :=
  ∃ r : Nat, 0 < r ∧ (n.indices .shape).card = r ∧
    IsGreatest {i | i ∈ n.indices .shape} ((r : Int) - 1)

lemma isFull_iff_isDense (h : ∀ i ∈ n.indices .shape, 0 ≤ i) : n.IsFull ↔ n.IsDense := by
  constructor
  · rintro ⟨r, hr, hcard, -, hle⟩
    refine ⟨r, hr, fun i => ?_⟩
    have hsub : n.indices .shape ⊆ Finset.Ico 0 (r : Int) := by
      intro j hj
      have hj' := hle hj
      exact Finset.mem_Ico.2 ⟨h j hj, by omega⟩
    have heq : n.indices .shape = Finset.Ico 0 (r : Int) :=
      Finset.eq_of_subset_of_card_le hsub (by rw [Int.card_Ico, hcard]; simp)
    rw [heq, Finset.mem_Ico]
  · rintro ⟨r, hr, hmem⟩
    have heq : n.indices .shape = Finset.Ico 0 (r : Int) := by
      ext i
      rw [hmem, Finset.mem_Ico]
    refine ⟨r, hr, by rw [heq, Int.card_Ico]; simp, (hmem _).2 ⟨by omega, by omega⟩, fun i hi => ?_⟩
    have hi' := ((hmem i).1 hi).2
    omega

lemma pairwise_entries : ((n.entries k).map (·.index)).Pairwise (· < ·) :=
  pairwise_map.2 (pairwise_lastOfEachIndex pairwise_foldr_insertByIndex)

lemma mem_map_index_entries : i ∈ (n.entries k).map (·.index) ↔ i ∈ n.indices k := by
  rw [mem_map, mem_indices, entries, exists_mem_lastOfEachIndex]
  simp [foldr_insertByIndex_perm.mem_iff, and_assoc]

lemma length_entries : (n.entries k).length = (n.indices k).card := by
  have hnodup : ((n.entries k).map (·.index)).Nodup := pairwise_entries.imp Int.ne_of_lt
  have heq : ((n.entries k).map (·.index)).toFinset = n.indices k := by
    ext i
    rw [mem_toFinset, mem_map_index_entries]
  rw [← heq, toFinset_card_of_nodup hnodup, length_map]

lemma extent_cases : (n.entries k = [] ∧ n.extent k = 0) ∨
    IsGreatest {i | i ∈ n.indices k} (n.extent k - 1) := by
  cases hlast : (n.entries k).getLast? with
  | none => exact .inl ⟨getLast?_eq_none_iff.1 hlast, by rw [extent, hlast]⟩
  | some a =>
    have hmap : ((n.entries k).map (·.index)).getLast? = some a.index := by
      rw [getLast?_map, hlast, Option.map_some]
    have hgreatest := isGreatest_getLast? pairwise_entries hmap
    simp only [mem_map_index_entries] at hgreatest
    have hextent : n.extent k - 1 = a.index := by
      rw [extent, hlast]
      exact Int.add_sub_cancel _ _
    exact .inr (hextent ▸ hgreatest)

lemma mem_places_iff (h : ((n.args.filter fun a => a.kind = k).map (·.index)).Nodup)
    {a : Argument} :
    a ∈ n.places k ↔ a ∈ n.args ∧ a.kind = k := by
  have hperm : (n.arguments k).Perm (n.args.filter fun a => a.kind = k) := sortByIndex_perm
  have hnodup : (n.arguments k).Pairwise fun a b => a.index ≠ b.index :=
    pairwise_map.1 ((hperm.map _).nodup_iff.2 h)
  have hsorted : (n.arguments k).Pairwise fun a b => a.index ≤ b.index :=
    pairwise_foldr_insertByIndex
  have hlt : (n.arguments k).Pairwise fun a b => a.index < b.index :=
    hsorted.imp₂ (fun _ _ hle hne => lt_of_le_of_ne hle hne) hnodup
  rw [places, lastOfEachIndex_of_pairwise hlt, mem_arguments]

end Node

/-! ### Order of first use -/

/-- `slots` numbers what occurs in `uses`, each once, in order of first occurrence. -/
structure NumbersFirstUses (slots uses : List NodeId) : Prop where
  nodup : slots.Nodup
  mem_iff : ∀ m, m ∈ slots ↔ m ∈ uses
  ascending : slots.Pairwise fun x y => uses.idxOf x < uses.idxOf y

/-- A slot is added at the first use and reused after. -/
lemma NumbersFirstUses.append {slots uses : List NodeId} (h : NumbersFirstUses slots uses)
    (n : NodeId) : NumbersFirstUses (appendNew slots n) (uses ++ [n]) := by
  suffices hasc : (appendNew slots n).Pairwise
      fun x y => (uses ++ [n]).idxOf x < (uses ++ [n]).idxOf y by
    refine ⟨hasc.imp ?_, fun m => by simp [h.mem_iff], hasc⟩
    rintro x y hlt rfl
    exact Nat.lt_irrefl _ hlt
  have hold : slots.Pairwise fun x y => (uses ++ [n]).idxOf x < (uses ++ [n]).idxOf y := by
    refine h.ascending.imp_of_mem fun {x y} hx hy hlt => ?_
    rwa [idxOf_append_of_mem ((h.mem_iff x).1 hx), idxOf_append_of_mem ((h.mem_iff y).1 hy)]
  rw [appendNew]
  split
  · exact hold
  · rename_i hn
    have hn' : n ∉ uses := by simpa [h.mem_iff] using hn
    refine pairwise_append.2 ⟨hold, pairwise_singleton _ _, fun x hx y hy => ?_⟩
    obtain rfl := mem_singleton.1 hy
    have hx' := (h.mem_iff x).1 hx
    rw [idxOf_append_of_mem hx', idxOf_append_of_notMem hn']
    exact Nat.lt_of_lt_of_le (idxOf_lt_length_of_mem hx') (Nat.le_add_right _ _)

lemma numbersFirstUses_firstOccurrences (uses : List NodeId) :
    NumbersFirstUses (firstOccurrences uses) uses := by
  -- induction on the uses so far
  induction uses using reverseRecOn with
  | nil => exact ⟨nodup_nil, fun m => Iff.rfl, List.Pairwise.nil⟩
  | append_singleton uses n ih =>
    rw [firstOccurrences, foldl_append]
    exact ih.append n

namespace Graph

variable {g : Graph} {l : List NodeId} {n m : NodeId} {k : ClusterId} {kn : Kernel}
  {ks : List Kernel} {e : Fault}

/-! ### Clusters -/

/-- The nodes of a cluster, in program order. -/
def members (g : Graph) (k : ClusterId) : List NodeId :=
  g.order.filter fun n => (g.node n).cluster = some k

lemma mem_members : n ∈ g.members k ↔ n ∈ g.order ∧ (g.node n).cluster = some k := by
  simp [members]

/-- Some node of the cluster writes memory. -/
def WritesIn (g : Graph) (k : ClusterId) : Prop :=
  ∃ n ∈ g.members k, (g.node n).op.kind.writes

/-- Some node of the cluster is of the given sort. -/
def HasIn (g : Graph) (sort : Node → Prop) (k : ClusterId) : Prop := ∃ n ∈ g.members k,
    sort (g.node n)

/-- The memory that the accesses of a cluster go to, one after the other. -/
def memoryUses (g : Graph) (k : ClusterId) : List NodeId :=
  ((g.members k).filter fun n => (g.node n).op.kind.accesses).filterMap g.memoryOf?

/-- The memory that the nodes of a cluster take as a value, one after the other. -/
def valueUses (g : Graph) (k : ClusterId) : List NodeId :=
  (g.members k).flatMap fun n => ((g.sources n .input).map (·.2)).filter fun m =>
    (g.node m).isMemory

lemma Grouped.runFrom_eq_members (hg : g.Grouped (fun _ => true) g.order) (hl : g.Lists g.order)
    (hn : n ∈ g.order) (hk : (g.node n).cluster = some k) (hhead : g.head? k = some n) :
    g.runFrom n = g.members k := by
  obtain ⟨a, b, hab⟩ := append_of_mem hn
  rw [hab] at hl hg
  rw [runFrom, hl.fromNode, hk, hg.spans_zero.takeWhile_eq hk, members, hab, filter_append]
  -- nothing of the cluster is in front of its head
  refine (append_left_eq_self.2 (filter_eq_nil_iff.2 fun x hx hkx => ?_)).symm
  have hkx : (g.node x).cluster = some k := by simpa using hkx
  obtain ⟨h, hh, -, -, hle⟩ := hg.head (mem_append_left _ hx) hkx
  obtain rfl := Option.mem_unique hhead hh
  have hbefore : Precedes (a ++ n :: b) x n := Precedes.of_mem hx mem_cons_self
  exact hbefore.not_le hl.chain.nodup (hle rfl)

lemma Grouped.exists_head (hg : g.Grouped (fun _ => true) g.order) (hn : n ∈ g.members k) :
    ∃ h ∈ g.order, g.head? k = some h ∧ (g.node h).cluster = some k := by
  obtain ⟨hn, hk⟩ := mem_members.1 hn
  obtain ⟨h, hh, hmem, hkh, -⟩ := hg.head hn hk
  exact ⟨h, hmem, hh, hkh⟩

lemma startsRun_iff (hk : (g.node n).cluster = some k) : g.startsRun n ↔ g.head? k = some n := by
  simp [startsRun, hk]

/-! ### Shapes -/

lemma completeShape?_isSome : (g.completeShape? n).isSome ↔ (g.node n).IsFull := by
  have hshape : (g.completeShape? n).isSome ↔
      (g.node n).extent .shape ≠ 0 ∧ ((g.node n).entries .shape).length =
      (g.node n).extent .shape := by
    rw [completeShape?]
    split <;> simp_all
  rw [hshape, Node.length_entries]
  constructor
  · rintro ⟨hne, hlen⟩
    rcases (g.node n).extent_cases (k := .shape) with ⟨-, hzero⟩ | hgreatest
    · exact absurd hzero hne
    · exact ⟨_, by omega, rfl, by rwa [hlen]⟩
  · rintro ⟨r, hr, hcard, hgreatest⟩
    rcases (g.node n).extent_cases (k := .shape) with ⟨hnil, -⟩ | hgreatest'
    · rw [← Node.length_entries, hnil] at hcard
      exact absurd hcard (Nat.ne_of_lt hr)
    · have heq := hgreatest.unique hgreatest'
      exact ⟨by omega, by omega⟩

lemma findSome?_completeShape? {nodes : List NodeId} :
    (nodes.findSome? g.completeShape?).isSome ↔ ∃ n ∈ nodes, (g.node n).IsFull := by
  rw [isSome_findSome?, any_eq_true]
  simp only [completeShape?_isSome]

/-- What the extraction relies on: the program is a list of nodes, its clusters are runs that start
with their heads and hold memory only or no memory, and accesses have memory to go to. -/
structure Extractable (g : Graph) : Prop where
  lists : g.Lists g.order
  grouped : g.Grouped (fun _ => true) g.order
  table : ∀ n ∈ g.order, (g.node n).op ∈ Operation.table
  accesses : ∀ n ∈ g.order, (g.node n).op.kind.accesses →
    ∃ a ∈ (g.node n).args, a.kind = .memory ∧ a.index = 0

/-- The kernels of a program: one for each memory that is no input and one for each cluster that
writes, in program order, with their slots and scalars in order of first use. -/
structure Extracted (g : Graph) (ks : List Kernel) : Prop where
  ordered : (ks.map Kernel.first).Sublist g.order
  distinct : (ks.map Kernel.first).Nodup
  allocated : ∀ n ∈ g.order, (g.node n).isMemory → (g.node n).role ≠ .input →
    ∃! kn, kn ∈ ks ∧ kn.kind = .memory ∧ kn.first = n
  allocates : ∀ kn ∈ ks, kn.kind = .memory →
    (g.node kn.first).isMemory ∧ (g.node kn.first).role ≠ .input
  executed : ∀ k, g.WritesIn k →
    ∃! kn, kn ∈ ks ∧ kn.kind = .compute ∧ (g.node kn.first).cluster = some k
  executes : ∀ kn ∈ ks, kn.kind = .compute → ∃ k, (g.node kn.first).cluster = some k ∧
    g.head? k = some kn.first ∧ g.WritesIn k ∧ NumbersFirstUses kn.memory (g.memoryUses k) ∧
      NumbersFirstUses kn.scalars (g.valueUses k)

/-! ### Kernels -/

lemma computeKernel?_eq_some (h : g.computeKernel? n = .ok (some kn)) :
    kn.kind = .compute ∧ kn.first = n ∧ kn.memory = g.accessedMemory (g.runFrom n) ∧
      kn.scalars = g.memoryValues (g.runFrom n) := by
  rw [computeKernel?] at h
  split at h
  · split at h
    · cases Except.ok.inj h
      exact ⟨rfl, rfl, rfl, rfl⟩
    · cases h
  · cases h

lemma kernelOf_eq_some : g.kernelOf n = some kn ↔ g.kernelAt? n = .ok (some kn) := by
  rw [kernelOf]
  rcases g.kernelAt? n with e | _ | kn' <;> simp [Except.toOption]

lemma exists_of_kernels_eq_error (h : g.kernels = .error e) :
    ∃ n ∈ g.order, g.kernelAt? n = .error e := by
  rcases Except.bind_eq_error.1 h with h | ⟨found, -, h⟩
  · exact Except.of_mapM_eq_error h
  · cases h

lemma exists_kernels_eq_error :
    (∃ e, g.kernels = .error e) ↔ ∃ n ∈ g.order, ∃ e, g.kernelAt? n = .error e := by
  constructor
  · rintro ⟨e, h⟩
    obtain ⟨n, hn, hat⟩ := exists_of_kernels_eq_error h
    exact ⟨n, hn, e, hat⟩
  · rintro ⟨n, hn, e, hat⟩
    cases h : g.kernels with
    | error e => exact ⟨e, rfl⟩
    | ok ks =>
      obtain ⟨found, hfound, -⟩ := Except.bind_eq_ok.1 h
      obtain ⟨i, hi⟩ := mem_iff_getElem?.1 hn
      obtain ⟨kn?, -, hkn⟩ := exists_of_forall₂ (Except.of_mapM_eq_ok hfound) hi
      cases hat.symm.trans hkn

lemma kernelAt?_ne_error (h : g.kernels = .ok ks) (hn : n ∈ g.order) :
    g.kernelAt? n ≠ .error e := by
  intro he
  obtain ⟨e', h'⟩ := exists_kernels_eq_error.2 ⟨n, hn, e, he⟩
  rw [h] at h'
  cases h'

lemma mem_kernels_iff (h : g.kernels = .ok ks) :
    kn ∈ ks ↔ ∃ n ∈ g.order, g.kernelAt? n = .ok (some kn) := by
  rw [kernels_eq_filterMap h, mem_filterMap]
  simp only [kernelOf_eq_some]

lemma kernelAt?_spec (h : g.kernelAt? n = .ok (some kn)) : kn.first = n ∧
    (kn.kind = .memory → (g.node n).isMemory ∧ (g.node n).role ≠ .input) := by
  rw [kernelAt?] at h
  split at h
  · rename_i hmem
    split at h
    · cases h
    · rename_i hrole
      cases Except.ok.inj h
      exact ⟨rfl, fun _ => ⟨hmem, hrole⟩⟩
  · split at h
    · obtain ⟨hkind, hfirst, -⟩ := computeKernel?_eq_some h
      refine ⟨hfirst, fun hmemory => ?_⟩
      rw [hkind] at hmemory
      cases hmemory
    · cases h

lemma map_first_sublist (h : g.kernels = .ok ks) : (ks.map Kernel.first).Sublist g.order := by
  rw [kernels_eq_filterMap h]
  generalize g.order = l
  induction l with
  | nil => exact Sublist.refl _
  | cons n l ih =>
    cases hkn : g.kernelOf n with
    | none =>
      rw [filterMap_cons_none hkn]
      exact ih.cons n
    | some kn =>
      rw [filterMap_cons_some hkn, map_cons, (kernelAt?_spec (kernelOf_eq_some.1 hkn)).1]
      exact ih.cons_cons n

lemma eq_of_first_eq {kn' : Kernel} (h : g.kernels = .ok ks) (hkn : kn ∈ ks) (hkn' : kn' ∈ ks)
    (hfirst : kn.first = kn'.first) : kn = kn' := by
  obtain ⟨n, -, hread⟩ := (mem_kernels_iff h).1 hkn
  obtain ⟨n', -, hread'⟩ := (mem_kernels_iff h).1 hkn'
  obtain rfl : n = n' := by rw [← (kernelAt?_spec hread).1, hfirst, (kernelAt?_spec hread').1]
  exact Option.some.inj (Except.ok.inj (hread.symm.trans hread'))

/-- The nodes that kernels allocate memory for, in order. -/
def allocatedNodes (ks : List Kernel) : List NodeId :=
  (ks.filter fun kn => kn.kind = .memory).map Kernel.first

lemma mem_allocatedNodes : n ∈ allocatedNodes ks ↔ ∃ kn ∈ ks, kn.kind = .memory ∧ kn.first = n := by
  simp [allocatedNodes, and_assoc]

lemma mem_allocatedNodes_iff (h : g.kernels = .ok ks) : n ∈ allocatedNodes ks ↔
    n ∈ g.order ∧ (g.node n).isMemory ∧ (g.node n).role ≠ .input := by
  rw [mem_allocatedNodes]
  constructor
  · rintro ⟨kn, hkn, hkind, rfl⟩
    obtain ⟨n, hn, hread⟩ := (mem_kernels_iff h).1 hkn
    obtain ⟨rfl, hmemory⟩ := kernelAt?_spec hread
    exact ⟨hn, hmemory hkind⟩
  · rintro ⟨hn, hmem, hrole⟩
    obtain ⟨kn, hof, hkind, hfirst⟩ := kernelOf_of_isMemory hmem hrole
    exact ⟨kn, (mem_kernels_iff h).2 ⟨n, hn, kernelOf_eq_some.1 hof⟩, hkind, hfirst⟩

lemma nodup_allocatedNodes (hl : g.Lists g.order) (h : g.kernels = .ok ks) :
    (allocatedNodes ks).Nodup := by
  have hsub : (allocatedNodes ks).Sublist (ks.map Kernel.first) := filter_sublist.map _
  exact hl.chain.nodup.sublist (hsub.trans (map_first_sublist h))

namespace Extractable

variable (hg : g.Extractable)

include hg

lemma isMemory_of_writesIn (hn : n ∈ g.order) (hk : (g.node n).cluster = some k)
    (hw : g.WritesIn k) :
    (g.node n).isMemory = false := by
  obtain ⟨w, hw, hwrites⟩ := hw
  obtain ⟨hw, hkw⟩ := mem_members.1 hw
  have hall : ∀ op ∈ Operation.table, op.kind.writes → op.name ≠ "memory" := by decide +kernel
  rw [hg.grouped.apart hn hw hk hkw, Node.isMemory]
  simpa using hall _ (hg.table w hw) hwrites

lemma exists_memoryOf? (hn : n ∈ g.order) (hacc : (g.node n).op.kind.accesses) :
    ∃ m, g.memoryOf? n = some m := by
  obtain ⟨a, ha, hkind, hindex⟩ := hg.accesses n hn hacc
  obtain ⟨b, hb, hbi⟩ := exists_mem_lastOfEachIndex.2
    ⟨a, Node.mem_arguments.2 ⟨ha, hkind⟩, hindex⟩
  have hfound : (((g.node n).places .memory).find? fun a => a.index = 0).isSome := by
    rw [find?_isSome]
    exact ⟨b, hb, by simpa using hbi⟩
  obtain ⟨c, hc⟩ := Option.isSome_iff_exists.1 hfound
  exact ⟨g.source c, by rw [memoryOf?, hc, Option.map_some]⟩

lemma accessedMemory_members (k : ClusterId) :
    g.accessedMemory (g.members k) = firstOccurrences (g.memoryUses k) := by
  rw [accessedMemory, memoryUses]
  congr 1
  rw [← filterMap_eq_map]
  refine filterMap_congr fun n hn => ?_
  obtain ⟨hn, hacc⟩ := mem_filter.1 hn
  obtain ⟨m, hm⟩ := hg.exists_memoryOf? (mem_members.1 hn).1 hacc
  rw [Function.comp_apply, hm, Option.getD_some]

section

variable (hn : n ∈ g.order) (hk : (g.node n).cluster = some k) (hhead : g.head? k = some n)

include hn hk hhead

/-- A cluster that writes nothing has no kernel; one without a full shape fails. -/
lemma computeKernel?_cases :
    (¬ g.WritesIn k ∧ g.computeKernel? n = .ok none) ∨
      (g.WritesIn k ∧ g.HasIn Node.IsFull k ∧ ∃ kn, g.computeKernel? n = .ok (some kn)) ∨
      (g.WritesIn k ∧ ¬ g.HasIn Node.IsFull k ∧ g.computeKernel? n = .error .kernelShapeless) := by
  have hrun := hg.grouped.runFrom_eq_members hg.lists hn hk hhead
  have hwrites : ((g.runFrom n).any fun m => (g.node m).op.kind.writes) ↔ g.WritesIn k := by
    rw [hrun, any_eq_true]
    rfl
  have hfull : ((g.runFrom n).findSome? g.completeShape?).isSome ↔ g.HasIn Node.IsFull k := by
    rw [hrun, findSome?_completeShape?]
    rfl
  rw [← hwrites, ← hfull, computeKernel?]
  split
  · rename_i hany
    refine .inr ?_
    split
    · rename_i hsome
      exact .inl ⟨hany, by rw [hsome]; rfl, _, rfl⟩
    · rename_i hnone
      exact .inr ⟨hany, by rw [hnone]; simp, rfl⟩
  · rename_i hany
    exact .inl ⟨hany, rfl⟩

lemma kernelAt?_head (hwrites : g.WritesIn k) : g.kernelAt? n = g.computeKernel? n := by
  have hmem := hg.isMemory_of_writesIn hn hk hwrites
  rw [kernelAt?, if_neg (by simp [hmem]), if_pos ((startsRun_iff hk).2 hhead)]

end

lemma kernelAt?_eq_some (hn : n ∈ g.order) (h : g.kernelAt? n = .ok (some kn)) : kn.first = n ∧
    ((kn.kind = .memory ∧ (g.node n).isMemory ∧ (g.node n).role ≠ .input) ∨
      (kn.kind = .compute ∧ ∃ k, (g.node n).cluster = some k ∧ g.head? k = some n ∧ g.WritesIn k ∧
        NumbersFirstUses kn.memory (g.memoryUses k) ∧
        NumbersFirstUses kn.scalars (g.valueUses k))) := by
  rw [kernelAt?] at h
  split at h
  · rename_i hmem
    split at h
    · cases h
    · rename_i hrole
      cases Except.ok.inj h
      exact ⟨rfl, .inl ⟨rfl, hmem, hrole⟩⟩
  · rename_i hmem
    split at h
    · rename_i hstarts
      obtain ⟨k, hk⟩ := hg.grouped.clustered hn (by simpa using hmem)
      have hhead := (startsRun_iff hk).1 hstarts
      obtain ⟨hkind, hfirst, hmemory, hscalars⟩ := computeKernel?_eq_some h
      have hrun := hg.grouped.runFrom_eq_members hg.lists hn hk hhead
      rw [hrun, hg.accessedMemory_members] at hmemory
      rw [hrun] at hscalars
      refine ⟨hfirst, .inr ⟨hkind, k, hk, hhead, ?_, ?_, ?_⟩⟩
      · rcases hg.computeKernel?_cases hn hk hhead with ⟨-, hnone⟩ | ⟨hwrites, -⟩ | ⟨hwrites, -⟩
        · rw [hnone] at h
          cases h
        · exact hwrites
        · exact hwrites
      · rw [hmemory]
        exact numbersFirstUses_firstOccurrences _
      · rw [hscalars]
        exact numbersFirstUses_firstOccurrences _
    · cases h

/-- Extraction fails exactly at a writing cluster without a full shape. -/
lemma kernelAt?_eq_error_iff (hn : n ∈ g.order) :
    g.kernelAt? n = .error e ↔ e = .kernelShapeless ∧ ∃ k, (g.node n).cluster = some k ∧
      g.head? k = some n ∧ g.WritesIn k ∧ ¬ g.HasIn Node.IsFull k := by
  constructor
  · intro h
    rw [kernelAt?] at h
    split at h
    · split at h <;> cases h
    · rename_i hmem
      split at h
      · rename_i hstarts
        obtain ⟨k, hk⟩ := hg.grouped.clustered hn (by simpa using hmem)
        have hhead := (startsRun_iff hk).1 hstarts
        rcases hg.computeKernel?_cases hn hk hhead with
          ⟨-, hok⟩ | ⟨-, -, kn, hok⟩ | ⟨hwrites, hnot, herr⟩
        · rw [hok] at h
          cases h
        · rw [hok] at h
          cases h
        · rw [herr] at h
          exact ⟨(Except.error.inj h).symm, k, hk, hhead, hwrites, hnot⟩
      · cases h
  · rintro ⟨rfl, k, hk, hhead, hwrites, hnot⟩
    rw [hg.kernelAt?_head hn hk hhead hwrites]
    rcases hg.computeKernel?_cases hn hk hhead with ⟨hnw, -⟩ | ⟨-, hfull, -⟩ | ⟨-, -, herr⟩
    · exact absurd hwrites hnw
    · exact absurd hfull hnot
    · exact herr

lemma exists_kernels_eq_error_iff :
    (∃ e, g.kernels = .error e) ↔ ∃ k, g.WritesIn k ∧ ¬ g.HasIn Node.IsFull k := by
  rw [exists_kernels_eq_error]
  constructor
  · rintro ⟨n, hn, e, he⟩
    obtain ⟨-, k, -, -, hwrites, hnot⟩ := (hg.kernelAt?_eq_error_iff hn).1 he
    exact ⟨k, hwrites, hnot⟩
  · rintro ⟨k, hwrites, hnot⟩
    obtain ⟨w, hw, -⟩ := id hwrites
    obtain ⟨h, hh, hhead, hk⟩ := hg.grouped.exists_head hw
    exact ⟨h, hh, _, (hg.kernelAt?_eq_error_iff hh).2 ⟨rfl, k, hk, hhead, hwrites, hnot⟩⟩

lemma exists_compute (h : g.kernels = .ok ks) (hwrites : g.WritesIn k) :
    ∃ kn ∈ ks, kn.kind = .compute ∧ g.head? k = some kn.first ∧
      (g.node kn.first).cluster = some k := by
  obtain ⟨w, hw, -⟩ := id hwrites
  obtain ⟨n, hn, hhead, hk⟩ := hg.grouped.exists_head hw
  rcases hg.computeKernel?_cases hn hk hhead with ⟨hnot, -⟩ | ⟨-, -, kn, hread⟩ | ⟨-, -, herr⟩
  · exact absurd hwrites hnot
  · obtain ⟨hkind, rfl, -⟩ := computeKernel?_eq_some hread
    rw [← hg.kernelAt?_head hn hk hhead hwrites] at hread
    exact ⟨kn, (mem_kernels_iff h).2 ⟨_, hn, hread⟩, hkind, hhead, hk⟩
  · rw [← hg.kernelAt?_head hn hk hhead hwrites] at herr
    exact absurd herr (kernelAt?_ne_error h hn)

lemma extracted (h : g.kernels = .ok ks) : g.Extracted ks := by
  have hsub := map_first_sublist h
  refine ⟨hsub, hg.lists.chain.nodup.sublist hsub, fun n hn hmem hrole => ?_,
    fun kn hkn hkind => ?_, fun k hwrites => ?_, fun kn hkn hkind => ?_⟩
  · obtain ⟨kn, hkn, hkind, hfirst⟩ :=
      mem_allocatedNodes.1 ((mem_allocatedNodes_iff h).2 ⟨hn, hmem, hrole⟩)
    refine ⟨kn, ⟨hkn, hkind, hfirst⟩, ?_⟩
    rintro kn' ⟨hkn', -, hfirst'⟩
    exact eq_of_first_eq h hkn' hkn (hfirst'.trans hfirst.symm)
  · exact ((mem_allocatedNodes_iff h).1 (mem_allocatedNodes.2 ⟨kn, hkn, hkind, rfl⟩)).2
  · obtain ⟨kn, hkn, hkind, hhead, hk⟩ := hg.exists_compute h hwrites
    refine ⟨kn, ⟨hkn, hkind, hk⟩, ?_⟩
    rintro kn' ⟨hkn', hkind', hk'⟩
    -- both start with the head of the cluster
    obtain ⟨n', hn', hread'⟩ := (mem_kernels_iff h).1 hkn'
    obtain ⟨rfl, ⟨hmemory, -⟩ | ⟨-, j, hj, hheadj, -⟩⟩ := hg.kernelAt?_eq_some hn' hread'
    · rw [hkind'] at hmemory
      cases hmemory
    · obtain rfl := Option.mem_unique hk' hj
      exact eq_of_first_eq h hkn' hkn (Option.mem_unique hheadj hhead)
  · obtain ⟨n, hn, hread⟩ := (mem_kernels_iff h).1 hkn
    obtain ⟨rfl, ⟨hmemory, -⟩ | ⟨-, k, hk⟩⟩ := hg.kernelAt?_eq_some hn hread
    · rw [hkind] at hmemory
      cases hmemory
    · exact ⟨k, hk⟩

end Extractable

/-- For every graph whose clusters are runs that start with their heads and hold memory only or no
memory, and whose accesses have memory: reading its kernels fails if and only if some writing
cluster has no full shape, and then for this reason; otherwise they are those of its memory and its
writing clusters, each once, with slots and scalars in order of first use. A shape without negative
indices is full if and only if it is dense, and without double indices all arguments count. -/
theorem kernels_extract_effects (hg : g.Extractable) :
    ((∃ e, g.kernels = .error e) ↔ ∃ k, g.WritesIn k ∧ ¬ g.HasIn Node.IsFull k) ∧
      (∀ e, g.kernels = .error e → e.message = "Kernel does not have a shape") ∧
      (∀ ks, g.kernels = .ok ks → g.Extracted ks) ∧
      (∀ n ∈ g.order, (∀ i ∈ (g.node n).indices .shape, 0 ≤ i) →
        ((g.node n).IsFull ↔ (g.node n).IsDense)) ∧
      ∀ n ∈ g.order, (((g.node n).args.filter fun a => a.kind = .input).map (·.index)).Nodup →
        ∀ m, m ∈ (g.sources n .input).map (·.2) ↔
          ∃ a ∈ (g.node n).args, a.kind = .input ∧ g.source a = m := by
  refine ⟨hg.exists_kernels_eq_error_iff, fun e he => ?_, fun ks hks => hg.extracted hks,
    fun n _ hnonneg => Node.isFull_iff_isDense hnonneg, fun n _ hnodup m => ?_⟩
  · obtain ⟨n, hn, hread⟩ := exists_of_kernels_eq_error he
    obtain ⟨rfl, -⟩ := (hg.kernelAt?_eq_error_iff hn).1 hread
    decide +kernel
  · simp only [sources, map_map, mem_map, Function.comp_apply, Node.mem_places_iff hnodup,
      and_assoc]

/-! ### Shapes with negative indices, and indices that occur twice -/

lemma Tidy.extractable (h : g.Tidy g.order) (htable : ∀ n ∈ g.order,
    (g.node n).op ∈ Operation.table) :
    g.Extractable := by
  refine ⟨h.lists, h.grouped, htable, fun n hn hacc => ?_⟩
  obtain ⟨l, hl⟩ := (h.regular n hn).exists_memory hacc
  have hblock := (h.regular n hn).blocks .memory
  have hmem : (⟨.memory, 0, l⟩ : Argument) ∈ (g.node n).args.filter fun a => a.kind = .memory := by
    rw [hblock, hl]
    exact mem_cons_self
  exact ⟨_, (mem_filter.1 hmem).1, rfl, rfl⟩

lemma Extractable.addArgument (hg : g.Extractable) (n m : NodeId) (kind : ArgKind) (i : Int) :
    (g.addArgument n m kind i).Extractable := by
  have hnode : ∀ v, ((g.addArgument n m kind i).node v).op = (g.node v).op ∧
      ((g.addArgument n m kind i).node v).cluster = (g.node v).cluster ∧
      (g.node v).args ⊆ ((g.addArgument n m kind i).node v).args := by
    intro v
    rw [Graph.addArgument, node_modifyNode]
    split
    · exact ⟨rfl, rfl, subset_append_left _ _⟩
    · exact ⟨rfl, rfl, Subset.refl _⟩
  refine ⟨hg.lists.congr rfl rfl size_nodes_modifyNode,
    hg.grouped.congr (fun v _ => (hnode v).1) (fun v _ => (hnode v).2.1) fun _ => rfl,
    fun v hv => (hnode v).1 ▸ hg.table v hv, fun v hv hacc => ?_⟩
  rw [(hnode v).1] at hacc
  obtain ⟨a, ha, hplace⟩ := hg.accesses v hv hacc
  exact ⟨a, (hnode v).2.2 ha, hplace⟩

/-- A program that negates its input in place. -/
def negatedInPlace : List Step :=
  [ .act (.input .float (.sizes [])) (some "A"),
    .act (.constant .float 0x3f800000 (.sizes [])) (some "c"),
    .act (.call (.named "neg") ["A"]) (some "y"),
    .act (.store "A" "y" []) (some "s") ]

/-- Its cut, where the store has got sizes with the indices `-1` and `1`. -/
def skewed : Graph :=
  ((Script.scene negatedInPlace).graph.clusterize.addArgument 3 1 .shape
    (-1)).addArgument 3 1 .shape 1

/-- Then the negation has got a second operand with the index of the first one. -/
def shadowed : Graph := skewed.addArgument 2 1 .input 0

lemma extractable_skewed : skewed.Extractable := by
  have hrecorded := (Script.recorded (l := negatedInPlace) (by decide +kernel)).graph
  have hextractable := hrecorded.tidy_clusterize_order.extractable (by decide +kernel)
  exact (hextractable.addArgument 3 1 _ _).addArgument 3 1 _ _

theorem kernels_extract_effects_skewed : skewed.Extractable ∧
    (∃ ks, skewed.kernels = .ok ks ∧ skewed.Extracted ks) ∧
    ¬ ∃ k, skewed.WritesIn k ∧ ¬ skewed.HasIn Node.IsFull k := by
  obtain ⟨hfails, -, hextracted, -⟩ := kernels_extract_effects extractable_skewed
  obtain ⟨ks, hks, -⟩ : ∃ ks, skewed.kernels = .ok ks ∧ True := by decide +kernel
  refine ⟨extractable_skewed, ⟨ks, hks, hextracted ks hks⟩, fun hk => ?_⟩
  obtain ⟨e, he⟩ := hfails.2 hk
  rw [hks] at he
  cases he

lemma kernels_shadowed : ∃ kn, shadowed.kernels = .ok [kn] ∧ kn.kind = .compute ∧ kn.first = 1 ∧
    kn.scalars = [] := by
  obtain ⟨ks, hks, hread⟩ : ∃ ks, shadowed.kernels = .ok ks ∧
      (ks.map fun kn => (kn.kind, kn.first, kn.scalars)) = [(.compute, 1, [])] := by decide +kernel
  obtain ⟨kn, rfl, hkn⟩ := map_eq_singleton_iff.1 hread
  simp only [Prod.mk.injEq] at hkn
  exact ⟨kn, hks, hkn⟩

/-- A writing cluster without a dense shape does not always make the extraction fail, and a scalar
does not stand for every memory that is an argument: a shape can be full without being dense, and an
argument can stand behind another one with the same index. -/
theorem not_forall_kernels_extract_dense :
    (¬ ∀ g : Graph, g.Extractable →
      ((∃ e, g.kernels = .error e) ↔ ∃ k, g.WritesIn k ∧ ¬ g.HasIn Node.IsDense k)) ∧
    ¬ ∀ (g : Graph) (ks : List Kernel), g.Extractable → g.kernels = .ok ks →
      ∀ kn ∈ ks, kn.kind = .compute → ∀ k, (g.node kn.first).cluster = some k →
        ∀ m, m ∈ kn.scalars ↔ (g.node m).isMemory = true ∧
          ∃ n ∈ g.members k, ∃ a ∈ (g.node n).args, a.kind = .input ∧ g.source a = m := by
  constructor
  · intro hall
    have hwrites : skewed.WritesIn 1 := by
      unfold WritesIn
      decide +kernel
    have hdense : ¬ skewed.HasIn Node.IsDense 1 := by
      -- a dense shape has a size with the index zero
      have hzero : ∀ n ∈ skewed.members 1, 0 ∉ (skewed.node n).indices .shape := by decide +kernel
      rintro ⟨n, hn, r, hr, hmem⟩
      exact hzero n hn ((hmem 0).2 ⟨Int.le_refl 0, by exact_mod_cast hr⟩)
    obtain ⟨e, he⟩ := (hall skewed extractable_skewed).2 ⟨1, hwrites, hdense⟩
    have hok : skewed.kernels.toBool = true := by decide +kernel
    rw [he] at hok
    cases hok
  · intro hall
    obtain ⟨kn, hks, hkind, hfirst, hscalars⟩ := kernels_shadowed
    have hcluster : (shadowed.node kn.first).cluster = some 1 := by
      rw [hfirst]
      decide +kernel
    have hmem := (hall shadowed [kn] (extractable_skewed.addArgument 2 1 _ _) hks kn
      mem_cons_self hkind 1 hcluster 0).2
    rw [hscalars] at hmem
    exact absurd (hmem (by decide +kernel)) not_mem_nil

end Graph

end KernelFusion
