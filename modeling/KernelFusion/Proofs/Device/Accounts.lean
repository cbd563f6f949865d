/-
What a run leaves in memory.

A run allocates the memory of its nodes one after the other, each beside all frames that have
words, and frees what is temporary at the end. What was registered before stays, except that an
empty frame is lost if the run puts a tensor where it stands.
-/
import KernelFusion.Proofs.Device.Running
import KernelFusion.Proofs.Kernel.Extraction
import KernelFusion.Proofs.Kernel.Stages
import KernelFusion.Proofs.Memory.Registry

namespace KernelFusion

open List Bindings KernelFusion.Graph

variable {bs : List Buffer} {h : Heap} {kn : Kernel} {before after : List Kernel}

lemma mem_frames_foldl_free {e : Frame} :
    e ∈ (bs.foldl Heap.free h).frames ↔ e ∈ h.frames ∧ ∀ b ∈ bs, e.start ≠ b.frame.start := by
  induction bs generalizing h with
  | nil => simp
  | cons b bs ih =>
    have hfree : (h.free b).frames = h.frames.release b.frame.start := rfl
    rw [foldl_cons, ih, hfree, Frames.mem_release, forall_mem_cons, and_assoc]

/-! ### Programs, inputs and room -/

variable {g : Graph} {ks : List Kernel} {effect : Effect} {compiled : Bool}
  {inputs outs : List Buffer} {bound bound₀ : Bindings} {m m₀ m' : Machine}
  {taken : List (NodeId × Buffer)} {n : NodeId} {q : NodeId × Buffer}

/-- A program that can run: its kernels are those of the graph, they find their memory, outputs have
different places, and all sizes are positive constants or sizes of inputs. -/
structure Graph.Runnable (g : Graph) (ks : List Kernel) : Prop where
  lists : g.Lists g.order
  kernels : g.kernels = .ok ks
  bound : ∀ before kn after, ks = before ++ kn :: after → kn.kind = .compute →
    ∀ n ∈ kn.memory, n ∈ g.inputNodes ∨ n ∈ allocatedNodes before
  slots : ∀ n ∈ allocatedNodes ks, ∀ v ∈ allocatedNodes ks, (g.node n).role = .output →
    (g.node v).role = .output → (g.node n).slot = (g.node v).slot → n = v
  sizes : ∀ n ∈ allocatedNodes ks, ∀ d ∈ g.dimensions n,
    ((g.node d).isConst ∧ 1 ≤ signed (g.node d).word) ∨
      ((g.node d).isConst = false ∧ ∃ v ∈ g.inputNodes, d ∈ g.declared v)

/-- Tensors that can be handed in: they are live, have elements, and no rank is too small. -/
structure Graph.Handed (g : Graph) (inputs : List Buffer) (m : Machine) : Prop where
  live : ∀ b ∈ inputs, b.frame ∈ m.heap.frames
  whole : ∀ b ∈ inputs, (b.frame.size.toNat : ℤ) = volume b.shape
  sides : ∀ b ∈ inputs, ∀ d ∈ b.shape, 1 ≤ d
  ranks : ∀ q ∈ g.inputNodes.zip inputs, (g.declared q.1).length ≤ q.2.shape.length

/-- Nothing that the run allocates reaches the end of the words. -/
def Run.HasRoom (g : Graph) (effect : Effect) (compiled : Bool) (inputs : List Buffer)
    (ks : List Kernel) (m : Machine) : Prop :=
  ∀ bound before kn after bound₁ m₁, ofInputs g inputs = .ok bound →
    ks = before ++ kn :: after → kn.kind = .memory →
    Run.kernels g effect compiled bound 0 before m = .ok bound₁ m₁ →
    (m₁.heap.frames.required.toNat : ℤ) + volume
    ((g.dimensions kn.first).map (bound.value g)) < 2 ^ 32

lemma Graph.Runnable.one_le_value (hg : g.Runnable ks) (hinputs : g.Handed inputs m)
    (hbound : ofInputs g inputs = .ok bound) (hn : n ∈ allocatedNodes ks) :
    ∀ d ∈ (g.dimensions n).map (bound.value g), 1 ≤ d := by
  intro v hv
  obtain ⟨d, hd, rfl⟩ := mem_map.1 hv
  rcases hg.sizes n hn d hd with ⟨hconst, hpos⟩ | ⟨hconst, i, hi, hdecl⟩
  · rw [value_of_isConst hconst]
    exact hpos
  · obtain ⟨hlen, -, -⟩ := ofInputs_eq_ok_iff.1 hbound
    -- the size is declared by an input, and the last input that declares it decides
    have hfst : i ∈ (g.inputNodes.zip inputs).map Prod.fst := by
      rw [map_fst_zip (Nat.le_of_eq hlen)]
      exact hi
    obtain ⟨q, hq, rfl⟩ := mem_map.1 hfst
    obtain ⟨r, hr, j, hj, hvalue⟩ := exists_of_value hbound hconst hq hdecl
    have hlt : j < r.2.shape.length :=
      Nat.lt_of_lt_of_le (List.getElem?_eq_some_iff.1 hj).1 (hinputs.ranks r hr)
    rw [hvalue, getD_eq_getElem?_getD, getElem?_eq_getElem hlt, Option.getD_some]
    exact hinputs.sides r.2 (of_mem_zip hr).2 _ (getElem_mem hlt)

/-! ### The books of a run -/

/-- The tensor that is bound to a node. -/
def Bindings.buffer (bound : Bindings) (n : NodeId) : Buffer :=
    (bound.buffers.lookup n).getD default

/-- What is bound when the tensors `taken` have been allocated, the last one first. -/
structure Tally (g : Graph) (bound₀ : Bindings) (taken : List (NodeId × Buffer))
    (bound : Bindings) :
    Prop where
  buffers : bound.buffers = taken ++ bound₀.buffers
  temporary : bound.temporary =
    (taken.filter fun q => (g.node q.1).role ≠ .output).map (·.2)
  sorted : bound.outputs.Pairwise fun q r => q.1 < r.1
  outputs : ∀ q, q ∈ bound.outputs ↔
    ∃ r ∈ taken, (g.node r.1).role = .output ∧ q = ((g.node r.1).slot, r.2)

lemma exists_eq_map {α β : Type} {f : α → β} {p : α → Prop} {l : List β}
    (h : ∀ y ∈ l, ∃ x, p x ∧ y = f x) : ∃ xs : List α, (∀ x ∈ xs, p x) ∧ l = xs.map f := by
  induction l with
  | nil => exact ⟨[], by simp⟩
  | cons y l ih =>
    obtain ⟨x, hx, rfl⟩ := h y mem_cons_self
    obtain ⟨xs, hxs, rfl⟩ := ih fun z hz => h z (mem_cons_of_mem _ hz)
    exact ⟨x :: xs, forall_mem_cons.2 ⟨hx, hxs⟩, rfl⟩

namespace Tally

lemma start (htemporary : bound₀.temporary = []) (houtputs : bound₀.outputs = []) :
    Tally g bound₀ [] bound₀ where
  buffers := rfl
  temporary := htemporary
  sorted := by simp [houtputs]
  outputs := by simp [houtputs]

lemma allocate (h : Tally g bound₀ taken bound) (b : Buffer)
    (hfresh : ∀ q ∈ taken, (g.node q.1).role = .output → (g.node n).role = .output →
      (g.node q.1).slot ≠ (g.node n).slot) :
    Tally g bound₀ ((n, b) :: taken) (bound.withBuffer g n b) := by
  refine
    { buffers := by rw [withBuffer, h.buffers, cons_append]
      temporary := ?_
      sorted := ?_
      outputs := fun q => ?_ }
  · by_cases hrole : (g.node n).role = .output
    · simp [withBuffer, hrole, h.temporary]
    · simp [withBuffer, hrole, h.temporary]
  · by_cases hrole : (g.node n).role = .output
    · simpa [withBuffer, hrole] using pairwise_insertOutput h.sorted
    · simpa [withBuffer, hrole] using h.sorted
  · by_cases hrole : (g.node n).role = .output
    · simp only [withBuffer, hrole, if_true, mem_insertOutput h.sorted, exists_mem_cons_iff,
        true_and, h.outputs]
      refine or_congr Iff.rfl ⟨And.left, ?_⟩
      rintro ⟨r, hr, hout, rfl⟩
      exact ⟨⟨r, hr, hout, rfl⟩, hfresh r hr hout hrole⟩
    · simp [withBuffer, hrole, h.outputs]

lemma launch (h : Tally g bound₀ taken bound) (ns : List NodeId) :
    Tally g bound₀ taken (bound.sizesOf g ns).2 := by
  obtain ⟨-, hsame, -⟩ := sizesOf_spec g bound ns
  exact ⟨hsame.buffers.trans h.buffers, hsame.temporary.trans h.temporary, hsame.outputs ▸ h.sorted,
    hsame.outputs ▸ h.outputs⟩

lemma buffer_eq (h : Tally g bound₀ taken bound)
    (hnodup : ((taken ++ bound₀.buffers).map Prod.fst).Nodup)
    (hq : q ∈ taken ++ bound₀.buffers) : bound.buffer q.1 = q.2 := by
  rw [buffer, h.buffers, lookup_eq_some_of_mem hnodup hq, Option.getD_some]

lemma exists_nodes (h : Tally g bound₀ taken bound)
    (hnodup : ((taken ++ bound₀.buffers).map Prod.fst).Nodup)
    (hslots : ∀ q ∈ taken, ∀ r ∈ taken, (g.node q.1).role = .output → (g.node r.1).role = .output →
      (g.node q.1).slot = (g.node r.1).slot → q.1 = r.1) :
    ∃ nodes : List NodeId, (nodes.Pairwise fun n v => (g.node n).slot < (g.node v).slot) ∧
      (∀ n, n ∈ nodes ↔ n ∈ taken.map Prod.fst ∧ (g.node n).role = .output) ∧
      bound.outputs.map (·.2) = nodes.map bound.buffer := by
  obtain ⟨rs, hrs, houtputs⟩ := exists_eq_map (l := bound.outputs)
    (p := fun r => r ∈ taken ∧ (g.node r.1).role = .output)
    (f := fun r => ((g.node r.1).slot, r.2)) fun q hq => by
      obtain ⟨r, hr, hout, rfl⟩ := (h.outputs q).1 hq
      exact ⟨r, ⟨hr, hout⟩, rfl⟩
  refine ⟨rs.map Prod.fst, ?_, fun n => ⟨fun hn => ?_, fun hn => ?_⟩, ?_⟩
  · have hsorted := h.sorted
    rw [houtputs, pairwise_map] at hsorted
    exact pairwise_map.2 hsorted
  · obtain ⟨r, hr, rfl⟩ := mem_map.1 hn
    exact ⟨mem_map_of_mem (hrs r hr).1, (hrs r hr).2⟩
  · obtain ⟨hn, hout⟩ := hn
    obtain ⟨q, hq, rfl⟩ := mem_map.1 hn
    have hin := (h.outputs _).2 ⟨q, hq, hout, rfl⟩
    rw [houtputs] at hin
    obtain ⟨r, hr, heq⟩ := mem_map.1 hin
    rw [← hslots r (hrs r hr).1 q hq (hrs r hr).2 hout (Prod.mk.inj heq).1]
    exact mem_map_of_mem hr
  · rw [houtputs, map_map, map_map]
    refine map_congr_left fun r hr => ?_
    exact (h.buffer_eq hnodup (mem_append_left _ (hrs r hr).1)).symm

end Tally

/-- What has become of the memory when the tensors `taken` have been allocated, the last one
first. -/
structure Ledger (g : Graph) (bound₀ : Bindings) (m₀ : Machine) (taken : List (NodeId × Buffer))
    (bound : Bindings) (m : Machine) : Prop extends Tally g bound₀ taken bound where
  apart : m.heap.frames.Apart
  words : ∀ q ∈ taken, 0 < q.2.frame.size.toNat
  starts : (taken.map fun q => q.2.frame.start).Nodup
  frames : ∀ e, e ∈ m.heap.frames ↔
    (e ∈ m₀.heap.frames ∧ ∀ q ∈ taken, e.start ≠ q.2.frame.start) ∨ ∃ q ∈ taken, e = q.2.frame
  empty : ∀ e ∈ m₀.heap.frames, ∀ q ∈ taken, e.start = q.2.frame.start → e.size = 0

namespace Ledger

lemma mem_frames (h : Ledger g bound₀ m₀ taken bound m) (hq : q ∈ taken) :
    q.2.frame ∈ m.heap.frames := (h.frames _).2 (.inr ⟨q, hq, rfl⟩)

lemma mem_frames_of_old (h : Ledger g bound₀ m₀ taken bound m) {e : Frame} (he : e ∈ m₀.heap.frames)
    (hpos : 0 < e.size.toNat) : e ∈ m.heap.frames := by
  refine (h.frames e).2 (.inl ⟨he, fun q hq hstart => ?_⟩)
  rw [h.empty e he q hq hstart] at hpos
  exact absurd hpos (Nat.lt_irrefl 0)

lemma start (hstart : m₀.heap.frames.Apart) (htemporary : bound₀.temporary = [])
    (houtputs : bound₀.outputs = []) : Ledger g bound₀ m₀ [] bound₀ m₀ where
  toTally := .start htemporary houtputs
  apart := hstart
  words := by simp
  starts := nodup_nil
  frames := by simp
  empty := by simp

lemma allocate (h : Ledger g bound₀ m₀ taken bound m) {shape : List ℤ}
    (hfits : m.heap.frames.Fits (word (volume shape)))
    (hfresh : ∀ q ∈ taken, (g.node q.1).role = .output → (g.node n).role = .output →
      (g.node q.1).slot ≠ (g.node n).slot) :
    Ledger g bound₀ m₀ ((n, (m.heap.allocate shape).1) :: taken)
      (bound.withBuffer g n (m.heap.allocate shape).1)
      { m with heap := (m.heap.allocate shape).2 } := by
  obtain ⟨hapart, hmem⟩ := h.apart.allocate hfits
  have hframe : (m.heap.allocate shape).1.frame = m.heap.frames.fit (word (volume shape)) := rfl
  have hframes : (m.heap.allocate shape).2.frames =
    (m.heap.frames.allocate (word (volume shape))).2 := rfl
  -- only an empty frame can stand where the new one is put
  have hnew : ∀ e ∈ m.heap.frames, 0 < e.size.toNat →
      e.start ≠ (m.heap.frames.fit (word (volume shape))).start := by
    intro e he hpos hstart
    rw [h.apart.size_eq_zero hfits.size_pos he hstart] at hpos
    exact absurd hpos (Nat.lt_irrefl 0)
  have htaken : ∀ q ∈ taken, q.2.frame.start ≠ (m.heap.frames.fit (word (volume shape))).start :=
    fun q hq => hnew _ (h.mem_frames hq) (h.words q hq)
  refine
    { toTally := h.toTally.allocate _ hfresh
      apart := hapart
      words := fun q hq => ?_
      starts := nodup_cons.2 ⟨fun hin => ?_, h.starts⟩
      frames := fun e => ?_
      empty := fun e he q hq hstart => ?_ }
  · rcases mem_cons.1 hq with rfl | hq
    · exact hfits.size_pos
    · exact h.words q hq
  · obtain ⟨q, hq, hstart⟩ := mem_map.1 hin
    exact htaken q hq hstart
  · rw [hframes, hmem, forall_mem_cons, exists_mem_cons_iff, hframe, h.frames]
    constructor
    · rintro (rfl | ⟨⟨he, hold⟩ | ⟨q, hq, rfl⟩, hstart⟩)
      · exact .inr (.inl rfl)
      · exact .inl ⟨he, hstart, hold⟩
      · exact .inr (.inr ⟨q, hq, rfl⟩)
    · rintro (⟨he, hstart, hold⟩ | rfl | ⟨q, hq, rfl⟩)
      · exact .inr ⟨.inl ⟨he, hold⟩, hstart⟩
      · exact .inl rfl
      · exact .inr ⟨.inr ⟨q, hq, rfl⟩, htaken q hq⟩
  · rcases mem_cons.1 hq with rfl | hq
    · by_contra hsize
      have hpos : 0 < e.size.toNat :=
        Nat.pos_of_ne_zero fun hzero => hsize (UInt32.toNat_inj.1 hzero)
      exact hnew e (h.mem_frames_of_old he hpos) hpos hstart
    · exact h.empty e he q hq hstart

lemma launch (h : Ledger g bound₀ m₀ taken bound m) (ns : List NodeId) (words : Words)
    (launches : List Launch) :
    Ledger g bound₀ m₀ taken (bound.sizesOf g ns).2
      { heap := { m.heap with words := words }, launches := launches } :=
  ⟨h.toTally.launch ns, h.apart, h.words, h.starts, h.frames, h.empty⟩

end Ledger

/-! ### Runs -/

lemma Graph.allocatedNodes_append (ks ks' : List Kernel) :
    allocatedNodes (ks ++ ks') = allocatedNodes ks ++ allocatedNodes ks' := by
  simp [allocatedNodes]

lemma Graph.mem_of_nodes {ns : List NodeId} (hnodes : taken.map Prod.fst = ns.reverse) :
    n ∈ ns ↔ ∃ q ∈ taken, q.1 = n := by
  rw [← mem_reverse, ← hnodes, mem_map]

section

variable (hnodup : (allocatedNodes ks).Nodup)
  (hslots : ∀ n ∈ allocatedNodes ks, ∀ v ∈ allocatedNodes ks, (g.node n).role = .output →
    (g.node v).role = .output → (g.node n).slot = (g.node v).slot → n = v)

include hnodup hslots

lemma Graph.slot_ne {done rest : List Kernel} (hks : ks = done ++ kn :: rest)
    (hkind : kn.kind = .memory) :
    kn.first ∈ allocatedNodes ks ∧ ∀ n ∈ allocatedNodes done, (g.node n).role = .output →
      (g.node kn.first).role = .output → (g.node n).slot ≠ (g.node kn.first).slot := by
  have hall : allocatedNodes ks = allocatedNodes done ++ kn.first :: allocatedNodes rest := by
    simp [hks, allocatedNodes, hkind]
  have hmem : kn.first ∈ allocatedNodes ks := by simp [hall]
  refine ⟨hmem, fun n hn hout hout' hslot => ?_⟩
  have heq := hslots n (by simp [hall, hn]) kn.first hmem hout hout' hslot
  rw [hall] at hnodup
  exact (not_mem_of_nodup_append hnodup).1 (heq ▸ hn)

/-- A run takes one buffer for each allocated node, in order. -/
lemma Graph.exists_tally (hbound : ofInputs g inputs = .ok bound₀)
    (hrun : Run.kernels g effect compiled bound₀ 0 ks m = .ok bound m') :
    ∃ taken, taken.map Prod.fst = (allocatedNodes ks).reverse ∧ Tally g bound₀ taken bound := by
  obtain ⟨-, -, hempty⟩ := ofInputs_eq_ok_iff.1 hbound
  refine Run.of_kernels_eq_ok (P := fun done b _ => ∃ taken,
    taken.map Prod.fst = (allocatedNodes done).reverse ∧ Tally g bound₀ taken b) hrun
    ⟨[], rfl, .start (by rw [hempty]) (by rw [hempty])⟩ ?_
  rintro done kn rest bound₁ m₁ bound₂ m₂ hdone - ⟨taken, hnodes, htally⟩ hstep
  rw [allocatedNodes_append, reverse_append]
  cases hstep with
  | memory hkind =>
    obtain ⟨-, hne⟩ := slot_ne hnodup hslots hdone hkind
    refine ⟨(kn.first, (Run.allocation g bound₁ kn.first m₁).1) :: taken, ?_,
      htally.allocate _ fun q hq => hne q.1 ((mem_of_nodes hnodes).2 ⟨q, hq, rfl⟩)⟩
    simp [allocatedNodes, hkind, hnodes]
  | compute hkind =>
    refine ⟨taken, ?_, htally.launch _⟩
    simp [allocatedNodes, hkind, hnodes]

end

/-- Along a run with room every buffer taken keeps its frame. -/
lemma Graph.Runnable.exists_ledger (hg : g.Runnable ks) (hinputs : g.Handed inputs m)
    (hapart : m.heap.frames.Apart) (hroom : Run.HasRoom g effect compiled inputs ks m)
    (hbound : ofInputs g inputs = .ok bound₀) (hks : ks = before ++ after)
    (hrun : Run.kernels g effect compiled bound₀ 0 before m = .ok bound m') :
    ∃ taken, taken.map Prod.fst = (allocatedNodes before).reverse ∧
    Ledger g bound₀ m taken bound m' := by
  obtain ⟨-, -, hempty⟩ := ofInputs_eq_ok_iff.1 hbound
  refine Run.of_kernels_eq_ok (P := fun done b m' => ∃ taken,
    taken.map Prod.fst = (allocatedNodes done).reverse ∧ Ledger g bound₀ m taken b m') hrun
    ⟨[], rfl, .start hapart (by rw [hempty]) (by rw [hempty])⟩ ?_
  rintro done kn rest bound₁ m₁ bound₂ m₂ hdone hrun₁ ⟨taken, hnodes, hledger⟩ hstep
  have hks' : ks = done ++ kn :: (rest ++ after) := by rw [hks, hdone]; simp
  cases hstep with
  | memory hkind =>
    obtain ⟨hmem, hne⟩ := slot_ne (nodup_allocatedNodes hg.lists hg.kernels) hg.slots hks' hkind
    have hvalue : bound₁.value g = bound₀.value g := funext (Run.value_of_kernels_eq_ok hrun₁)
    have hsides := hg.one_le_value hinputs hbound hmem
    have hvol := one_le_volume hsides
    have hlimit := hroom bound₀ done kn (rest ++ after) bound₁ m₁ hbound hks' hkind hrun₁
    have hword := toNat_word (i := volume ((g.dimensions kn.first).map (bound₀.value g)))
      (by omega) (by omega)
    refine ⟨(kn.first, (Run.allocation g bound₁ kn.first m₁).1) :: taken, ?_, ?_⟩
    · rw [allocatedNodes_append, reverse_append, map_cons, hnodes]
      simp [allocatedNodes, hkind]
    · refine hledger.allocate ?_ fun q hq => hne q.1 ((mem_of_nodes hnodes).2 ⟨q, hq, rfl⟩)
      rw [hvalue]
      refine ⟨UInt32.le_iff_toNat_le.2 ?_, by omega⟩
      show 1 ≤ _
      omega
  | compute hkind =>
    refine ⟨taken, ?_, hledger.launch _ _ _⟩
    have hkn : allocatedNodes [kn] = [] := by simp [allocatedNodes, hkind]
    rw [allocatedNodes_append, hkn, append_nil, hnodes]

lemma Graph.nodup_buffers (hl : g.Lists g.order) (hkernels : g.kernels = .ok ks)
    (hbound : ofInputs g inputs = .ok bound₀)
    (hnodes : taken.map Prod.fst = (allocatedNodes ks).reverse) :
    ((taken ++ bound₀.buffers).map Prod.fst).Nodup := by
  obtain ⟨hlen, -, rfl⟩ := ofInputs_eq_ok_iff.1 hbound
  have hsub : g.inputNodes.Sublist g.order := filter_sublist
  rw [map_append, hnodes, map_reverse, map_fst_zip (Nat.le_of_eq hlen), nodup_append]
  refine ⟨nodup_reverse.2 (nodup_allocatedNodes hl hkernels),
    nodup_reverse.2 (hl.chain.nodup.sublist hsub), fun n hn v hv heq => ?_⟩
  obtain ⟨-, -, hrole⟩ := (mem_allocatedNodes_iff hkernels).1 (mem_reverse.1 hn)
  have hinput := (mem_filter.1 (mem_reverse.1 hv)).2
  rw [← heq] at hinput
  exact hrole (by simpa using hinput)

lemma Graph.Handed.size_pos (hinputs : g.Handed inputs m) {b : Buffer} (hb : b ∈ inputs) :
    0 < b.frame.size.toNat := by
  have hwhole := hinputs.whole b hb
  have hvol := one_le_volume (hinputs.sides b hb)
  omega

/-- What a successful run has done: `buffer` gives the tensor of every node. -/
structure Run.Accounted (g : Graph) (ks : List Kernel) (effect : Effect) (compiled : Bool)
    (inputs : List Buffer) (m m' : Machine) (outs : List Buffer)
    (buffer : NodeId → Buffer) : Prop where
  given : ∀ q ∈ g.inputNodes.zip inputs, buffer q.1 = q.2
  outputs : ∃ nodes : List NodeId,
    (nodes.Pairwise fun n v => (g.node n).slot < (g.node v).slot) ∧
    (∀ n, n ∈ nodes ↔ n ∈ allocatedNodes ks ∧ (g.node n).role = .output) ∧
    outs = nodes.map buffer
  apart : ∀ n ∈ allocatedNodes ks, ∀ v ∈ allocatedNodes ks, n ≠ v →
    Disjoint (buffer n).frame.span (buffer v).frame.span
  beside : ∀ n ∈ allocatedNodes ks, ∀ b ∈ inputs,
    Disjoint (buffer n).frame.span b.frame.span
  launched : ∀ before kn after, ks = before ++ kn :: after → kn.kind = .compute →
    ∃ bound bound₁ m₁ launch later, ofInputs g inputs = .ok bound ∧
      Run.kernels g effect compiled bound 0 before m = .ok bound₁ m₁ ∧
      m'.launches = m₁.launches ++ launch :: later ∧
      launch.offsets = kn.memory.map (fun n => (buffer n).frame.start) ∧
      ∀ n ∈ kn.memory, (buffer n).frame ∈ m₁.heap.frames
  frames : ∀ e, e ∈ m'.heap.frames ↔
    (e ∈ m.heap.frames ∧ ∀ n ∈ allocatedNodes ks, (buffer n).frame.start ≠ e.start) ∨
      ∃ b ∈ outs, e = b.frame

namespace Ledger

lemma nodup_outputs (h : Ledger g bound₀ m₀ taken bound m) :
    ((bound.outputs.map (·.2)).map (·.frame)).Nodup := by
  have hnodup : bound.outputs.Nodup :=
    h.sorted.imp fun {q r} hlt heq => by rw [heq] at hlt; exact absurd hlt (by omega)
  rw [map_map]
  refine hnodup.map_on fun q hq r hr heq => ?_
  obtain ⟨t, ht, -, rfl⟩ := (h.outputs q).1 hq
  obtain ⟨u, hu, -, rfl⟩ := (h.outputs r).1 hr
  rw [inj_on_of_nodup_map h.starts ht hu (congrArg Frame.start heq)]

lemma disjoint (h : Ledger g bound₀ m₀ taken bound m) {r : NodeId × Buffer} (hq : q ∈ taken)
    (hr : r ∈ taken) (hne : q.1 ≠ r.1) : Disjoint q.2.frame.span r.2.frame.span := by
  refine h.apart.disjoint (h.mem_frames hq) (h.mem_frames hr) fun heq => hne ?_
  rw [inj_on_of_nodup_map h.starts hq hr (congrArg Frame.start heq)]

lemma disjoint_of_old (h : Ledger g bound₀ m₀ taken bound m) (hq : q ∈ taken) {e : Frame}
    (he : e ∈ m₀.heap.frames) (hpos : 0 < e.size.toNat) :
    Disjoint q.2.frame.span e.span := by
  refine h.apart.disjoint (h.mem_frames hq) (h.mem_frames_of_old he hpos) fun heq => ?_
  rw [h.empty e he q hq (congrArg Frame.start heq.symm)] at hpos
  exact absurd hpos (Nat.lt_irrefl 0)

/-- After the run the heap holds the old frames and the frames of the outputs. -/
lemma mem_frames_free (h : Ledger g bound₀ m₀ taken bound m) {e : Frame} :
    e ∈ (bound.temporary.foldl Heap.free m.heap).frames ↔
      (e ∈ m₀.heap.frames ∧ ∀ q ∈ taken, q.2.frame.start ≠ e.start) ∨
        ∃ b ∈ bound.outputs.map (·.2), e = b.frame := by
  have htemporary : ∀ b, b ∈ bound.temporary ↔ ∃ q ∈ taken,
    (g.node q.1).role ≠ .output ∧ q.2 = b := by
    intro b
    rw [h.temporary, mem_map]
    simp only [mem_filter, decide_eq_true_eq, and_assoc]
  rw [mem_frames_foldl_free, h.frames]
  constructor
  · rintro ⟨⟨he, hold⟩ | ⟨q, hq, rfl⟩, hfree⟩
    · exact .inl ⟨he, fun q hq hstart => hold q hq hstart.symm⟩
    · by_cases hout : (g.node q.1).role = .output
      · exact .inr ⟨q.2, mem_map.2 ⟨_, (h.outputs _).2 ⟨q, hq, hout, rfl⟩, rfl⟩, rfl⟩
      · exact absurd rfl (hfree q.2 ((htemporary _).2 ⟨q, hq, hout, rfl⟩))
  · rintro (⟨he, hold⟩ | ⟨b, hb, rfl⟩)
    · refine ⟨.inl ⟨he, fun q hq hstart => hold q hq hstart.symm⟩, fun b hb hstart => ?_⟩
      obtain ⟨q, hq, -, rfl⟩ := (htemporary b).1 hb
      exact hold q hq hstart.symm
    · obtain ⟨o, ho, rfl⟩ := mem_map.1 hb
      obtain ⟨q, hq, hout, rfl⟩ := (h.outputs o).1 ho
      refine ⟨.inr ⟨q, hq, rfl⟩, fun b hb hstart => ?_⟩
      -- what is freed starts elsewhere
      obtain ⟨r, hr, hrole, rfl⟩ := (htemporary b).1 hb
      rw [inj_on_of_nodup_map h.starts hr hq hstart.symm] at hrole
      exact hrole hout

end Ledger

/-- A compute kernel is launched with the starts of buffers that are still registered. -/
lemma Graph.Runnable.launched (hg : g.Runnable ks) (hinputs : g.Handed inputs m)
    (hapart : m.heap.frames.Apart) (hroom : Run.HasRoom g effect compiled inputs ks m)
    (hbound : ofInputs g inputs = .ok bound₀)
    (hrun : Run.kernels g effect compiled bound₀ 0 ks m = .ok bound m')
    (hks : ks = before ++ kn :: after) (hkind : kn.kind = .compute) :
    ∃ bound₁ m₁ launch later, Run.kernels g effect compiled bound₀ 0 before m = .ok bound₁ m₁ ∧
      m'.launches = m₁.launches ++ launch :: later ∧
      launch.offsets = kn.memory.map (fun n => (bound.buffer n).frame.start) ∧
      ∀ n ∈ kn.memory, (bound.buffer n).frame ∈ m₁.heap.frames := by
  obtain ⟨bound₁, m₁, hbefore, hrest⟩ := Run.kernels_append_eq_ok_iff.1 (hks ▸ hrun)
  obtain ⟨bound₂, m₂, hstep, -, hafter⟩ := Run.kernels_cons_eq_ok_iff.1 hrest
  obtain ⟨later, hlater⟩ := Run.launches_of_kernels_eq_ok hafter
  obtain ⟨more, hmore⟩ := Run.buffers_of_kernels_eq_ok hrest
  obtain ⟨all, hall, hend⟩ := hg.exists_ledger hinputs hapart hroom hbound (append_nil ks).symm hrun
  obtain ⟨taken, hnodes, hledger⟩ := hg.exists_ledger hinputs hapart hroom hbound hks hbefore
  -- what is bound when the kernel is launched stays bound
  have hnodup := g.nodup_buffers hg.lists hg.kernels hbound hall
  have hlookup : ∀ q ∈ taken ++ bound₀.buffers,
      bound₁.buffers.lookup q.1 = some q.2 ∧ bound.buffer q.1 = q.2 := by
    intro q hq
    have hq' : q ∈ bound.buffers := by
      rw [hmore, hledger.buffers]
      exact mem_append_right _ hq
    rw [← hend.buffers, hmore, map_append] at hnodup
    refine ⟨lookup_eq_some_of_mem (nodup_append.1 hnodup).2.1 (hledger.buffers ▸ hq), ?_⟩
    exact hend.buffer_eq (g.nodup_buffers hg.lists hg.kernels hbound hall) (hend.buffers ▸ hq')
  have hmemory : ∀ n ∈ kn.memory, ∃ q ∈ taken ++ bound₀.buffers, q.1 = n ∧
    q.2.frame ∈ m₁.heap.frames := by
    intro n hn
    obtain ⟨hlen, -, hbuffers⟩ := ofInputs_eq_ok_iff.1 hbound
    rcases hg.bound before kn after hks hkind n hn with hin | hin
    · rw [← map_fst_zip (Nat.le_of_eq hlen)] at hin
      obtain ⟨q, hq, rfl⟩ := mem_map.1 hin
      have hb := (of_mem_zip hq).2
      refine ⟨q, mem_append_right _ ?_, rfl,
        hledger.mem_frames_of_old (hinputs.live _ hb) (hinputs.size_pos hb)⟩
      rw [hbuffers]
      exact mem_reverse.2 hq
    · obtain ⟨q, hq, rfl⟩ := (mem_of_nodes hnodes).1 hin
      exact ⟨q, mem_append_left _ hq, rfl, hledger.mem_frames hq⟩
  cases hstep with
  | memory hkind' =>
    rw [hkind] at hkind'
    cases hkind'
  | compute _ =>
    refine ⟨bound₁, m₁, Run.launch g bound₁ kn (Run.numberAfter 0 before) m₁, later, hbefore, ?_,
      map_congr_left fun n hn => ?_, fun n hn => ?_⟩
    · rw [hlater]
      exact append_assoc _ _ _
    · obtain ⟨q, hq, rfl, -⟩ := hmemory n hn
      rw [offset, (hlookup q hq).1, (hlookup q hq).2]
      rfl
    · obtain ⟨q, hq, rfl, hlive⟩ := hmemory n hn
      rw [(hlookup q hq).2]
      exact hlive

lemma Frames.Apart.nodup {frames : Frames} (h : frames.Apart) : frames.Nodup :=
  h.ascending.imp fun hlt heq => UInt32.ne_of_lt hlt (congrArg Frame.start heq)

lemma Frames.Apart.foldl_free (hapart : h.frames.Apart) :
    (bs.foldl Heap.free h).frames.Apart := by
  induction bs generalizing h with
  | nil => exact hapart
  | cons b bs ih => exact ih (hapart.release b.frame.start)

/-- A run that succeeds gives every kernel the right tensors, keeps them apart, returns the outputs
in order and frees all temporary ones. It leaves the frames that were there and those of the
outputs, if and only if it puts no tensor where an empty frame stands. -/
theorem Run.execute_accounts (hg : g.Runnable ks) (hinputs : g.Handed inputs m)
    (hapart : m.heap.frames.Apart) (hroom : Run.HasRoom g effect compiled inputs ks m)
    (hrun : Run.execute g ks effect compiled inputs m = .ok outs m') :
    ∃ buffer, Run.Accounted g ks effect compiled inputs m m' outs buffer ∧
      (m'.heap.frames.Perm (m.heap.frames ++ outs.map (·.frame)) ↔
        ∀ e ∈ m.heap.frames, e.size = 0 → ∀ n ∈ Graph.allocatedNodes ks,
          (buffer n).frame.start ≠ e.start) := by
  obtain ⟨bound₀, bound, m₁, hbound, hkernels, rfl, rfl⟩ := Run.execute_eq_ok_iff.1 hrun
  obtain ⟨taken, hnodes, hledger⟩ :=
    hg.exists_ledger hinputs hapart hroom hbound (append_nil ks).symm hkernels
  have hnodup := g.nodup_buffers hg.lists hg.kernels hbound hnodes
  have htaken : ∀ n ∈ allocatedNodes ks, ∃ q ∈ taken, q.1 = n ∧ bound.buffer n = q.2 := by
    intro n hn
    rw [← mem_reverse, ← hnodes] at hn
    obtain ⟨q, hq, rfl⟩ := mem_map.1 hn
    exact ⟨q, hq, rfl, hledger.buffer_eq hnodup (mem_append_left _ hq)⟩
  have hmem : ∀ q ∈ taken, q.1 ∈ allocatedNodes ks := by
    intro q hq
    rw [← mem_reverse, ← hnodes]
    exact mem_map_of_mem hq
  have hframes : ∀ e, e ∈ (bound.temporary.foldl Heap.free m₁.heap).frames ↔
      (e ∈ m.heap.frames ∧ ∀ n ∈ allocatedNodes ks, (bound.buffer n).frame.start ≠ e.start) ∨
        ∃ b ∈ bound.outputs.map (·.2), e = b.frame := by
    intro e
    rw [hledger.mem_frames_free]
    refine or_congr (and_congr Iff.rfl ⟨fun hold n hn => ?_, fun hold q hq => ?_⟩) Iff.rfl
    · obtain ⟨q, hq, -, heq⟩ := htaken n hn
      rw [heq]
      exact hold q hq
    · have hne := hold q.1 (hmem q hq)
      rwa [hledger.buffer_eq hnodup (mem_append_left _ hq)] at hne
  obtain ⟨nodes, hsorted, hmemnodes, houts⟩ := hledger.exists_nodes hnodup
    fun q hq r hr => hg.slots q.1 (hmem q hq) r.1 (hmem r hr)
  refine ⟨bound.buffer, ?_, ?_⟩
  · refine
      { given := fun q hq => ?_
        outputs := ⟨nodes, hsorted, fun n => ?_, houts⟩
        apart := fun n hn v hv hne => ?_
        beside := fun n hn b hb => ?_
        launched := fun before kn after hks hkind => ?_
        frames := hframes }
    · obtain ⟨-, -, hbuffers⟩ := ofInputs_eq_ok_iff.1 hbound
      refine hledger.buffer_eq hnodup (mem_append_right _ ?_)
      rw [hbuffers]
      exact mem_reverse.2 hq
    · rw [hmemnodes, hnodes, mem_reverse]
    · obtain ⟨q, hq, rfl, heq⟩ := htaken n hn
      obtain ⟨r, hr, rfl, heq'⟩ := htaken v hv
      rw [heq, heq']
      exact hledger.disjoint hq hr hne
    · obtain ⟨q, hq, -, heq⟩ := htaken n hn
      rw [heq]
      exact hledger.disjoint_of_old hq (hinputs.live b hb) (hinputs.size_pos hb)
    · obtain ⟨bound₁, m₂, launch, later, hlaunched⟩ :=
        hg.launched hinputs hapart hroom hbound hkernels hks hkind
      exact ⟨bound₀, bound₁, m₂, launch, later, hbound, hlaunched⟩
  · have hempty : ∀ e ∈ m.heap.frames, ∀ n ∈ allocatedNodes ks,
        (bound.buffer n).frame.start = e.start → e.size = 0 := by
      intro e he n hn hstart
      obtain ⟨q, hq, -, heq⟩ := htaken n hn
      rw [heq] at hstart
      exact hledger.empty e he q hq hstart.symm
    constructor
    · intro hperm e he hsize n hn
      rcases (hframes e).1 (hperm.mem_iff.2 (mem_append_left _ he)) with ⟨-, hold⟩ | ⟨b, hb, rfl⟩
      · exact hold n hn
      · -- an output has words
        obtain ⟨o, ho, rfl⟩ := mem_map.1 hb
        obtain ⟨r, hr, -, rfl⟩ := (hledger.outputs o).1 ho
        have hpos := hledger.words r hr
        rw [hsize] at hpos
        exact absurd hpos (Nat.lt_irrefl 0)
    · intro hkeeps
      have hold : ∀ e ∈ m.heap.frames, ∀ n ∈ allocatedNodes ks,
          (bound.buffer n).frame.start ≠ e.start :=
        fun e he n hn hstart => hkeeps e he (hempty e he n hn hstart) n hn hstart
      refine (perm_ext_iff_of_nodup hledger.apart.foldl_free.nodup
        (nodup_append.2 ⟨hapart.nodup, ?_, ?_⟩)).2 fun e => ?_
      · exact hledger.nodup_outputs
      · intro e he f hf heq
        obtain ⟨b, hb, rfl⟩ := mem_map.1 hf
        obtain ⟨n, hn, rfl⟩ := mem_map.1 (houts ▸ hb)
        have hn' : n ∈ allocatedNodes ks := by
          rw [← mem_reverse, ← hnodes]
          exact ((hmemnodes n).1 hn).1
        exact hold e he n hn' (congrArg Frame.start heq.symm)
      · rw [hframes, mem_append, mem_map]
        refine or_congr ⟨And.left, fun he => ⟨he, hold e he⟩⟩ ⟨?_, ?_⟩
        · rintro ⟨b, hb, rfl⟩
          exact ⟨b, hb, rfl⟩
        · rintro ⟨b, hb, rfl⟩
          exact ⟨b, hb, rfl⟩

/-- What a run needs, as it can be computed: each kernel is looked at where it stands. -/
def Run.Startable (g : Graph) (ks : List Kernel) (effect : Effect) (compiled : Bool)
    (inputs : List Buffer) (m : Machine) : Prop :=
  (∀ q ∈ ks.zipIdx, q.1.kind = .compute →
    ∀ n ∈ q.1.memory, n ∈ g.inputNodes ∨ n ∈ allocatedNodes (ks.take q.2)) ∧
  (∀ q ∈ ks.zipIdx, q.1.kind = .memory → ∀ bound ∈ (ofInputs g inputs).toOption,
    ∀ m₁ ∈ seen (fun _ m₁ => some m₁) (Run.kernels g effect compiled bound 0 (ks.take q.2) m),
      (m₁.heap.frames.required.toNat : ℤ) + volume
      ((g.dimensions q.1.first).map (bound.value g)) < 2 ^ 32) ∧
  (∀ n ∈ allocatedNodes ks, ∀ v ∈ allocatedNodes ks, (g.node n).role = .output →
    (g.node v).role = .output → (g.node n).slot = (g.node v).slot → n = v) ∧
  (∀ n ∈ allocatedNodes ks, ∀ d ∈ g.dimensions n,
    ((g.node d).isConst ∧ 1 ≤ signed (g.node d).word) ∨
      ((g.node d).isConst = false ∧ ∃ v ∈ g.inputNodes, d ∈ g.declared v)) ∧
  (∀ b ∈ inputs, b.frame ∈ m.heap.frames ∧ (b.frame.size.toNat : ℤ) = volume b.shape ∧
    ∀ d ∈ b.shape, 1 ≤ d) ∧
  ∀ q ∈ g.inputNodes.zip inputs, (g.declared q.1).length ≤ q.2.shape.length

instance : Decidable (Run.Startable g ks effect compiled inputs m) :=
  inferInstanceAs (Decidable (_ ∧ _ ∧ _ ∧ _ ∧ _ ∧ _))

lemma Run.Startable.spec (h : Run.Startable g ks effect compiled inputs m) (hl : g.Lists g.order)
    (hks : g.kernels = .ok ks) :
    g.Runnable ks ∧ g.Handed inputs m ∧ Run.HasRoom g effect compiled inputs ks m := by
  obtain ⟨hbound, hroom, hslots, hsizes, hinputs, hranks⟩ := h
  have hplace : ∀ before kn after, ks = before ++ kn :: after →
      (kn, before.length) ∈ ks.zipIdx ∧ ks.take before.length = before := by
    rintro before kn after rfl
    simp [mem_zipIdx_iff_getElem?]
  refine ⟨⟨hl, hks, fun before kn after hsplit hkind n hn => ?_, hslots, hsizes⟩,
    ⟨fun b hb => (hinputs b hb).1, fun b hb => (hinputs b hb).2.1, fun b hb =>
    (hinputs b hb).2.2, hranks⟩, fun bound before kn after bound₁ m₁ hbound hsplit hkind hrun => ?_⟩
  · obtain ⟨hmem, htake⟩ := hplace before kn after hsplit
    have hn := hbound _ hmem hkind n hn
    rwa [htake] at hn
  · obtain ⟨hmem, htake⟩ := hplace before kn after hsplit
    refine hroom _ hmem hkind bound (by rw [hbound]; rfl) m₁ ?_
    rw [htake, hrun]
    rfl

/-- The sine of an input of any length. -/
def sineOfInput : List Step :=
  [ .act (.input .float (.sizes [-1])) (some "A"),
    .act (.call (.named "sin") ["A"]) (some "x") ]

/-- An input of four elements. -/
def fourWords : Buffer := ⟨0, [4], ⟨5, 4, 9⟩⟩

/-- Frames in memory: that of the input, one before it, and some more at the front. -/
def crowded (front : List Frame) : Machine :=
    { heap := { frames := front ++ [⟨3, 2, 5⟩, ⟨5, 4, 9⟩] } }

/-- Memory that is empty at the front, or has an empty frame there. -/
def fronts : List (List Frame) := [[], [⟨0, 0, 0⟩]]

lemma apart_crowded {front : List Frame} (hfront : front ∈ fronts) :
    (crowded front).heap.frames.Apart := by
  rcases mem_cons.1 hfront with rfl | hfront
  · exact ⟨by decide, by decide, by decide⟩
  · rw [mem_singleton.1 hfront]
    exact ⟨by decide, by decide, by decide⟩

lemma sineOfInput_runs (front : List Frame) (hfront : front ∈ fronts) :
    ∃ ks f m', f.Runnable ks ∧ f.Handed [fourWords] (crowded front) ∧
      (crowded front).heap.frames.Apart ∧
      Run.HasRoom f (fun _ words => words) true [fourWords] ks (crowded front) ∧
      Run.execute f ks (fun _ words => words) true [fourWords] (crowded front) =
        .ok [⟨1, [4], ⟨9, 4, 13⟩⟩] m' ∧
      m'.heap.frames = [⟨3, 2, 5⟩, ⟨5, 4, 9⟩, ⟨9, 4, 13⟩] := by
  have hend : ∀ front ∈ fronts, ∃ ks f,
    Build.transform [2] (Script.scene sineOfInput).graph = .ok ks f ∧
      Run.Startable f ks (fun _ words => words) true [fourWords] (crowded front) ∧ ∃ outs m',
      Run.execute f ks (fun _ words => words) true [fourWords] (crowded front) = .ok outs m' ∧
      outs = [⟨1, [4], ⟨9, 4, 13⟩⟩] ∧ m'.heap.frames = [⟨3, 2, 5⟩, ⟨5, 4, 9⟩, ⟨9, 4, 13⟩] :=
      by decide +kernel
  obtain ⟨ks, f, hrun, hstart, outs, m', hexecute, rfl, hframes⟩ := hend front hfront
  have hrecorded := (Script.recorded (l := sineOfInput) (by decide +kernel)).graph
  obtain ⟨c, o, p, s, t, origin, es, done, hs, hks, hf⟩ := hrecorded.stages hrun
  have hlists : f.Lists f.order :=
    hf ▸ ⟨hs.addressing.lists.chain, hs.addressing.lists.first, hs.addressing.lists.size⟩
  obtain ⟨hg, hinputs, hroom⟩ := hstart.spec hlists (hf ▸ hks)
  exact ⟨ks, f, m', hg, hinputs, apart_crowded hfront, hroom, hexecute, hframes⟩

theorem Run.execute_accounts_sine : ∃ ks f m' buffer, f.Runnable ks ∧
    f.Handed [fourWords] (crowded []) ∧ (crowded []).heap.frames.Apart ∧
    Run.HasRoom f (fun _ words => words) true [fourWords] ks (crowded []) ∧
    Run.execute f ks (fun _ words => words) true [fourWords] (crowded []) =
      .ok [⟨1, [4], ⟨9, 4, 13⟩⟩] m' ∧
    Run.Accounted f ks (fun _ words => words) true [fourWords] (crowded []) m'
      [⟨1, [4], ⟨9, 4, 13⟩⟩] buffer ∧
    m'.heap.frames.Perm ((crowded []).heap.frames ++ [⟨9, 4, 13⟩]) := by
  obtain ⟨ks, f, m', hg, hinputs, hapart, hroom, hrun, -⟩ := sineOfInput_runs [] (by decide)
  obtain ⟨buffer, haccounted, hperm⟩ := Run.execute_accounts hg hinputs hapart hroom hrun
  have hfull : ∀ e ∈ (crowded []).heap.frames, e.size ≠ 0 := by decide
  exact ⟨ks, f, m', buffer, hg, hinputs, hapart, hroom, hrun, haccounted,
    hperm.2 fun e he hsize => absurd hsize (hfull e he)⟩

/-- What was registered before a run does not always stay: the run puts a length where an empty
frame stands, and frees it at the end. -/
theorem Run.not_forall_execute_keeps_frames :
    ¬ ∀ (g : Graph) (ks : List Kernel) (effect : Effect) (compiled : Bool)
    (inputs outs : List Buffer)
      (m m' : Machine), g.Runnable ks → g.Handed inputs m → m.heap.frames.Apart →
      Run.HasRoom g effect compiled inputs ks m →
      Run.execute g ks effect compiled inputs m = .ok outs m' →
      m'.heap.frames.Perm (m.heap.frames ++ outs.map (·.frame)) := by
  intro hall
  obtain ⟨ks, f, m', hg, hinputs, hapart, hroom, hrun, hframes⟩ :=
    sineOfInput_runs [⟨0, 0, 0⟩] (by decide)
  have hperm := hall f ks _ true [fourWords] _ _ m' hg hinputs hapart hroom hrun
  rw [hframes] at hperm
  exact absurd hperm.length_eq (by decide)

end KernelFusion
