/-
Which memory an access takes stays the same while addresses are computed.

A computed coordinate is a new node, since it is the thread number or comes from it by a quotient
or a difference, and it is no memory.
-/
import KernelFusion.Proofs.Pass.Locations

namespace KernelFusion

namespace Graph

/-- The node has been recorded since `s`, and it is no memory. -/
structure IsFresh (s : Graph) (n : NodeId) (g : Graph) : Prop where
  grown : s.nodes.size ≤ n
  lt : n < g.nodes.size
  isMemory : (g.node n).isMemory = false

lemma IsFresh.evolves {s g g' : Graph} {E F : NodeId → Prop} {n : NodeId} (h : s.IsFresh n g)
    (hg : Evolves E F g g') : s.IsFresh n g' :=
  ⟨h.grown, Nat.lt_of_lt_of_le h.lt hg.size, (hg.toFrame.toOutline.isMemory h.lt).trans h.isMemory⟩

end Graph

namespace Build

open KernelFusion.Graph

variable {s g : Graph} {n m : NodeId} {name : String}

section

variable (hgrown : s.nodes.size ≤ g.nodes.size)

include hgrown

lemma isFresh_insertWith {op : Operation} {type : Scalar} {args : List Argument}
    {data : List UInt32} (hop : op.name ≠ "memory") :
    s.IsFresh g.nodes.size (g.insertWith op type args data) := by
  refine ⟨hgrown, by rw [size_nodes_insertWith]; exact Nat.lt_succ_self _, ?_⟩
  rw [node_insertWith_self]
  simpa [Node.isMemory] using hop

lemma keeps_fresh_apply (hname : Operation.computes name) (ns : List NodeId) :
    Keeps (Evolves nothing nothing) (apply name ns) g s.IsFresh := by
  refine keeps_apply_of fun op o hop _ => ⟨Evolves.insert g op o.output _, ?_⟩
  rw [← insertWith_nil]
  exact isFresh_insertWith hgrown (Operation.of_computes hname hop).2.1

lemma keeps_fresh_constant (type : Scalar) (w : UInt32) :
    Keeps (Evolves nothing nothing) (constant type w) g s.IsFresh := by
  refine keeps_sourceWith_of fun op hop _ =>
    ⟨Evolves.insertWith g op type [] [w], isFresh_insertWith hgrown ?_⟩
  rw [(Operation.mem_table_of_find hop).2]
  decide +kernel

lemma keeps_fresh_threadIndex (shape : List Argument) :
    Keeps (Evolves nothing nothing) (threadIndex shape) g s.IsFresh := by
  refine keeps_source_of fun op hop _ => ⟨Evolves.insert g op .int shape, ?_⟩
  rw [← insertWith_nil]
  refine isFresh_insertWith hgrown ?_
  rw [(Operation.mem_table_of_find hop).2]
  decide +kernel

end

lemma recorder_evolves : Recorder (Evolves nothing nothing) fun _ _ => True where
  stable h _ := h
  constant _ type w := (keeps_fresh_constant (Nat.le_refl _) type w).mono fun _ _ _ _ => trivial
  apply _ hname _ := (keeps_fresh_apply (Nat.le_refl _) hname _).mono fun _ _ _ _ => trivial

lemma keeps_fresh_arithmetic {f : Arithmetic} (hf : f = .sub ∨ f = .div) (hn : s.IsFresh n g) :
    Keeps (Evolves nothing nothing) (arithmetic f n m) g s.IsFresh := by
  have hgrown := Nat.le_trans hn.grown (Nat.le_of_lt hn.lt)
  refine keeps_arithmetic_of (fun _ => hn) (fun h => ?_)
    (fun _ => keeps_fresh_apply hgrown (by decide +kernel) [m])
    (fun w _ => keeps_fresh_constant hgrown _ w)
    (keeps_fresh_apply hgrown (computes_operation f) [n, m])
  cases h <;> simp at hf

lemma inherited_isFresh : Inherited (Evolves nothing nothing) s.IsFresh where
  recorder := recorder_evolves
  stable h hg := h.evolves hg
  sub h := keeps_fresh_arithmetic (.inl rfl) h
  div h := keeps_fresh_arithmetic (.inr rfl) h

end Build

namespace Graph

variable {s f : Graph} {n d : NodeId}

lemma Evolves.target_eq {D : ClusterId → Prop} (h : Evolves (AccessIn s D) (MovedIn s D) s f)
    (hs : s.Labelled) (hn : n < s.nodes.size) (hstays : ¬ MovedIn s D n) : f.target n = n := by
  have htarget := hs.target n hn
  rw [h.target n (hs.size ▸ hn) (htarget.symm ▸ hstays), htarget]

lemma Sparse.isMemory_target_of_isCoordinate (hs : s.Sparse s.order)
    (hrun : Build.flatten s = .ok ⟨⟩ f) (hn : n ∈ s.order) (hcoord : (s.node n).isCoordinate) :
    (f.node (f.target n)).isMemory = false := by
  obtain ⟨D, -, hevolves⟩ := hs.flattened hrun
  have hlt := hs.lists.lt_size hn
  have hnm : (s.node n).isMemory = false := by
    by_contra hmem
    exact Node.not_isCoordinate_of_isMemory (by simpa using hmem) hcoord
  have hsame : (f.node n).isMemory = false := (hevolves.toFrame.toOutline.isMemory hlt).trans hnm
  by_cases hlinear : s.kernelMode = .linear
  · obtain ⟨k, hk⟩ := hs.grouped.clustered hn hnm
    obtain ⟨h, hh, hmem, hkh, -⟩ := hs.grouped.head hn hk
    by_cases hshape : s.sources h .shape = []
    · -- the cluster is passed over
      obtain ⟨D, hD, hidle⟩ := hs.evolves_of_idle hn hnm hk
        (fun h' hh' => Option.mem_unique hh hh' ▸ hshape) hrun
      rw [hidle.target_eq hs.labelled hlt (not_movedIn hD hk)]
      exact hsame
    · obtain ⟨D, D', g, gm, g', thread, coordinates, l, ht⟩ := hs.treats hn hnm hk hh hshape hrun
      obtain ⟨t, g₀, g₁, rfl, hlin, hafter⟩ := ht.linearized hs hh hmem hkh hlinear
      obtain ⟨hg, hgm⟩ := ht.goesOn
      have hf := ht.ends
      -- the coordinates are fresh, and one of them takes the place of the node
      have hthread :=
        ((Build.keeps_fresh_threadIndex (g := g.enter .before h true) hg.size _).meets.of_ok
        hlin.thread).2
      obtain ⟨-, -, hfresh⟩ :=
        (Build.inherited_isFresh.keeps_coordinatesOf hthread).meets.of_ok hlin.run
      have hfinal := ((hfresh _ (ht.target_mem hs hh hmem hkh hlinear hn hcoord hk)).evolves
        hafter).evolves hf
      have hlabels := GoesOn.lt_labels (hg.trans hgm) hs.labelled hlt
      rw [Evolves.target hf n hlabels (not_movedIn_of_le hfinal.grown)]
      exact hfinal.isMemory
  · rw [hevolves.target_eq hs.labelled hlt fun hmoved => hlinear hmoved.1]
    exact hsame

lemma Sparse.memoryOf?_flatten_iff (hs : s.Sparse s.order) (hlisted : s.MemoryListed s.order)
    (hrun : Build.flatten s = .ok ⟨⟩ f) (hn : n ∈ s.order) (haccess : (s.node n).op.kind.accesses)
    (hd : (s.node d).isMemory) :
    f.memoryOf? n = some d ↔ s.memoryOf? n = some d := by
  obtain ⟨D, -, hevolves⟩ := hs.flattened hrun
  have hlt := lt_size_of_node (P := fun x => x.isMemory) hd (by decide)
  obtain ⟨v, hv⟩ := (hs.regular n hn).exists_memory haccess
  have hmemory := (hs.memoryOf?_iff hn haccess).2 hv
  have hvs := hlisted n hn haccess v hmemory
  rw [hs.memoryOf?_eq hn hmemory (hevolves.others n (hs.lists.lt_size hn) .memory
    (by decide)), hmemory]
  by_cases hmoved : MovedIn s D v
  · -- neither the coordinate nor what takes its place is memory
    have htarget := hs.isMemory_target_of_isCoordinate hrun hvs hmoved.2.1
    have hdf := (hevolves.toFrame.toOutline.isMemory hlt).trans hd
    constructor
    · intro h
      rw [Option.some.inj h, hdf] at htarget
      cases htarget
    · intro h
      rw [← Option.some.inj h] at hd
      exact absurd hmoved.2.1 (Node.not_isCoordinate_of_isMemory hd)
  · rw [hevolves.target_eq hs.labelled (hs.lists.lt_size hvs) hmoved]

end Graph

end KernelFusion
