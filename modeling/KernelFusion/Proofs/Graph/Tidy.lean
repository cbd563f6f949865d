/-
Graphs between the passes.

A graph is *well formed* if its clusters are runs that start with their heads and all nodes are
regular and typed, and *tidy* if moreover every argument comes from an earlier node.
-/
import KernelFusion.Proofs.Cluster.Sweep

namespace KernelFusion

open List

/-! ### Arguments with other sources -/

/-- What an argument is apart from its source. -/
def Argument.place (a : Argument) : ArgKind × Int := (a.kind, a.index)

lemma eq_block_iff {k : ArgKind} {args : List Argument} :
    args = block k (args.map (·.source)) ↔
      ∀ i : Nat, ∀ a, args[i]? = some a → a.place = (k, (i : Int)) := by
  constructor
  · intro h i a ha
    rw [h, getElem?_block, Option.map_eq_some_iff] at ha
    obtain ⟨l, -, rfl⟩ := ha
    rfl
  · intro h
    refine ext_getElem? fun i => ?_
    rw [getElem?_block, getElem?_map]
    cases hi : args[i]? with
    | none => rfl
    | some a =>
      obtain ⟨hk, hx⟩ := Prod.mk.inj (h i a hi)
      rw [Option.map_some, Option.map_some, ← hk, ← hx]

lemma Node.Regular.reroute {n n' : Node} (h : n.Regular) (hop : n'.op = n.op)
    (hargs : n'.args.map Argument.place = n.args.map Argument.place) : n'.Regular := by
  have hfilter : ∀ k, (n'.args.filter fun a => a.kind = k).map Argument.place =
      (n.args.filter fun a => a.kind = k).map Argument.place := by
    intro k
    have hcomp : ∀ args : List Argument, (args.filter fun a => a.kind = k).map Argument.place =
        (args.map Argument.place).filter fun q => q.1 = k := by
      intro args
      rw [filter_map]
      rfl
    rw [hcomp, hcomp, hargs]
  refine ⟨fun k => eq_block_iff.2 fun i a ha => ?_, ?_, fun hm a ha => ?_⟩
  · have hplace : ((n.args.filter fun a => a.kind = k).map Argument.place)[i]? = some a.place := by
      rw [← hfilter, getElem?_map, ha, Option.map_some]
    rw [getElem?_map, Option.map_eq_some_iff] at hplace
    obtain ⟨b, hb, hba⟩ := hplace
    rw [← hba]
    exact eq_block_iff.1 (h.blocks k) i b hb
  · have hlen := congrArg length (hfilter .memory)
    rw [length_map, length_map] at hlen
    rw [labels, length_map, hlen, hop]
    simpa [labels] using h.memory
  · have hplace : a.place ∈ n.args.map Argument.place := by
      rw [← hargs]
      exact mem_map_of_mem ha
    obtain ⟨b, hb, hba⟩ := mem_map.1 hplace
    have hkind := h.plain (by rwa [Node.isMemory, hop] at hm) b hb
    rw [← hkind]
    exact (congrArg Prod.fst hba).symm

lemma map_place_modify (args : List Argument) (i : Nat) (l : LabelId) :
    (args.modify i fun a => { a with source := l }).map Argument.place =
      args.map Argument.place := by
  refine ext_getElem? fun j => ?_
  rw [getElem?_map, getElem?_map, getElem?_modify]
  cases args[j]? with
  | none => rfl
  | some a => by_cases hij : i = j <;> simp [hij, Argument.place]

namespace Graph

variable {g : Graph} {l : List NodeId} {n : NodeId}

/-! ### Well-formed graphs -/

/-- The clusters of a graph are runs that start with their heads, and all its nodes are regular and
typed. -/
structure Formed (g : Graph) (l : List NodeId) : Prop where
  lists : g.Lists l
  labelled : g.Labelled
  recording : g.recording
  grouped : g.Grouped (fun _ => true) l
  regular : ∀ n ∈ l, (g.node n).Regular
  typed : g.Typed l

/-! ### Tidy graphs -/

/-- The state of a graph before anything is taken out of it. -/
structure Tidy (g : Graph) (l : List NodeId) : Prop extends g.Formed l where
  ordered : ∀ n ∈ l, ∀ x ∈ (g.node n).args, Precedes l x.source n
  last : g.last = l.getLast?

namespace Tidy

lemma source_eq (h : g.Tidy l) (hn : n ∈ l) {x : Argument} (hx : x ∈ (g.node n).args) :
    g.source x = x.source :=
  h.labelled.source (h.lists.lt_size (h.ordered n hn x hx).left_mem)

lemma isOrdered (h : g.Tidy l) : g.Ordered l := by
  intro n hn x hx
  rw [h.source_eq hn hx]
  exact h.ordered n hn x hx

lemma arranged (h : g.Tidy l) : g.Arranged l := by
  refine ⟨⟨h.lists, fun n hn => ?_, fun n hn x hx => ?_⟩, h.isOrdered,
    h.grouped.toRuns, h.recording⟩
  · have hlt := h.lists.lt_size hn
    rw [h.labelled.label n hlt, h.labelled.size]
    exact ⟨hlt, h.labelled.target n hlt⟩
  · rw [h.labelled.size]
    exact h.lists.lt_size (h.ordered n hn x hx).left_mem

end Tidy

/-! ### The cut of a recorded graph -/

lemma Recorded.isMemory_eq_of_sameCluster (h : g.Recorded) {a b : Nat} (hab : a ≤ b)
    (hb : b < g.nodes.size) (hsame : g.clusterize.SameCluster a b) :
    (g.clusterize.node a).isMemory = (g.clusterize.node b).isMemory := by
  induction hab with
  | refl => rfl
  | @step b hab ih =>
    have hpred := h.sameCluster_between (m := b) hb hsame hab (Nat.le_succ b)
    have hprev : g.clusterize.prev? (b + 1) = some b := by
      rw [h.recut_clusterize.prev?, h.prev?_succ hb]
    rw [ih (Nat.lt_of_succ_lt hb) hpred]
    by_contra hne
    refine (h.sameCluster_succ_iff hb).1 (hpred.symm.trans hsame) (.inl ⟨b, hprev, rfl, ?_⟩)
    rw [nodesSeparate, Bool.or_eq_true]
    exact .inr (by simpa using hne)

lemma Recorded.tidy_clusterize (h : g.Recorded) : g.clusterize.Tidy (range g.nodes.size) := by
  have hcut := h.recut_clusterize
  have hrecording : g.clusterize.recording = g.recording := by rw [hcut.rest]
  have hlast : g.clusterize.last = g.last := by rw [hcut.rest]
  refine ⟨⟨hcut.lists h.lists, hcut.labelled h.labelled, hrecording.trans h.recording,
    ⟨h.isCut_clusterize.runs, fun {n m k} hn hm hkn hkm => ?_,
      fun {n} hn _ => h.isCut_clusterize.clustered n hn⟩, fun n _ => hcut.regular (h.regular n),
    h.typed.congr (Subset.refl _) hcut.op (fun n => by rw [hcut.node]) hcut.args⟩,
    fun n hn x hx => ?_, hlast.trans h.last⟩
  · have hsame : g.clusterize.SameCluster n m := hkn.trans hkm.symm
    rcases Nat.le_total n m with hle | hle
    · exact h.isMemory_eq_of_sameCluster hle (mem_range.1 hm) hsame
    · exact (h.isMemory_eq_of_sameCluster hle (mem_range.1 hn) hsame.symm).symm
  · rw [hcut.args] at hx
    exact precedes_range_iff.2 ⟨h.earlier n x hx, mem_range.1 hn⟩

lemma Recorded.tidy_clusterize_order (h : g.Recorded) : g.clusterize.Tidy g.clusterize.order := by
  rw [h.tidy_clusterize.lists.order]
  exact h.tidy_clusterize

end Graph

end KernelFusion
