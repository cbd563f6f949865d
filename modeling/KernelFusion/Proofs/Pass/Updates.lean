/-
Updates in place and recomputed values.

Recomputing does not look at what is written to memory between a value and its user. A cheap value
of another cluster moves to a copy in front of the cluster of the user, and all updates outside of
that cluster come before the copy.
-/
import KernelFusion.Proofs.Pass.Recompute

namespace KernelFusion.Graph

variable {g c : Graph} {n m w : NodeId} {i : Nat} {a : Argument}

/-- One node is computed from another one, in any number of steps; sizes do not count. -/
def DependsOn (g : Graph) : NodeId → NodeId → Prop :=
  Relation.ReflTransGen fun v u => ∃ a ∈ (g.node v).args, a.kind ≠ .shape ∧ g.source a = u

/-- The computation of a node loads from a memory. -/
def LoadsFrom (g : Graph) (v m : NodeId) : Prop :=
  ∃ u, g.DependsOn v u ∧ (g.node u).op.kind = .load ∧ g.memoryOf? u = some m

/-- Between a value and its user, a node writes to the memory that the value is or loads from. -/
structure Updates (g : Graph) (w v n : NodeId) : Prop where
  behind : g.Before v w
  front : g.Before w n
  writes : (g.node w).op.kind.writes
  memory : ∃ m, g.memoryOf? w = some m ∧ (m = v ∨ g.LoadsFrom v m)

/-- What became of an argument: copied if worth it, else left alone. -/
lemma Rebuilt.argument {l : List NodeId} {o : Graph} {origin : NodeId → NodeId}
    (hc : c.Tidy c.order) (hr : Rebuilt c c.clusterOrder o l origin) (hn : n ∈ c.order)
    (ha : (c.node n).args[i]? = some a) (hkind : a.kind = .input ∨ a.kind = .index) :
    (c.isWorthCopy c.summary n a = false → (o.node n).args[i]? = some a) ∧
      (c.isWorthCopy c.summary n a → ∃ v ∈ l, (o.node n).args[i]? =
        some { a with source := o.label v } ∧ IsCopy c (c.source a) n o l v) := by
  have hmem : (c.node n).isMemory = false := by
    by_contra hm
    have hshape := (hc.regular n hn).plain (by simpa using hm) a (List.mem_of_getElem? ha)
    rw [hshape] at hkind
    rcases hkind with hkind | hkind <;> cases hkind
  obtain ⟨k, hk⟩ := hc.grouped.clustered hn hmem
  obtain ⟨hstay, hmove⟩ := hr.moved n hn k (mem_clusterOrder.2 ⟨n, hn, hmem, hk⟩) hk i a ha
  refine ⟨fun hworth => hstay fun hi => ?_, fun hworth => hmove (mem_copyable.2 ⟨a, ha, hworth⟩)⟩
  obtain ⟨b, hb, hworth'⟩ := mem_copyable.1 hi
  obtain rfl := Option.mem_unique ha hb
  rw [hworth] at hworth'
  cases hworth'

lemma isWorthCopy_eq_false_iff {s : Summary} (hkind : a.kind = .input ∨ a.kind = .index) :
    g.isWorthCopy s n a = false ↔ (g.node (g.source a)).isMemory ∨
      g.SameCluster (g.source a) n ∨ cheap (s.cost (g.source a)) = false := by
  unfold isWorthCopy SameCluster
  rcases hkind with hkind | hkind <;> simp [hkind, or_iff_not_imp_left]

/-- For every program that functions on tensors record, every argument and every update between its
value and its user: recomputing leaves the argument with the value if and only if the value is
memory, stands in the cluster of the user, or is costly. Otherwise the argument gets a copy of the
value, which comes behind the update unless the update belongs to the cluster of the user. -/
theorem updated_argument_stays_iff {l : List Step} (hl : Step.allRegular l = true)
    (hc : (Script.scene l).graph.clusterize = c) (ha : (c.node n).args[i]? = some a)
    (hkind : a.kind = .input ∨ a.kind = .index) (hw : c.Updates w (c.source a) n) :
    ∃ o v, Build.recompute c = .ok ⟨⟩ o ∧ (o.node n).args[i]?.map o.source = some v ∧
      (v = c.source a ↔ (c.node (c.source a)).isMemory = true ∨ c.SameCluster (c.source a) n ∨
        cheap (c.summary.cost (c.source a)) = false) ∧
      (v ≠ c.source a →
        (o.node v).op = (c.node (c.source a)).op ∧ (o.node v).type = (c.node (c.source a)).type ∧
        (o.node v).data = (c.node (c.source a)).data ∧ o.SameCluster v n ∧
        (o.Before w v ↔ ¬ c.SameCluster w n)) := by
  subst hc
  have h := (Script.recorded hl).graph
  have htidy := h.tidy_clusterize_order
  obtain ⟨o, hrun, l', origin, hl', hr⟩ := htidy.recompute
  have hn := hw.front.right_mem
  have hwn := htidy.lists.lt_size hw.front.left_mem
  have hnlt := htidy.lists.lt_size hn
  have hsource := htidy.source_eq hn (List.mem_of_getElem? ha)
  have hlt := htidy.lists.lt_size hw.behind.left_mem
  obtain ⟨hstay, hmove⟩ := hr.argument htidy hn ha hkind
  rw [← isWorthCopy_eq_false_iff hkind]
  cases hworth : (Script.scene l).graph.clusterize.isWorthCopy
      (Script.scene l).graph.clusterize.summary n a with
  | false =>
    refine ⟨o, _, hrun, ?_, ⟨fun _ => rfl, fun _ => rfl⟩, fun hne => absurd rfl hne⟩
    have hsource' : o.source a = a.source := by
      rw [hsource] at hlt
      exact hl'.labelled.source (Nat.lt_of_lt_of_le hlt hr.grown.size)
    rw [hstay hworth, Option.map_some, hsource', hsource]
  | true =>
    obtain ⟨v, hvl, hv, hcopy⟩ := hmove hworth
    have hvlt := hl'.lists.lt_size hvl
    rw [hl'.labelled.label v hvlt] at hv
    refine ⟨o, v, hrun, ?_, ⟨fun heq => ?_, fun hfalse => by cases hfalse⟩, fun _ => ?_⟩
    · rw [hv, Option.map_some]
      exact congrArg some (hl'.labelled.source hvlt)
    · -- the copy is a new node
      exact absurd hcopy.fresh (Nat.not_le.2 (heq ▸ hlt))
    · refine ⟨hcopy.op, hcopy.type, hcopy.data, ?_, fun hbefore hsame => ?_, fun hne => ?_⟩
      · exact hcopy.cluster.trans (hr.grown.cluster n hnlt).symm
      · rw [Before, hl'.lists.order] at hbefore
        exact hbefore.asymm hl'.lists.chain.nodup (hcopy.front w hw.front.left_mem hsame)
      · rw [Before, hl'.lists.order]
        exact hcopy.behind w hw.front hne

/-- A program that loads a memory, stores the negated values to it and then uses the loaded ones. -/
def negated : List Step :=
  [ .act (.input .float (.sizes [4])) (some "A"),
    .act (.load "A" []) (some "v"),
    .act (.call (.named "neg") ["v"]) (some "x"),
    .act (.store "A" "x" []) none,
    .act (.constant .int 2 (.sizes [])) (some "two"),
    .act (.index (.extent (.tensors ["two"])) 0) (some "i"),
    .act (.call (.named "sin") ["v"]) (some "s") ]

/-- Its clusters. -/
def negatedCut : Graph := (Script.scene negated).graph.clusterize

lemma args_negatedCut : (negatedCut.node 7).args[0]? = some ⟨.input, 0, 2⟩ := by decide +kernel

lemma source_negatedCut : negatedCut.source ⟨.input, 0, 2⟩ = 2 := by decide +kernel

lemma updates_negatedCut : negatedCut.Updates 4 2 7 where
  behind := by unfold Before Precedes; decide +kernel
  front := by unfold Before Precedes; decide +kernel
  writes := by decide +kernel
  memory := ⟨1, by decide +kernel, .inr ⟨2, .refl, by decide +kernel, by decide +kernel⟩⟩

theorem updated_argument_of_negated_stays_iff :
    negatedCut.Updates 4 2 7 ∧
      ∃ o v, Build.recompute negatedCut = .ok ⟨⟩ o ∧ (o.node 7).args[0]?.map o.source = some v ∧
        (v = 2 ↔ (negatedCut.node 2).isMemory = true ∨ negatedCut.SameCluster 2 7 ∨
          cheap (negatedCut.summary.cost 2) = false) ∧
        (v ≠ 2 →
          (o.node v).op = (negatedCut.node 2).op ∧ (o.node v).type = (negatedCut.node 2).type ∧
          (o.node v).data = (negatedCut.node 2).data ∧ o.SameCluster v 7 ∧
          (o.Before 4 v ↔ ¬ negatedCut.SameCluster 4 7)) := by
  have hcut : (Script.scene negated).graph.clusterize = negatedCut := rfl
  have hupdates : negatedCut.Updates 4 (negatedCut.source ⟨.input, 0, 2⟩) 7 := by
    rw [source_negatedCut]
    exact updates_negatedCut
  have hstays := updated_argument_stays_iff (by decide +kernel) hcut args_negatedCut (.inl rfl)
    hupdates
  rw [source_negatedCut] at hstays
  exact ⟨updates_negatedCut, hstays⟩

/-- Not every argument with an update behind its value stays: this one moves behind the store. -/
theorem not_forall_updated_argument_stays :
    ¬ ∀ (l : List Step) (c o : Graph) (n w : NodeId) (i : Nat) (a : Argument),
      Step.allRegular l = true → (Script.scene l).graph.clusterize = c →
      Build.recompute c = .ok ⟨⟩ o → (c.node n).args[i]? = some a →
      (a.kind = .input ∨ a.kind = .index) → c.Updates w (c.source a) n →
      (o.node n).args[i]?.map o.source = some (c.source a) := by
  intro hall
  obtain ⟨o, hrun, hmoved⟩ : ∃ o, Build.recompute negatedCut = .ok ⟨⟩ o ∧
      (o.node 7).args[0]?.map o.source = some 8 := by decide +kernel
  have hstays := hall negated negatedCut o 7 4 0 _ (by decide +kernel) rfl hrun args_negatedCut
    (.inl rfl) (by rw [source_negatedCut]; exact updates_negatedCut)
  rw [source_negatedCut] at hstays
  exact absurd (hmoved.symm.trans hstays) (by decide)

end KernelFusion.Graph
