/-
Values cross clusters only through memory, and the right values do.

Every memory that has entered gets one value, from one store in the cluster of that value, and
whatever else takes the memory is behind that cluster. An argument that came from another cluster
now comes from a load of the memory of that very value.
-/
import KernelFusion.Proofs.Pass.Spill
import KernelFusion.Proofs.Recording.Scripts

namespace KernelFusion.Graph

open List

variable {p s : Graph} {ls : List NodeId} {n m v w u x : NodeId} {i : Nat} {a : Argument}
  {es : List (NodeId × Entry)} {done : List (NodeId × Nat)}

/-! ### Clusters in order -/

/-- The nodes are in one cluster. -/
def Joined (g : Graph) (x y : NodeId) : Prop :=
  ∃ k, (g.node x).cluster = some k ∧ (g.node y).cluster = some k

/-- The cluster of `u`, or `u` itself if it has none, stands behind the whole cluster of `v`. -/
def Later (g : Graph) (v u : NodeId) : Prop :=
  ∀ x ∈ g.order, ∀ y ∈ g.order, x = v ∨ g.Joined v x → y = u ∨ g.Joined u y → g.Before x y

lemma Runs.later {q : OpKind → Bool} (hr : s.Runs q ls) (hl : s.Lists ls) (hprec : Precedes ls v u)
    (hv : ∃ k, (s.node v).cluster = some k) (hne : ¬ s.SameCluster v u) : s.Later v u := by
  obtain ⟨k, hk⟩ := hv
  intro x hx y hy hxv hyu
  rw [hl.order] at hx hy
  have hxk : (s.node x).cluster = some k := by
    rcases hxv with rfl | ⟨j, hj, hxj⟩
    · exact hk
    · rw [hxj, ← hj, hk]
  have hyk : (s.node y).cluster ≠ some k := by
    rintro hyk
    rcases hyu with rfl | ⟨j, hj, hyj⟩
    · exact hne (hk.trans hyk.symm)
    · exact hne (hk.trans (hyk.symm.trans (hyj.trans hj.symm)))
  show Precedes s.order x y
  rw [hl.order]
  rcases Precedes.total hx hy with rfl | hxy | hyx
  · exact absurd hxk hyk
  · exact hxy
  · -- a node of the second cluster in front of one of the first would tear one of them apart
    exfalso
    rcases Precedes.total hprec.left_mem hy with rfl | hvy | hyv
    · exact hyk hk
    · exact hyk (hr.between hvy hyx hk hxk)
    · rcases hyu with rfl | ⟨j, hj, hyj⟩
      · exact hprec.asymm hl.chain.nodup hyv
      · exact hne ((hr.between hyv hprec hyj hj).trans hj.symm)

/-! ### What passing values through memory achieves -/

/-- The node is in the second program only. -/
def Enters (p s : Graph) (n : NodeId) : Prop := n ∈ s.order ∧ n ∉ p.order

/-- The memory has entered to bring the value to other clusters. -/
structure Carries (p s : Graph) (m v : NodeId) : Prop where
  enters : p.Enters s m
  isMemory : (s.node m).isMemory
  value : v ∈ p.order ∧ (p.node v).isMemory = false
  store : ∃ w, p.Enters s w ∧ s.Stores w m v ∧ s.Joined w v ∧
    (∀ u, p.Enters s u → (s.node u).op.name = "store" → s.Takes u m → u = w) ∧
    ∀ u ∈ s.order, s.Takes u m → u ≠ w →
      s.Later v u ∧ ∃ n ∈ p.order, p.Takes n v ∧ s.SameCluster u n

/-- The program `s` is the program `p` with values passed between clusters through memory. -/
structure Transfers (p s : Graph) : Prop where
  listed : p.order.Sublist s.order
  same : ∀ n ∈ p.order, (s.node n).op = (p.node n).op ∧ (s.node n).cluster = (p.node n).cluster
  inside : ∀ n ∈ s.order, (s.node n).isMemory = false → ∀ a ∈ (s.node n).args,
    a.kind ≠ .memory → a.kind ≠ .shape → s.Joined (s.source a) n ∧ s.Before (s.source a) n
  carries : ∀ m, p.Enters s m → (s.node m).isMemory → ∃ v, p.Carries s m v
  value : ∀ n ∈ p.order, ∀ (i : Nat) (a : Argument), (p.node n).args[i]? = some a →
    a.kind ≠ .memory → a.kind ≠ .shape →
    (p.node (p.source a)).isMemory = false → ¬ p.SameCluster (p.source a) n →
    ∃ b m, (s.node n).args[i]? = some b ∧ b.place = a.place ∧ s.Loads (s.source b) m ∧
      p.Carries s m (p.source a)
  direct : ∀ n ∈ p.order, (p.node n).isMemory = false →
    ∀ (i : Nat) (a : Argument), (p.node n).args[i]? = some a → a.kind ≠ .memory → a.kind ≠ .shape →
    (p.node (p.source a)).isMemory →
    ∃ b, (s.node n).args[i]? = some b ∧ b.place = a.place ∧ s.Loads (s.source b) (p.source a)
  memory : ∀ n ∈ p.order, ∀ (i : Nat) (a : Argument), (p.node n).args[i]? = some a →
    a.kind = .memory → (p.node (p.source a)).isMemory = false → ¬ p.SameCluster (p.source a) n →
    ∃ b, (s.node n).args[i]? = some b ∧ b.place = a.place ∧ p.Carries s (s.source b) (p.source a)
  kept : ∀ n ∈ p.order, ∀ (i : Nat) (a : Argument), (p.node n).args[i]? = some a →
    ¬ p.Moves p.order n a → (s.node n).args[i]? = some a ∧ s.source a = p.source a

lemma spillable_of_ordered (hlinked : p.Linked p.order) (hordered : p.Ordered p.order)
    (hruns : p.Runs (fun _ => true) p.order)
    (hclustered : ∀ n ∈ p.order, (p.node n).isMemory = false → ∃ k, (p.node n).cluster = some k) :
    p.Spillable p.order :=
  ⟨hlinked, hruns, hclustered, fun n hn a ha => hlinked.lt_size (hordered n hn a ha).left_mem,
    fun n hn a ha _ _ => hordered n hn a ha⟩

namespace Passing

variable (hs : Passing p p.order es done s ls)

include hs

lemma enters_iff :
    p.Enters s x ↔ ∃ e, (x, e) ∈ es := by
  rw [Enters, hs.toLists.order]
  constructor
  · rintro ⟨hx, hxp⟩
    exact (hs.entered x hx).resolve_left hxp
  · rintro ⟨e, he⟩
    obtain ⟨hx, hge, -⟩ := hs.fits x e he
    exact ⟨hx, fun hxp => absurd (hs.old x hxp) (Nat.not_lt.2 hge)⟩

section Memory

variable (hm : (m, Entry.memory v) ∈ es)

include hm

lemma later_of_moved (hu : u ∈ p.order) (ha : a ∈ (s.node u).args) (hsource : s.source a = m)
    (hold : a ∉ (p.node u).args) :
    Precedes ls v u ∧ ¬ s.SameCluster v u ∧ ∃ n ∈ p.order, p.Takes n v ∧ s.SameCluster u n := by
  obtain ⟨-, -, hmemory⟩ := hs.fits m _ hm
  obtain ⟨i, hi⟩ := mem_iff_getElem?.1 ha
  have hdone : (u, i) ∈ done := by
    by_contra hdone
    rw [hs.kept u hu i hdone] at hi
    exact hold (mem_of_getElem? hi)
  obtain ⟨b, a', hb, ha', hmoves, hfor⟩ := hs.moved u i hdone
  obtain rfl := Option.mem_unique ha' hi
  rw [hsource, EntersFor] at hfor
  split at hfor
  · obtain rfl : v = p.source b := Entry.memory.inj (hs.balanced.entry_eq hm hfor)
    obtain ⟨-, hprec, hne⟩ := hmoves
    rw [if_neg (by simp [hmemory.value])] at hne
    refine ⟨hprec.mono hs.listed, ?_, u, hu, ⟨b, mem_of_getElem? hb, rfl⟩, rfl⟩
    rwa [SameCluster, hs.cluster_eq hmemory.mem, hs.cluster_eq hu]
  · obtain ⟨m', hm'⟩ := hfor
    cases hs.balanced.entry_eq hm hm'

lemma later_of_load (he : (u, Entry.load v m n) ∈ es) :
    Precedes ls v u ∧ ¬ s.SameCluster v u ∧ ∃ n ∈ p.order, p.Takes n v ∧ s.SameCluster u n := by
  obtain ⟨-, -, hmemory⟩ := hs.fits m _ hm
  obtain ⟨-, -, hfits⟩ := hs.fits u _ he
  have hn := hfits.before.right_mem
  obtain ⟨k, -, hk⟩ := hfits.takes
  obtain ⟨b, hb, -, -, hbv⟩ := exists_of_mem_taken hk
  have hun : s.SameCluster u n := hfits.cluster.trans (hs.cluster_eq hn).symm
  refine ⟨hfits.behind, fun hvu => hfits.parted hmemory.value ?_, n, hn, ⟨b, hb, hbv⟩, hun⟩
  have hvn : s.SameCluster v n := hvu.trans hun
  rwa [SameCluster, hs.cluster_eq hmemory.mem, hs.cluster_eq hn] at hvn

/-- A memory is used by its store and by loads of later clusters. -/
lemma uses_of_memory (hp : p.Spillable p.order) (hordered : p.Ordered p.order) (hu : u ∈ ls)
    (ha : a ∈ (s.node u).args) (hsource : s.source a = m) :
    (u, Entry.store v m) ∈ es ∨ ((u ∈ p.order ∨ ∃ n, (u, Entry.load v m n) ∈ es) ∧ Precedes ls v u ∧
      ¬ s.SameCluster v u ∧ ∃ n ∈ p.order, p.Takes n v ∧ s.SameCluster u n) := by
  have hmp : m ∉ p.order := fun hmp => absurd (hs.old m hmp) (Nat.not_lt.2 (hs.fits m _ hm).2.1)
  -- an argument of the old program comes from an old node
  have hold : ∀ n ∈ p.order, a ∉ (p.node n).args := by
    intro n hn hap
    rw [hs.extended.source (hp.inside n hn a hap)] at hsource
    exact hmp (hsource ▸ (hordered n hn a hap).left_mem)
  have hshape : a.kind ≠ .shape := by
    intro hshape
    obtain ⟨n, hn, hap⟩ := hs.sizes u hu a ha hshape
    exact hold n hn hap
  have hmem := mem_taken ha hshape
  rw [hsource] at hmem
  rcases hs.entered u hu with hup | ⟨e, he⟩
  · exact .inr ⟨.inl hup, hs.later_of_moved hm hup ha hsource (hold u hup)⟩
  · obtain ⟨-, -, hfits⟩ := hs.fits u e he
    cases e with
    | memory v' =>
      rw [hfits.taken] at hmem
      cases hmem
    | load v' m' n =>
      rw [hfits.loads.taken, mem_singleton] at hmem
      obtain rfl : m = m' := congrArg Prod.snd hmem
      have hmv' : (m, Entry.memory v') ∈ es :=
        (hs.balanced.load he).resolve_left fun h => hmp (h.2 ▸ hfits.before.left_mem)
      obtain rfl : v = v' := Entry.memory.inj (hs.balanced.entry_eq hm hmv')
      exact .inr ⟨.inr ⟨n, he⟩, hs.later_of_load hm he⟩
    | store v' m' =>
      have hstore := hs.value_of_store he
      rw [hfits.stores.taken] at hmem
      simp only [mem_cons, Prod.mk.injEq, not_mem_nil, or_false] at hmem
      rcases hmem with ⟨-, rfl⟩ | ⟨-, rfl⟩
      · obtain rfl : v = v' := Entry.memory.inj (hs.balanced.entry_eq hm (hs.balanced.store he))
        exact .inl he
      · exact absurd hstore.1 hmp

end Memory

lemma carries (hp : p.Spillable p.order) (hordered : p.Ordered p.order) (hstored : AllStored es)
    (hm : (m, Entry.memory v) ∈ es) :
    p.Carries s m v := by
  obtain ⟨-, -, hmemory⟩ := hs.fits m _ hm
  have hv := hmemory.mem
  obtain ⟨k, hk⟩ := hp.clustered v hv hmemory.value
  obtain ⟨w, hw⟩ := hstored m v hm
  obtain ⟨-, -, hstore⟩ := hs.fits w _ hw
  have henters : ∀ {x e}, (x, e) ∈ es → p.Enters s x := fun he => hs.enters_iff.2 ⟨_, he⟩
  refine ⟨henters hm, hmemory.isMemory, ⟨hv, hmemory.value⟩, w, henters hw, hstore.stores,
    ⟨k, hstore.cluster.trans hk, (hs.cluster_eq hv).trans hk⟩, fun u hu hname htakes => ?_,
    fun u hu htakes hne => ?_⟩
  · obtain ⟨a, ha, hsource⟩ := htakes
    rcases hs.uses_of_memory hm hp hordered (hs.toLists.order ▸ hu.1) ha hsource with hu' |
      ⟨hup | ⟨n, hn⟩, -⟩
    · exact hs.balanced.once hu' hw
    · exact absurd hup hu.2
    · obtain ⟨-, -, hload⟩ := hs.fits u _ hn
      rw [hload.loads.name] at hname
      exact absurd hname (by decide)
  · obtain ⟨a, ha, hsource⟩ := htakes
    rcases hs.uses_of_memory hm hp hordered (hs.toLists.order ▸ hu) ha hsource with hu' |
      ⟨-, hprec, hparted, huser⟩
    · exact absurd (hs.balanced.once hu' hw) hne
    · exact ⟨hs.runs.later hs.toLists hprec ⟨k, (hs.cluster_eq hv).trans hk⟩ hparted, huser⟩

end Passing

/-! ### What moves and what stays -/

section

variable (hordered : p.Ordered p.order) (hn : n ∈ p.order)

include hordered hn

lemma moves_of_parted (ha : a ∈ (p.node n).args) (hshape : a.kind ≠ .shape)
    (hvalue : (p.node (p.source a)).isMemory = false) (hne : ¬ p.SameCluster (p.source a) n) :
    p.Moves p.order n a := by
  refine ⟨hshape, hordered n hn a ha, ?_⟩
  rwa [if_neg (by simp [hvalue])]

lemma moves_of_memory (hmem : (p.node n).isMemory = false) (ha : a ∈ (p.node n).args)
    (hmemory : a.kind ≠ .memory) (hshape : a.kind ≠ .shape)
    (hsource : (p.node (p.source a)).isMemory) :
    p.Moves p.order n a := by
  refine ⟨hshape, hordered n hn a ha, ?_⟩
  rw [if_pos hsource]
  exact ⟨hmemory, hmem⟩

lemma sameCluster_of_not_moves (hmem : (p.node n).isMemory = false) (ha : a ∈ (p.node n).args)
    (hmemory : a.kind ≠ .memory) (hshape : a.kind ≠ .shape) (hmoves : ¬ p.Moves p.order n a) :
    p.SameCluster (p.source a) n := by
  by_contra hne
  cases hsource : (p.node (p.source a)).isMemory with
  | true => exact hmoves (moves_of_memory hordered hn hmem ha hmemory hshape hsource)
  | false => exact hmoves (moves_of_parted hordered hn ha hshape hsource hne)

end

namespace Passing

variable (hs : Passing p p.order es done s ls)

include hs

/-- After spilling every plain operand lies in its user's cluster. -/
lemma inside_cluster (hp : p.Spillable p.order) (hordered : p.Ordered p.order)
    (hall : p.AllMoved p.order done) (hn : n ∈ ls) (hmem : (s.node n).isMemory = false)
    (ha : a ∈ (s.node n).args) (hmemory : a.kind ≠ .memory) (hshape : a.kind ≠ .shape) :
    s.Joined (s.source a) n ∧ Precedes ls (s.source a) n := by
  rcases hs.entered n hn with hnp | ⟨e, he⟩
  · have hmemp : (p.node n).isMemory = false := (hs.isMemory_eq hnp).symm.trans hmem
    obtain ⟨k, hk⟩ := hp.clustered n hnp hmemp
    obtain ⟨i, hi⟩ := mem_iff_getElem?.1 ha
    by_cases hdone : (n, i) ∈ done
    · obtain ⟨c, -, -, -, -, hload⟩ := hs.exists_moved hnp hi hdone
      obtain ⟨m, hm⟩ := hload hmemory
      obtain ⟨-, -, hload⟩ := hs.fits _ _ hm
      exact ⟨⟨k, hload.cluster.trans hk, (hs.cluster_eq hnp).trans hk⟩, hload.front⟩
    · rw [hs.kept n hnp i hdone] at hi
      have hap := mem_of_getElem? hi
      have hprec := hordered n hnp a hap
      have hsame := sameCluster_of_not_moves hordered hnp hmemp hap hmemory hshape
        (mt (hall n i a hi) hdone)
      rw [hs.extended.source (hp.inside n hnp a hap)]
      exact ⟨⟨k, (hs.cluster_eq hprec.left_mem).trans (hsame.trans hk),
        (hs.cluster_eq hnp).trans hk⟩, hprec.mono hs.listed⟩
  · obtain ⟨m, rfl⟩ := hs.value_of_entered he ha hshape hmemory
    obtain ⟨-, -, hstore⟩ := hs.fits n _ he
    obtain ⟨hv, hvalue⟩ := hs.value_of_store he
    obtain ⟨k, hk⟩ := hp.clustered _ hv hvalue
    exact ⟨⟨k, (hs.cluster_eq hv).trans hk, hstore.cluster.trans hk⟩, hstore.behind⟩

lemma loads_of_moves (hall : p.AllMoved p.order done) (hn : n ∈ p.order)
    (ha : (p.node n).args[i]? = some a) (hmoves : p.Moves p.order n a)
    (hmemory : a.kind ≠ .memory) :
    ∃ b m, (s.node n).args[i]? = some b ∧ b.place = a.place ∧ s.Loads (s.source b) m ∧
      Brings p es m (p.source a) := by
  obtain ⟨b, hb, hplace, hfor⟩ := (hs.argument hall hn ha).1 hmoves
  rw [EntersFor, if_neg hmemory] at hfor
  obtain ⟨m, hm⟩ := hfor
  obtain ⟨-, -, hload⟩ := hs.fits _ _ hm
  exact ⟨b, m, hb, hplace, hload.loads, hs.balanced.load hm⟩

lemma exists_value_of_memory (hm : p.Enters s m) (hmem : (s.node m).isMemory) :
    ∃ v, (m, Entry.memory v) ∈ es := by
  obtain ⟨e, he⟩ := hs.enters_iff.1 hm
  obtain ⟨-, -, hfits⟩ := hs.fits m e he
  cases e with
  | memory v => exact ⟨v, he⟩
  | load v m' n =>
    rw [Node.isMemory, hfits.loads.name] at hmem
    exact absurd hmem (by decide)
  | store v m' =>
    rw [Node.isMemory, hfits.stores.name] at hmem
    exact absurd hmem (by decide)

end Passing

/-- For every program in which values are defined before they are used and clusters are runs that
start with their heads and hold all nodes but memory: if passing the exported values through memory
succeeds, in whatever order, then values cross clusters only through memory, and each argument gets
the value it got before. -/
theorem spill_transfers {exports : List Export} (hlinked : p.Linked p.order)
    (hordered : p.Ordered p.order) (hruns : p.Runs (fun _ => true) p.order)
    (hclustered : ∀ n ∈ p.order, (p.node n).isMemory = false → ∃ k, (p.node n).cluster = some k)
    (hperm : exports.Perm p.summary.exports) (hrun : Build.spillInOrder exports p = .ok ⟨⟩ s) :
    p.Transfers s := by
  have hp := spillable_of_ordered hlinked hordered hruns hclustered
  obtain ⟨es, done, ls, hs, hstored, hall⟩ := hp.spillInOrder hperm hrun
  have horder := hs.toLists.order
  have hcarries : ∀ {m v}, (m, Entry.memory v) ∈ es → p.Carries s m v := fun hm =>
    hs.carries hp hordered hstored hm
  refine ⟨horder ▸ hs.listed, fun n hn => ?_, fun n hn hmem a ha hmemory hshape => ?_,
    fun m hm hmem => ?_, fun n hn i a ha hmemory hshape hvalue hne => ?_,
    fun n hn hmem i a ha hmemory hshape hsource => ?_, fun n hn i a ha hmemory hvalue hne => ?_,
    fun n hn i a ha hmoves => ?_⟩
  · exact ⟨hs.extended.op n (hs.old n hn), hs.cluster_eq hn⟩
  · rw [Before, horder]
    exact hs.inside_cluster hp hordered hall (horder ▸ hn) hmem ha hmemory hshape
  · obtain ⟨v, hv⟩ := hs.exists_value_of_memory hm hmem
    exact ⟨v, hcarries hv⟩
  · have hmoves := moves_of_parted hordered hn (mem_of_getElem? ha) hshape hvalue hne
    obtain ⟨b, m, hb, hplace, hload, hbrings⟩ := hs.loads_of_moves hall hn ha hmoves hmemory
    have hm := hbrings.resolve_left fun h => by simp [hvalue] at h
    exact ⟨b, m, hb, hplace, hload, hcarries hm⟩
  · have hmoves := moves_of_memory hordered hn hmem (mem_of_getElem? ha) hmemory hshape hsource
    obtain ⟨b, m, hb, hplace, hload, ⟨-, rfl⟩ | hm⟩ := hs.loads_of_moves hall hn ha hmoves hmemory
    · exact ⟨b, hb, hplace, hload⟩
    · -- memory has entered for values only
      rw [(hcarries hm).value.2] at hsource
      cases hsource
  · have hshape : a.kind ≠ .shape := by
      rw [hmemory]
      decide
    have hmoves := moves_of_parted hordered hn (mem_of_getElem? ha) hshape hvalue hne
    obtain ⟨b, hb, hplace, hfor⟩ := (hs.argument hall hn ha).1 hmoves
    rw [EntersFor, if_pos hmemory] at hfor
    exact ⟨b, hb, hplace, hcarries hfor⟩
  · exact ⟨(hs.argument hall hn ha).2 hmoves,
      hs.extended.source (hp.inside n hn a (mem_of_getElem? ha))⟩

/-- A program that uses a value in another cluster, once as a value and once as memory. -/
def handed : List Step :=
  [ .act (.input .float (.sizes [4])) (some "A"),
    .act (.call (.named "sin") ["A"]) (some "v"),
    .act (.constant .int 2 (.sizes [])) (some "two"),
    .act (.index (.extent (.tensors ["two"])) 0) (some "i"),
    .act (.call (.named "cos") ["v"]) (some "w"),
    .act (.load "v" []) (some "z") ]

/-- Its clusters. -/
def handedCut : Graph := (Script.scene handed).graph.clusterize

/-- A memory, a store and two loads enter. -/
theorem spill_transfers_handed :
    handedCut.Linked handedCut.order ∧ handedCut.Ordered handedCut.order ∧
      handedCut.Runs (fun _ => true) handedCut.order ∧
      (∀ n ∈ handedCut.order, (handedCut.node n).isMemory = false →
        ∃ k, (handedCut.node n).cluster = some k) ∧
      handedCut.summary.exportsByCluster.Perm handedCut.summary.exports ∧
      ∃ s, Build.spill handedCut = .ok ⟨⟩ s ∧ s.order = [0, 1, 7, 10, 2, 9, 3, 4, 8, 5, 6] ∧
        handedCut.Transfers s := by
  have hrecorded := (Script.recorded (l := handed) (by decide +kernel)).graph
  have htidy : handedCut.Tidy handedCut.order := hrecorded.tidy_clusterize_order
  have hclustered : ∀ n ∈ handedCut.order, (handedCut.node n).isMemory = false →
      ∃ k, (handedCut.node n).cluster = some k := fun n hn hmem => htidy.grouped.clustered hn hmem
  obtain ⟨hlinked, hordered, hruns, -⟩ := htidy.arranged
  obtain ⟨s, hrun, hend⟩ : ∃ s, Build.spill handedCut = .ok ⟨⟩ s ∧
      s.order = [0, 1, 7, 10, 2, 9, 3, 4, 8, 5, 6] := by decide +kernel
  have hperm := exportsByCluster_perm handedCut.summary
  exact ⟨hlinked, hordered, hruns, hclustered, hperm, s, hrun, hend,
    spill_transfers hlinked hordered hruns hclustered hperm ((Build.spill_eq _).symm.trans hrun)⟩

end KernelFusion.Graph
