/-
Passing values between clusters through memory.

Each action of the pass records one node and moves at most one argument, and it enters what it
records in the ledger. When the pass is over, every memory that has entered has got its value, and
everything that was to move has moved.
-/
import KernelFusion.Proofs.Graph.Typing
import KernelFusion.Proofs.Pass.Ledger
import KernelFusion.Proofs.Pass.Needed

namespace KernelFusion

open List Operation

/-! ### What the actions of the pass end with -/

namespace Build

variable {g g' : Graph} {m h n : NodeId} {e : Export}

/-- Spilling to a memory records it before the head, with the value's role. -/
lemma spillMemory_eq_ok (hv : e.node < g.nodes.size) (hrun : spillMemory e h g = .ok m g') :
    m = g.nodes.size ∧ ∃ op ∈ table, op.name = "memory" ∧ op.kind.accesses = false ∧
      ((g.node e.node).role ≠ .output ∧
      g' = ((g.enter .before h false).insert op (g.node e.node).type
          ((g.node e.node).arguments .shape)).leave g ∨
        (g.node e.node).role = .output ∧
        g' = ((((g.enter .before h false).insert op (g.node e.node).type
          ((g.node e.node).arguments .shape)).setRole m .output (g.node e.node).slot).setRole e.node
            .scratch (g.node e.node).slot).leave g) := by
  obtain ⟨g₁, hact, rfl⟩ := placed_eq_ok.1 hrun
  obtain ⟨shape, g₂, hshape, hact⟩ := bind_eq_ok.1 hact
  cases hshape
  obtain ⟨g₃, g₄, hget, hact⟩ := bind_eq_ok.1 hact
  cases hget
  obtain ⟨x, g₅, hsource, hact⟩ := bind_eq_ok.1 hact
  obtain ⟨rfl, op, hop, rfl⟩ := source_eq_ok hsource
  obtain ⟨g₆, g₇, hget, hact⟩ := bind_eq_ok.1 hact
  cases hget
  have hnothing : onNothing "memory" = true := by decide +kernel
  have haccess : op.kind.accesses = false := by simpa using of_namedBy hnothing hop
  obtain ⟨htable, hname⟩ := mem_table_of_find hop
  have hnode : ((g.enter .before h false).insert op (g.node e.node).type
      ((g.node e.node).arguments .shape)).node e.node = g.node e.node :=
    Graph.node_insert_of_ne (Nat.ne_of_lt hv)
  dsimp only at hact
  split at hact
  · rename_i hrole
    cases hact
    refine ⟨rfl, op, htable, hname, haccess, .inr ⟨?_, ?_⟩⟩
    · rw [← hnode]
      exact hrole
    · rw [← congrArg Node.slot hnode]
      rfl
  · rename_i hrole
    cases hact
    refine ⟨rfl, op, htable, hname, haccess, .inl ⟨?_, rfl⟩⟩
    rw [← hnode]
    exact hrole

lemma loadFor_eq_ok {i : Nat} (hrun : loadFor m n i g = .ok ⟨⟩ g') :
    ∃ op ∈ table, op.kind.accesses ∧ op.name = "load" ∧
      g' = (((g.enter .before n true).insert op (g.node m).type
      (g.accessArguments m [] [])).setSource n i g.nodes.size).leave g := by
  obtain ⟨g₁, hact, rfl⟩ := placed_eq_ok.1 hrun
  obtain ⟨x, g₂, hload, hmodify⟩ := bind_eq_ok.1 hact
  cases hmodify
  obtain ⟨rfl, op, o, type, htable, -, haccess, hop, htype, rfl⟩ :=
    access_eq_ok (by decide +kernel) hload
  have hname : op.name = "load" := hop.trans (by decide +kernel)
  rw [htype, if_pos hname]
  exact ⟨op, htable, haccess, hname, rfl⟩

lemma spillStore_eq_ok (hk : (g.node e.node).cluster = some e.cluster)
    (hrun : Build.spillStore e m g = .ok ⟨⟩ g') :
    ∃ op ∈ table, op.kind.accesses ∧ op.name = "store" ∧
      g' = ((g.enter .after e.node true).insert op .void
      (g.accessArguments m [] [e.node])).leave g := by
  obtain ⟨g₁, hact, rfl⟩ := placed_eq_ok.1 hrun
  obtain ⟨x, g₂, hstore, hmodify⟩ := bind_eq_ok.1 hact
  obtain ⟨rfl, op, o, type, htable, ho, haccess, hop, htype, rfl⟩ :=
    access_eq_ok (by decide +kernel) hstore
  have hname : op.name = "store" := hop.trans (by decide +kernel)
  have hvoid : type = .void := by
    rw [htype, if_neg (by rw [hname]; decide)]
    exact output_of_store htable hname ho
  subst hvoid
  refine ⟨op, htable, haccess, hname, ?_⟩
  cases hmodify
  refine congrArg (fun g' : Graph => g'.leave g) (Graph.modifyNode_eq_self ?_)
  rw [Graph.node_insert_self]
  exact congrArg _ hk.symm

lemma spillExport_eq_ok (hrun : spillExport e g = .ok ⟨⟩ g') :
    ∃ h m g₁ g₂, g.head? e.cluster = some h ∧ spillMemory e h g = .ok m g₁ ∧
      e.uses.forM (spillUse m) g₁ = .ok ⟨⟩ g₂ ∧ spillStore e m g₂ = .ok ⟨⟩ g' := by
  unfold spillExport at hrun
  rw [bind_of_ok (rfl : (get : Build Graph) g = .ok g g)] at hrun
  cases hh : g.head? e.cluster with
  | none =>
    rw [hh] at hrun
    cases hrun
  | some h =>
    rw [hh] at hrun
    obtain ⟨m, g₁, hmemory, hrun⟩ := bind_eq_ok.1 hrun
    obtain ⟨⟨⟩, g₂, huses, hstore⟩ := bind_eq_ok.1 hrun
    exact ⟨h, m, g₁, g₂, rfl, hmemory, huses, hstore⟩

lemma spill_eq (g : Graph) : spill g = spillInOrder g.summary.exportsByCluster g := rfl

lemma spillInOrder_eq_ok {exports : List Export} (hrun : spillInOrder exports g = .ok ⟨⟩ g') :
    ∃ g₁, exports.forM spillExport g = .ok ⟨⟩ g₁ ∧
      (g₁.order.filter fun n => !(g₁.node n).isMemory).forM loadDirect g₁ = .ok ⟨⟩ g' := by
  have hrun : (exports.forM spillExport >>= fun _ => get >>= fun g₁ =>
      (g₁.order.filter fun n => !(g₁.node n).isMemory).forM loadDirect) g = .ok ⟨⟩ g' := hrun
  obtain ⟨⟨⟩, g₁, hexports, hrun⟩ := bind_eq_ok.1 hrun
  obtain ⟨g₂, g₃, hget, hdirect⟩ := bind_eq_ok.1 hrun
  cases hget
  exact ⟨_, hexports, hdirect⟩

lemma of_loadDirect_eq_ok {P : List (Argument × Nat) → Graph → Prop}
    (hrun : loadDirect n g = .ok ⟨⟩ g')
    (hload : ∀ before b i s s', (g.node n).args[i]? = some b → b.kind ≠ .memory → b.kind ≠ .shape →
      (g.node (g.source b)).isMemory → P before s →
      loadFor (g.source b) n i s = .ok ⟨⟩ s' → P (before ++ [(b, i)]) s')
    (hskip : ∀ before b i s, (b.kind ≠ .memory → b.kind ≠ .shape →
      (g.node (g.source b)).isMemory = false) → P before s → P (before ++ [(b, i)]) s)
    (hstart : P [] g) : P (g.node n).args.zipIdx g' := by
  refine of_forM_eq_ok hrun ?_ hstart
  rintro before ⟨b, i⟩ after s s' hsplit hs hstep
  dsimp only at hstep
  split at hstep
  · rename_i hcond
    simp only [Bool.and_eq_true, decide_eq_true_eq] at hcond
    have hb : (b, i) ∈ (g.node n).args.zipIdx := by
      rw [hsplit]
      simp
    exact hload before b i s s' (mem_zipIdx_iff_getElem?.1 hb) hcond.1.1 hcond.1.2 hcond.2 hs hstep
  · rename_i hcond
    cases hstep
    refine hskip before b i s (fun hk hk' => ?_) hs
    simpa [hk, hk'] using hcond

end Build

namespace Graph

variable {g g' p : Graph} {l l' l₁ l₂ lp : List NodeId} {n m v w x : NodeId} {i : Nat}
  {a : Argument} {op : Operation} {type : Scalar} {es : List (NodeId × Entry)} {e : Entry}
  {done : List (NodeId × Nat)} {u : Use}

/-- What is known about an export: the pass moves all its uses. -/
structure Exports (p : Graph) (lp : List NodeId) (e : Export) : Prop where
  mem : e.node ∈ lp
  value : (p.node e.node).isMemory = false
  cluster : (p.node e.node).cluster = some e.cluster
  uses : ∀ u ∈ e.uses, ∃ a, (p.node u.user).args[u.position]? = some a ∧ p.source a = e.node ∧
    a.kind = u.kind ∧ p.Moves lp u.user a

namespace Passing

/-! ### What each action does -/

lemma insert_access (hg : Passing p lp es done g (l₁ ++ l₂)) (hs : g.Splits l₁ l₂)
    {values : List NodeId}
    (hruns : (g.insert op type (g.accessArguments m [] values)).Runs (fun _ => true)
      (l₁ ++ g.nodes.size :: l₂))
    (haccess : op.kind.accesses) (hop : op.name ≠ "memory") (hm : m ∈ l₁ ++ l₂)
    (hvalues : ∀ v ∈ values, v ∈ l₁ ++ l₂)
    (hfits : Fits p lp (g.insert op type (g.accessArguments m [] values)) (l₁ ++ g.nodes.size :: l₂)
      g.nodes.size e)
    (he : Backs p es e) :
    Passing p lp (es ++ [(g.nodes.size, e)]) done (g.insert op type (g.accessArguments m [] values))
      (l₁ ++ g.nodes.size :: l₂) :=
  hg.insert hs hruns (fun _ ha => hg.toLinked.accessArguments_lt hm hvalues ha)
    (fun hreg => regular_access (hreg m hm) haccess hop)
    (fun a ha hkind => hg.sizes m hm a (mem_of_mem_accessArguments ha hkind) hkind) hfits he

/-- A load recorded before a user, and entered. -/
lemma insert_load (hg : Passing p lp es done g (l₁ ++ n :: l₂)) (hs : g.Splits l₁ (n :: l₂))
    (hcurrent : g.current = (g.node n).cluster) (ha : (p.node n).args[i]? = some a)
    (hmoves : p.Moves lp n a) (hkind : a.kind ≠ .memory) (hm : Brings p es m (p.source a))
    (htable : op ∈ table) (haccess : op.kind.accesses) (hop : op.name = "load") :
    Passing p lp (es ++ [(g.nodes.size, .load (p.source a) m n)]) (done ++ [(n, i)])
      ((g.insert op (g.node m).type (g.accessArguments m [] [])).setSource n i g.nodes.size)
      (l₁ ++ g.nodes.size :: n :: l₂) := by
  have hprec := hmoves.2.1
  have hnodup := hg.chain.nodup
  have hml₁ : m ∈ l₁ := (hg.precedes_of_brings hm hprec).mem_of_right hnodup
  have hvl₁ : p.source a ∈ l₁ := (hprec.mono hg.listed).mem_of_right hnodup
  have hml : m ∈ l₁ ++ n :: l₂ := mem_append_left _ hml₁
  have hnone : ∀ v ∈ ([] : List NodeId), v ∈ l₁ ++ n :: l₂ := by simp
  refine (hg.insert_access (e := .load (p.source a) m n) hs ?_ haccess
    (by rw [hop]; decide) hml hnone ?_ hm).setSource ha hmoves (by simp) ?_
  · cases hk : (g.node n).cluster with
    | none => exact hg.runs.insert_loose hs hk (hcurrent.trans hk)
    | some k =>
      exact hg.runs.insert_before hs hk (hcurrent.trans hk) fun _ => ⟨ne_nil_of_mem hml₁, rfl⟩
  · refine ⟨by rwa [node_insert_self], ⟨by rw [node_insert_self, hop], ?_⟩,
      fun b hb hshape => ?_, ?_, ?_,
      Precedes.of_mem_tail mem_cons_self, Precedes.of_mem hvl₁ mem_cons_self, hprec,
      ⟨a.kind, hkind, mem_taken (mem_of_getElem? ha) hmoves.1⟩, fun hmem => ?_⟩
    · rw [taken_insert fun b hb => hg.toLinked.accessArguments_lt hml hnone hb,
        hg.toLinked.taken_access hml hnone]
      rfl
    · rw [node_insert_self] at hb
      exact hg.sizes_of_brings hm hprec.left_mem (mem_of_mem_accessArguments hb hshape) hshape
    · rw [node_insert_self]
      exact hg.type_of_brings hm hprec.left_mem
    · rw [node_insert_self, ← hg.cluster_eq hprec.right_mem]
      exact hcurrent
    · have hrest := hmoves.2.2
      rwa [if_neg (by simp [hmem])] at hrest
  · rw [EntersFor, if_neg hkind]
    exact ⟨m, by simp⟩

lemma loadFor (hg : Passing p lp es done g l) (ha : (p.node n).args[i]? = some a)
    (hmoves : p.Moves lp n a) (hkind : a.kind ≠ .memory) (hm : Brings p es m (p.source a))
    (hrun : Build.loadFor m n i g = .ok ⟨⟩ g') :
    ∃ x l', l.Sublist l' ∧
      Passing p lp (es ++ [(x, .load (p.source a) m n)]) (done ++ [(n, i)]) g' l' := by
  obtain ⟨A, B, rfl⟩ := append_of_mem (hg.listed.subset hmoves.2.1.right_mem)
  obtain ⟨op, htable, haccess, hop, rfl⟩ := Build.loadFor_eq_ok hrun
  refine ⟨g.nodes.size, A ++ g.nodes.size :: n :: B, sublist_insert, leave ?_ g⟩
  exact (hg.enter .before n true).insert_load (hg.toLists.enter_before true) rfl ha hmoves hkind hm
    htable haccess hop

variable {h : NodeId} {k : ClusterId}

/-- A memory recorded before a cluster, and entered. -/
lemma insert_memory (hg : Passing p lp es done g (l₁ ++ h :: l₂)) (hs : g.Splits l₁ (h :: l₂))
    (hk : (g.node h).cluster = some k) (hh : g.head? k = some h) (hcurrent : g.current = none)
    (htable : op ∈ table) (hop : op.name = "memory") (haccess : op.kind.accesses = false)
    (hv : v ∈ lp) (hvalue : (p.node v).isMemory = false) (hkv : (g.node v).cluster = some k)
    (hvh : v ∈ h :: l₂) :
    Passing p lp (es ++ [(g.nodes.size, .memory v)]) done
      (g.insert op (g.node v).type ((g.node v).arguments .shape))
      (l₁ ++ g.nodes.size :: h :: l₂) := by
  have hvl := hg.listed.subset hv
  have hmem : ∀ b ∈ (g.node v).arguments .shape, b ∈ (g.node v).args ∧
    b.kind = .shape := fun b hb =>
    Node.mem_arguments.1 hb
  have hinside : ∀ b ∈ (g.node v).arguments .shape, b.source < g.labels.size := fun b hb =>
    hg.inside v hvl b (hmem b hb).1
  refine hg.insert hs (hg.runs.insert_outside hs hk hh hcurrent fun _ => rfl) hinside
    (fun hreg => ?_) (fun b hb => hg.sizes v hvl b (hmem b hb).1) ?_ trivial
  · rw [(hreg v hvl).arguments_eq]
    exact Node.regular_of_blocks (m := []) (i := []) (x := []) (s := (g.node v).labels .shape)
      (by simp) (by simp [haccess]) fun _ => ⟨rfl, rfl, rfl⟩
  · refine ⟨by rwa [node_insert_self], ?_, ?_, fun b hb => ?_, ?_, ?_, Precedes.of_mem_tail hvh,
      fun y hy hne => ?_, hv, hvalue⟩
    · rw [node_insert_self]
      simpa [Node.isMemory] using hop
    · rw [node_insert_self]
      exact hg.extended.type v (hg.old v hv)
    · rw [node_insert_self] at hb
      exact hg.mem_of_shape hv (hmem b hb).1 (hmem b hb).2
    · rw [taken_insert hinside, map_eq_nil_iff, filter_eq_nil_iff]
      intro b hb
      simpa using (hmem b hb).2
    · rw [node_insert_self, hcurrent]
    · refine Precedes.of_mem ?_ mem_cons_self
      refine hg.runs.mem_front hk (hy.mono hg.listed) hkv fun hky => hne ?_
      rw [SameCluster, ← hg.cluster_eq hy.left_mem, ← hg.cluster_eq hv, hky, hkv]

lemma spillMemory {e : Export} (hg : Passing p lp es done g l) (hv : e.node ∈ lp)
    (hvalue : (p.node e.node).isMemory = false) (hk : (g.node e.node).cluster = some e.cluster)
    (hh : g.head? e.cluster = some h) (hrun : Build.spillMemory e h g = .ok m g') :
    m = g.nodes.size ∧ ∃ l', Passing p lp (es ++ [(m, .memory e.node)]) done g' l' := by
  obtain ⟨h', hh', hmem, hkh, hle⟩ := hg.runs.head (hg.listed.subset hv) hk
  obtain rfl := Option.mem_unique hh hh'
  obtain ⟨A, B, rfl⟩ := append_of_mem hmem
  obtain ⟨rfl, op, htable, hop, haccess, hcases⟩ :=
    Build.spillMemory_eq_ok (hg.lt_size (hg.listed.subset hv)) hrun
  have hvh : e.node ∈ h :: B := by
    rcases hle rfl with heq | hprec
    · exact heq ▸ mem_cons_self
    · exact mem_cons_of_mem _ (hprec.mem_of_left hg.chain.nodup)
  have hg₁ : Passing p lp (es ++ [(g.nodes.size, .memory e.node)]) done
      ((g.enter .before h false).insert op (g.node e.node).type ((g.node e.node).arguments .shape))
      (A ++ g.nodes.size :: h :: B) :=
    (hg.enter .before h false).insert_memory (hg.toLists.enter_before false) hkh hh rfl htable hop
      haccess hv hvalue hk hvh
  refine ⟨rfl, A ++ g.nodes.size :: h :: B, ?_⟩
  rcases hcases with ⟨-, rfl⟩ | ⟨-, rfl⟩
  · exact hg₁.leave g
  · exact ((hg₁.setRole g.nodes.size .output _).setRole e.node .scratch _).leave g

/-- A store recorded behind a value, and entered. -/
lemma insert_store (hg : Passing p lp es done g (l₁ ++ v :: l₂)) (hs : g.Splits (l₁ ++ [v]) l₂)
    (hk : (g.node v).cluster = some k) (hcurrent : g.current = (g.node v).cluster) (hv : v ∈ lp)
    (htable : op ∈ table) (haccess : op.kind.accesses) (hop : op.name = "store")
    (hm : (m, Entry.memory v) ∈ es) (hnew : ∀ w v', (w, Entry.store v' m) ∉ es) :
    Passing p lp (es ++ [(g.nodes.size, .store v m)]) done
      (g.insert op .void (g.accessArguments m [] [v])) (l₁ ++ v :: g.nodes.size :: l₂) := by
  have hlist : ∀ r : List NodeId, l₁ ++ v :: r = l₁ ++ [v] ++ r := fun r => by simp
  have hml := (hg.fits m _ hm).1
  have hvl : ∀ u ∈ [v], u ∈ l₁ ++ v :: l₂ := by simp
  have hfits : Fits p lp (g.insert op .void (g.accessArguments m [] [v]))
      (l₁ ++ v :: g.nodes.size :: l₂) g.nodes.size (.store v m) := by
    refine ⟨by rwa [node_insert_self], ⟨by rw [node_insert_self, hop], ?_⟩, fun b hb hshape => ?_,
      by rw [node_insert_self], ?_, Precedes.of_mem_tail mem_cons_self⟩
    · rw [taken_insert fun b hb => hg.toLinked.accessArguments_lt hml hvl hb,
        hg.toLinked.taken_access hml hvl]
      rfl
    · rw [node_insert_self] at hb
      exact hg.sizes_of_brings (.inr hm) hv (mem_of_mem_accessArguments hb hshape) hshape
    · rw [node_insert_self, ← hg.cluster_eq hv]
      exact hcurrent
  rw [hlist] at hg hml hvl hfits ⊢
  exact hg.insert_access hs (hg.runs.insert_after hs hk (hcurrent.trans hk) rfl) haccess
    (by rw [hop]; decide) hml hvl hfits ⟨hm, hnew⟩

variable (hg : Passing p lp es done g l)

include hg

lemma spillStore {e : Export} (hv : e.node ∈ lp) (hk : (g.node e.node).cluster = some e.cluster)
    (hm : (m, Entry.memory e.node) ∈ es) (hnew : ∀ w v', (w, Entry.store v' m) ∉ es)
    (hrun : Build.spillStore e m g = .ok ⟨⟩ g') :
    ∃ x l', Passing p lp (es ++ [(x, .store e.node m)]) done g' l' := by
  obtain ⟨A, B, rfl⟩ := append_of_mem (hg.listed.subset hv)
  obtain ⟨op, htable, haccess, hop, rfl⟩ := Build.spillStore_eq_ok hk hrun
  refine ⟨g.nodes.size, A ++ e.node :: g.nodes.size :: B, leave ?_ g⟩
  exact (hg.enter .after e.node true).insert_store (hg.toLists.enter_after true) hk rfl hv htable
    haccess hop hm hnew

lemma spillUse (ha : (p.node u.user).args[u.position]? = some a) (hmoves : p.Moves lp u.user a)
    (hkind : a.kind = u.kind) (hm : (m, Entry.memory (p.source a)) ∈ es)
    (hrun : Build.spillUse m u g = .ok ⟨⟩ g') :
    ∃ loads l', OnlyLoads loads ∧
      Passing p lp (es ++ loads) (done ++ [(u.user, u.position)]) g' l' := by
  unfold Build.spillUse at hrun
  by_cases hmemory : u.kind = .memory
  · rw [if_pos hmemory] at hrun
    cases hrun
    refine ⟨[], l, forall_mem_nil _, ?_⟩
    rw [append_nil]
    refine hg.setSource ha hmoves (hg.fits m _ hm).1 ?_
    rw [EntersFor, if_pos (hkind.trans hmemory)]
    exact hm
  · rw [if_neg hmemory] at hrun
    obtain ⟨x, l', -, hg'⟩ := hg.loadFor ha hmoves (hkind ▸ hmemory) (.inr hm) hrun
    exact ⟨_, l', onlyLoads_singleton, hg'⟩

lemma spillUses {us : List Use} (hm : (m, Entry.memory v) ∈ es)
    (hus : ∀ u ∈ us, ∃ a, (p.node u.user).args[u.position]? = some a ∧ p.source a = v ∧
      a.kind = u.kind ∧ p.Moves lp u.user a) (hrun : us.forM (Build.spillUse m) g = .ok ⟨⟩ g') :
    ∃ loads l', OnlyLoads loads ∧
      Passing p lp (es ++ loads) (done ++ us.map fun u => (u.user, u.position)) g' l' := by
  refine of_forM_eq_ok (P := fun before s => ∃ loads l', OnlyLoads loads ∧
    Passing p lp (es ++ loads) (done ++ before.map fun u => (u.user, u.position)) s l') hrun ?_
    ⟨[], l, forall_mem_nil _, by simpa using hg⟩
  rintro before u after s s' hsplit ⟨loads, ls, hloads, hs⟩ hu
  obtain ⟨a, ha, hsource, hkind, hmoves⟩ := hus u (by rw [hsplit]; simp)
  obtain ⟨more, l', hmore, hs'⟩ := hs.spillUse ha hmoves hkind
    (by rw [hsource]; exact mem_append_left _ hm) hu
  exact ⟨loads ++ more, l', forall_mem_append.2 ⟨hloads, hmore⟩, by simpa using hs'⟩

/-- One export spilled: a memory, the loads of its uses and a store. -/
lemma spillExport {e : Export} (he : p.Exports lp e) (hrun : Build.spillExport e g = .ok ⟨⟩ g') :
    ∃ loads w l', OnlyLoads loads ∧
      Passing p lp (es ++ [(g.nodes.size, .memory e.node)] ++ loads ++
      [(w, .store e.node g.nodes.size)])
        (done ++ e.uses.map fun u => (u.user, u.position)) g' l' := by
  have hk := (hg.cluster_eq he.mem).trans he.cluster
  obtain ⟨h, m, g₁, g₂, hh, hmemory, huses, hstore⟩ := Build.spillExport_eq_ok hrun
  obtain ⟨rfl, l₁, hg₁⟩ := hg.spillMemory he.mem he.value hk hh hmemory
  obtain ⟨loads, l₂, hloads, hg₂⟩ := hg₁.spillUses (by simp) he.uses huses
  -- the memory is new, so nothing has been stored in it
  have hnew : ∀ w v', (w, Entry.store v' g.nodes.size) ∉
      es ++ [(g.nodes.size, .memory e.node)] ++ loads := by
    intro w v' hw
    simp only [mem_append, mem_singleton, Prod.mk.injEq, reduceCtorEq, and_false, or_false] at hw
    rcases hw with hw | hw
    · exact Nat.lt_irrefl _ (hg.lt_size (hg.fits _ _ (hg.balanced.store hw)).1)
    · obtain ⟨v, m, n, heq⟩ := hloads _ hw
      cases heq
  have hk₂ := (hg₂.cluster_eq he.mem).trans he.cluster
  obtain ⟨w, l', hg'⟩ := hg₂.spillStore he.mem hk₂ (by simp) hnew hstore
  exact ⟨loads, w, l', hloads, hg'⟩

end Passing

/-! ### The exports of a program -/

lemma insertByCluster_perm (e : Export) (fs : List Export) :
    (insertByCluster e fs).Perm (e :: fs) := by
  induction fs with
  | nil => exact Perm.refl _
  | cons f fs ih =>
    unfold insertByCluster
    split
    · exact Perm.refl _
    · exact (ih.cons f).trans (Perm.swap e f fs)

lemma exportsByCluster_perm (s : Summary) : s.exportsByCluster.Perm s.exports := by
  rw [Summary.exportsByCluster]
  induction s.exports with
  | nil => exact Perm.refl _
  | cons e fs ih => exact (insertByCluster_perm e _).trans (ih.cons e)

lemma exported?_eq_some {e : Export} (h : p.exported? n = some e) :
    e.node = n ∧ (p.node n).cluster = some e.cluster ∧ e.uses = p.outsideUses n := by
  unfold exported? at h
  cases hk : (p.node n).cluster with
  | none =>
    rw [hk] at h
    cases h
  | some k =>
    rw [hk] at h
    dsimp only at h
    split at h
    · cases h
      exact ⟨rfl, rfl, rfl⟩
    · cases h

lemma mem_outsideUses (hp : p.Lists lp) (hv : v ∈ lp) : u ∈ p.outsideUses v ↔
    (Precedes lp v u.user ∧ ∃ a, (p.node u.user).args[u.position]? = some a ∧ p.source a = v ∧
      a.kind = u.kind ∧ a.index = u.index) ∧ u.kind ≠ .shape ∧ ¬ p.SameCluster u.user v := by
  rw [outsideUses, mem_filter, mem_uses hp hv]
  simp only [Bool.and_eq_true, decide_eq_true_eq, SameCluster]
  constructor
  · rintro ⟨⟨hle, harg⟩, hshape, hne⟩
    refine ⟨⟨hle.resolve_left fun heq => hne (by rw [heq]), harg⟩, hshape, hne⟩
  · rintro ⟨⟨hprec, harg⟩, hshape, hne⟩
    exact ⟨⟨.inr hprec, harg⟩, hshape, hne⟩

lemma exports_of_mem (hp : p.Lists lp) {e : Export} (he : e ∈ p.summary.exports) :
    p.Exports lp e := by
  obtain ⟨n, hn, hexported⟩ := mem_filterMap.1 he
  obtain ⟨hn, hclustered⟩ := mem_filter.1 hn
  rw [hp.order] at hn
  rw [isClustered, Bool.and_eq_true] at hclustered
  obtain ⟨rfl, hk, huses⟩ := exported?_eq_some hexported
  have hvalue : (p.node e.node).isMemory = false := by simpa using hclustered.1
  refine ⟨hn, hvalue, hk, fun u hu => ?_⟩
  rw [huses] at hu
  obtain ⟨⟨hprec, a, ha, hsource, hkind, -⟩, hshape, hne⟩ := (mem_outsideUses hp hn).1 hu
  refine ⟨a, ha, hsource, hkind, hkind ▸ hshape, hsource.symm ▸ hprec, ?_⟩
  rw [hsource, if_neg (by simp [hvalue])]
  exact fun hsame => hne hsame.symm

/-- Every argument that crosses clusters is among the exports. -/
lemma exists_export (hp : p.Lists lp) (ha : (p.node n).args[i]? = some a) (hmoves : p.Moves lp n a)
    (hvalue : (p.node (p.source a)).isMemory = false)
    (hclustered : ∃ k, (p.node (p.source a)).cluster = some k) :
    ∃ e ∈ p.summary.exports, ∃ u ∈ e.uses, (u.user, u.position) = (n, i) := by
  obtain ⟨k, hk⟩ := hclustered
  obtain ⟨hshape, hprec, hne⟩ := hmoves
  rw [if_neg (by simp [hvalue])] at hne
  have hu : (⟨n, i, a.kind, a.index⟩ : Use) ∈ p.outsideUses (p.source a) :=
    (mem_outsideUses hp hprec.left_mem).2 ⟨⟨hprec, a, ha, rfl, rfl, rfl⟩, hshape,
      fun hsame => hne hsame.symm⟩
  refine ⟨⟨p.source a, k, p.outsideUses (p.source a)⟩, mem_filterMap.2 ⟨p.source a,
    mem_filter.2 ⟨?_, ?_⟩, ?_⟩, _, hu, rfl⟩
  · rw [hp.order]
    exact hprec.left_mem
  · simp [isClustered, hvalue, hk]
  · have hsome : (p.outsideUses (p.source a)).isEmpty = false := by
      rw [isEmpty_eq_false_iff]
      exact ne_nil_of_mem hu
    simp [exported?, hk, hsome]

/-! ### The whole pass -/

/-- What the pass needs of a program: clusters are runs that start with their heads and hold all
nodes but memory, and memory that is taken for more than a size stands in front of its user. -/
structure Spillable (p : Graph) (lp : List NodeId) : Prop extends p.Linked lp where
  runs : p.Runs (fun _ => true) lp
  clustered : ∀ n ∈ lp, (p.node n).isMemory = false → ∃ k, (p.node n).cluster = some k
  source_lt : ∀ n ∈ lp, ∀ a ∈ (p.node n).args, p.source a < p.nodes.size
  behind : ∀ n ∈ lp, ∀ a ∈ (p.node n).args, a.kind ≠ .shape →
    (p.node (p.source a)).isMemory → Precedes lp (p.source a) n

lemma Spillable.passing (hp : p.Spillable lp) : Passing p lp [] [] p lp := by
  refine ⟨hp.toLinked, hp.runs, Extended.refl p, fun _ _ => rfl, Sublist.refl lp,
    fun n hn => hp.lt_size hn, fun h => h, fun n hn a ha _ => ⟨n, hn, ha⟩, fun x hx =>
    .inl hx, ?_, ⟨by simp, ?_, ?_, ?_⟩, fun _ _ _ _ => rfl, ?_⟩
  all_goals simp

/-- All arguments of a node that take memory for a value have moved. -/
def Loaded (p : Graph) (lp : List NodeId) (done : List (NodeId × Nat)) (n : NodeId) : Prop :=
  ∀ i a, (p.node n).args[i]? = some a → p.Moves lp n a → (p.node (p.source a)).isMemory →
    (n, i) ∈ done

lemma Passing.isMemory_source (hg : Passing p lp es done g l) (hp : p.Spillable lp) (hn : n ∈ lp)
    (ha : a ∈ (p.node n).args) :
    g.source a = p.source a ∧
      (g.node (p.source a)).isMemory = (p.node (p.source a)).isMemory :=
  ⟨hg.extended.source (hp.inside n hn a ha), hg.extended.isMemory (hp.source_lt n hn a ha)⟩

lemma Passing.loadDirect (hg : Passing p lp es done g l) (hp : p.Spillable lp) (hn : n ∈ lp)
    (hmem : (p.node n).isMemory = false) (hrun : Build.loadDirect n g = .ok ⟨⟩ g') :
    ∃ loads done' l', OnlyLoads loads ∧ l.Sublist l' ∧
      Passing p lp (es ++ loads) (done ++ done') g' l' ∧ p.Loaded lp (done ++ done') n := by
  have hinv := Build.of_loadDirect_eq_ok (P := fun before s => ∃ loads done' l', OnlyLoads loads ∧
    l.Sublist l' ∧ Passing p lp (es ++ loads) (done ++ done') s l' ∧
    ∀ q ∈ before, q.1.kind ≠ .memory → q.1.kind ≠ .shape →
      (g.node (g.source q.1)).isMemory → (n, q.2) ∈ done ++ done') hrun ?_ ?_
    ⟨[], [], l, forall_mem_nil _, Sublist.refl l, by simpa using hg, forall_mem_nil _⟩
  · obtain ⟨loads, done', l', hloads, hsub, hg', hall⟩ := hinv
    refine ⟨loads, done', l', hloads, hsub, hg', fun i a ha hmoves hsource => ?_⟩
    by_cases hdone : (n, i) ∈ done
    · exact mem_append_left _ hdone
    · obtain ⟨heq, hsame⟩ := hg.isMemory_source hp hn (mem_of_getElem? ha)
      have hkind := hmoves.2.2
      rw [if_pos hsource] at hkind
      refine hall (a, i) ?_ hkind.1 hmoves.1 (by rw [heq, hsame, hsource])
      rw [mem_zipIdx_iff_getElem?, hg.kept n hn i hdone, ha]
  · rintro before b i s s' hb hmemory hshape hsource ⟨loads, done', ls, hloads, hsub,
      hs, hall⟩ hstep
    -- the argument has not moved, so it takes memory of the program as it was
    have hbp := hg.kept_of_isMemory hn hb hmemory hsource
    have hbmem := mem_of_getElem? hbp
    obtain ⟨heq, hsame⟩ := hg.isMemory_source hp hn hbmem
    rw [heq] at hsource hstep
    rw [hsame] at hsource
    have hmoves : p.Moves lp n b :=
      ⟨hshape, hp.behind n hn b hbmem hshape hsource, by rw [if_pos hsource]; exact ⟨hmemory, hmem⟩⟩
    obtain ⟨x, l', hsub', hs'⟩ := hs.loadFor hbp hmoves hmemory (.inl ⟨hsource, rfl⟩) hstep
    rw [append_assoc, append_assoc] at hs'
    refine ⟨_, _, l', forall_mem_append.2 ⟨hloads, onlyLoads_singleton⟩, hsub.trans hsub', hs', ?_⟩
    rw [← append_assoc]
    refine forall_mem_append.2 ⟨fun q hq hk hk' hm => mem_append_left _ (hall q hq hk hk' hm), ?_⟩
    simp
  · rintro before b i s hnone ⟨loads, done', ls, hloads, hsub, hs, hall⟩
    refine ⟨loads, done', ls, hloads, hsub, hs, forall_mem_append.2 ⟨hall, ?_⟩⟩
    rw [forall_mem_singleton]
    intro hk hk' hm
    rw [hnone hk hk'] at hm
    cases hm

lemma Passing.loadDirect_entered (hg : Passing p lp es done g l) (he : (n, e) ∈ es)
    (hrun : Build.loadDirect n g = .ok ⟨⟩ g') : g' = g := by
  refine Build.of_loadDirect_eq_ok (P := fun _ s => s = g) hrun ?_ (fun _ _ _ _ _ hs => hs) rfl
  intro before b i s s' hb hmemory hshape hsource
  obtain ⟨m, rfl⟩ := hg.value_of_entered he (mem_of_getElem? hb) hshape hmemory
  obtain ⟨hv, hvalue⟩ := hg.value_of_store he
  rw [hg.isMemory_eq hv, hvalue] at hsource
  cases hsource

lemma Spillable.spillExports {exports : List Export} (hp : p.Spillable lp)
    (hexports : exports.Perm p.summary.exports)
    (hrun : exports.forM Build.spillExport p = .ok ⟨⟩ g) :
    ∃ es done l, Passing p lp es done g l ∧ AllStored es ∧
      ∀ e ∈ p.summary.exports, ∀ u ∈ e.uses, (u.user, u.position) ∈ done := by
  have hinv := of_forM_eq_ok (P := fun before g => ∃ es done l, Passing p lp es done g l ∧
    AllStored es ∧
    ∀ e ∈ before, ∀ u ∈ e.uses, (u.user, u.position) ∈ done) hrun ?_
    ⟨[], [], lp, hp.passing, fun m v hm => absurd hm not_mem_nil, forall_mem_nil _⟩
  · obtain ⟨es, done, l, hg, hstored, huses⟩ := hinv
    exact ⟨es, done, l, hg, hstored, fun e he => huses e (hexports.mem_iff.2 he)⟩
  rintro before e after t t' hsplit ⟨es, done, l, hl, hstored, huses⟩ hstep
  have he : e ∈ exports := by
    rw [hsplit]
    simp
  have hexport := exports_of_mem hp.toLists (hexports.mem_iff.1 he)
  obtain ⟨loads, w, l', hloads, hl'⟩ := hl.spillExport hexport hstep
  refine ⟨_, _, l', hl', hstored.spilled hloads, forall_mem_append.2 ⟨fun f hf u hu => ?_, ?_⟩⟩
  · exact mem_append_left _ (huses f hf u hu)
  · rw [forall_mem_singleton]
    exact fun u hu => mem_append_right _ (mem_map_of_mem hu)

lemma Passing.loadDirects (hg : Passing p lp es done g l) (hp : p.Spillable lp)
    (hrun : (g.order.filter fun n => !(g.node n).isMemory).forM Build.loadDirect g = .ok ⟨⟩ g') :
    ∃ loads done' l', OnlyLoads loads ∧ Passing p lp (es ++ loads) (done ++ done') g' l' ∧
      ∀ n ∈ lp, (p.node n).isMemory = false → p.Loaded lp (done ++ done') n := by
  have hinv := of_forM_eq_ok (P := fun before s => ∃ loads done' l', OnlyLoads loads ∧
    Passing p lp (es ++ loads) (done ++ done') s l' ∧
    l.Sublist l' ∧ ∀ n ∈ before, n ∈ lp → p.Loaded lp (done ++ done') n) hrun ?_
    ⟨[], [], l, forall_mem_nil _, by simpa using hg, Sublist.refl l, forall_mem_nil _⟩
  · obtain ⟨loads, done', l', honly, hg', -, hloaded⟩ := hinv
    refine ⟨loads, done', l', honly, hg', fun n hn hmem => hloaded n (mem_filter.2 ⟨?_, ?_⟩) hn⟩
    · rw [hg.toLists.order]
      exact hg.listed.subset hn
    · rw [hg.isMemory_eq hn, hmem]
      rfl
  rintro before n after s s' hsplit ⟨loads, done', l', honly, hs, hsub, hloaded⟩ hstep
  have hn : n ∈ g.order.filter fun n => !(g.node n).isMemory := by
    rw [hsplit]
    simp
  obtain ⟨hn, hmem⟩ := mem_filter.1 hn
  rw [hg.toLists.order] at hn
  rcases hs.entered n (hsub.subset hn) with hnp | ⟨e, he⟩
  · have hmem' : (p.node n).isMemory = false := by
      rw [← hg.isMemory_eq hnp]
      simpa using hmem
    obtain ⟨loads', more, l'', honly', hsub', hs', hn'⟩ := hs.loadDirect hp hnp hmem' hstep
    rw [append_assoc, append_assoc] at hs'
    rw [append_assoc] at hn'
    refine ⟨loads ++ loads', _, l'', forall_mem_append.2 ⟨honly, honly'⟩, hs', hsub.trans hsub',
      forall_mem_append.2 ⟨fun v hv hvp i a ha hmoves hsource => ?_, ?_⟩⟩
    · rw [← append_assoc]
      exact mem_append_left _ (hloaded v hv hvp i a ha hmoves hsource)
    · rw [forall_mem_singleton]
      exact fun _ => hn'
  · -- nothing happens to a node that has entered
    obtain rfl := hs.loadDirect_entered he hstep
    refine ⟨loads, done', l', honly, hs, hsub, forall_mem_append.2 ⟨hloaded, ?_⟩⟩
    rw [forall_mem_singleton]
    exact fun hnp => absurd (hg.old n hnp) (Nat.not_lt.2 (hs.fits n e he).2.1)

/-- Spilling moves every argument that has to move. -/
lemma Spillable.spillInOrder {s : Graph} {exports : List Export} (hp : p.Spillable lp)
    (hperm : exports.Perm p.summary.exports) (hrun : Build.spillInOrder exports p = .ok ⟨⟩ s) :
    ∃ es done ls, Passing p lp es done s ls ∧ AllStored es ∧ p.AllMoved lp done := by
  obtain ⟨g₁, hexports, hdirect⟩ := Build.spillInOrder_eq_ok hrun
  obtain ⟨es₁, done₁, l₁, hg₁, hstored₁, huses⟩ := hp.spillExports hperm hexports
  obtain ⟨loads, done, ls, honly, hs, hloaded⟩ := hg₁.loadDirects hp hdirect
  refine ⟨_, done₁ ++ done, ls, hs, hstored₁.append honly, fun n i a ha hmoves => ?_⟩
  have hprec := hmoves.2.1
  cases hsource : (p.node (p.source a)).isMemory with
  | true =>
    have hkind := hmoves.2.2
    rw [if_pos hsource] at hkind
    exact hloaded n hprec.right_mem hkind.2 i a ha hmoves hsource
  | false =>
    have hclustered := hp.clustered _ hprec.left_mem hsource
    obtain ⟨e, he, u, hu, heq⟩ := exists_export hp.toLists ha hmoves hsource hclustered
    rw [← heq]
    exact mem_append_left _ (huses e he u hu)

lemma Spillable.spill {s : Graph} (hp : p.Spillable lp) (hrun : Build.spill p = .ok ⟨⟩ s) :
    ∃ es done ls, Passing p lp es done s ls ∧ AllStored es ∧ p.AllMoved lp done :=
  hp.spillInOrder (exportsByCluster_perm _) (Build.spill_eq p ▸ hrun)

end Graph

end KernelFusion
