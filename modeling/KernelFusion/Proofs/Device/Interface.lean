/-
The inputs and outputs of a program.

A program is to take one tensor for each input that was declared, and to return one for each output
that was asked for (`HasInterface`). A node has one role and one place only: an output that is
asked for twice is returned once, and an input that is asked for cannot be handed in.
-/
import KernelFusion.Proofs.Device.Accounts
import KernelFusion.Proofs.Pass.Dangling
import KernelFusion.Proofs.Pass.Roles
import KernelFusion.Proofs.Recording.Inputs

namespace KernelFusion

open List Bindings

lemma filter_eq_filter_of_sublist {α : Type} {l l' : List α} {q : α → Bool} (hsub : l.Sublist l')
    (hnodup : l'.Nodup) (hmem : ∀ x ∈ l', q x → x ∈ l) : l'.filter q = l.filter q := by
  refine ((hsub.filter q).eq_of_length_le ?_).symm
  refine (subperm_of_subset (hnodup.filter q) fun x hx => ?_).length_le
  obtain ⟨hx, hq⟩ := mem_filter.1 hx
  exact mem_filter.2 ⟨hmem x hx hq, hq⟩

namespace Graph

variable {outputs : List NodeId} {g c o p s t f : Graph} {origin : NodeId → NodeId}
  {es : List (NodeId × Entry)} {done : List (NodeId × Nat)} {ks : List Kernel} {n m v : NodeId}

/-! ### Roles in the last graph -/

/-- The memory holds the tensor: it is the tensor itself, or the tensor is stored in it. -/
def Holds (g : Graph) (m v : NodeId) : Prop :=
  m = v ∧ (g.node v).isMemory ∨
    (g.node m).type = (g.node v).type ∧ ∃ w ∈ g.order, (g.node w).op.name = "store" ∧
      g.memoryOf? w = some m ∧ ∃ a ∈ (g.node w).args, a.kind = .input ∧ g.source a = v

/-- The outputs that were asked for, each at the last place at which it was, are held by memory, and
no other memory is an output. -/
structure Exposes (f : Graph) (asked : List NodeId) (holder : NodeId → NodeId) : Prop where
  mem : ∀ v ∈ asked, holder v ∈ f.order
  isMemory : ∀ v ∈ asked, (f.node (holder v)).isMemory
  holds : ∀ v ∈ asked, f.Holds (holder v) v
  role : ∀ v ∈ asked, (f.node (holder v)).role = .output
  slot : ∀ v ∈ asked, ∃ i : Nat, asked[i]? = some v ∧ (f.node (holder v)).slot = i
  only : ∀ m ∈ f.order, (f.node m).role = .output → ∃ v ∈ asked, m = holder v

namespace Stages

variable (hs : Stages outputs g c o p s t origin es done)

include hs

lemma mem_left (hn : n < g.nodes.size)
    (hleft : (g.node n).isMemory ∨ n ∈ outputs) : n ∈ p.order := by
  have hno : n ∈ o.order := by
    refine hs.rebuilt.listed.subset ?_
    rw [hs.order_cut]
    exact mem_range.2 hn
  refine (hs.left n).2 ⟨hno, hleft.imp (fun hmem => ?_) fun hout => ?_⟩
  · obtain ⟨role, slot, cluster, hcut⟩ := hs.node_cut n
    rw [hs.rebuilt.grown.isMemory (by rwa [hs.size_cut]), hcut]
    exact hmem
  · refine isNeeded_of_output hno ?_
    rw [← hs.pruned.thinned.node_eq n, (hs.sameRoles n).1]
    exact ((role_withOutputs outputs hn).1 hout).1

lemma role_eq_input_iff (n : NodeId) :
    (t.node n).role = .input ↔ (g.node n).role = .input ∧ n ∉ outputs := by
  obtain ⟨es', done', ls, -, -, hhands, -⟩ := hs.pruned.spillable.handsOver hs.spill
  rw [(hs.addressing.evolves.roles n).1, hhands.role_eq_input_iff, (hs.sameRoles n).1]
  by_cases hn : n < g.nodes.size
  · obtain ⟨hin, hnot⟩ := role_withOutputs (g := g) outputs hn
    by_cases hmem : n ∈ outputs
    · simp [(hin hmem).1, hmem]
    · simp [hnot hmem, hmem]
  · have hge := Nat.le_of_not_lt hn
    rw [node_eq_default hge, node_eq_default (by rwa [size_withOutputs])]
    exact ⟨nofun, nofun⟩

/-- The passes keep the declared inputs, those asked for as outputs apart. -/
lemma inputNodes_eq (hg : g.Recorded)
    (hmemory : ∀ n, (g.node n).role = .input → (g.node n).isMemory) :
    t.inputNodes = g.inputNodes.filter (· ∉ outputs) := by
  have hlt : ∀ n, (t.node n).role = .input → n < g.nodes.size := fun n hrole =>
    lt_size_of_node (P := fun x => x.role = .input) ((hs.role_eq_input_iff n).1 hrole).1 (by decide)
  have hleft : ∀ n, (t.node n).role = .input → n ∈ p.order := fun n hrole =>
    hs.mem_left (hlt n hrole) (.inl (hmemory n ((hs.role_eq_input_iff n).1 hrole).1))
  calc t.inputNodes = p.order.filter fun n => (t.node n).role = .input :=
        filter_eq_filter_of_sublist (hs.passing.listed.trans hs.addressing.listed)
          hs.addressing.lists.chain.nodup fun n _ hrole => hleft n (of_decide_eq_true hrole)
    _ = o.order.filter fun n => (t.node n).role = .input :=
        (filter_eq_filter_of_sublist hs.thin hs.tidy.lists.chain.nodup fun n _ hrole =>
          hleft n (of_decide_eq_true hrole)).symm
    _ = c.order.filter fun n => (t.node n).role = .input := by
        refine filter_eq_filter_of_sublist hs.rebuilt.listed hs.tidy.lists.chain.nodup
          fun n _ hrole => ?_
        rw [hs.order_cut]
        exact mem_range.2 (hlt n (of_decide_eq_true hrole))
    _ = g.inputNodes.filter (· ∉ outputs) := by
        rw [hs.order_cut, inputNodes, hg.order, filter_filter]
        refine filter_congr fun n _ => ?_
        rw [Bool.eq_iff_iff]
        simp [hs.role_eq_input_iff n, and_comm]

/-- The memory that brings a value holds it in the lowered program. -/
lemma holds_of_brings {es : List (NodeId × Entry)} {done : List (NodeId × Nat)}
    (hpassing : Passing p p.order es done s s.order) (hstored : AllStored es) (hv : v ∈ p.order)
    (hm : Brings p es m v) :
    m ∈ t.order ∧ (t.node m).isMemory ∧ t.Holds m v := by
  have hflat := hs.addressing
  have hin : ∀ n ∈ s.order, n < s.nodes.size := fun n hn => hpassing.lt_size hn
  have hvs := hpassing.listed.subset hv
  rcases hm with ⟨hmem, rfl⟩ | hm
  · have hmemory : (t.node m).isMemory := by
      rw [hflat.outline.isMemory (hin m hvs), hpassing.isMemory_eq hv, hmem]
    exact ⟨hflat.listed.subset hvs, hmemory, .inl ⟨rfl, hmemory⟩⟩
  · obtain ⟨hms, -, hfits⟩ := hpassing.fits m _ hm
    obtain ⟨w, hw⟩ := hstored m v hm
    obtain ⟨hws, -, hstore⟩ := hpassing.fits w _ hw
    refine ⟨hflat.listed.subset hms, by rw [hflat.outline.isMemory (hin m hms), hfits.isMemory],
      .inr ⟨?_, w, hflat.listed.subset hws, ?_, ?_, ?_⟩⟩
    · rw [hflat.evolves.type m (hin m hms), hflat.evolves.type v (hin v hvs), hfits.type,
        hpassing.extended.type v (hpassing.old v hv)]
    · rw [hflat.evolves.op w (hin w hws), hstore.stores.name]
    · obtain ⟨a, ha, -, hkind, hsource⟩ := exists_of_mem_taken (g := s) (n := w) (v := m)
        (k := .memory)
        (by rw [hstore.stores.taken]; simp)
      rw [hflat.memoryOf?_eq hs.spilled.toSparse hws, hs.spilled.toSparse.memoryOf?_eq_source hws
          (Operation.accesses_of_store hstore.table hstore.stores.name) ha hkind, hsource]
    · obtain ⟨a, ha, -, hkind, hsource⟩ :=
        exists_of_mem_taken (g := s) (n := w) (v := v) (k := .input)
        (by rw [hstore.stores.taken]; simp)
      have ha' : a ∈ (t.node w).args := by
        have hmem : a ∈ (s.node w).args.filter fun a => a.kind = .input :=
          mem_filter.2 ⟨ha, by simpa using hkind⟩
        rw [← hflat.evolves.others w (hin w hws) .input (by decide)] at hmem
        exact (mem_filter.1 hmem).1
      refine ⟨a, ha', hkind, ?_⟩
      have hlt := hs.spilled.toSparse.inside w hws a ha
      rw [hflat.labelled.source (Nat.lt_of_lt_of_le hlt hflat.outline.size), ← hsource,
        hs.spilled.toSparse.source_eq hws ha]

/-- Every asked node is held by a memory at its place among the outputs. -/
lemma exists_exposes (hout : ∀ n ∈ outputs, n < g.nodes.size)
    (hnone : ∀ n, (g.node n).role ≠ .output) : ∃ holder, t.Exposes outputs holder := by
  obtain ⟨es', done', ls, hpassing, hstored, hhands, hall⟩ := hs.pruned.spillable.handsOver hs.spill
  obtain rfl := hpassing.toLists.order
  have hroles := hs.addressing.evolves.roles
  have hrole : ∀ v ∈ outputs, (p.node v).role = .output := fun v hv => by
    rw [(hs.sameRoles v).1]
    exact ((role_withOutputs outputs (hout v hv)).1 hv).1
  have hbrings : ∀ v, ∃ m, v ∈ outputs → Brings p es' m v := by
    intro v
    by_cases hv : v ∈ outputs
    · cases hmem : (p.node v).isMemory with
      | true => exact ⟨v, fun _ => .inl ⟨hmem, rfl⟩⟩
      | false =>
        obtain ⟨m, hm⟩ := hall v (hs.mem_left (hout v hv) (.inr hv)) hmem (hrole v hv)
        exact ⟨m, fun _ => .inr hm⟩
    · exact ⟨0, fun h => absurd h hv⟩
  choose holder hholder using hbrings
  have hheld := fun v hv =>
    hs.holds_of_brings hpassing hstored (hs.mem_left (hout v hv) (.inr hv)) (hholder v hv)
  have htaken := fun v hv =>
    hhands.of_brings hpassing (hs.mem_left (hout v hv) (.inr hv)) (hrole v hv) (hholder v hv)
  refine ⟨holder,
    { mem := fun v hv => (hheld v hv).1
      isMemory := fun v hv => (hheld v hv).2.1
      holds := fun v hv => (hheld v hv).2.2
      role := fun v hv => (hroles _).1.trans (htaken v hv).1
      slot := fun v hv => ?_
      only := fun m hm hrolem => ?_ }⟩
  · obtain ⟨-, i, hi, hplace⟩ := (role_withOutputs outputs (hout v hv)).1 hv
    refine ⟨i, hi, ?_⟩
    rw [(hroles _).2, (htaken v hv).2, (hs.sameRoles v).2, hplace]
  · have hrole' : (s.node m).role = .output := (hroles m).1.symm.trans hrolem
    have hlt := lt_size_of_node (P := fun x => x.role = .output) hrole' (by decide)
    obtain ⟨v, hvp, hrolev, hm'⟩ :=
      hhands.exists_brings hpassing hall (hs.addressing.old m hm hlt) hrole'
    rw [(hs.sameRoles v).1] at hrolev
    have hv : v ∈ outputs := by
      by_contra hno
      by_cases hltv : v < g.nodes.size
      · rw [(role_withOutputs outputs hltv).2 hno] at hrolev
        exact hnone v hrolev
      · rw [node_eq_default (by rw [size_withOutputs]; exact Nat.le_of_not_lt hltv)] at hrolev
        cases hrolev
    exact ⟨v, hv, hhands.brings_unique hpassing hm' (hholder v hv)⟩

end Stages

end Graph

/-! ### Runs -/

namespace Bindings

variable {g : Graph} {given : List Buffer}

lemma exists_of_foldlM_eq_error {α β : Type} {f : β → α → Except Fault β} {l : List α} {b : β}
    {e : Fault} (h : l.foldlM f b = .error e) : ∃ b' a, f b' a = .error e := by
  induction l generalizing b with
  | nil => cases h
  | cons a l ih =>
    rw [foldlM_cons, Except.bind_eq_error] at h
    rcases h with h | ⟨b', -, h⟩
    · exact ⟨b, a, h⟩
    · exact ih h

lemma ofInputs_eq_inputCount_iff :
    (∃ expected got, ofInputs g given = .error (.inputCount expected got)) ↔
      given.length ≠ g.inputNodes.length := by
  show (∃ expected got, (if g.inputNodes.length = given.length then
    (g.inputNodes.zip given).zipIdx.foldlM (bindInput g) {} else
      .error (.inputCount g.inputNodes.length given.length)) =
        Except.error (.inputCount expected got)) ↔ _
  split
  · rename_i hlen
    refine ⟨?_, fun hne => absurd hlen.symm hne⟩
    rintro ⟨expected, got, h⟩
    -- sizes that disagree are another fault
    obtain ⟨bound, q, h⟩ := exists_of_foldlM_eq_error h
    obtain ⟨bound', size, h⟩ := exists_of_foldlM_eq_error h
    rw [bindSize] at h
    split at h
    · cases h
    · cases h
  · rename_i hlen
    exact ⟨fun _ heq => hlen heq.symm, fun _ => ⟨_, _, rfl⟩⟩

/-- The sizes that an input declares, with nothing known taken for zero. -/
def declaredShape (g : Graph) (n : NodeId) : List Int :=
  (g.declared n).map fun d => if (g.node d).isConst then signed (g.node d).word else 0

lemma exists_ofInputs_eq_ok (g : Graph) : ∃ given bound, ofInputs g given = .ok bound := by
  refine ⟨g.inputNodes.map fun n => { (default : Buffer) with shape := declaredShape g n }, _,
    ofInputs_eq_ok_iff.2 ⟨by simp, fun q hq => ?_, rfl⟩⟩
  obtain ⟨r, hr, hq⟩ := mem_flatMap.1 hq
  obtain ⟨i, hi, hvalue⟩ := mem_sizesOfInput.1 hq
  have hshape : r.2.shape = declaredShape g r.1 := by
    rw [zip_map_right, mem_map] at hr
    obtain ⟨⟨n, n'⟩, hr, rfl⟩ := hr
    obtain ⟨j, hj⟩ := mem_iff_getElem?.1 hr
    rw [getElem?_zip_eq_some] at hj
    obtain rfl : n = n' := Option.mem_unique hj.1 hj.2
    rfl
  intro hconst
  rw [hvalue, hshape, declaredShape, getD_eq_getElem?_getD, getElem?_map, hi]
  simp [hconst]

end Bindings

namespace Run

variable {g : Graph} {effect : Effect} {given : List Buffer} {m m' : Machine} {ks : List Kernel}

lemma exists_kernels_eq_ok (g : Graph) (effect : Effect) (ks : List Kernel) (bound : Bindings)
    (number : Nat) (m : Machine) :
    ∃ bound' m', kernels g effect true bound number ks m = .ok bound' m' := by
  induction ks generalizing bound number m with
  | nil => exact ⟨bound, m, rfl⟩
  | cons kn ks ih =>
    cases hkind : kn.kind with
    | memory =>
      obtain ⟨bound', m', hrun⟩ := ih _ _ _
      exact ⟨bound', m', kernels_cons_eq_ok_iff.2 ⟨_, _, .memory hkind, fun _ => rfl, hrun⟩⟩
    | compute =>
      obtain ⟨bound', m', hrun⟩ := ih _ _ _
      exact ⟨bound', m', kernels_cons_eq_ok_iff.2 ⟨_, _, .compute hkind, fun _ => rfl, hrun⟩⟩

lemma exists_execute_eq_ok {bound : Bindings} (hbound : ofInputs g given = .ok bound)
    (effect : Effect) (ks : List Kernel) (m : Machine) :
    ∃ outs m', execute g ks effect true given m = .ok outs m' := by
  obtain ⟨bound', m₁, hrun⟩ := exists_kernels_eq_ok g effect ks bound 0 m
  exact ⟨_, _, execute_eq_ok_iff.2 ⟨bound, bound', m₁, hbound, hrun, rfl, rfl⟩⟩

/-- A compiled program fails only where its inputs are refused. -/
lemma execute_eq_error_iff {e : Fault} : (∃ m', execute g ks effect true given m = .error e m') ↔
    ofInputs g given = .error e := by
  cases hbound : ofInputs g given with
  | error e' =>
    have hrun : execute g ks effect true given m = .error e' m := by
      rw [execute, executeWith, hbound]
      rfl
    rw [hrun]
    constructor
    · rintro ⟨m', h⟩
      obtain ⟨rfl, -⟩ := EStateM.Result.error.inj h
      rfl
    · intro h
      exact ⟨m, by rw [Except.error.inj h]⟩
  | ok bound =>
    obtain ⟨outs, m', hrun⟩ := exists_execute_eq_ok hbound effect ks m
    rw [hrun]
    constructor
    · rintro ⟨m'', h⟩
      cases h
    · intro h
      cases h

end Run

namespace Graph

variable {f g : Graph} {ks : List Kernel} {declared asked outputs : List NodeId}
  {holder : NodeId → NodeId}

/-- The program takes one tensor for each declared input and returns one for each output asked
for. -/
structure HasInterface (f : Graph) (ks : List Kernel) (declared asked : List NodeId) : Prop where
  count : ∀ effect given m,
    (∃ expected got m', Run.execute f ks effect true given m = .error
    (.inputCount expected got) m') ↔
      given.length ≠ declared.length
  bound : ∀ given start, ofInputs f given = .ok start →
    Forall₂ (fun n b => start.buffers.lookup n = some b) declared given
  returned : ∀ effect given m outs m', Run.execute f ks effect true given m = .ok outs m' →
    ∃ start bound m₁ holders, ofInputs f given = .ok start ∧
      Run.kernels f effect true start 0 ks m = .ok bound m₁ ∧
      Forall₂ f.Holds holders asked ∧ (∀ n ∈ holders, n ∈ allocatedNodes ks) ∧
      outs = holders.map bound.buffer

lemma nodup_of_pairwise_slot {nodes : List NodeId}
    (h : nodes.Pairwise fun n v => (f.node n).slot < (f.node v).slot) : nodes.Nodup :=
  h.imp fun {n v} hlt heq => by
    rw [heq] at hlt
    exact absurd hlt (Int.lt_irrefl _)

namespace Exposes

variable (h : f.Exposes asked holder)

include h

lemma mem_allocatedNodes_iff (hkernels : f.kernels = .ok ks) {m : NodeId} :
    m ∈ allocatedNodes ks ∧ (f.node m).role = .output ↔ ∃ v ∈ asked, m = holder v := by
  rw [Graph.mem_allocatedNodes_iff hkernels]
  constructor
  · rintro ⟨⟨hm, -, -⟩, hrole⟩
    exact h.only m hm hrole
  · rintro ⟨v, hv, rfl⟩
    exact ⟨⟨h.mem v hv, h.isMemory v hv, by rw [h.role v hv]; decide⟩, h.role v hv⟩

lemma eq_of_slot_eq {v w : NodeId} (hv : v ∈ asked) (hw : w ∈ asked)
    (hslot : (f.node (holder v)).slot = (f.node (holder w)).slot) : v = w := by
  obtain ⟨i, hi, hslotv⟩ := h.slot v hv
  obtain ⟨j, hj, hslotw⟩ := h.slot w hw
  obtain rfl : i = j := by omega
  exact Option.mem_unique hi hj

/-- What a finished run returns: the buffers of the output nodes, by slot. -/
lemma exists_returned (hl : f.Lists f.order) (hkernels : f.kernels = .ok ks) {effect : Effect}
    {given outs : List Buffer} {m m' : Machine}
    (hrun : Run.execute f ks effect true given m = .ok outs m') :
    ∃ (start bound : Bindings) (m₁ : Machine) (nodes : List NodeId),
      ofInputs f given = .ok start ∧ Run.kernels f effect true start 0 ks m = .ok bound m₁ ∧
      (nodes.Pairwise fun n v => (f.node n).slot < (f.node v).slot) ∧
      (∀ n, n ∈ nodes ↔ ∃ v ∈ asked, n = holder v) ∧ outs = nodes.map bound.buffer := by
  obtain ⟨start, bound, m₁, hstart, hkrun, -, rfl⟩ := Run.execute_eq_ok_iff.1 hrun
  have hslots : ∀ n ∈ allocatedNodes ks, ∀ v ∈ allocatedNodes ks, (f.node n).role = .output →
      (f.node v).role = .output → (f.node n).slot = (f.node v).slot → n = v := by
    intro n hn v hv hrole hrole' hslot
    obtain ⟨a, ha, rfl⟩ := (h.mem_allocatedNodes_iff hkernels).1 ⟨hn, hrole⟩
    obtain ⟨b, hb, rfl⟩ := (h.mem_allocatedNodes_iff hkernels).1 ⟨hv, hrole'⟩
    rw [h.eq_of_slot_eq ha hb hslot]
  obtain ⟨taken, hnodes, htally⟩ := exists_tally (nodup_allocatedNodes hl hkernels)
    hslots hstart hkrun
  have hmem : ∀ q ∈ taken, q.1 ∈ allocatedNodes ks :=
    fun q hq => (mem_of_nodes hnodes).2 ⟨q, hq, rfl⟩
  obtain ⟨nodes, hsorted, hmemnodes, houts⟩ :=
    htally.exists_nodes (nodup_buffers hl hkernels hstart hnodes)
      fun q hq r hr => hslots q.1 (hmem q hq) r.1 (hmem r hr)
  refine ⟨start, bound, m₁, nodes, hstart, hkrun, hsorted, fun n => ?_, houts⟩
  rw [hmemnodes, hnodes, mem_reverse, h.mem_allocatedNodes_iff hkernels]

lemma pairwise_slot (hnodup : asked.Nodup) :
    (asked.map holder).Pairwise fun n v => (f.node n).slot < (f.node v).slot := by
  have hplace : ∀ (i : Nat) (hi : i < asked.length), (f.node (holder asked[i])).slot = i := by
    intro i hi
    obtain ⟨j, hj, hslot⟩ := h.slot _ (getElem_mem hi)
    obtain ⟨hlt, hj⟩ := List.getElem?_eq_some_iff.1 hj
    obtain rfl : j = i := (hnodup.getElem_inj_iff).1 hj
    exact hslot
  rw [pairwise_map, pairwise_iff_getElem]
  intro i j hi hj hij
  rw [hplace i hi, hplace j hj]
  omega

lemma eq_map_holder (hnodup : asked.Nodup) {nodes : List NodeId}
    (hsorted : nodes.Pairwise fun n v => (f.node n).slot < (f.node v).slot)
    (hmem : ∀ n, n ∈ nodes ↔ ∃ v ∈ asked, n = holder v) : nodes = asked.map holder := by
  -- both lists are sorted by place and have the same members
  have hpairwise := h.pairwise_slot hnodup
  have hperm : nodes.Perm (asked.map holder) :=
    (perm_ext_iff_of_nodup (nodup_of_pairwise_slot hsorted)
      (nodup_of_pairwise_slot hpairwise)).2 fun n => by
      rw [hmem, mem_map]
      exact exists_congr fun v => and_congr_right fun _ => eq_comm
  refine hperm.eq_of_pairwise (fun n v _ _ hlt hlt' => ?_) hsorted hpairwise
  exact absurd hlt (Int.not_lt.2 (Int.le_of_lt hlt'))

section

variable (hl : f.Lists f.order) (hkernels : f.kernels = .ok ks)

include hl hkernels

lemma of_hasInterface (hi : f.HasInterface ks declared asked) :
    asked.Nodup ∧ f.inputNodes.length = declared.length := by
  obtain ⟨given, start, hstart⟩ := exists_ofInputs_eq_ok f
  obtain ⟨outs, m', hrun⟩ := Run.exists_execute_eq_ok hstart traceEffect ks {}
  constructor
  · -- what is returned has as many elements as there are different outputs
    obtain ⟨_, bound, _, holders, -, -, hholds, -, houts⟩ := hi.returned _ _ _ _ _ hrun
    obtain ⟨_, bound', _, nodes, -, -, hsorted, hmem, houts'⟩ := h.exists_returned hl hkernels hrun
    have hlength : nodes.length = asked.length := by
      have heq := congrArg length (houts'.symm.trans houts)
      rw [length_map, length_map] at heq
      rw [heq, hholds.length_eq]
    have hle : nodes.length ≤ (asked.dedup.map holder).length := by
      refine (subperm_of_subset (nodup_of_pairwise_slot hsorted) fun n hn => ?_).length_le
      obtain ⟨v, hv, rfl⟩ := (hmem n).1 hn
      exact mem_map_of_mem (mem_dedup.2 hv)
    rw [length_map, hlength] at hle
    exact dedup_eq_self.1 ((dedup_sublist asked).eq_of_length_le hle)
  · rw [(ofInputs_eq_ok_iff.1 hstart).1]
    by_contra hne
    obtain ⟨expected, got, m', herror⟩ := (hi.count traceEffect given {}).2 hne
    rw [hrun] at herror
    cases herror

lemma hasInterface (hnodup : asked.Nodup) : f.HasInterface ks f.inputNodes asked := by
  refine ⟨fun effect given m => ?_, fun given start hstart => ?_,
    fun effect given m outs m' hrun => ?_⟩
  · rw [← ofInputs_eq_inputCount_iff]
    exact exists_congr fun expected => exists_congr fun got => Run.execute_eq_error_iff
  · obtain ⟨hlen, -, rfl⟩ := ofInputs_eq_ok_iff.1 hstart
    rw [forall₂_iff_zip]
    refine ⟨hlen, fun {n b} hmem => lookup_eq_some_of_mem ?_ (mem_reverse.2 hmem)⟩
    rw [map_reverse, map_fst_zip (Nat.le_of_eq hlen), nodup_reverse]
    exact hl.chain.nodup.filter _
  · obtain ⟨start, bound, m₁, nodes, hstart, hkrun, hsorted, hmem, rfl⟩ :=
      h.exists_returned hl hkernels hrun
    obtain rfl := h.eq_map_holder hnodup hsorted hmem
    refine ⟨start, bound, m₁, asked.map holder, hstart, hkrun, ?_, fun n hn => ?_, rfl⟩
    · rw [forall₂_map_left_iff, forall₂_same]
      exact h.holds
    · obtain ⟨v, hv, rfl⟩ := mem_map.1 hn
      exact ((h.mem_allocatedNodes_iff hkernels).2 ⟨v, hv, rfl⟩).1

lemma hasInterface_iff (hinputs : f.inputNodes = declared.filter (· ∉ asked)) :
    f.HasInterface ks declared asked ↔ asked.Nodup ∧ ∀ n ∈ asked, n ∉ declared := by
  constructor
  · intro hi
    obtain ⟨hnodup, hcount⟩ := h.of_hasInterface hl hkernels hi
    refine ⟨hnodup, fun n hn hdeclared => ?_⟩
    rw [hinputs, length_filter_eq_length_iff] at hcount
    have hnot := hcount n hdeclared
    simp [hn] at hnot
  · rintro ⟨hnodup, hapart⟩
    have hinputs' : f.inputNodes = declared := by
      rw [hinputs, filter_eq_self]
      intro n hn
      simpa using fun hasked => hapart n hasked hn
    exact hinputs' ▸ h.hasInterface hl hkernels hnodup

end

end Exposes

/-- A program has the interface that its steps declare if and only if its outputs are different
tensors and none of them is an input. -/
theorem program_hasInterface_iff {l : List Step} (hl : Step.allRegular l = true)
    (hp : Step.allObey .sealed l = true) (hout : ∀ n ∈ outputs,
    n < (Script.scene l).graph.nodes.size)
    (hrun : Build.transform outputs (Script.scene l).graph = .ok ks f) :
    f.HasInterface ks (Step.allInputs l { graph := Graph.opened }) outputs ↔
      outputs.Nodup ∧ ∀ n ∈ outputs, n ∉ Step.allInputs l { graph := Graph.opened } := by
  have hg := (Script.recorded hl).graph
  have hroles := Script.roles_scene hl hp
  obtain ⟨c, o, p, s, t, origin, es, done, hs, hkernels, rfl⟩ := hg.stages hrun
  have hinputs := hs.inputNodes_eq hg fun n hrole => (hroles n).2 (by rw [hrole]; decide)
  obtain ⟨holder, h⟩ := hs.exists_exposes hout fun n => (hroles n).1
  rw [Script.inputNodes_scene hl hp] at hinputs
  have hclosed : Exposes { t with recording := false } outputs holder :=
    ⟨h.mem, h.isMemory, h.holds, h.role, h.slot, h.only⟩
  have hlists := hs.addressing.lists
  exact hclosed.hasInterface_iff ⟨hlists.chain, hlists.first, hlists.size⟩ hkernels hinputs

end Graph

/-- The sine and the cosine of an input of any length. -/
def sineAndCosine : List Step :=
  [ .act (.input .float (.sizes [-1])) (some "A"),
    .act (.call (.named "sin") ["A"]) (some "x"),
    .act (.call (.named "cos") ["A"]) (some "y") ]

lemma allInputs_sineAndCosine : Step.allInputs sineAndCosine { graph := Graph.opened } = [1] := by
  decide +kernel

theorem Graph.program_hasInterface_sineAndCosine : ∃ ks f,
    Build.transform [3, 2] (Script.scene sineAndCosine).graph = .ok ks f ∧
    f.HasInterface ks [1] [3, 2] := by
  obtain ⟨ks, f, hrun, -⟩ : ∃ ks f, Build.transform [3, 2] (Script.scene sineAndCosine).graph =
    .ok ks f ∧ True := by
    decide +kernel
  have hiff := Graph.program_hasInterface_iff (by decide +kernel) (by decide +kernel)
    (by decide +kernel) hrun
  rw [allInputs_sineAndCosine] at hiff
  exact ⟨ks, f, hrun, hiff.2 ⟨by decide, by decide⟩⟩

/-- A program may return less than was asked for. -/
theorem Graph.not_forall_program_hasInterface :
    ¬ ∀ (l : List Step) (outputs : List NodeId) (ks : List Kernel) (f : Graph),
    Step.allRegular l = true →
      Step.allObey .sealed l = true → (∀ n ∈ outputs, n < (Script.scene l).graph.nodes.size) →
      Build.transform outputs (Script.scene l).graph = .ok ks f →
      f.HasInterface ks (Step.allInputs l { graph := Graph.opened }) outputs := by
  intro hall
  obtain ⟨ks, f, hrun, outs, m', hexecute, hone⟩ : ∃ ks f,
      Build.transform [2, 2] (Script.scene sineAndCosine).graph = .ok ks f ∧ ∃ outs m',
      Run.execute f ks traceEffect true [fourWords] (crowded []) = .ok outs m' ∧
      outs.length = 1 := by
    decide +kernel
  have hface :=
    hall sineAndCosine [2, 2] ks f (by decide +kernel) (by decide +kernel) (by decide +kernel) hrun
  obtain ⟨_, _, _, holders, -, -, hholds, -, houts⟩ := hface.returned _ _ _ _ _ hexecute
  rw [houts, length_map, hholds.length_eq] at hone
  cases hone

end KernelFusion
