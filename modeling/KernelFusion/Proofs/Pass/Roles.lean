/-
Outputs and inputs when values go through memory.

Only one thing touches roles: an output that is a value hands its role over to its memory
(`HandsOver`).
-/
import KernelFusion.Proofs.Pass.Spill

namespace KernelFusion

open List

instance : IsPreorder Graph Graph.SameRoles where
  refl := Graph.SameRoles.refl
  trans _ _ _ h h' := h.trans h'

/-! ### What the actions of the pass do to roles -/

namespace Build

open KernelFusion.Graph

variable {g g' : Graph} {e : Export} {m n : NodeId} {i : Nat} {u : Use}

lemma sameRoles_loadFor (hrun : loadFor m n i g = .ok ⟨⟩ g') : g.SameRoles g' := by
  obtain ⟨op, -, -, -, rfl⟩ := loadFor_eq_ok hrun
  exact (SameRoles.insert (g.enter .before n true) op _ _).trans (Grown.setSource _ n i _).roles

lemma sameRoles_spillUse (hrun : spillUse m u g = .ok ⟨⟩ g') : g.SameRoles g' := by
  unfold spillUse at hrun
  split at hrun
  · cases hrun
    exact SameRoles.modifyNode fun _ => ⟨rfl, rfl⟩
  · exact sameRoles_loadFor hrun

lemma sameRoles_spillStore (hrun : spillStore e m g = .ok ⟨⟩ g') : g.SameRoles g' := by
  obtain ⟨g₁, hact, rfl⟩ := placed_eq_ok.1 hrun
  obtain ⟨x, g₂, hstore, hmodify⟩ := bind_eq_ok.1 hact
  obtain ⟨rfl, op, o, type, -, -, -, -, -, rfl⟩ := access_eq_ok (by decide +kernel) hstore
  cases hmodify
  have hinsert := SameRoles.insert (g.enter .after e.node true) op type
    ((g.enter .after e.node true).accessArguments m [] [e.node])
  refine hinsert.trans fun v => ⟨?_, ?_⟩
  · exact modifyNode_congr Node.role fun _ => rfl
  · exact modifyNode_congr Node.slot fun _ => rfl

lemma sameRoles_loadDirect (hrun : loadDirect n g = .ok ⟨⟩ g') : g.SameRoles g' := by
  refine of_loadDirect_eq_ok (P := fun _ s => g.SameRoles s) hrun ?_ (fun _ _ _ _ _ hs => hs)
    (SameRoles.refl g)
  intro before b i s s' _ _ _ _ hs hstep
  exact hs.trans (sameRoles_loadFor hstep)

lemma setRole_setRole {v : NodeId} (hv : v < g.nodes.size) (hm : m < g.nodes.size) (hne : m ≠ v)
    (slot : Int) :
    (((g.setRole m .output slot).setRole v .scratch slot).node v).role = .scratch ∧
      (((g.setRole m .output slot).setRole v .scratch slot).node m).role = .output ∧
      (((g.setRole m .output slot).setRole v .scratch slot).node m).slot = slot ∧
      ∀ n, n ≠ v → n ≠ m → ((g.setRole m .output slot).setRole v .scratch slot).node n =
      g.node n := by
  have hsize : (g.setRole m .output slot).nodes.size = g.nodes.size := size_nodes_modifyNode
  have hnode : ((g.setRole m .output slot).setRole v .scratch slot).node m =
      { g.node m with role := .output, slot := slot } :=
    (node_modifyNode_of_ne hne).trans (node_modifyNode_self hm)
  refine ⟨?_, by rw [hnode], by rw [hnode], fun n hn hn' => ?_⟩
  · rw [setRole, node_modifyNode_self (by rwa [hsize])]
  · exact (node_modifyNode_of_ne hn).trans (node_modifyNode_of_ne hn')

/-- An output's role and slot move to the memory it is spilled to. -/
lemma roles_spillExport (hv : e.node < g.nodes.size) (hrun : spillExport e g = .ok ⟨⟩ g') :
    ((g.node e.node).role ≠ .output → g.SameRoles g') ∧
      ((g.node e.node).role = .output → (g'.node e.node).role = .scratch ∧
        (g'.node g.nodes.size).role = .output ∧ (g'.node g.nodes.size).slot = (g.node e.node).slot ∧
        ∀ n, n ≠ e.node → n ≠ g.nodes.size →
          (g'.node n).role = (g.node n).role ∧ (g'.node n).slot = (g.node n).slot) := by
  obtain ⟨h, m, g₁, g₂, -, hmemory, huses, hstore⟩ := spillExport_eq_ok hrun
  have hrest : g₁.SameRoles g' := SameRoles.trans
    (rel_of_forM_eq_ok huses fun u _ _ _ _ hu => sameRoles_spillUse hu)
    (sameRoles_spillStore hstore)
  obtain ⟨rfl, op, -, -, -, ⟨hrole, rfl⟩ | ⟨hrole, rfl⟩⟩ := spillMemory_eq_ok hv hmemory
  · refine ⟨fun _ => ?_, fun h => absurd h hrole⟩
    exact SameRoles.trans (SameRoles.insert (g.enter .before h false) op _ _) hrest
  · refine ⟨fun h => absurd hrole h, fun _ => ?_⟩
    have hinsert := SameRoles.insert (g.enter .before h false) op (g.node e.node).type
      ((g.node e.node).arguments .shape)
    have hsize : ((g.enter .before h false).insert op (g.node e.node).type
        ((g.node e.node).arguments .shape)).nodes.size = g.nodes.size + 1 := size_nodes_insert
    obtain ⟨hold, hnew, hslot, hother⟩ :=
      setRole_setRole (by rw [hsize]; exact Nat.lt_succ_of_lt hv)
      (by rw [hsize]; exact Nat.lt_succ_self _) (Nat.ne_of_lt hv).symm (g.node e.node).slot
    refine ⟨(hrest _).1.trans hold, (hrest _).1.trans hnew, (hrest _).2.trans hslot,
      fun n hn hn' => ?_⟩
    have hsame := hother n hn hn'
    exact ⟨(hrest n).1.trans ((congrArg Node.role hsame).trans (hinsert n).1),
      (hrest n).2.trans ((congrArg Node.slot hsame).trans (hinsert n).2)⟩

end Build

namespace Graph

variable {g g' p s : Graph} {l lp : List NodeId} {m n v : NodeId} {es es' : List (NodeId × Entry)}
  {done : List (NodeId × Nat)}

/-! ### The ledger and roles -/

/-- The roles of a graph whose outputs have handed their roles over to the memory of the ledger. -/
structure HandsOver (p : Graph) (es : List (NodeId × Entry)) (g : Graph) : Prop where
  once : ∀ {m m' v}, (m, Entry.memory v) ∈ es → (m', Entry.memory v) ∈ es → m = m'
  kept : ∀ n < p.nodes.size, ((p.node n).role = .output → ∀ m, (m, Entry.memory n) ∉ es) →
    (g.node n).role = (p.node n).role ∧ (g.node n).slot = (p.node n).slot
  handed : ∀ {m v}, (m, Entry.memory v) ∈ es → (p.node v).role = .output →
    (g.node v).role = .scratch ∧ (g.node m).role = .output ∧ (g.node m).slot = (p.node v).slot
  fresh : ∀ n, p.nodes.size ≤ n → (g.node n).role ≠ .scratch →
    ∃ v, (n, Entry.memory v) ∈ es ∧ (p.node v).role = .output

namespace HandsOver

lemma start (p : Graph) : p.HandsOver [] p := by
  refine ⟨by simp, fun n _ _ => ⟨rfl, rfl⟩,
    by simp, fun n hn hrole => absurd ?_ hrole⟩
  rw [node_eq_default hn]
  rfl

lemma congr (h : p.HandsOver es g) (hroles : g.SameRoles g')
    (hes : ∀ m v, (m, Entry.memory v) ∈ es' ↔ (m, Entry.memory v) ∈ es) : p.HandsOver es' g' := by
  refine ⟨fun hm hm' => h.once ((hes _ _).1 hm) ((hes _ _).1 hm'), fun n hn hnone => ?_,
    fun {m v} hm hout => ?_, fun n hn hrole => ?_⟩
  · rw [(hroles n).1, (hroles n).2]
    exact h.kept n hn fun hout m hm => hnone hout m ((hes m n).2 hm)
  · rw [(hroles v).1, (hroles m).1, (hroles m).2]
    exact h.handed ((hes m v).1 hm) hout
  · rw [(hroles n).1] at hrole
    obtain ⟨v, hv, hout⟩ := h.fresh n hn hrole
    exact ⟨v, (hes n v).2 hv, hout⟩

/-- Spilling one export keeps the handover. -/
lemma spillExport {e : Export} (h : p.HandsOver es g) (hg : Passing p lp es done g l)
    (he : p.Exports lp e) (hnew : ∀ m, (m, Entry.memory e.node) ∉ es)
    (hrun : Build.spillExport e g = .ok ⟨⟩ g')
    (hes : ∀ m v, (m, Entry.memory v) ∈ es' ↔
      (m, Entry.memory v) ∈ es ∨ m = g.nodes.size ∧ v = e.node) : p.HandsOver es' g' := by
  have hold := hg.old _ he.mem
  have hgrown := hg.extended.size
  obtain ⟨hsame, hslot⟩ := h.kept e.node hold fun _ => hnew
  obtain ⟨hkeeps, hhands⟩ := Build.roles_spillExport (Nat.lt_of_lt_of_le hold hgrown) hrun
  have honce : ∀ {m m' v}, (m, Entry.memory v) ∈ es' → (m', Entry.memory v) ∈ es' → m = m' := by
    intro m m' v hm hm'
    rcases (hes m v).1 hm with hm | ⟨rfl, rfl⟩
    · rcases (hes m' v).1 hm' with hm' | ⟨rfl, rfl⟩
      · exact h.once hm hm'
      · exact absurd hm (hnew m)
    · rcases (hes m' _).1 hm' with hm' | ⟨rfl, -⟩
      · exact absurd hm' (hnew m')
      · rfl
  by_cases hrole : (g.node e.node).role = .output
  · obtain ⟨hscratch, houtput, hplace, hother⟩ := hhands hrole
    refine ⟨honce, fun n hn hnone => ?_, fun {m v} hm hout => ?_, fun n hn hrole' => ?_⟩
    · have hne : n ≠ e.node := by
        rintro rfl
        exact hnone (hsame.symm.trans hrole) g.nodes.size ((hes _ _).2 (.inr ⟨rfl, rfl⟩))
      obtain ⟨hr, hs⟩ := hother n hne (Nat.ne_of_lt (Nat.lt_of_lt_of_le hn hgrown))
      rw [hr, hs]
      exact h.kept n hn fun hout m hm => hnone hout m ((hes m n).2 (.inl hm))
    · rcases (hes m v).1 hm with hm | ⟨rfl, rfl⟩
      · -- neither the value nor its memory is touched
        obtain ⟨hml, hge, hfits⟩ := hg.fits m _ hm
        have hv := hg.old v hfits.mem
        have hve : v ≠ e.node := by
          rintro rfl
          exact hnew m hm
        have hme : m ≠ e.node := by
          rintro rfl
          exact absurd hold (Nat.not_lt.2 hge)
        rw [(hother v hve (Nat.ne_of_lt (Nat.lt_of_lt_of_le hv hgrown))).1,
          (hother m hme (Nat.ne_of_lt (hg.lt_size hml))).1,
          (hother m hme (Nat.ne_of_lt (hg.lt_size hml))).2]
        exact h.handed hm hout
      · exact ⟨hscratch, houtput, hplace.trans hslot⟩
    · by_cases hnew' : n = g.nodes.size
      · exact ⟨e.node, (hes _ _).2 (.inr ⟨hnew', rfl⟩), hsame.symm.trans hrole⟩
      · have hne : n ≠ e.node := by
          rintro rfl
          exact absurd hold (Nat.not_lt.2 hn)
        rw [(hother n hne hnew').1] at hrole'
        obtain ⟨v, hv, hout⟩ := h.fresh n hn hrole'
        exact ⟨v, (hes n v).2 (.inl hv), hout⟩
  · have h' := h.congr (hkeeps hrole) fun _ _ => Iff.rfl
    refine ⟨honce, fun n hn hnone => ?_, fun {m v} hm hout => ?_, fun n hn hrole' => ?_⟩
    · exact h'.kept n hn fun hout m hm => hnone hout m ((hes m n).2 (.inl hm))
    · rcases (hes m v).1 hm with hm | ⟨rfl, rfl⟩
      · exact h'.handed hm hout
      · exact absurd (hsame.trans hout) hrole
    · obtain ⟨v, hv, hout⟩ := h'.fresh n hn hrole'
      exact ⟨v, (hes n v).2 (.inl hv), hout⟩

lemma role_eq_input_iff (h : p.HandsOver es g) (n : NodeId) :
    (g.node n).role = .input ↔ (p.node n).role = .input := by
  by_cases hn : n < p.nodes.size
  · constructor
    · intro hrole
      have hnone : (p.node n).role = .output → ∀ m, (m, Entry.memory n) ∉ es := by
        intro hout m hm
        rw [(h.handed hm hout).1] at hrole
        cases hrole
      exact (h.kept n hn hnone).1.symm.trans hrole
    · intro hrole
      refine (h.kept n hn fun hout => ?_).1.trans hrole
      rw [hrole] at hout
      cases hout
  · have hdefault : (p.node n).role ≠ .input := by
      rw [node_eq_default (Nat.le_of_not_lt hn)]
      exact nofun
    refine ⟨fun hrole => ?_, fun hrole => absurd hrole hdefault⟩
    -- what has entered has no role, or it is an output
    obtain ⟨v, hv, hout⟩ := h.fresh n (Nat.le_of_not_lt hn) (by rw [hrole]; decide)
    rw [(h.handed hv hout).2.1] at hrole
    cases hrole

end HandsOver

/-! ### The whole pass -/

lemma OnlyLoads.memory_notMem (h : OnlyLoads es) : (m, Entry.memory v) ∉ es := by
  intro hm
  obtain ⟨v, m, n, heq⟩ := h _ hm
  cases heq

lemma nodup_exportsByCluster (hp : p.Lists lp) :
    (p.summary.exportsByCluster.map Export.node).Nodup := by
  rw [((exportsByCluster_perm _).map _).nodup_iff]
  have hsub : (p.summary.exports.map Export.node).Sublist p.order := by
    have hnodes : ∀ ns : List NodeId, ((ns.filterMap p.exported?).map Export.node).Sublist ns := by
      intro ns
      induction ns with
      | nil => exact Sublist.refl _
      | cons n ns ih =>
        cases he : p.exported? n with
        | none =>
          rw [filterMap_cons_none he]
          exact ih.cons n
        | some e =>
          rw [filterMap_cons_some he, map_cons, (exported?_eq_some he).1]
          exact ih.cons_cons n
    exact (hnodes _).trans filter_sublist
  rw [hp.order] at hsub
  exact hp.chain.nodup.sublist hsub

lemma Spillable.exists_export_of_output (hp : p.Spillable lp) (hv : v ∈ lp)
    (hvalue : (p.node v).isMemory = false) (hrole : (p.node v).role = .output) :
    ∃ e ∈ p.summary.exportsByCluster, e.node = v := by
  obtain ⟨k, hk⟩ := hp.clustered v hv hvalue
  refine ⟨⟨v, k, p.outsideUses v⟩, (exportsByCluster_perm _).mem_iff.2
    (mem_filterMap.2 ⟨v, ?_, ?_⟩), rfl⟩
  · refine mem_filter.2 ⟨?_, by simp [isClustered, hvalue, hk]⟩
    rw [hp.toLists.order]
    exact hv
  · simp [exported?, hk, hrole]

/-- Spilling hands every output role over to a memory of its own. -/
lemma Spillable.handsOver (hp : p.Spillable lp) (hrun : Build.spill p = .ok ⟨⟩ s) :
    ∃ es done ls, Passing p lp es done s ls ∧ AllStored es ∧ p.HandsOver es s ∧
      ∀ v ∈ lp, (p.node v).isMemory = false → (p.node v).role = .output →
        ∃ m, (m, Entry.memory v) ∈ es := by
  obtain ⟨g, hexports, hdirect⟩ := Build.spillInOrder_eq_ok hrun
  have hnodup := nodup_exportsByCluster hp.toLists
  obtain ⟨es, done, l, hg, hstored, hhands, hall⟩ : ∃ es done l, Passing p lp es done g l ∧
      AllStored es ∧ p.HandsOver es g ∧ ∀ v, (∃ m, (m, Entry.memory v) ∈ es) ↔
        v ∈ p.summary.exportsByCluster.map Export.node := by
    refine of_forM_eq_ok (P := fun before g => ∃ es done l, Passing p lp es done g l ∧
      AllStored es ∧
      p.HandsOver es g ∧ ∀ v, (∃ m, (m, Entry.memory v) ∈ es) ↔
      v ∈ before.map Export.node) hexports ?_
      ⟨[], [], lp, hp.passing, fun m v hm => absurd hm not_mem_nil, .start p, by simp⟩
    rintro before e after g g' hsplit ⟨es, done, l, hg, hstored, hhands, hall⟩ hstep
    have he : e ∈ p.summary.exportsByCluster := by
      rw [hsplit]
      simp
    have hexport := exports_of_mem hp.toLists ((exportsByCluster_perm _).mem_iff.1 he)
    -- the value has not had its turn before
    have hnew : ∀ m, (m, Entry.memory e.node) ∉ es := by
      intro m hm
      rw [hsplit, map_append, map_cons] at hnodup
      exact (not_mem_of_nodup_append hnodup).1 ((hall _).1 ⟨m, hm⟩)
    obtain ⟨loads, w, l', honly, hg'⟩ := hg.spillExport hexport hstep
    have hes : ∀ m v, (m, Entry.memory v) ∈ es ++ [(g.nodes.size, .memory e.node)] ++ loads ++
        [(w, .store e.node g.nodes.size)] ↔
        (m, Entry.memory v) ∈ es ∨ m = g.nodes.size ∧ v = e.node := by
      intro m v
      simp [honly.memory_notMem]
    refine ⟨_, _, l', hg', hstored.spilled honly, hhands.spillExport hg hexport hnew hstep hes,
      fun v => ?_⟩
    simp only [hes, exists_or, exists_eq_left, hall, map_append, mem_append, map_cons,
      map_nil, mem_singleton]
  obtain ⟨loads, done', ls, honly, hs, -⟩ := hg.loadDirects hp hdirect
  have hroles : g.SameRoles s := rel_of_forM_eq_ok hdirect fun n _ _ _ _ hn =>
    Build.sameRoles_loadDirect hn
  have hes : ∀ m v, (m, Entry.memory v) ∈ es ++ loads ↔ (m, Entry.memory v) ∈ es := by
    intro m v
    simp [honly.memory_notMem]
  refine ⟨_, _, ls, hs, hstored.append honly, hhands.congr hroles hes, fun v hv hvalue hrole => ?_⟩
  obtain ⟨e, he, rfl⟩ := hp.exists_export_of_output hv hvalue hrole
  obtain ⟨m, hm⟩ := (hall e.node).2 (mem_map_of_mem he)
  exact ⟨m, (hes m _).2 hm⟩

namespace HandsOver

variable {ls : List NodeId} (h : p.HandsOver es s) (hs : Passing p lp es done s ls)

include h hs

lemma brings_unique {m' : NodeId} (hm : Brings p es m v) (hm' : Brings p es m' v) : m = m' := by
  rcases hm with ⟨hmem, rfl⟩ | hm
  · rcases hm' with ⟨-, rfl⟩ | hm'
    · rfl
    · have hvalue := (hs.fits _ _ hm').2.2.value
      rw [hmem] at hvalue
      cases hvalue
  · rcases hm' with ⟨hmem, rfl⟩ | hm'
    · have hvalue := (hs.fits _ _ hm).2.2.value
      rw [hmem] at hvalue
      cases hvalue
    · exact h.once hm hm'

lemma of_brings (hv : v ∈ lp) (hrole : (p.node v).role = .output) (hm : Brings p es m v) :
    (s.node m).role = .output ∧ (s.node m).slot = (p.node v).slot := by
  rcases hm with ⟨hmem, rfl⟩ | hm
  · -- memory has no other memory
    have hkept := h.kept m (hs.old m hv) fun _ x hx => by
      have hvalue := (hs.fits x _ hx).2.2.value
      rw [hmem] at hvalue
      cases hvalue
    exact ⟨hkept.1.trans hrole, hkept.2⟩
  · exact (h.handed hm hrole).2

lemma exists_brings
    (hall : ∀ v ∈ lp, (p.node v).isMemory = false → (p.node v).role = .output →
      ∃ m, (m, Entry.memory v) ∈ es)
    (hm : m ∈ ls) (hrole : (s.node m).role = .output) :
    ∃ v ∈ lp, (p.node v).role = .output ∧ Brings p es m v := by
  rcases hs.entered m hm with hmp | ⟨e, he⟩
  · have hnone : (p.node m).role = .output → ∀ x, (x, Entry.memory m) ∉ es := by
      intro hout x hx
      rw [(h.handed hx hout).1] at hrole
      cases hrole
    have hout := (h.kept m (hs.old m hmp) hnone).1.symm.trans hrole
    cases hmem : (p.node m).isMemory with
    | true => exact ⟨m, hmp, hout, .inl ⟨hmem, rfl⟩⟩
    | false =>
      obtain ⟨x, hx⟩ := hall m hmp hmem hout
      exact absurd hx (hnone hout x)
  · have hne : (s.node m).role ≠ .scratch := by
      rw [hrole]
      decide
    obtain ⟨v, hv, hout⟩ := h.fresh m (hs.fits m e he).2.1 hne
    exact ⟨v, (hs.fits m _ hv).2.2.mem, hout, .inr hv⟩

end HandsOver

end Graph

end KernelFusion
