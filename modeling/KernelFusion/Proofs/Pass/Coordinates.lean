/-
Accesses and coordinates of one cluster.

In linear mode the thread number and its coordinates are recorded in front of the head, and the
coordinate nodes give way to them; in the other modes the missing coordinate nodes are recorded.
Then each access gets its only index.
-/
import KernelFusion.Proofs.Pass.Evolution
import KernelFusion.Proofs.Pass.Recompute

namespace KernelFusion

open List Build

namespace Build

/-- Records a coordinate in front of the head of a cluster. -/
def coordinateAtHead (k : ClusterId) (i : Nat) : Build NodeId := do
  match (← get).head? k with
  | some head => before head true do coordinate (← shapeArguments head) i
  | none => return 0

/-- The node for a coordinate: one that is there, or a recorded one. -/
def coordinateFor (k : ClusterId) (present : List (Int × NodeId)) (i : Nat) : Build NodeId :=
  match present.lookup (i : Int) with
  | some n => return n
  | none => coordinateAtHead k i

end Build

namespace Graph

variable {s g g' f g₁ : Graph} {E F : NodeId → Prop} {done : ClusterId → Prop}
  {gone : NodeId → Prop} {l coordinates cs sizes : List NodeId} {n m h t c : NodeId} {k : ClusterId}
  {a : α} {thread : Option NodeId} {i rank : Nat} {found : List (NodeId × Int)}
  {shape : List Argument} {present : List (Int × NodeId)}

/-- Nothing at all changes. -/
abbrev nothing : NodeId → Prop := fun _ => False

lemma placed_congr {p : Place} {inCluster : Bool} {act act' : Build α}
    (h : act (g.enter p n inCluster) = act' (g.enter p n inCluster)) :
    placed p n inCluster act g = placed p n inCluster act' g := by
  rw [placed_eq, placed_eq, h]

lemma Flattening.of_run {act : Build α} (hg : Flattening s done gone g l) (hn : n ∈ l)
    (hk : (g.node n).cluster = some k) (hdone : done k)
    (hact : ∀ A B, Keeps (Proceeds E F (InsertingAt s done gone A n B k)) act
      (g.enter .before n true) fun _ _ => True) (hrun : act (g.enter .before n true) = .ok a g₁) :
    ∃ l₁, l ⊆ l₁ ∧ Flattening s done gone g₁ l₁ ∧ Evolves E F g g₁ := by
  obtain ⟨A, B, rfl⟩ := append_of_mem hn
  have hstart : InsertingAt s done gone A n B k (g.enter .before n true) :=
    ⟨A, Subset.refl A, hg.enter .before n true, hg.lists.enter_before true, hk, hk, hdone⟩
  have hproceeds := ((hact A B).meets.of_ok hrun).1
  obtain ⟨A', hA, hg₁⟩ := hproceeds.retains hstart
  have hentered : Evolves E F g (g.enter .before n true) := Evolves.of_tables rfl rfl rfl rfl rfl
  have hsub : A ++ n :: B ⊆ A' ++ n :: B := append_subset.2
    ⟨subset_append_of_subset_left _ hA, subset_append_right _ _⟩
  exact ⟨_, hsub, hg₁.toFlattening, hentered.trans hproceeds.evolves⟩

lemma Evolves.leave (g old : Graph) : Evolves E F g (g.leave old) :=
  Evolves.of_tables rfl rfl rfl rfl rfl

/-! ### One access -/

lemma sources_eq_nil_iff {K : ArgKind} :
    g.sources n K = [] ↔ ((g.node n).args.filter fun a => a.kind = K) = [] := by
  rw [sources, map_eq_nil_iff, Node.places, lastOfEachIndex_eq_nil_iff, Node.arguments,
    ← length_eq_zero_iff, sortByIndex_perm.length_eq, length_eq_zero_iff]

lemma Evolves.addIndex (g : Graph) (n v : NodeId) :
    Evolves (· = n) F g (g.addArgument n v .index 0) :=
  modifyArgs rfl fun x K hK => by simp [hK.symm]

lemma Evolves.removeIndices (g : Graph) (n : NodeId) :
    Evolves (· = n) F g (g.removeArguments n .index) := by
  refine modifyArgs rfl fun x K hK => ?_
  rw [filter_filter]
  refine filter_congr fun a _ => ?_
  by_cases ha : a.kind = K
  · simp [ha, hK]
  · simp [ha]

lemma filter_args_addIndex {v : NodeId} (hn : n < g.nodes.size)
    (hargs : ((g.node n).args.filter fun a => a.kind = .index) = []) :
    (((g.addArgument n v .index 0).node n).args.filter fun a => a.kind = .index) =
      [⟨.index, 0, (g.addArgument n v .index 0).label v⟩] := by
  have hlabel : (g.addArgument n v .index 0).label v = g.label v :=
    modifyNode_congr Node.label fun _ => rfl
  rw [hlabel, addArgument, node_modifyNode_self hn, filter_append, hargs]
  rfl

lemma filter_args_removeIndices (hn : n < g.nodes.size) :
    (((g.removeArguments n .index).node n).args.filter fun a => a.kind = .index) = [] := by
  rw [removeArguments, node_modifyNode_self hn, filter_filter, filter_eq_nil_iff]
  simp

/-- How a node gets its address: the thread number if it has no indices and there is one, and
otherwise a computed address. -/
inductive AddressedBy (g : Graph) (thread : Option NodeId) (coordinates : List NodeId) (n : NodeId)
    (flat : NodeId) (g' : Graph) : Prop where
  | thread (hthread : thread = some flat) (hindices : g.sources n .index = []) :
    AddressedBy g thread coordinates n flat g'
  | computed {g₁ : Graph} (hindices : thread = none ∨ g.sources n .index ≠ [])
    (hrun : flatIndex g.tensorMode ((g.node ((g.memoryOf? n).getD 0)).extent .shape).toNat
      (g.size? ((g.memoryOf? n).getD 0)) (g.sources n .index) coordinates (g.enter .before n true) =
        .ok flat g₁)
    (hrest : Evolves (· = n) nothing g₁ g') : AddressedBy g thread coordinates n flat g'

lemma flattenAccess_thread (hindices : g.sources n .index = []) : flattenAccess (some t)
    coordinates n g =
      before n true (modify fun g => g.addArgument n t .index 0) g := by
  refine placed_congr ?_
  have hindices' : (g.enter .before n true).sources n .index = [] := hindices
  refine (bind_of_ok rfl).trans ?_
  simp only [hindices']

lemma flattenAccess_computed (hindices : thread = none ∨ g.sources n .index ≠ []) :
    flattenAccess thread coordinates n g = before n true (do
      let flat ← flatIndex g.tensorMode
        ((g.node ((g.memoryOf? n).getD 0)).extent .shape).toNat (g.size? ((g.memoryOf? n).getD 0))
        (g.sources n .index) coordinates
      modify fun g => (g.removeArguments n .index).addArgument n flat .index 0) g := by
  refine placed_congr ?_
  cases thread with
  | none => rfl
  | some t =>
    obtain ⟨x, rest, hx⟩ := exists_cons_of_ne_nil (hindices.resolve_left nofun)
    have hx' : (g.enter .before n true).sources n .index = x :: rest := hx
    rw [hx]
    refine (bind_of_ok (x := get) (s := g.enter .before n true) rfl).trans ?_
    simp only [hx']
    rfl

/-- The two ways to flatten an access: by the thread or by a flat index. -/
lemma flattenAccess_eq_ok (hrun : flattenAccess thread coordinates n g = .ok ⟨⟩ g') :
    (∃ t, thread = some t ∧ g.sources n .index = [] ∧
        g' = ((g.enter .before n true).addArgument n t .index 0).leave g) ∨
      (thread = none ∨ g.sources n .index ≠ []) ∧ ∃ flat g₁,
        flatIndex g.tensorMode ((g.node ((g.memoryOf? n).getD 0)).extent .shape).toNat
          (g.size? ((g.memoryOf? n).getD 0)) (g.sources n .index) coordinates
          (g.enter .before n true) = .ok flat g₁ ∧
        g' = ((g₁.removeArguments n .index).addArgument n flat .index 0).leave g := by
  by_cases hindices : thread = none ∨ g.sources n .index ≠ []
  · rw [flattenAccess_computed hindices] at hrun
    obtain ⟨g₂, hact, rfl⟩ := placed_eq_ok.1 hrun
    obtain ⟨flat, g₁, hflat, hmodify⟩ := bind_eq_ok.1 hact
    cases hmodify
    exact .inr ⟨hindices, flat, g₁, hflat, rfl⟩
  · obtain ⟨hthread, hnil⟩ := not_or.1 hindices
    obtain ⟨t, rfl⟩ := Option.ne_none_iff_exists'.1 hthread
    have hnil : g.sources n .index = [] := not_not.1 hnil
    rw [flattenAccess_thread hnil] at hrun
    obtain ⟨g₁, hact, rfl⟩ := placed_eq_ok.1 hrun
    cases hact
    exact .inl ⟨t, rfl, hnil, rfl⟩

lemma Flattening.flattenAccess (hg : Flattening s done gone g l) (hn : n ∈ l)
    (hk : (g.node n).cluster = some k) (hdone : done k)
    (hrun : flattenAccess thread coordinates n g = .ok ⟨⟩ g') :
    (∃ l', l ⊆ l' ∧ Flattening s done gone g' l') ∧ Evolves (· = n) nothing g g' ∧
      ∃ flat, AddressedBy g thread coordinates n flat g' ∧
        ((g'.node n).args.filter fun a => a.kind = .index) = [⟨.index, 0, g'.label flat⟩] := by
  have hlt := hg.lists.lt_size hn
  rcases flattenAccess_eq_ok hrun with ⟨t, rfl, hnil, rfl⟩ | ⟨hindices, flat, g₁, hflat, rfl⟩
  · have hentered : Evolves (· = n) nothing g (g.enter .before n true) :=
      Evolves.of_tables rfl rfl rfl rfl rfl
    refine ⟨⟨l, Subset.refl l, ?_⟩, (hentered.trans (Evolves.addIndex _ n t)).trans
      (Evolves.leave _ g), t, .thread rfl hnil, ?_⟩
    · exact ((hg.enter .before n true).addArgument n t .index 0).leave g
    · exact filter_args_addIndex (g := g.enter .before n true) hlt (sources_eq_nil_iff.1 hnil)
  · obtain ⟨l₁, hl, hg₁, hevolves⟩ := hg.of_run hn hk hdone
      (fun _ _ => recorder_proceeds.keeps_flatIndex _ _ _ _ _) hflat
    have hlt₁ : n < (g₁.removeArguments n .index).nodes.size := by
      rw [Graph.removeArguments, size_nodes_modifyNode]
      exact Nat.lt_of_lt_of_le hlt hevolves.size
    have hrest : Evolves (· = n) nothing g₁
        (((g₁.removeArguments n .index).addArgument n flat .index 0).leave g) :=
      ((Evolves.removeIndices g₁ n).trans (Evolves.addIndex _ n flat)).trans (Evolves.leave _ g)
    refine ⟨⟨l₁, hl, ?_⟩, hevolves.trans hrest, flat, .computed hindices hflat hrest, ?_⟩
    · exact ((hg₁.removeArguments n .index).addArgument n flat .index 0).leave g
    · exact filter_args_addIndex hlt₁
        (filter_args_removeIndices (Nat.lt_of_lt_of_le hlt hevolves.size))

/-! ### Coordinates from the thread number -/

lemma target_redirect {i : LabelId} (hi : i < g.labels.size) (copy : NodeId) :
    (g.redirect n copy).target i = if g.label n = i then copy else g.target i := by
  have hne : i ≠ (g.labels.setIfInBounds (g.label n) copy).size := by
    rw [Array.size_setIfInBounds]
    exact Nat.ne_of_lt hi
  show ((g.labels.setIfInBounds (g.label n) copy).push n).getD i 0 = _
  rw [Array.getD_eq_getD_getElem?, Array.getElem?_push, if_neg hne, Array.getElem?_setIfInBounds]
  split
  · rename_i heq
    rw [if_pos (heq ▸ hi)]
    rfl
  · rw [target, Array.getD_eq_getD_getElem?]

lemma target_redirect_self (copy : NodeId) : (g.redirect n copy).target g.labels.size = n := by
  show ((g.labels.setIfInBounds (g.label n) copy).push n).getD g.labels.size 0 = n
  rw [Array.getD_eq_getD_getElem?, Array.getElem?_push, if_pos (by simp)]
  rfl

lemma label_redirect_self (h : n < g.nodes.size) (copy : NodeId) :
    (g.redirect n copy).label n = g.labels.size := by
  rw [label, redirect, node_modifyNode_self]
  exact h

lemma label_redirect_of_ne (h : m ≠ n) (copy : NodeId) :
    (g.redirect n copy).label m = g.label m := by
  rw [label, redirect, node_modifyNode_of_ne h]
  rfl

lemma size_labels_redirect (copy : NodeId) :
    (g.redirect n copy).labels.size = g.labels.size + 1 := by
  show ((g.labels.setIfInBounds (g.label n) copy).push n).size = _
  simp

/-- The label of a node stands for it. -/
structure Named (g : Graph) (n : NodeId) : Prop where
  lt : g.label n < g.labels.size
  target : g.target (g.label n) = n

lemma Labelled.named (hg : g.Labelled) (hn : n < g.nodes.size) : g.Named n := by
  have hlabel := hg.label n hn
  exact ⟨by rwa [hlabel, hg.size], by rw [hlabel, hg.target n hn]⟩

lemma Named.label_ne (hn : g.Named n) (hm : g.Named m) (hne : m ≠ n) : g.label n ≠ g.label m := by
  intro heq
  exact hne (by rw [← hm.target, ← heq, hn.target])

lemma Named.redirect (hm : g.Named m) (hn : g.Named n) (hne : m ≠ n) (copy : NodeId) :
    (g.redirect n copy).Named m := by
  refine ⟨?_, ?_⟩
  · rw [label_redirect_of_ne hne, size_labels_redirect]
    exact Nat.lt_succ_of_lt hm.lt
  · rw [label_redirect_of_ne hne, target_redirect hm.lt, if_neg (hn.label_ne hm hne), hm.target]

/-- The users of the found coordinates move to the given nodes. -/
structure Replaced (found : List (NodeId × Int)) (coordinates : List NodeId) (g g' : Graph) :
    Prop where
  range : ∀ c ∈ found, 0 ≤ c.2 ∧ c.2 < coordinates.length
  moved : ∀ c ∈ found, g'.target (g.label c.1) = coordinates.getD c.2.toNat 0
  others : ∀ i < g.labels.size, (∀ c ∈ found, g.label c.1 ≠ i) → g'.target i = g.target i

lemma Replaced.cons {rest : List (NodeId × Int)} {dim : Int} (hn : g.Named n)
    (hrest : ∀ c ∈ rest, c.1 ≠ n ∧ g.Named c.1) (hdim : 0 ≤ dim ∧ dim < coordinates.length)
    (h : Replaced rest coordinates (g.redirect n (coordinates.getD dim.toNat 0)) g') :
    Replaced ((n, dim) :: rest) coordinates g g' := by
  have hlabel : ∀ c ∈ rest, (g.redirect n (coordinates.getD dim.toNat 0)).label c.1 =
      g.label c.1 := fun c hc => label_redirect_of_ne (hrest c hc).1 _
  have hlt : ∀ i < g.labels.size,
      i < (g.redirect n (coordinates.getD dim.toNat 0)).labels.size := fun i hi => by
    rw [size_labels_redirect]
    exact Nat.lt_succ_of_lt hi
  refine ⟨fun c hc => ?_, fun c hc => ?_, fun i hi hne => ?_⟩
  · rcases mem_cons.1 hc with rfl | hc
    · exact hdim
    · exact h.range c hc
  · rcases mem_cons.1 hc with rfl | hc
    · have hothers : ∀ c ∈ rest, (g.redirect n (coordinates.getD dim.toNat 0)).label c.1 ≠
          g.label n := fun c hc => by
        rw [hlabel c hc]
        exact (hn.label_ne (hrest c hc).2 (hrest c hc).1).symm
      rw [h.others _ (hlt _ hn.lt) hothers, target_redirect hn.lt, if_pos rfl]
    · rw [← hlabel c hc]
      exact h.moved c hc
  · have hothers : ∀ c ∈ rest, (g.redirect n (coordinates.getD dim.toNat 0)).label c.1 ≠ i :=
      fun c hc => by
        rw [hlabel c hc]
        exact hne c (mem_cons_of_mem _ hc)
    rw [h.others i (hlt i hi) hothers, target_redirect hi, if_neg (hne _ mem_cons_self)]

/-- Replacing coordinates redirects each to the one of its dimension. -/
lemma Replaced.of_run (hnodup : (found.map Prod.fst).Nodup) (hF : ∀ c ∈ found, F c.1)
    (hnamed : ∀ c ∈ found, g.Named c.1)
    (hrun : replaceCoordinates coordinates found g = .ok ⟨⟩ g') :
    Replaced found coordinates g g' ∧ Evolves E F g g' ∧
      ∀ l, Flattening s done gone g l → Flattening s done gone g' l := by
  induction found generalizing g with
  | nil =>
    obtain ⟨-, rfl⟩ := EStateM.Result.ok.inj hrun
    exact ⟨⟨by simp, by simp, fun _ _ _ => rfl⟩, Evolves.refl E F g, fun _ h => h⟩
  | cons c rest ih =>
    obtain ⟨n, dim⟩ := c
    obtain ⟨hnot, hnodup⟩ := nodup_cons.1 hnodup
    have hn : g.Named n := hnamed (n, dim) mem_cons_self
    have hrest : ∀ c ∈ rest, c.1 ≠ n ∧ g.Named c.1 := fun c hc =>
      ⟨fun heq => hnot (mem_map.2 ⟨c, hc, heq⟩), hnamed c (mem_cons_of_mem _ hc)⟩
    by_cases hdim : dim < 0 ∨ (coordinates.length : Int) ≤ dim
    · rw [replaceCoordinates, if_pos hdim] at hrun
      cases hrun
    · rw [replaceCoordinates, if_neg hdim] at hrun
      obtain ⟨hreplaced, hevolves, hflat⟩ := ih hnodup (fun c hc => hF c (mem_cons_of_mem _ hc))
        (fun c hc => (hrest c hc).2.redirect hn (hrest c hc).1 _) hrun
      exact ⟨hreplaced.cons hn hrest (by omega),
        (Evolves.redirect (hF (n, dim) mem_cons_self) hn.target _).trans hevolves,
        fun l hl => hflat l (hl.redirect n _)⟩

lemma remove_all_tables (cs : List NodeId) (g : Graph) :
    Evolves E F g (cs.foldl Graph.remove g) ∧ (cs.foldl Graph.remove g).labels = g.labels := by
  induction cs generalizing g with
  | nil => exact ⟨Evolves.refl E F g, rfl⟩
  | cons c cs ih =>
    obtain ⟨hevolves, hlabels⟩ := ih (g.remove c)
    have hremove : Evolves E F g (g.remove c) := Evolves.of_tables rfl rfl rfl rfl rfl
    exact ⟨hremove.trans hevolves, hlabels⟩

lemma Flattening.remove_all (hg : Flattening s done gone g l) (hnodup : cs.Nodup)
    (hcs : ∀ c ∈ cs, c ∈ l ∧ c < s.nodes.size ∧ (s.node c).isCoordinate ∧
    (s.node c).cluster = some k)
    (hlinear : s.kernelMode = .linear) (hdone : done k) :
    ∃ l', Flattening s done gone (cs.foldl Graph.remove g) l' ∧ ∀ v, v ∈ l' ↔ v ∈ l ∧ v ∉ cs := by
  induction cs generalizing g l with
  | nil => exact ⟨l, hg, by simp⟩
  | cons c cs ih =>
    obtain ⟨hnot, hnodup⟩ := nodup_cons.1 hnodup
    obtain ⟨hmem, hlt, hcoord, hk⟩ := hcs c mem_cons_self
    obtain ⟨A, B, rfl⟩ := append_of_mem hmem
    have hmem' : ∀ v, v ∈ A ++ B ↔ v ∈ A ++ c :: B ∧ v ≠ c := by
      intro v
      refine ⟨fun hv => ⟨mem_append_cons.2 (.inr hv), ?_⟩, fun hv =>
        (mem_append_cons.1 hv.1).resolve_left hv.2⟩
      rintro rfl
      obtain ⟨hA, hB⟩ := not_mem_of_nodup_append hg.lists.chain.nodup
      exact (mem_append.1 hv).elim hA hB
    obtain ⟨l', hl', hiff⟩ := ih (hg.remove hlt hlinear hcoord hk hdone) hnodup fun v hv => by
      obtain ⟨hvl, hrest⟩ := hcs v (mem_cons_of_mem _ hv)
      exact ⟨(hmem' v).2 ⟨hvl, fun heq => hnot (heq ▸ hv)⟩, hrest⟩
    refine ⟨l', hl', fun v => ?_⟩
    rw [hiff, hmem', mem_cons, not_or, and_assoc]

lemma mem_coordinateNodes {ns : List NodeId} {c : NodeId × Int} :
    c ∈ coordinateNodes g ns ↔
      c.1 ∈ ns ∧ (g.node c.1).isCoordinate ∧ c.2 = signed (g.node c.1).word := by
  obtain ⟨n, dim⟩ := c
  simp only [coordinateNodes, mem_map, mem_filter, Prod.mk.injEq]
  constructor
  · rintro ⟨m, ⟨hm, hcoord⟩, rfl, rfl⟩
    exact ⟨hm, hcoord, rfl⟩
  · rintro ⟨hn, hcoord, rfl⟩
    exact ⟨n, ⟨hn, hcoord⟩, rfl, rfl⟩

lemma map_fst_coordinateNodes (g : Graph) (ns : List NodeId) :
    (coordinateNodes g ns).map Prod.fst = ns.filter fun n => (g.node n).isCoordinate := by
  rw [coordinateNodes, map_map]
  exact map_id _

lemma linearCoordinates_eq_ok (hrun : linearCoordinates k h sizes g = .ok (t, cs) g') :
    ∃ g₀ g₁ g₂, threadIndex ((g.node h).arguments .shape) (g.enter .before h true) =
        .ok t g₀ ∧ coordinatesOf t sizes g₀ = .ok cs g₁ ∧
      replaceCoordinates cs (coordinateNodes (g₁.leave g) ((g₁.leave g).run k))
        (g₁.leave g) = .ok ⟨⟩ g₂ ∧
      g' = (((g₁.leave g).run k).filter fun n => ((g₁.leave g).node n).isCoordinate).foldl
        Graph.remove g₂ := by
  obtain ⟨⟨t', cs'⟩, g₃, hbefore, hrest⟩ := bind_eq_ok.1 hrun
  obtain ⟨g₁, hact, rfl⟩ := placed_eq_ok.1 hbefore
  obtain ⟨shape, g₄, hshape, hact⟩ := bind_eq_ok.1 hact
  cases hshape
  obtain ⟨thread, g₀, hthread, hact⟩ := bind_eq_ok.1 hact
  obtain ⟨coordinates, g₅, hcoordinates, hpure⟩ := bind_eq_ok.1 hact
  obtain ⟨hpair, rfl⟩ := EStateM.Result.ok.inj hpure
  obtain ⟨rfl, rfl⟩ := Prod.mk.inj hpair
  obtain ⟨⟨⟩, g₂, hreplace, hrest⟩ := bind_eq_ok.1 (show (replaceCoordinates coordinates
    (coordinateNodes (g₅.leave g) ((g₅.leave g).run k)) >>= _ : Build _)
    (g₅.leave g) = _ from hrest)
  obtain ⟨hpair, rfl⟩ := EStateM.Result.ok.inj hrest
  obtain ⟨rfl, rfl⟩ := Prod.mk.inj hpair
  refine ⟨g₀, g₅, g₂, hthread, hcoordinates, hreplace, ?_⟩
  rw [← map_fst_coordinateNodes, foldl_map]

/-- The accesses of some clusters. -/
def AccessIn (s : Graph) (D : ClusterId → Prop) (n : NodeId) : Prop :=
  (s.node n).op.kind.accesses ∧ ∃ k, D k ∧ (s.node n).cluster = some k

/-- The coordinate nodes of some clusters, which give way to others in linear mode. -/
def MovedIn (s : Graph) (D : ClusterId → Prop) (n : NodeId) : Prop :=
  s.kernelMode = .linear ∧ (s.node n).isCoordinate ∧ ∃ k, D k ∧ (s.node n).cluster = some k

lemma Named.evolves (hn : g.Named n) (h : Evolves E F g g') (hlt : n < g.nodes.size) (hF : ¬ F n) :
    g'.Named n := by
  have hlabel := h.label n hlt hF
  refine ⟨?_, ?_⟩
  · rw [hlabel]
    exact Nat.lt_of_lt_of_le hn.lt h.labels
  · rw [hlabel, h.target _ hn.lt (by rwa [hn.target]), hn.target]

section

variable (hg : Flattening s done gone g l)

include hg

lemma Flattening.absent_of {gone' : NodeId → Prop} (h : ∀ n ∈ l, n < s.nodes.size → ¬ gone' n) :
    Flattening s done gone' g l :=
  ⟨hg.lists, hg.outline, hg.spans, hg.heads, hg.entered, hg.stays, h, hg.live⟩

lemma Flattening.mem_filter_run_iff {p : Operation → Bool} (hs : s.Lists s.order) (hdone : done k)
    (hp : ∀ v ∈ l, p (g.node v).op → v ∈ s.order) :
    n ∈ (g.run k).filter (fun v => p (g.node v).op) ↔
      n ∈ l ∧ n < s.nodes.size ∧ p (s.node n).op ∧ (s.node n).cluster = some k := by
  rw [mem_filter]
  constructor
  · rintro ⟨hrun, hpn⟩
    obtain ⟨hn, hk⟩ := hg.of_mem_run hdone hrun
    have hlt := hs.lt_size (hp n hn hpn)
    exact ⟨hn, hlt, by rwa [← hg.outline.op n hlt], by rwa [← hg.outline.cluster n hlt]⟩
  · rintro ⟨hn, hlt, hpn, hk⟩
    refine ⟨hg.spans.mem_run hg.lists hn hlt (by rwa [hg.outline.cluster n hlt]), ?_⟩
    rwa [hg.outline.op n hlt]

lemma Flattening.coordinate_old (hlinear : s.kernelMode = .linear) (hn : n ∈ l)
    (hcoord : (g.node n).isCoordinate) : n ∈ s.order := by
  rcases hg.entered n hn with hn | ⟨-, -, hnot, -⟩
  · exact hn
  · rw [hnot hlinear] at hcoord
    cases hcoord

lemma Flattening.access_old (hn : n ∈ l) (haccess : (g.node n).op.kind.accesses) : n ∈ s.order := by
  rcases hg.entered n hn with hn | ⟨-, hnot, -, -⟩
  · exact hn
  · rw [hnot] at haccess
    cases haccess

lemma Flattening.mem_accesses_iff (hs : s.Lists s.order) (hdone : done k) :
    n ∈ (g.run k).filter (fun v => (g.node v).op.kind.accesses) ↔ n ∈ l ∧
      n < s.nodes.size ∧ (s.node n).op.kind.accesses ∧ (s.node n).cluster = some k :=
  hg.mem_filter_run_iff (p := fun op => op.kind.accesses) hs hdone fun _ hv haccess =>
    hg.access_old hv haccess

lemma Flattening.mem_coordinates_iff (hs : s.Lists s.order) (hlinear : s.kernelMode = .linear)
    (hdone : done k)
    :
    n ∈ (g.run k).filter (fun v => (g.node v).isCoordinate) ↔ n ∈ l ∧ n < s.nodes.size ∧
      (s.node n).isCoordinate ∧ (s.node n).cluster = some k :=
  hg.mem_filter_run_iff (p := fun op => op.name = "dim_id") hs hdone fun _ hv hcoord =>
    hg.coordinate_old hlinear hv hcoord

end

/-- What happens in linear mode: the thread number and the coordinates are recorded in front of the
head, and the users of the coordinate nodes move to them. -/
structure Linearized (g : Graph) (l : List NodeId) (k : ClusterId) (h : NodeId)
    (sizes coordinates : List NodeId) (t : NodeId) (g₀ g₁ g' : Graph) : Prop where
  thread : threadIndex ((g.node h).arguments .shape) (g.enter .before h true) = .ok t g₀
  run : coordinatesOf t sizes g₀ = .ok coordinates g₁
  recorded : Evolves nothing nothing g g₁
  moved : ∀ c ∈ l, (g.node c).isCoordinate → (g.node c).cluster = some k →
    (0 ≤ signed (g.node c).word ∧ signed (g.node c).word < coordinates.length) ∧
      g'.target (g.label c) = coordinates.getD (signed (g.node c).word).toNat 0

lemma Flattening.replace {g₂ : Graph} (hg : Flattening s done gone g l) (hs : s.Lists s.order)
    (hlinear : s.kernelMode = .linear) (hdone : done k) (hlive : ∃ h, g.head? k = some h ∧ h ∈ l)
    (hnamed : ∀ c < s.nodes.size, MovedIn s (· = k) c → g.Named c)
    (hrun : replaceCoordinates cs (coordinateNodes g (g.run k)) g = .ok ⟨⟩ g₂)
    (hremove : g' = ((g.run k).filter fun n => (g.node n).isCoordinate).foldl Graph.remove g₂) :
    Replaced (coordinateNodes g (g.run k)) cs g g' ∧ Evolves nothing (MovedIn s (· = k)) g g' ∧
      ∃ l', Flattening s done (fun v => gone v ∨ MovedIn s (· = k) v) g' l' ∧
        ∀ v ∈ l, ¬ MovedIn s (· = k) v → v ∈ l' := by
  have hfound := fun c => hg.mem_coordinates_iff (n := c) hs hlinear hdone
  have hnodup : ((g.run k).filter fun n => (g.node n).isCoordinate).Nodup := by
    obtain ⟨h, hh, hmem⟩ := hlive
    exact (nodup_run hg.lists hh hmem).filter _
  have hfst := map_fst_coordinateNodes g (g.run k)
  generalize (g.run k).filter (fun n => (g.node n).isCoordinate) = found at *
  have hmoved : ∀ c ∈ found, MovedIn s (· = k) c := fun c hc =>
    ⟨hlinear, ((hfound c).1 hc).2.2.1, k, rfl, ((hfound c).1 hc).2.2.2⟩
  have hmem : ∀ c ∈ coordinateNodes g (g.run k), c.1 ∈ found := fun c hc =>
    hfst ▸ mem_map_of_mem hc
  obtain ⟨hreplaced, hevolves, hflat⟩ := Replaced.of_run (E := nothing) (F := MovedIn s (· = k))
    (hfst ▸ hnodup) (fun c hc => hmoved _ (hmem c hc))
    (fun c hc => hnamed _ ((hfound _).1 (hmem c hc)).2.1 (hmoved _ (hmem c hc))) hrun
  obtain ⟨l', hg', hiff⟩ :=
    (hflat l hg).remove_all hnodup (fun c hc => (hfound c).1 hc) hlinear hdone
  obtain ⟨hremoved, hlabels⟩ := remove_all_tables (E := nothing) (F := MovedIn s (· = k)) found g₂
  subst hremove
  have htarget : ∀ i, (found.foldl Graph.remove g₂).target i = g₂.target i := fun i => by
    rw [target, target, hlabels]
  refine ⟨⟨hreplaced.range, fun c hc => ?_, fun i hi hne => ?_⟩, hevolves.trans hremoved, l',
    hg'.absent_of ?_, fun v hv hv' => (hiff v).2 ⟨hv, fun hv'' => hv' (hmoved v hv'')⟩⟩
  · rw [htarget, hreplaced.moved c hc]
  · rw [htarget, hreplaced.others i hi hne]
  · rintro v hv hlt (hgone | ⟨-, hcoord, j, rfl, hkv⟩)
    · exact hg'.absent v hv hlt hgone
    · obtain ⟨hvl, hnot⟩ := (hiff v).1 hv
      exact hnot ((hfound v).2 ⟨hvl, hlt, hcoord, hkv⟩)

lemma Flattening.recordCoordinates {g₀ : Graph} (hg : Flattening s done gone g l) (hmem : h ∈ l)
    (hk : (g.node h).cluster = some k) (hdone : done k)
    (hthread : threadIndex shape (g.enter .before h true) = .ok t g₀)
    (hrun : coordinatesOf t sizes g₀ = .ok cs g₁) :
    ∃ l₁, l ⊆ l₁ ∧ Flattening s done gone g₁ l₁ ∧ Evolves nothing nothing g g₁ :=
  hg.of_run hmem hk hdone (fun _ _ => Keeps.bind (keeps_proceeds_source (by decide +kernel) _ _)
    fun t _ _ _ => recorder_proceeds.keeps_coordinatesOf t sizes)
    (bind_eq_ok.2 ⟨t, g₀, hthread, hrun⟩)

/-- A linear cluster gets a thread and coordinates computed from it. -/
lemma Flattening.linearCoordinates (hg : Flattening s done gone g l) (hs : s.Lists s.order)
    (hlinear : s.kernelMode = .linear) (hmem : h ∈ l) (hold : h < s.nodes.size)
    (hk : (g.node h).cluster = some k) (hdone : done k)
    (hnamed : ∀ c < s.nodes.size, MovedIn s (· = k) c → g.Named c)
    (hrun : linearCoordinates k h sizes g = .ok (t, cs) g') :
    ∃ g₀ g₁ l', Linearized g l k h sizes cs t g₀ g₁ g' ∧ Evolves nothing (MovedIn s (· = k)) g₁ g' ∧
      Flattening s done (fun v => gone v ∨ MovedIn s (· = k) v) g' l' ∧
      ∀ v ∈ l, ¬ MovedIn s (· = k) v → v ∈ l' := by
  obtain ⟨g₀, g₁, g₂, hthread, hcoordinates, hreplace, hremove⟩ := linearCoordinates_eq_ok hrun
  obtain ⟨l₁, hsub, hg₁, hrecorded⟩ := hg.recordCoordinates hmem hk hdone hthread hcoordinates
  have hleft : Evolves nothing nothing g (g₁.leave g) := hrecorded.trans (Evolves.leave g₁ g)
  have hlt : ∀ {v}, v ∈ l → v < g.nodes.size := hg.lists.lt_size
  have hg₁ := hg₁.leave g
  obtain ⟨h', hh', hmem', -⟩ :=
    hg₁.spans.head (hsub hmem) hold ((hleft.cluster h (hlt hmem)).trans hk)
  obtain ⟨hreplaced, hevolves, l', hg', hl'⟩ := hg₁.replace hs hlinear hdone ⟨h', hh', hmem'⟩
    (fun c hc hmoved => (hnamed c hc hmoved).evolves hleft
    (Nat.lt_of_lt_of_le hc hg.outline.size) id)
    hreplace hremove
  refine ⟨g₀, g₁, l', ⟨hthread, hcoordinates, hrecorded, fun c hc hcoord hkc => ?_⟩,
    (Evolves.leave g₁ g).trans hevolves, hg', fun v hv => hl' v (hsub hv)⟩
  -- a coordinate of the cluster is found, with the same dimension and the same label
  have hold' := hs.lt_size (hg.coordinate_old hlinear hc hcoord)
  have hword : ((g₁.leave g).node c).word = (g.node c).word := by
    rw [Node.word, Node.word, hleft.data c (hlt hc)]
  have hfound : (c, signed (g.node c).word) ∈
      coordinateNodes (g₁.leave g) ((g₁.leave g).run k) := by
    refine mem_coordinateNodes.2 ⟨?_, ?_, by rw [hword]⟩
    · exact hg₁.spans.mem_run hg₁.lists (hsub hc) hold' ((hleft.cluster c (hlt hc)).trans hkc)
    · rw [hleft.isCoordinate (hlt hc), hcoord]
  refine ⟨hreplaced.range _ hfound, ?_⟩
  rw [← hleft.label c (hlt hc) id]
  exact hreplaced.moved _ hfound

/-! ### Coordinates as nodes -/

/-- Coordinates within the rank are kept, those of later nodes first. -/
lemma presentCoordinates_eq_ok (h : presentCoordinates rank found = .ok present) :
    (∀ c ∈ found, 0 ≤ c.2 ∧ c.2 < rank) ∧ present = (found.map Prod.swap).reverse := by
  have hall : ∀ (found : List (NodeId × Int)) (acc present : List (Int × NodeId)),
      found.foldlM (fun present c => if c.2 < 0 ∨ (rank : Int) ≤ c.2
        then Except.error (Fault.coordinateRange c.2 rank) else .ok (c.swap :: present)) acc =
          .ok present →
      (∀ c ∈ found, 0 ≤ c.2 ∧ c.2 < rank) ∧ present = (found.map Prod.swap).reverse ++ acc := by
    intro found
    induction found with
    | nil =>
      intro acc present h
      cases h
      exact ⟨by simp, rfl⟩
    | cons c rest ih =>
      obtain ⟨n, dim⟩ := c
      intro acc present h
      rw [foldlM_cons] at h
      dsimp only at h
      by_cases hdim : dim < 0 ∨ (rank : Int) ≤ dim
      · rw [if_pos hdim] at h
        cases h
      · rw [if_neg hdim] at h
        obtain ⟨hrest, hpresent⟩ := ih _ present h
        refine ⟨forall_mem_cons.2 ⟨by omega, hrest⟩, ?_⟩
        rw [hpresent, map_cons, reverse_cons, append_assoc]
        rfl
  obtain ⟨hrange, hpresent⟩ := hall found [] present h
  exact ⟨hrange, by rw [hpresent, append_nil]⟩

lemma mem_of_presentCoordinates (h : presentCoordinates rank found = .ok present) {c : Int × NodeId}
    (hc : c ∈ present) : (c.2, c.1) ∈ found := by
  rw [(presentCoordinates_eq_ok h).2, mem_reverse, mem_map] at hc
  obtain ⟨d, hd, rfl⟩ := hc
  exact hd

/-- The pass goes on, and what is listed stays listed. -/
structure Advances (s : Graph) (done : ClusterId → Prop) (gone E F : NodeId → Prop) (g g' : Graph) :
    Prop where
  evolves : Evolves E F g g'
  lists : ∀ {l}, Flattening s done gone g l → ∃ l', l ⊆ l' ∧ Flattening s done gone g' l'

instance : IsPreorder Graph (Advances s done gone E F) where
  refl g := ⟨Evolves.refl E F g, fun hg => ⟨_, Subset.refl _, hg⟩⟩
  trans _ _ _ h₁ h₂ := ⟨h₁.evolves.trans h₂.evolves, fun hg => by
    obtain ⟨l₁, hl₁, hg₁⟩ := h₁.lists hg
    obtain ⟨l₂, hl₂, hg₂⟩ := h₂.lists hg₁
    exact ⟨l₂, Subset.trans hl₁ hl₂, hg₂⟩⟩

/-- The node of a coordinate: an old one, or a new one. -/
structure CoordinateAt (s : Graph) (k : ClusterId) (i : Nat) (c : NodeId) (g : Graph) : Prop where
  lt : c < g.nodes.size
  coordinate : (g.node c).isCoordinate
  cluster : (g.node c).cluster = some k
  word : (g.node c).word = word i
  fresh : c ∈ s.order ∨ (g.node c).type = .int ∧ g.Named c

lemma CoordinateAt.evolves (hc : CoordinateAt s k i c g)
    (h : Evolves E nothing g g') : CoordinateAt s k i c g' := by
  refine ⟨Nat.lt_of_lt_of_le hc.lt h.size, (h.isCoordinate hc.lt).trans hc.coordinate,
    (h.cluster c hc.lt).trans hc.cluster, ?_, hc.fresh.imp id fun hnew => ⟨?_, ?_⟩⟩
  · rw [Node.word, h.data c hc.lt]
    exact hc.word
  · rw [h.type c hc.lt, hnew.1]
  · exact hnew.2.evolves h hc.lt id

lemma coordinate_ok (hcurrent : g.current = some k)
    (hrun : coordinate shape i g = .ok c g') : CoordinateAt s k i c g' := by
  rcases sourceWith_cases g "dim_id" shape .int [word i] with ⟨e, he⟩ | ⟨-, op, hop, hok⟩
  · rw [coordinate, he] at hrun
    cases hrun
  · rw [coordinate, hok] at hrun
    cases hrun
    have hnode : (g.insertWith op .int shape [word i]).node g.nodes.size = _ := node_insertWith_self
    have hname : op.name = "dim_id" := (Operation.mem_table_of_find hop).2
    refine ⟨by simp [size_nodes_insertWith], ?_, ?_, ?_, .inr ⟨?_, ?_, ?_⟩⟩
    · rw [hnode, Node.isCoordinate]
      simpa using hname
    · rw [hnode, hcurrent]
    · rw [hnode]
      rfl
    · rw [hnode]
    · rw [label, hnode]
      simp [insertWith, setData, insert, modifyNode]
    · rw [label, hnode]
      show (g.insert op .int shape).target g.labels.size = g.nodes.size
      exact target_insert_self

lemma coordinateAtHead_eq_ok (hh : g.head? k = some h)
    (hrun : coordinateAtHead k i g = .ok c g') : ∃ g₁,
      coordinate ((g.node h).arguments .shape) i (g.enter .before h true) = .ok c g₁ ∧
      g' = g₁.leave g := by
  have hrun : (match g.head? k with
      | some head => before head true do coordinate (← shapeArguments head) i
      | none => return 0 : Build NodeId) g = .ok c g' := hrun
  rw [hh] at hrun
  obtain ⟨g₁, hact, rfl⟩ := placed_eq_ok.1 hrun
  exact ⟨g₁, hact, rfl⟩

lemma multiCoordinates_eq_ok (hrun : multiCoordinates k rank g = .ok cs g') :
    ∃ present, presentCoordinates rank (coordinateNodes g (g.run k)) = .ok present ∧
      (range rank).mapM (coordinateFor k present) g = .ok cs g' := by
  obtain ⟨g₀, g₁, hget, hrun⟩ := bind_eq_ok.1 hrun
  cases hget
  cases hp : presentCoordinates rank (coordinateNodes g (g.run k)) with
  | error e =>
    rw [hp] at hrun
    cases hrun
  | ok present =>
    rw [hp] at hrun
    exact ⟨present, rfl, hrun⟩

variable (hg : Flattening s done gone g l) (hmode : s.kernelMode ≠ .linear) (hmem : h ∈ l)

include hg hmode hmem

lemma Flattening.addCoordinate (hold : h < s.nodes.size) (hk : (g.node h).cluster = some k)
    (hdone : done k) (hrun : coordinateAtHead k i g = .ok c g') :
    (∃ l', l ⊆ l' ∧ Flattening s done gone g' l') ∧ Evolves nothing nothing g g' ∧
      CoordinateAt s k i c g' := by
  obtain ⟨head, hh, hmem, hkh, -⟩ := hg.spans.head hmem hold hk
  obtain ⟨g₁, hact, rfl⟩ := coordinateAtHead_eq_ok hh hrun
  obtain ⟨l₁, hsub, hg₁, hevolves⟩ := hg.of_run hmem hkh hdone (fun _ _ =>
    keeps_proceeds_sourceWith (by decide +kernel) (fun hlinear => absurd hlinear hmode) _ _ _) hact
  exact ⟨⟨l₁, hsub, hg₁.leave g⟩, hevolves.trans (Evolves.leave g₁ g),
    (coordinate_ok hkh hact).evolves (Evolves.leave (E := nothing) g₁ g)⟩

/-- Any other cluster gets one coordinate a dimension, old or new. -/
lemma Flattening.multiCoordinates (hk : (g.node h).cluster = some k) (hdone : done k)
    (hold : ∀ v ∈ l, (g.node v).cluster = some k → v ∈ s.order ∧ v < s.nodes.size)
    (hrun : multiCoordinates k rank g = .ok cs g') :
    Advances s done gone nothing nothing g g' ∧
      Forall₂ (fun i c => CoordinateAt s k i c g') (range rank) cs ∧
      ∀ c ∈ l, (g.node c).isCoordinate → (g.node c).cluster = some k →
        0 ≤ signed (g.node c).word ∧ signed (g.node c).word < rank := by
  obtain ⟨present, hp, hrun⟩ := multiCoordinates_eq_ok hrun
  obtain ⟨hrange, -⟩ := presentCoordinates_eq_ok hp
  have hlt := (hold h hmem hk).2
  have hstep : ∀ i ∈ range rank, ∀ c g₁ g₂, Advances s done gone nothing nothing g g₁ →
      coordinateFor k present i g₁ = .ok c g₂ →
      Advances s done gone nothing nothing g₁ g₂ ∧ CoordinateAt s k i c g₂ := by
    intro i _ c g₁ g₂ hg₁ hstep
    rw [coordinateFor] at hstep
    cases hl : present.lookup (i : Int) with
    | some n =>
      rw [hl] at hstep
      obtain ⟨rfl, rfl⟩ := EStateM.Result.ok.inj hstep
      obtain ⟨hnrun, hcoord, hword⟩ := mem_coordinateNodes.1
        (mem_of_presentCoordinates hp (mem_of_lookup hl))
      obtain ⟨hnl, hkn⟩ := hg.of_mem_run hdone hnrun
      have hc : CoordinateAt s k i n g := ⟨hg.lists.lt_size hnl, hcoord, hkn,
        by rw [← word_signed (g.node n).word, ← hword], .inl (hold n hnl hkn).1⟩
      exact ⟨refl_of _ g₁, hc.evolves hg₁.evolves⟩
    | none =>
      rw [hl] at hstep
      obtain ⟨l₁, hsub, hl₁⟩ := hg₁.lists hg
      have hk₁ := (hg₁.evolves.cluster h (hg.lists.lt_size hmem)).trans hk
      obtain ⟨hlists, hevolves, hc⟩ := hl₁.addCoordinate hmode (hsub hmem) hlt hk₁ hdone hstep
      refine ⟨⟨hevolves, fun hl' => ?_⟩, hc⟩
      rwa [← hl'.lists.order, hl₁.lists.order]
  obtain ⟨hadvances, hall⟩ := of_mapM_eq_ok (R := Advances s done gone nothing nothing)
    (Q := fun i c g => CoordinateAt s k i c g) hrun (fun hc h => hc.evolves h.evolves) hstep
  refine ⟨hadvances, hall, fun c hc hcoord hkc => ?_⟩
  have hfound : (c, signed (g.node c).word) ∈ coordinateNodes g (g.run k) :=
    mem_coordinateNodes.2 ⟨hg.spans.mem_run hg.lists hc (hold c hc hkc).2 hkc, hcoord, rfl⟩
  exact hrange _ hfound

end Graph

end KernelFusion
