/-
Taking several nodes out.

On the way the cursor and the heads depend on which nodes have gone already, but not in the end
(`Without`): the cursor is at the last node that is left up to its old place, and a cluster that
still has nodes has the first of them as its head.
-/
import KernelFusion.Proofs.Graph.Tidy
import KernelFusion.Proofs.Recording.Scripts

namespace KernelFusion.Graph

open List

variable {g g' : Graph} {l a b out out' : List NodeId} {n : NodeId} {k : ClusterId}

/-- What taking nodes out changes neither in the tables nor in the modes. -/
structure Thinned (g g' : Graph) : Prop where
  nodes : g'.nodes = g.nodes
  labels : g'.labels = g.labels
  recording : g'.recording = g.recording
  mode : g'.kernelMode = g.kernelMode

lemma Thinned.node_eq (h : g.Thinned g') (n : NodeId) : g'.node n = g.node n := by
  rw [node, node, h.nodes]

/-! ### Lists without some elements -/

lemma filter_notMem_concat (l out : List NodeId) (n : NodeId) :
    (l.filter fun m => m ∉ out ++ [n]) = (l.filter fun m => m ∉ out).filter fun m => m ≠ n := by
  rw [filter_filter]
  refine filter_congr fun m _ => ?_
  simp [and_comm]

lemma filter_ne_of_notMem (h : n ∉ l) : (l.filter fun m => m ≠ n) = l := by
  refine filter_eq_self.2 fun m hm => ?_
  simpa using fun heq : m = n => h (heq ▸ hm)

lemma filter_ne_of_nodup (h : (a ++ n :: b).Nodup) :
    ((a ++ n :: b).filter fun m => m ≠ n) = a ++ b := by
  obtain ⟨hna, hnb⟩ := not_mem_of_nodup_append h
  rw [filter_append, filter_cons_of_neg (by simp), filter_ne_of_notMem hna, filter_ne_of_notMem hnb]

/-! ### The state when some nodes have gone -/

/-- The second graph is the first one without some nodes. -/
structure Without (g : Graph) (out : List NodeId) (g' : Graph) : Prop extends g.Thinned g' where
  lists : g'.Lists (g.order.filter fun m => m ∉ out)
  created : g'.created = g.created.filter fun m => m ∉ out
  cursor : ∀ {a n b}, g.order = a ++ n :: b → g.cursor = some n →
    g'.cursor = ((a ++ [n]).filter fun m => m ∉ out).getLast?
  aside : (∀ n ∈ g.order, g.cursor ≠ some n) → g'.cursor = g.cursor
  runs : ∀ p : OpKind → Bool, (∀ k, p k) → g.Runs p g.order →
    g'.Runs p (g.order.filter fun m => m ∉ out)

lemma Lists.cursor_remove (hl : g.Lists (a ++ b)) (hcursor : g.cursor = a.getLast?) :
    (g.remove n).cursor = (a.filter fun m => m ≠ n).getLast? := by
  show (if g.cursor = some n then g.prev? n else g.cursor) = _
  rw [hcursor]
  rcases eq_nil_or_concat a with rfl | ⟨c, x, rfl⟩
  · rfl
  · rw [concat_eq_append] at hl ⊢
    rw [getLast?_concat, filter_append]
    by_cases hx : x = n
    · subst hx
      rw [append_assoc, singleton_append] at hl
      rw [if_pos rfl, hl.prev, filter_ne_of_notMem (not_mem_of_nodup_append hl.chain.nodup).1]
      simp
    · rw [if_neg fun heq => hx (Option.some.inj heq), filter_cons_of_pos (by simpa using hx)]
      simp

namespace Without

lemma refl (hl : g.Lists g.order) : g.Without [] g := by
  have hall : ∀ l : List NodeId, (l.filter fun m => m ∉ ([] : List NodeId)) = l := fun l => by simp
  refine ⟨⟨rfl, rfl, rfl, rfl⟩, ?_, (hall _).symm, fun {a n b} _ hcursor => ?_, fun _ => rfl,
    fun p _ hr => ?_⟩
  · rwa [hall]
  · rw [hall, hcursor, getLast?_concat]
  · rwa [hall]

lemma remove (h : g.Without out g') (hn : n ∈ g.order) (hout : n ∉ out) :
    g.Without (out ++ [n]) (g'.remove n) := by
  have hmem : n ∈ g.order.filter fun m => m ∉ out := mem_filter.2 ⟨hn, by simpa using hout⟩
  obtain ⟨a, b, hsplit⟩ := append_of_mem hmem
  have hlists := h.lists
  rw [hsplit] at hlists
  have hleft : (g.order.filter fun m => m ∉ out ++ [n]) = a ++ b := by
    rw [filter_notMem_concat, hsplit, filter_ne_of_nodup hlists.chain.nodup]
  refine ⟨⟨h.nodes, h.labels, h.recording, h.mode⟩, ?_, ?_, fun {c m d} hm hcursor => ?_,
    fun haside => ?_, fun p hp hr => ?_⟩
  · rw [hleft]
    exact hlists.remove
  · rw [filter_notMem_concat, ← h.created]
    rfl
  · -- what is left up to the old place of the cursor comes first in what is left
    have hparts : g.order.filter (fun m => m ∉ out) =
        (c ++ [m]).filter (fun m => m ∉ out) ++ d.filter fun m => m ∉ out := by
      rw [hm, ← filter_append, append_assoc, singleton_append]
    rw [filter_notMem_concat]
    exact (hparts ▸ h.lists).cursor_remove (h.cursor hm hcursor)
  · show (if g'.cursor = some n then g'.prev? n else g'.cursor) = g.cursor
    rw [h.aside haside, if_neg (haside n hn)]
  · have hruns := h.runs p hp hr
    rw [hsplit] at hruns
    rw [hleft]
    exact hruns.remove hlists hp

end Without

lemma Lists.without (hl : g.Lists g.order) (hnodup : out.Nodup) (hmem : ∀ n ∈ out, n ∈ g.order) :
    g.Without out (out.foldl Graph.remove g) := by
  -- induction on the number of nodes that have gone
  induction out using reverseRecOn with
  | nil => exact Without.refl hl
  | append_singleton out n ih =>
    have hout : n ∉ out := (not_mem_of_nodup_append hnodup).1
    rw [foldl_concat]
    exact (ih (nodup_append.1 hnodup).1 fun m hm => hmem m (mem_append_left _ hm)).remove
      (hmem n (by simp)) hout

lemma Without.grouped {p : OpKind → Bool} (h : g.Without out g') (hp : ∀ k, p k)
    (hg : g.Grouped p g.order) : g'.Grouped p (g.order.filter fun m => m ∉ out) := by
  have hmem : ∀ m ∈ g.order.filter fun m => m ∉ out, m ∈ g.order := fun m hm => (mem_filter.1 hm).1
  refine ⟨h.runs p hp hg.toRuns, fun {n m k} hn hm hkn hkm => ?_, fun {n} hn hnm => ?_⟩
  · rw [h.node_eq] at hkn hkm ⊢
    rw [h.node_eq]
    exact hg.apart (hmem n hn) (hmem m hm) hkn hkm
  · rw [h.node_eq] at hnm ⊢
    exact hg.clustered (hmem n hn) hnm

/-! ### The order does not matter -/

lemma Runs.head?_eq_find? (hr : g.Runs (fun _ => true) l) (hl : g.Lists l) (hn : n ∈ l)
    (hk : (g.node n).cluster = some k) :
    g.head? k = l.find? fun m => (g.node m).cluster = some k := by
  have hsome : (l.find? fun m => (g.node m).cluster = some k).isSome := by
    rw [find?_isSome]
    exact ⟨n, hn, by simpa using hk⟩
  obtain ⟨x, hx⟩ := Option.isSome_iff_exists.1 hsome
  obtain ⟨hkx, a, b, rfl, hfront⟩ := find?_eq_some_iff_append.1 hx
  obtain ⟨h, hh, -, hkh, hle⟩ := hr.head (n := x) (by simp) (by simpa using hkx)
  rcases hle rfl with rfl | hprec
  · rw [hh, hx]
  · -- in front of the first node there is none
    have ha : h ∈ a := hprec.mem_of_right hl.chain.nodup
    simpa [hkh] using hfront h ha

lemma Without.head?_eq_find? (h : g.Without out g') (hruns : g.Runs (fun _ => true) g.order)
    (hn : n ∈ g.order.filter fun m => m ∉ out) (hk : (g.node n).cluster = some k) :
    g'.head? k = (g.order.filter fun m => m ∉ out).find? fun m => (g.node m).cluster = some k := by
  have hk' : (g'.node n).cluster = some k := by rw [h.node_eq, hk]
  have hhead := (h.runs _ (fun _ => rfl) hruns).head?_eq_find? h.lists hn hk'
  simpa only [h.node_eq] using hhead

/-- The graphs have the same program with the same cursor, and the clusters that have nodes in it
have the same heads. -/
structure SameProgram (g g' : Graph) : Prop where
  order : g'.order = g.order
  created : g'.created = g.created
  first : g'.first = g.first
  cursor : g'.cursor = g.cursor
  head : ∀ n ∈ g.order, ∀ k, (g.node n).cluster = some k → g'.head? k = g.head? k

/-- What is removed decides what is left, whatever the order. -/
lemma Without.sameProgram {g'' : Graph} (h : g.Without out g') (h' : g.Without out' g'')
    (hruns : g.Runs (fun _ => true) g.order) (hsame : ∀ n, n ∈ out ↔ n ∈ out') :
    g'.SameProgram g'' := by
  have hfilter : ∀ l : List NodeId, (l.filter fun m => m ∉ out') = l.filter fun m =>
    m ∉ out := fun l =>
    filter_congr fun m _ => by simp [hsame m]
  refine ⟨by rw [h.lists.order, h'.lists.order, hfilter], by rw [h.created, h'.created, hfilter],
    by rw [h.lists.first, h'.lists.first, hfilter], ?_, fun n hn k hk => ?_⟩
  · by_cases hlisted : ∃ n ∈ g.order, g.cursor = some n
    · obtain ⟨n, hn, hcursor⟩ := hlisted
      obtain ⟨a, b, hsplit⟩ := append_of_mem hn
      rw [h.cursor hsplit hcursor, h'.cursor hsplit hcursor, hfilter]
    · have haside : ∀ n ∈ g.order, g.cursor ≠ some n := fun n hn heq => hlisted ⟨n, hn, heq⟩
      rw [h.aside haside, h'.aside haside]
  · rw [h.lists.order] at hn
    rw [h.node_eq] at hk
    rw [h.head?_eq_find? hruns hn hk, h'.head?_eq_find? hruns (by rwa [hfilter]) hk, hfilter]

/-- For every well-formed program whose clusters are runs that start with their heads, and any of
its nodes: taking them out in two orders gives the same program with the same cursor and the same
heads. What is left is in its old order, and the head of a cluster that has nodes left is the first
of them. -/
theorem foldl_remove_perm (hl : g.Lists g.order) (hruns : g.Runs (fun _ => true) g.order)
    (hnodup : out.Nodup) (hmem : ∀ n ∈ out, n ∈ g.order) (hperm : out.Perm out') :
    (out.foldl remove g).SameProgram (out'.foldl remove g) ∧
      (out.foldl remove g).Lists (g.order.filter fun m => m ∉ out) ∧
      ∀ n ∈ g.order, n ∉ out → ∀ k, (g.node n).cluster = some k → (out.foldl remove g).head? k =
        (g.order.filter fun m => m ∉ out).find? fun m => (g.node m).cluster = some k := by
  have h := hl.without hnodup hmem
  have h' := hl.without (hperm.nodup_iff.1 hnodup) fun n hn => hmem n (hperm.mem_iff.2 hn)
  exact ⟨h.sameProgram h' hruns fun n => hperm.mem_iff, h.lists, fun n hn hout k hk =>
    h.head?_eq_find? hruns (mem_filter.2 ⟨hn, by simpa using hout⟩) hk⟩

/-- Four operations on a tensor, one after the other. -/
def chained : List Step :=
  [ .act (.input .float (.sizes [4])) (some "A"),
    .act (.call (.named "sin") ["A"]) (some "s"),
    .act (.call (.named "cos") ["s"]) (some "c"),
    .act (.call (.named "exp") ["c"]) (some "e"),
    .act (.call (.named "sqrt") ["e"]) (some "q") ]

/-- They are cut into clusters. -/
def chainedCut : Graph := (Script.scene chained).graph.clusterize

/-- The first two of the operations and the last one go, which has the cursor. -/
theorem foldl_remove_perm_chainedCut :
    chainedCut.Lists chainedCut.order ∧ chainedCut.Runs (fun _ => true) chainedCut.order ∧
      [2, 3, 5].Nodup ∧ (∀ n ∈ [2, 3, 5], n ∈ chainedCut.order) ∧ [2, 3, 5].Perm [5, 3, 2] ∧
      chainedCut.cursor = some 5 ∧ chainedCut.head? 2 = some 2 ∧
      (chainedCut.node 4).cluster = some 2 ∧
      ([2, 3, 5].foldl remove chainedCut).SameProgram ([5, 3, 2].foldl remove chainedCut) ∧
      ([2, 3, 5].foldl remove chainedCut).Lists [0, 1, 4] ∧
      ([2, 3, 5].foldl remove chainedCut).head? 2 = some 4 := by
  have htidy : chainedCut.Tidy chainedCut.order :=
    (Script.recorded (l := chained) (by decide +kernel)).graph.tidy_clusterize_order
  have hmem : ∀ n ∈ [2, 3, 5], n ∈ chainedCut.order := by decide +kernel
  have hleft : (chainedCut.order.filter fun m => m ∉ [2, 3, 5]) = [0, 1, 4] := by decide +kernel
  obtain ⟨hsame, hlists, hhead⟩ :=
    foldl_remove_perm htidy.lists htidy.grouped.toRuns (by decide) hmem
      (by decide : [2, 3, 5].Perm [5, 3, 2])
  rw [hleft] at hlists hhead
  have hcluster : (chainedCut.node 4).cluster = some 2 := by decide +kernel
  have hfirst := hhead 4 (by decide +kernel) (by decide) 2 hcluster
  have hfound : ([0, 1, 4].find? fun m => (chainedCut.node m).cluster = some 2) = some 4 :=
    by decide +kernel
  exact ⟨htidy.lists, htidy.grouped.toRuns, by decide,
    hmem, by decide, by decide +kernel, by decide +kernel,
    hcluster, hsame, hlists, hfirst.trans hfound⟩

end KernelFusion.Graph
