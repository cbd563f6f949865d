/-
Which nodes the outputs need.

Each sweep reaches everything it can reach in one go, so the marked nodes can be told without
sweeps: some are *anchored*, their chain of memory accesses ends at an output; some *support*
these, through arguments of any use; and some access memory of the latter kind.
-/
import KernelFusion.Pass.Prune
import KernelFusion.Proofs.Graph.Arranged
import Mathlib.Data.List.Induction

namespace KernelFusion

open List

open Relation (ReflTransGen)

/-! ### Marking -/

section Marking

variable {test : List NodeId → NodeId → Bool} {l marked : List NodeId} {n v : NodeId}

/-- Marks a node if a test on the marked nodes says so. -/
def mark (test : List NodeId → NodeId → Bool) (marked : List NodeId) (n : NodeId) : List NodeId :=
  if test marked n then Graph.addNeeded marked n else marked

lemma mem_mark : v ∈ mark test marked n ↔ v ∈ marked ∨ v = n ∧ test marked n := by
  unfold mark Graph.addNeeded
  by_cases htest : test marked n
  · by_cases hn : n ∈ marked
    · have hv : v = n → v ∈ marked := fun heq => heq ▸ hn
      simp only [htest, if_true, contains_iff_mem, hn, and_true]
      tauto
    · simp only [htest, if_true, contains_iff_mem, hn, if_false, mem_cons, and_true]
      tauto
  · simp [htest]

lemma mem_foldl_mark (h : v ∈ marked) : v ∈ l.foldl (mark test) marked := by
  induction l generalizing marked with
  | nil => exact h
  | cons n l ih => exact ih (mem_mark.2 (.inl h))

lemma mem_of_mem_foldl_mark (hv : v ∉ l) (h : v ∈ l.foldl (mark test) marked) : v ∈ marked := by
  induction l generalizing marked with
  | nil => exact h
  | cons n l ih =>
    rw [mem_cons, not_or] at hv
    rcases mem_mark.1 (ih hv.2 h) with h | ⟨h, -⟩
    · exact h
    · exact absurd h hv.1

lemma foldl_mark_induction {P : NodeId → Prop} (hmarked : ∀ v ∈ marked, P v)
    (htest : ∀ a n b, l = a ++ n :: b → (∀ v ∈ a.foldl (mark test) marked, P v) →
      test (a.foldl (mark test) marked) n → P n) :
    ∀ v ∈ l.foldl (mark test) marked, P v := by
  induction l using reverseRecOn with
  | nil => exact hmarked
  | append_singleton l n ih =>
    have hfront := ih fun a m b hsplit => htest a m (b ++ [n]) (by simp [hsplit])
    intro v hv
    rw [foldl_append] at hv
    rcases mem_mark.1 hv with hv | ⟨rfl, hn⟩
    · exact hfront v hv
    · exact htest l v [] rfl hfront hn

lemma mem_foldl_mark_of_precedes (hl : l.Nodup) (hprec : Precedes l n v)
    (htest : ∀ s, n ∈ s → test s v) (hn : n ∈ l.foldl (mark test) marked) :
    v ∈ l.foldl (mark test) marked := by
  obtain ⟨a, b, rfl⟩ := append_of_mem hprec.right_mem
  have hna : n ∈ a := hprec.mem_of_right hl
  have hnb : n ∉ v :: b := fun h => (disjoint_of_nodup_append hl) hna h
  rw [foldl_append] at hn ⊢
  have hturn := mem_of_mem_foldl_mark hnb hn
  rw [foldl_cons]
  exact mem_foldl_mark (mem_mark.2 (.inr ⟨rfl, htest _ hturn⟩))

end Marking

namespace Graph

variable {g : Graph} {l s : List NodeId} {n m v w : NodeId} {a : Argument}

/-! ### Uses -/

/-- A node takes another one for an argument. -/
def Takes (g : Graph) (n m : NodeId) : Prop := ∃ a ∈ (g.node n).args, g.source a = m

/-- A node accesses another one as memory. -/
def Accesses (g : Graph) (n m : NodeId) : Prop :=
  ∃ a ∈ (g.node n).args, a.kind = .memory ∧ g.source a = m

lemma Accesses.takes (h : g.Accesses n m) : g.Takes n m := by
  obtain ⟨a, ha, -, hsource⟩ := h
  exact ⟨a, ha, hsource⟩

lemma Ordered.precedes (ho : g.Ordered l) (hn : n ∈ l) (h : g.Takes n m) : Precedes l m n := by
  obtain ⟨a, ha, rfl⟩ := h
  exact ho n hn a ha

lemma Ordered.mem_of_reflTransGen (ho : g.Ordered l) (hn : n ∈ l) (h : ReflTransGen g.Takes n m) :
    m ∈ l := by
  induction h with
  | refl => exact hn
  | tail _ htakes ih => exact (ho.precedes ih htakes).left_mem

/-- The uses of a node are the arguments that name it, at it or after it. -/
lemma mem_uses {u : Use} (hl : g.Lists l) (hv : v ∈ l) : u ∈ g.uses v ↔
    (v = u.user ∨ Precedes l v u.user) ∧ ∃ a, (g.node u.user).args[u.position]? = some a ∧
      g.source a = v ∧ a.kind = u.kind ∧ a.index = u.index := by
  have hfrom : ∀ w, w ∈ g.fromNode v ↔ v = w ∨ Precedes l v w := fun w =>
    hl.mem_fromNode_iff hv
  rw [uses, mem_flatMap]
  constructor
  · rintro ⟨w, hw, hu⟩
    rw [usesIn, mem_filterMap] at hu
    obtain ⟨⟨a, i⟩, ha, hu⟩ := hu
    dsimp only at hu
    by_cases hsource : g.source a = v
    · rw [if_pos hsource] at hu
      cases hu
      exact ⟨(hfrom w).1 hw, a, mem_zipIdx_iff_getElem?.1 ha, hsource, rfl, rfl⟩
    · rw [if_neg hsource] at hu
      cases hu
  · rintro ⟨hw, a, ha, hsource, hkind, hindex⟩
    refine ⟨u.user, (hfrom u.user).2 hw, ?_⟩
    rw [usesIn, mem_filterMap]
    refine ⟨(a, u.position), mem_zipIdx_iff_getElem?.2 ha, ?_⟩
    dsimp only
    rw [if_pos hsource, hkind, hindex]

lemma touches_iff : g.touches s n ↔ ∃ m ∈ s, g.Accesses n m := by
  simp only [touches, any_eq_true, Bool.and_eq_true, decide_eq_true_eq, contains_iff_mem]
  constructor
  · rintro ⟨a, ha, hkind, hmem⟩
    exact ⟨g.source a, hmem, a, ha, hkind, rfl⟩
  · rintro ⟨m, hmem, a, ha, hkind, rfl⟩
    exact ⟨a, ha, hkind, hmem⟩

lemma takes_of_feeds (hl : g.Lists l) (hn : n ∈ l) (h : g.feeds s n) :
    ∃ w ∈ s, g.Takes w n := by
  simp only [feeds, any_eq_true, contains_iff_mem] at h
  obtain ⟨u, hu, hmem⟩ := h
  obtain ⟨-, a, ha, hsource, -⟩ := (mem_uses hl hn).1 hu
  exact ⟨u.user, hmem, a, mem_of_getElem? ha, hsource⟩

lemma feeds_of_takes (hl : g.Lists l) (hprec : Precedes l n w) (hw : w ∈ s) (h : g.Takes w n) :
    g.feeds s n := by
  obtain ⟨a, ha, hsource⟩ := h
  obtain ⟨i, hi⟩ := mem_iff_getElem?.1 ha
  have huse : (⟨w, i, a.kind, a.index⟩ : Use) ∈ g.uses n :=
    (mem_uses hl hprec.left_mem).2 ⟨.inr hprec, a, hi, hsource, rfl, rfl⟩
  rw [feeds, any_eq_true]
  exact ⟨_, huse, contains_iff_mem.2 hw⟩

/-! ### What one sweep reaches -/

lemma sweepMemory_eq : g.sweepMemory s = g.order.foldl (mark g.touches) s := rfl

lemma sweepUses_eq : g.sweepUses s =
    (g.chain.backward g.last).foldl (mark fun s n => g.feeds s n || g.touches s n) s := rfl

lemma mem_sweepMemory (hl : g.Lists l) (ho : g.Ordered l) (hs : ∀ n ∈ s, n ∈ l) :
    n ∈ g.sweepMemory s ↔ n ∈ l ∧ ∃ m ∈ s, ReflTransGen g.Accesses n m := by
  rw [sweepMemory_eq, hl.order]
  constructor
  · refine foldl_mark_induction (P := fun n => n ∈ l ∧ ∃ m ∈ s, ReflTransGen g.Accesses n m)
      (fun v hv => ⟨hs v hv, v, hv, .refl⟩) (fun b v d hsplit hmarked htest => ?_) n
    obtain ⟨m, hm, haccess⟩ := touches_iff.1 htest
    obtain ⟨-, o, ho', hpath⟩ := hmarked m hm
    exact ⟨by simp [hsplit], o, ho', .head haccess hpath⟩
  · rintro ⟨hn, m, hm, hpath⟩
    induction hpath using ReflTransGen.head_induction_on with
    | refl => exact mem_foldl_mark hm
    | head haccess _ ih =>
      -- the memory comes first
      have hprec := ho.precedes hn haccess.takes
      exact mem_foldl_mark_of_precedes hl.chain.nodup hprec
        (fun t ht => touches_iff.2 ⟨_, ht, haccess⟩) (ih hprec.left_mem)

/-- The backward sweep finds all that the given nodes take. -/
lemma mem_sweepUses (hl : g.Lists l) (ho : g.Ordered l) (hlast : g.last = l.getLast?)
    (hs : ∀ n ∈ s, n ∈ l) (hclosed : ∀ n ∈ l, ∀ m ∈ s, g.Accesses n m → n ∈ s) :
    n ∈ g.sweepUses s ↔ ∃ w ∈ s, ReflTransGen g.Takes w n := by
  have hback : g.chain.backward g.last = l.reverse := by
    rw [hlast]
    exact Chain.Lists.backward (b := []) (by simpa using hl.chain)
  have hreverse : ∀ {x y}, Precedes l x y → Precedes l.reverse y x := by
    intro x y h
    have hrev := Sublist.reverse h
    simpa [Precedes] using hrev
  have hnodup : l.reverse.Nodup := nodup_reverse.2 hl.chain.nodup
  have hlisted : ∀ {n}, (∃ w ∈ s, ReflTransGen g.Takes w n) → n ∈ l := by
    rintro n ⟨w, hw, hpath⟩
    exact ho.mem_of_reflTransGen (hs w hw) hpath
  rw [sweepUses_eq, hback]
  constructor
  · refine foldl_mark_induction (P := fun n => ∃ w ∈ s, ReflTransGen g.Takes w n)
      (fun v hv => ⟨v, hv, .refl⟩) (fun b v d hsplit hmarked htest => ?_) n
    have hv : v ∈ l := by
      rw [← mem_reverse, hsplit]
      simp
    rw [Bool.or_eq_true] at htest
    rcases htest with hfeeds | htouches
    · obtain ⟨u, hu, htakes⟩ := takes_of_feeds hl hv hfeeds
      obtain ⟨w, hw, hpath⟩ := hmarked u hu
      exact ⟨w, hw, hpath.tail htakes⟩
    · -- the turn of the memory has not come, so it was marked from the start
      obtain ⟨m, hm, haccess⟩ := touches_iff.1 htouches
      have hmv := hreverse (ho.precedes hv haccess.takes)
      rw [hsplit] at hmv hnodup
      have hmb : m ∉ b := fun hmb => hmv.asymm hnodup (Precedes.of_mem hmb mem_cons_self)
      exact ⟨v, hclosed v hv m (mem_of_mem_foldl_mark hmb hm) haccess, .refl⟩
  · rintro ⟨w, hw, hpath⟩
    induction hpath with
    | refl => exact mem_foldl_mark hw
    | @tail u v hpath htakes ih =>
      have hu : u ∈ l := hlisted ⟨w, hw, hpath⟩
      have hprec := ho.precedes hu htakes
      refine mem_foldl_mark_of_precedes hnodup (hreverse hprec) (fun t ht => ?_) ih
      rw [Bool.or_eq_true]
      exact .inl (feeds_of_takes hl hprec ht htakes)

/-! ### The nodes that are needed -/

/-- The memory accesses of the node lead to an output; the node may be an output itself. -/
def Anchored (g : Graph) (n : NodeId) : Prop :=
  ∃ o ∈ g.order, (g.node o).role = .output ∧ ReflTransGen g.Accesses n o

/-- The node is an anchored node of the program, or such a node takes it, directly or not. -/
def Supports (g : Graph) (n : NodeId) : Prop :=
  ∃ w ∈ g.order, g.Anchored w ∧ ReflTransGen g.Takes w n

/-- The memory accesses of the node lead to one that supports the outputs; the node may do so
itself. -/
def IsNeeded (g : Graph) (n : NodeId) : Prop := ∃ m, g.Supports m ∧ ReflTransGen g.Accesses n m

lemma Supports.isNeeded (h : g.Supports n) : g.IsNeeded n := ⟨n, h, .refl⟩

lemma Supports.takes (h : g.Supports n) (htakes : g.Takes n m) : g.Supports m := by
  obtain ⟨w, hw, hanchored, hpath⟩ := h
  exact ⟨w, hw, hanchored, hpath.tail htakes⟩

/-- The sweeps find exactly what is needed. -/
lemma mem_needed_iff (hl : g.Lists l) (ho : g.Ordered l) (hlast : g.last = l.getLast?) :
    n ∈ g.needed ↔ n ∈ l ∧ g.IsNeeded n := by
  have hlist := hl.order
  have houtputs : ∀ n ∈ g.order.filter fun n => (g.node n).role = .output, n ∈ l := by
    intro n hn
    rw [← hlist]
    exact (mem_filter.1 hn).1
  have hfirst : ∀ n, n ∈ g.sweepMemory (g.order.filter fun n => (g.node n).role = .output) ↔
      n ∈ l ∧ g.Anchored n := by
    intro n
    rw [mem_sweepMemory hl ho houtputs]
    simp only [Anchored, mem_filter, decide_eq_true_eq, and_assoc]
  have hsecond : ∀ n, n ∈ g.sweepUses (g.sweepMemory
      (g.order.filter fun n => (g.node n).role = .output)) ↔ g.Supports n := by
    intro n
    rw [mem_sweepUses hl ho hlast (fun n hn => ((hfirst n).1 hn).1) fun n hn m hm haccess => ?_]
    · simp only [hfirst, and_assoc]
      rw [Supports, hlist]
    · obtain ⟨-, o, hmem, hrole, hpath⟩ := (hfirst m).1 hm
      exact (hfirst n).2 ⟨hn, o, hmem, hrole, .head haccess hpath⟩
  have hlisted : ∀ n, g.Supports n → n ∈ l := by
    rintro n ⟨w, hw, -, hpath⟩
    exact ho.mem_of_reflTransGen (hlist ▸ hw) hpath
  rw [needed, mem_sweepMemory hl ho fun n hn => hlisted n ((hsecond n).1 hn)]
  simp only [hsecond, IsNeeded]

end Graph

end KernelFusion
