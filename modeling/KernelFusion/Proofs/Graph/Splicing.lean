/-
Recording at a node.

What an expression records at one side of a node stands there as one block, and the first node that
enters in front of a head becomes the head. At the front of the program this goes wrong: the first
node that enters there has nothing in front of it, so heads are not looked at, and the second one
becomes the head instead.
-/
import KernelFusion.Proofs.Cluster.Partition
import KernelFusion.Proofs.Graph.Tidy

namespace KernelFusion.Graph

open List

variable {α : Type} {g g' g'' g₁ : Graph} {l₁ l₂ new a b : List NodeId} {n m : NodeId}
  {k : ClusterId} {p : Place} {inCluster : Bool}

/-! ### What an expression adds -/

/-- The graphs have the same list of nodes and the same clusters. -/
structure SameLayout (g g' : Graph) : Prop where
  sequence : g'.toSequence = g.toSequence
  chain : g'.chain = g.chain
  clusters : g'.clusters = g.clusters
  size : g'.nodes.size = g.nodes.size
  cluster : ∀ n, (g'.node n).cluster = (g.node n).cluster

/-- The second graph comes from the first one by recording the given nodes at the cursor, in this
order, and by changes that neither lists nor clusters depend on. -/
inductive Adds (g : Graph) : List NodeId → Graph → Prop where
  | start : Adds g [] g
  | record {new : List NodeId} {g' : Graph} (h : Adds g new g') (op : Operation) (type : Scalar)
    (args : List Argument) : Adds g (new ++ [g'.nodes.size]) (g'.insert op type args)
  | change {new : List NodeId} {g' g'' : Graph} (h : Adds g new g') (hsame : g'.SameLayout g'') :
    Adds g new g''

lemma SameLayout.setData (g : Graph) (n : NodeId) (data : List UInt32) :
    g.SameLayout (g.setData n data) :=
  ⟨rfl, rfl, rfl, size_nodes_modifyNode, fun _ => modifyNode_congr Node.cluster fun _ => rfl⟩

lemma Adds.trans {new' : List NodeId} (h : g.Adds new g') (h' : g'.Adds new' g'') :
    g.Adds (new ++ new') g'' := by
  induction h' with
  | start => rwa [append_nil]
  | record _ op type args ih =>
    rw [← append_assoc]
    exact ih.record op type args
  | change _ hsame ih => exact ih.change hsame

/-- The second graph comes from the first one by recording at the cursor. -/
def Lengthens (g g' : Graph) : Prop := ∃ new, g.Adds new g'

instance : IsPreorder Graph Lengthens where
  refl _ := ⟨[], .start⟩
  trans _ _ _ h h' := by
    obtain ⟨new, h⟩ := h
    obtain ⟨new', h'⟩ := h'
    exact ⟨new ++ new', h.trans h'⟩

lemma recorder_lengthens : Build.Recorder Lengthens fun _ _ => True where
  stable _ _ := trivial
  constant _ type _ := Build.keeps_sourceWith_of fun op _ _ =>
    ⟨⟨_, (Adds.start.record op type []).change (.setData _ _ _)⟩, trivial⟩
  apply _ _ _ := Build.keeps_apply_of fun op o _ _ =>
    ⟨⟨_, Adds.start.record op o.output _⟩, trivial⟩

/-- The nodes that entered behind another one: all of them, or all but the first if there was
nothing in front of it. -/
def enteredBehind (l₁ new : List NodeId) : List NodeId := if l₁ = [] then new.tail else new

/-- The head of a cluster when nodes have entered between two lists. The first one that entered
behind another one and in front of the head is the head. -/
def headAfter (g : Graph) (l₁ l₂ new : List NodeId) (k : ClusterId) : Option NodeId :=
  if g.current = some k ∧ l₂.head? ≠ none ∧ g.head? k = l₂.head? then
    (enteredBehind l₁ new).head?.or (g.head? k)
  else g.head? k

lemma mem_of_mem_enteredBehind (h : m ∈ enteredBehind l₁ new) : m ∈ new := by
  unfold enteredBehind at h
  split at h
  · exact mem_of_mem_tail h
  · exact h

lemma enteredBehind_concat (l₁ new : List NodeId) (m : NodeId) :
    enteredBehind l₁ (new ++ [m]) = if l₁ ++ new = [] then [] else enteredBehind l₁ new ++ [m] := by
  cases l₁ with
  | nil =>
    cases new with
    | nil => rfl
    | cons x new => rfl
  | cons y l₁ => rfl

/-- The state while an expression adds nodes between two lists. -/
structure Adding (g : Graph) (l₁ l₂ new : List NodeId) (g' : Graph) : Prop extends
    g'.Splits (l₁ ++ new) l₂ where
  fresh : new = range' g.nodes.size new.length
  count : g'.nodes.size = g.nodes.size + new.length
  created : g'.created = g.created ++ new
  current : g'.current = g.current
  last : g.last = (l₁ ++ l₂).getLast? → g'.last = (l₁ ++ new ++ l₂).getLast?
  joined : ∀ m ∈ new, (g'.node m).cluster = g.current
  cluster : ∀ m < g.nodes.size, (g'.node m).cluster = (g.node m).cluster
  head : ∀ k, g'.head? k = g.headAfter l₁ l₂ new k

namespace Adding

lemma refl (hs : g.Splits l₁ l₂) : g.Adding l₁ l₂ [] g := by
  refine ⟨by rwa [append_nil], rfl, rfl, (append_nil _).symm, rfl, ?_, ?_, fun _ _ => rfl, ?_⟩
  · intro hlast
    rw [append_nil, hlast]
  · simp
  · intro k
    have hnone : enteredBehind l₁ [] = [] := by
      unfold enteredBehind
      split <;> rfl
    unfold headAfter
    rw [hnone]
    split <;> rfl

variable (h : g.Adding l₁ l₂ new g')

include h

lemma congr (hsame : g'.SameLayout g'') : g.Adding l₁ l₂ new g'' := by
  have hseq := hsame.sequence
  have hhead : ∀ k, g''.head? k = g'.head? k := fun k => by rw [head?, head?, hsame.clusters]
  refine ⟨⟨h.toLists.congr hsame.chain (congrArg Sequence.first hseq) hsame.size,
    (congrArg Sequence.cursor hseq).trans h.cursor, fun hnil => (congrArg Sequence.ahead hseq).trans
    (h.ahead hnil)⟩,
    h.fresh, hsame.size.trans h.count, (congrArg Sequence.created hseq).trans h.created,
    (congrArg Sequence.current hseq).trans h.current,
    fun hlast => (congrArg Sequence.last hseq).trans (h.last hlast), fun m hm => ?_, fun m hm => ?_,
    fun k => (hhead k).trans (h.head k)⟩
  · rw [hsame.cluster, h.joined m hm]
  · rw [hsame.cluster, h.cluster m hm]

lemma head_insert (op : Operation) (type : Scalar) (args : List Argument) (k : ClusterId) :
    (g'.insert op type args).head? k = g.headAfter l₁ l₂ (new ++ [g'.nodes.size]) k := by
  rw [head?_insert, h.current, h.toSplits.following, h.cursor, h.head k]
  unfold headAfter
  by_cases hat : g.current = some k ∧ l₂.head? ≠ none ∧ g.head? k = l₂.head?
  · rw [if_pos hat, if_pos hat, enteredBehind_concat]
    by_cases hnil : l₁ ++ new = []
    · -- the first node of all: heads are not looked at
      obtain ⟨rfl, rfl⟩ := append_eq_nil_iff.1 hnil
      simp [enteredBehind]
    · cases hentered : enteredBehind l₁ new with
      | nil =>
        have hcursor : (l₁ ++ new).getLast? ≠ none := fun h => hnil (getLast?_eq_none_iff.1 h)
        rw [if_pos ⟨hcursor, hat.1, hat.2.1, hat.2.2⟩, if_neg hnil]
        rfl
      | cons x rest =>
        -- the head has been moved already, so it is not the node behind
        have hx : x ∈ new := mem_of_mem_enteredBehind (hentered ▸ mem_cons_self)
        have hne : some x ≠ l₂.head? := by
          intro heq
          have hmem := mem_of_head? heq.symm
          exact disjoint_of_nodup_append h.chain.nodup (mem_append_right _ hx) hmem
        simp [hnil, hne]
  · rw [if_neg hat, if_neg hat, if_neg]
    exact fun hnew => hat ⟨hnew.2.1, hnew.2.2.1, hnew.2.2.2⟩

lemma insert (op : Operation) (type : Scalar) (args : List Argument) :
    g.Adding l₁ l₂ (new ++ [g'.nodes.size]) (g'.insert op type args) := by
  have hsplits : (g'.insert op type args).Splits (l₁ ++ (new ++ [g'.nodes.size])) l₂ := by
    rw [← append_assoc]
    exact h.toSplits.insert op type args
  refine ⟨hsplits, ?_, ?_, ?_, h.current, fun hlast => ?_, fun m hm => ?_, fun m hm => ?_,
    h.head_insert op type args⟩
  · rw [length_append, length_singleton, range'_concat, ← h.fresh, h.count, Nat.one_mul]
  · rw [size_nodes_insert, h.count, length_append, length_singleton]
    rfl
  · show g'.created ++ [g'.nodes.size] = _
    rw [h.created, append_assoc]
  · show (if g'.following = none then some g'.nodes.size else g'.last) = _
    rw [h.toSplits.following, h.last hlast]
    cases l₂ with
    | nil => simp
    | cons x l₂ => simp
  · rcases mem_append.1 hm with hm | hm
    · have hlt : m < g'.nodes.size := h.toLists.lt_size (by simp [hm])
      rw [node_insert_of_ne (Nat.ne_of_lt hlt), h.joined m hm]
    · obtain rfl := mem_singleton.1 hm
      rw [node_insert_self]
      exact h.current
  · have hlt : m < g'.nodes.size := by
      rw [h.count]
      exact Nat.lt_add_right _ hm
    rw [node_insert_of_ne (Nat.ne_of_lt hlt), h.cluster m hm]

end Adding

lemma Adds.adding (h : g.Adds new g') (hs : g.Splits l₁ l₂) : g.Adding l₁ l₂ new g' := by
  induction h with
  | start => exact Adding.refl hs
  | record _ op type args ih => exact ih.insert op type args
  | change _ hsame ih => exact ih.congr hsame

/-! ### At one side of a node -/

namespace Place

/-- What is in front of the nodes that enter, if `a` is in front of the node. -/
def front (p : Place) (a : List NodeId) (n : NodeId) : List NodeId :=
  match p with
  | .before => a
  | .after => a ++ [n]

/-- What is behind the nodes that enter, if `b` is behind the node. -/
def back (p : Place) (n : NodeId) (b : List NodeId) : List NodeId :=
  match p with
  | .before => n :: b
  | .after => b

/-- A node and what has been recorded at one side of it. -/
def around (p : Place) (n : NodeId) (new : List NodeId) : List NodeId :=
  match p with
  | .before => new ++ [n]
  | .after => n :: new

lemma front_append_back (p : Place) (a b new : List NodeId) (n : NodeId) :
    p.front a n ++ new ++ p.back n b = a ++ p.around n new ++ b := by
  cases p <;> simp [front, back, around]

end Place

lemma Lists.enter (h : g.Lists (a ++ n :: b)) (p : Place) (inCluster : Bool) :
    (g.enter p n inCluster).Splits (p.front a n) (p.back n b) := by
  cases p with
  | before => exact h.enter_before inCluster
  | after => exact h.enter_after inCluster

lemma head?_enter (p : Place) (n : NodeId) (inCluster : Bool) (k : ClusterId) :
    (g.enter p n inCluster).head? k = g.head? k := by
  cases p <;> rfl

lemma current_enter (p : Place) (n : NodeId) (inCluster : Bool) :
    (g.enter p n inCluster).current = if inCluster then (g.node n).cluster else none := by
  cases p <;> rfl

lemma node_enter (p : Place) (n m : NodeId) (inCluster : Bool) :
    (g.enter p n inCluster).node m = g.node m := by
  cases p <;> rfl

lemma size_nodes_enter (p : Place) (n : NodeId) (inCluster : Bool) :
    (g.enter p n inCluster).nodes.size = g.nodes.size := by
  cases p <;> rfl

lemma headAfter_before :
    (g.enter .before n inCluster).headAfter a (n :: b) new k =
      if inCluster ∧ (g.node n).cluster = some k ∧ g.head? k = some n then
        (enteredBehind a new).head?.or (g.head? k)
      else g.head? k := by
  unfold headAfter
  rw [current_enter, head?_enter]
  refine if_congr ?_ rfl rfl
  cases inCluster <;> simp

lemma headAfter_after (hl : g.Lists (a ++ n :: b)) (hruns : g.Runs (fun _ => true) (a ++ n :: b)) :
    (g.enter .after n inCluster).headAfter (a ++ [n]) b new k = g.head? k := by
  unfold headAfter
  rw [current_enter, head?_enter, if_neg]
  rintro ⟨hcurrent, hne, hhead⟩
  have hk : (g.node n).cluster = some k := by
    cases inCluster with
    | true => exact hcurrent
    | false => cases hcurrent
  obtain ⟨h, hh, -, -, hle⟩ := hruns.head (by simp) hk
  have hb : h ∈ b := mem_of_head? (hhead.symm.trans hh)
  have hafter : Precedes (a ++ n :: b) n h := Precedes.of_mem_tail hb
  exact hafter.not_le hl.chain.nodup (hle rfl)

lemma Runs.head?_first (hruns : g.Runs (fun _ => true) (n :: b)) (hl : g.Lists (n :: b))
    (hk : (g.node n).cluster = some k) : g.head? k = some n := by
  obtain ⟨h, hh, -, -, hle⟩ := hruns.head mem_cons_self hk
  rcases hle rfl with rfl | hprec
  · exact hh
  · have hmem : h ∈ ([] : List NodeId) := Precedes.mem_of_right (a := []) hprec hl.chain.nodup
    cases hmem

/-- The second graph is the first one with new nodes at one side of a node. -/
structure Spliced (g : Graph) (p : Place) (n : NodeId) (inCluster : Bool) (new : List NodeId)
    (g' : Graph) : Prop where
  fresh : new = range' g.nodes.size new.length
  order : ∃ a b, g.order = a ++ n :: b ∧ g'.order = a ++ p.around n new ++ b
  lists : g'.Lists g'.order
  last : g'.last = g'.order.getLast?
  created : g'.created = g.created ++ new
  cursor : g'.cursor = g.cursor
  current : g'.current = g.current
  joined : ∀ m ∈ new, (g'.node m).cluster = if inCluster then (g.node n).cluster else none
  cluster : ∀ m ∈ g.order, (g'.node m).cluster = (g.node m).cluster

/-- Heads change in one case only: nodes that join the cluster have entered in front of its head,
which was not the first node. Then the first of them is the head. -/
def HeadsFollow (g : Graph) (p : Place) (n : NodeId) (inCluster : Bool) (new : List NodeId)
    (g' : Graph) : Prop :=
  ∀ k, g'.head? k =
    if p = .before ∧ inCluster ∧ g.prev? n ≠ none ∧ new ≠ [] ∧ (g.node n).cluster = some k ∧
      g.head? k = some n
    then new.head? else g.head? k

/-- Two or more nodes have entered at the front of the program and joined the cluster of its first
node. -/
def Overtaken (g : Graph) (p : Place) (n : NodeId) (inCluster : Bool) (new : List NodeId) : Prop :=
  p = .before ∧ inCluster ∧ g.prev? n = none ∧ (g.node n).cluster ≠ none ∧ 2 ≤ new.length

section Heads

variable {a b : List NodeId} (hl : g.Lists (a ++ n :: b))
  (hruns : g.Runs (fun _ => true) (a ++ n :: b))
  (hhead : ∀ k, g'.head? k = (g.enter p n inCluster).headAfter (p.front a n) (p.back n b) new k)

include hl hruns hhead

lemma head?_of_overtaken (h : g.Overtaken p n inCluster new) (k : ClusterId) :
    g'.head? k = if (g.node n).cluster = some k then new[1]? else g.head? k := by
  obtain ⟨rfl, rfl, hprev, -, hlength⟩ := h
  rw [hl.prev, getLast?_eq_none_iff] at hprev
  subst hprev
  rw [hhead k]
  refine (headAfter_before (a := [])).trans ?_
  by_cases hk : (g.node n).cluster = some k
  · rw [if_pos ⟨rfl, hk, hruns.head?_first hl hk⟩, if_pos hk, enteredBehind, if_pos rfl, head?_tail,
      getElem?_eq_getElem (show 1 < new.length from hlength)]
    rfl
  · rw [if_neg fun h => hk h.2.1, if_neg hk]

/-- Unless overtaken, a cluster begins with the first node recorded before its head. -/
lemma headsFollow_of_not_overtaken (h : ¬ g.Overtaken p n inCluster new) :
    g.HeadsFollow p n inCluster new g' := by
  intro k
  rw [hhead k]
  cases p with
  | after =>
    rw [if_neg fun hp => by cases hp.1]
    exact headAfter_after hl hruns
  | before =>
    refine (headAfter_before (a := a)).trans ?_
    by_cases hat : inCluster ∧ (g.node n).cluster = some k ∧ g.head? k = some n
    · obtain ⟨hin, hk, hhd⟩ := hat
      rw [if_pos ⟨hin, hk, hhd⟩]
      cases a with
      | nil =>
        -- at the front at most one node has entered
        have hprev : g.prev? n = none := hl.prev
        have hlength : ¬ 2 ≤ new.length := fun hlength =>
          h ⟨rfl, hin, hprev, by rw [hk]; exact Option.some_ne_none k, hlength⟩
        have hentered : enteredBehind [] new = [] := by
          rw [enteredBehind, if_pos rfl, ← length_eq_zero_iff, length_tail]
          omega
        rw [hentered, if_neg fun hp => hp.2.2.1 hprev]
        rfl
      | cons y a =>
        have hprev : g.prev? n ≠ none := by
          rw [hl.prev]
          simp
        cases new with
        | nil => rw [if_neg fun hp => hp.2.2.2.1 rfl]; rfl
        | cons x new => rw [if_pos ⟨rfl, hin, hprev, cons_ne_nil x new, hk, hhd⟩]; rfl
    · rw [if_neg hat, if_neg fun hp => hat ⟨hp.2.1, hp.2.2.2.2⟩]

lemma not_headsFollow_of_overtaken (hnew : n ∉ new) (h : g.Overtaken p n inCluster new) :
    ¬ g.HeadsFollow p n inCluster new g' := by
  intro hfollow
  have hprev := h.2.2.1
  obtain ⟨k, hk⟩ := Option.ne_none_iff_exists'.1 h.2.2.2.1
  have hfirst : g.head? k = some n := by
    rw [hl.prev, getLast?_eq_none_iff] at hprev
    subst hprev
    exact hruns.head?_first hl hk
  have hsecond := head?_of_overtaken hl hruns hhead h k
  rw [hfollow k, if_neg fun hp => hp.2.2.1 hprev, if_pos hk, hfirst] at hsecond
  exact hnew (mem_of_getElem? hsecond.symm)

end Heads

/-- Nodes recorded at a place are spliced in there, in order. -/
lemma Adding.spliced (hl : g.Lists g.order) (hsplit : g.order = a ++ n :: b)
    (hlast : g.last = g.order.getLast?)
    (h : (g.enter p n inCluster).Adding (p.front a n) (p.back n b) new g₁) :
    g.Spliced p n inCluster new (g₁.leave g) := by
  have hlists : (g₁.leave g).Lists (a ++ p.around n new ++ b) := by
    rw [← p.front_append_back]
    exact h.toLists.congr rfl rfl rfl
  have hjoin : p.front a n ++ p.back n b = g.order := by
    rw [hsplit]
    cases p <;> simp [Place.front, Place.back]
  refine ⟨?_, ⟨a, b, hsplit, hlists.order⟩, ?_, ?_, ?_, rfl, rfl, fun m hm => ?_, fun m hm => ?_⟩
  · rw [← size_nodes_enter p n inCluster]
    exact h.fresh
  · rw [hlists.order]
    exact hlists
  · rw [hlists.order, ← p.front_append_back]
    refine h.last ?_
    rw [hjoin, ← hlast]
    cases p <;> rfl
  · show g₁.created = _
    rw [h.created]
    cases p <;> rfl
  · show (g₁.node m).cluster = _
    rw [h.joined m hm, current_enter]
  · have hlt : m < (g.enter p n inCluster).nodes.size := by
      rw [size_nodes_enter]
      exact hl.lt_size hm
    show (g₁.node m).cluster = _
    rw [h.cluster m hlt, node_enter]

/-- For every well-formed program whose clusters are runs that start with their heads, every node of
it and every expression that records at the cursor and does not fail: the recorded nodes stand as
one block beside the node, and all else is as before. Heads follow if and only if no two nodes have
entered at the front of the program and joined the cluster of its first node; if they have, the
second one is the head. -/
theorem placed_spliced {act : Build α} {x : α} {g₁ : Graph} (hl : g.Lists g.order)
    (hlast : g.last = g.order.getLast?) (hruns : g.Runs (fun _ => true) g.order) (hn : n ∈ g.order)
    (hact : act (g.enter p n inCluster) = .ok x g₁) (hadds : (g.enter p n inCluster).Adds new g₁) :
    ∃ g', Build.placed p n inCluster act g = .ok x g' ∧ g.Spliced p n inCluster new g' ∧
      (g.HeadsFollow p n inCluster new g' ↔ ¬ g.Overtaken p n inCluster new) ∧
      (g.Overtaken p n inCluster new → ∀ k, g'.head? k =
        if (g.node n).cluster = some k then new[1]? else g.head? k) := by
  obtain ⟨a, b, hsplit⟩ := append_of_mem hn
  rw [hsplit] at hruns
  have hl' : g.Lists (a ++ n :: b) := hsplit ▸ hl
  have hadding := hadds.adding (hl'.enter p inCluster)
  have hheads : ∀ k, (g₁.leave g).head? k =
      (g.enter p n inCluster).headAfter (p.front a n) (p.back n b) new k := hadding.head
  have hnew : n ∉ new := by
    intro hmem
    rw [hadding.fresh, mem_range'_1, size_nodes_enter] at hmem
    exact absurd (hl.lt_size hn) (Nat.not_lt.2 hmem.1)
  exact ⟨g₁.leave g, Build.placed_eq_ok.2 ⟨g₁, hact, rfl⟩, hadding.spliced hl hsplit hlast,
    ⟨fun hfollow h => not_headsFollow_of_overtaken hl' hruns hheads hnew h hfollow,
      headsFollow_of_not_overtaken hl' hruns hheads⟩, head?_of_overtaken hl' hruns hheads⟩

lemma adds_of_keeps {act : Build α} {x : α} {P : α → Graph → Prop} (hl : g.Lists g.order)
    (hn : n ∈ g.order) (hkeeps : Keeps Lengthens act (g.enter p n inCluster) P)
    (hact : act (g.enter p n inCluster) = .ok x g₁) :
    (g.enter p n inCluster).Adds (range' g.nodes.size (g₁.nodes.size - g.nodes.size)) g₁ := by
  obtain ⟨a, b, hsplit⟩ := append_of_mem hn
  rw [hsplit] at hl
  obtain ⟨new, hadds⟩ := (hkeeps.meets.of_ok hact).1
  have hadding := hadds.adding (hl.enter p inCluster)
  have hcount := hadding.count
  have hfresh := hadding.fresh
  rw [size_nodes_enter] at hcount hfresh
  rwa [hcount, Nat.add_sub_cancel_left, ← hfresh]

/-- The program that gathers from a tensor, cut into clusters. -/
def gatheredCut : Graph := (Script.scene gathered).graph.clusterize

/-- The index behind an index. -/
def nextIndex (n : NodeId) : Build NodeId := do
  let one ← Build.integer 1
  Build.add n one

lemma keeps_nextIndex (n : NodeId) : Keeps Lengthens (nextIndex n) g fun _ _ => True :=
  Keeps.bind (recorder_lengthens.constant (n := n) trivial _ _) fun _ _ _ _ =>
    recorder_lengthens.keeps_arithmetic .add trivial trivial

theorem placed_spliced_gatheredCut :
    gatheredCut.Lists gatheredCut.order ∧ gatheredCut.last = gatheredCut.order.getLast? ∧
      gatheredCut.Runs (fun _ => true) gatheredCut.order ∧ 4 ∈ gatheredCut.order ∧
      ∃ g₁ g', nextIndex 2 (gatheredCut.enter .before 4 true) = .ok 6 g₁ ∧
        (gatheredCut.enter .before 4 true).Adds [5, 6] g₁ ∧
        Build.placed .before 4 true (nextIndex 2) gatheredCut = .ok 6 g' ∧
        gatheredCut.Spliced .before 4 true [5, 6] g' ∧ gatheredCut.HeadsFollow .before 4 true
        [5, 6] g' := by
  have htidy : gatheredCut.Tidy gatheredCut.order :=
    (Script.recorded (l := gathered) (by decide +kernel)).graph.tidy_clusterize_order
  have hn : 4 ∈ gatheredCut.order := by decide +kernel
  obtain ⟨x, g₁, hact, rfl, hold, hsize⟩ : ∃ x g₁,
    nextIndex 2 (gatheredCut.enter .before 4 true) = .ok x g₁ ∧
      x = 6 ∧ gatheredCut.nodes.size = 5 ∧ g₁.nodes.size = 7 := by decide +kernel
  have hadds := adds_of_keeps htidy.lists hn (keeps_nextIndex 2) hact
  rw [hold, hsize] at hadds
  obtain ⟨g', hplaced, hspliced, hfollow, -⟩ :=
    placed_spliced htidy.lists htidy.last htidy.grouped.toRuns hn hact hadds
  have hprev : gatheredCut.prev? 4 ≠ none := by decide +kernel
  exact ⟨htidy.lists, htidy.last, htidy.grouped.toRuns, hn, g₁, g', hact, hadds, hplaced, hspliced,
    hfollow.2 fun h => hprev h.2.2.1⟩

/-- Two constants. -/
def pair : List Step :=
  [ .act (.constant .int 1 (.sizes [])) (some "a"), .act (.constant .int 2 (.sizes [])) (some "b") ]

/-- They are cut into clusters. -/
def pairCut : Graph := (Script.scene pair).graph.clusterize

lemma keeps_integers (sizes : List Int) : Keeps Lengthens (Build.integers sizes)
    g fun _ _ => True :=
  (keeps_mapM (P := fun _ _ => True) (fun _ _ => trivial) fun _ _ _ _ =>
    recorder_lengthens.constant (n := 0) trivial _ _).mono fun _ _ _ _ => trivial

/-- Heads do not always follow: when two constants enter in front of the first node of a program and
join its cluster, the second one of them is the head. -/
theorem not_forall_headsFollow :
    ¬ ∀ (g g₁ g' : Graph) (p : Place) (n : NodeId) (inCluster : Bool) (act : Build (List NodeId))
      (x new : List NodeId), g.Lists g.order → g.last = g.order.getLast? →
      g.Runs (fun _ => true) g.order →
      n ∈ g.order → act (g.enter p n inCluster) = .ok x g₁ → (g.enter p n inCluster).Adds new g₁ →
      Build.placed p n inCluster act g = .ok x g' → g.HeadsFollow p n inCluster new g' := by
  intro hall
  have htidy : pairCut.Tidy pairCut.order :=
    (Script.recorded (l := pair) (by decide +kernel)).graph.tidy_clusterize_order
  have hn : 0 ∈ pairCut.order := by decide +kernel
  obtain ⟨x, g', hplaced, hend⟩ : ∃ x g',
      Build.placed .before 0 true (Build.integers [3, 4]) pairCut = .ok x g' ∧
      g'.head? 0 = some 3 := by decide +kernel
  obtain ⟨g₁, hact, -⟩ := Build.placed_eq_ok.1 hplaced
  have hfollow := hall _ _ _ _ _ _ _ _ _ htidy.lists htidy.last htidy.grouped.toRuns hn hact
    (adds_of_keeps htidy.lists hn (keeps_integers [3, 4]) hact) hplaced 0
  have hprev : pairCut.prev? 0 = none := by decide +kernel
  have hhead : pairCut.head? 0 = some 0 := by decide +kernel
  rw [hend, if_neg fun h => h.2.2.1 hprev] at hfollow
  exact absurd (hfollow.trans hhead) (by decide)

end KernelFusion.Graph
