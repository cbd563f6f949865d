/-
Chains that list nodes.

A chain lists a sequence of nodes if going from neighbour to neighbour, in either direction, runs
through it. A graph is *split* into two lists if its program is the first list followed by the
second and the cursor stands between them: recording a node puts it at the end of the first list.
-/
import KernelFusion.Graph.Edit
import Mathlib.Data.List.Nodup
import Mathlib.Data.List.Perm.Subperm

namespace KernelFusion

open List

/-! ### Positions in a list -/

section Positions

variable {α : Type} {l₁ l₂ a b : List α} {x y : α}

lemma append_cons_cases (h : l₁ ++ x :: l₂ = a ++ y :: b) :
    (∃ t, l₁ = a ++ y :: t ∧ b = t ++ x :: l₂) ∨ (a = l₁ ∧ y = x ∧ b = l₂) ∨
      (∃ t, a = l₁ ++ x :: t ∧ l₂ = t ++ y :: b) := by
  rcases append_eq_append_iff.1 h with ⟨t, rfl, ht⟩ | ⟨t, rfl, ht⟩
  · cases t with
    | nil =>
      obtain ⟨rfl, rfl⟩ := cons.inj ht
      exact .inr (.inl ⟨append_nil _, rfl, rfl⟩)
    | cons z t =>
      obtain ⟨rfl, rfl⟩ := cons.inj ht
      exact .inr (.inr ⟨t, rfl, rfl⟩)
  · cases t with
    | nil =>
      obtain ⟨rfl, rfl⟩ := cons.inj ht
      exact .inr (.inl ⟨(append_nil _).symm, rfl, rfl⟩)
    | cons z t =>
      obtain ⟨rfl, rfl⟩ := cons.inj ht
      exact .inl ⟨t, rfl, rfl⟩

lemma getLast?_ne_of_nodup (h : (a ++ x :: y :: b).Nodup) :
    (a ++ x :: y :: b).getLast? ≠ some x := by
  intro hlast
  rw [getLast?_append_cons, getLast?_cons_cons] at hlast
  have hx := (nodup_cons.1 (nodup_append.1 h).2.1).1
  exact hx (mem_of_getLast? hlast)

lemma not_mem_of_nodup_append (h : (a ++ x :: b).Nodup) : x ∉ a ∧ x ∉ b := by
  have hx := (nodup_cons.1 (nodup_middle.1 h)).1
  exact ⟨fun hm => hx (mem_append_left _ hm), fun hm => hx (mem_append_right _ hm)⟩

lemma exists_eq_concat (h : x ∈ a) : ∃ a' y, a = a' ++ [y] := by
  rcases eq_nil_or_concat a with rfl | ⟨a', y, rfl⟩
  · cases h
  · exact ⟨a', y, concat_eq_append⟩

end Positions

/-! ### Tables -/

section Tables

variable {α β : Type} [BEq α] [LawfulBEq α] {l : List (α × β)} {x : α} {y : β}

lemma mem_of_lookup (h : l.lookup x = some y) : (x, y) ∈ l := by
  obtain ⟨l₁, l₂, rfl, -⟩ := lookup_eq_some_iff.1 h
  simp

lemma exists_lookup_eq_some (h : x ∈ l.map Prod.fst) : ∃ y, l.lookup x = some y := by
  obtain ⟨q, hq, rfl⟩ := mem_map.1 h
  cases hfound : l.lookup q.1 with
  | none =>
    have hne := lookup_eq_none_iff.1 hfound q hq
    simp at hne
  | some y => exact ⟨y, rfl⟩

lemma lookup_eq_some_of_mem (hnodup : (l.map Prod.fst).Nodup) (h : (x, y) ∈ l) :
    l.lookup x = some y := by
  obtain ⟨z, hz⟩ := exists_lookup_eq_some (mem_map.2 ⟨(x, y), h, rfl⟩)
  have heq := inj_on_of_nodup_map hnodup (mem_of_lookup hz) h rfl
  rw [hz, (Prod.mk.inj heq).2]

end Tables

namespace Chain

/-- The chain lists exactly the given nodes, in order. -/
structure Lists (c : Chain) (l : List NodeId) : Prop where
  nodup : l.Nodup
  lt_size : ∀ n ∈ l, n < c.links.size
  next : ∀ {a n b}, l = a ++ n :: b → c.next? n = b.head?
  prev : ∀ {a n b}, l = a ++ n :: b → c.prev? n = a.getLast?

variable {c : Chain} {l l₁ l₂ a b : List NodeId} {n : NodeId}

lemma lists_nil (c : Chain) : c.Lists [] :=
  ⟨nodup_nil, by simp, fun h => by simp at h, fun h => by simp at h⟩

lemma size_insert (c : Chain) (prev next : Option NodeId) :
    (c.insert prev next).links.size = c.links.size + 1 := by
  simp [insert]

lemma size_remove (c : Chain) (n : NodeId) : (c.remove n).links.size = c.links.size := by
  simp [remove]

lemma Lists.size_notMem (h : c.Lists l) : c.links.size ∉ l :=
  fun hm => Nat.lt_irrefl _ (h.lt_size _ hm)

/-- Linking a new node between two sides lists it there. -/
lemma Lists.insert (h : c.Lists (l₁ ++ l₂)) :
    (c.insert l₁.getLast? l₂.head?).Lists (l₁ ++ c.links.size :: l₂) := by
  have hnew := h.size_notMem
  refine ⟨nodup_middle.2 (h.nodup.cons hnew), fun m hm => ?_, ?_, ?_⟩
  · rw [size_insert]
    rcases mem_append.1 hm with hm | hm
    · exact Nat.lt_succ_of_lt (h.lt_size m (mem_append_left _ hm))
    · rcases mem_cons.1 hm with rfl | hm
      · exact Nat.lt_succ_self _
      · exact Nat.lt_succ_of_lt (h.lt_size m (mem_append_right _ hm))
  · intro a m b hsplit
    rcases append_cons_cases hsplit with ⟨t, rfl, rfl⟩ | ⟨rfl, rfl, rfl⟩ | ⟨t, rfl, rfl⟩
    · -- a node in front of the new one
      have hm : m < c.links.size := h.lt_size m (by simp)
      rw [next?_insert _ _ _ (Nat.le_of_lt hm)]
      cases t with
      | nil => simp
      | cons y t =>
        rw [if_neg (getLast?_ne_of_nodup (nodup_append.1 h.nodup).1), if_neg (Nat.ne_of_lt hm),
          h.next (a := a) (b := y :: t ++ l₂) (by simp)]
        rfl
    · rw [next?_insert _ _ _ (Nat.le_refl _), if_neg, if_pos rfl]
      -- the new node itself, which is not the last one in front of it
      exact fun hlast => hnew (mem_append_left _ (mem_of_getLast? hlast))
    · have hm : m < c.links.size := h.lt_size m (by simp)
      rw [next?_insert _ _ _ (Nat.le_of_lt hm), if_neg, if_neg (Nat.ne_of_lt hm),
        h.next (a := l₁ ++ t) (b := b) (by simp)]
      intro hlast
      have hnd : (l₁ ++ t ++ m :: b).Nodup := by simpa using h.nodup
      exact (not_mem_of_nodup_append hnd).1 (by simp [mem_of_getLast? hlast])
  · intro a m b hsplit
    rcases append_cons_cases hsplit with ⟨t, rfl, rfl⟩ | ⟨rfl, rfl, rfl⟩ | ⟨t, rfl, rfl⟩
    · have hm : m < c.links.size := h.lt_size m (by simp)
      rw [prev?_insert _ _ _ (Nat.le_of_lt hm), if_neg, if_neg (Nat.ne_of_lt hm),
        h.prev (a := a) (b := t ++ l₂) (by simp)]
      intro hhead
      have hnd : (a ++ m :: (t ++ l₂)).Nodup := by simpa using h.nodup
      exact (not_mem_of_nodup_append hnd).2 (by simp [mem_of_head? hhead])
    · rw [prev?_insert _ _ _ (Nat.le_refl _), if_neg, if_pos rfl]
      exact fun hhead => hnew (mem_append_right _ (mem_of_head? hhead))
    · -- a node behind the new one
      have hm : m < c.links.size := h.lt_size m (by simp)
      rw [prev?_insert _ _ _ (Nat.le_of_lt hm)]
      cases t with
      | nil => simp
      | cons y t =>
        have hne : (y :: t ++ m :: b).head? ≠ some m := by
          intro hhead
          obtain rfl : y = m := by simpa using hhead
          have hnd := (nodup_append.1 h.nodup).2.1
          exact (not_mem_of_nodup_append hnd).1 (by simp)
        rw [if_neg hne, if_neg (Nat.ne_of_lt hm), h.prev (a := l₁ ++ y :: t) (b := b) (by simp),
          getLast?_append_cons, getLast?_append_cons, getLast?_cons_cons]

section Removal

variable {m : NodeId} {a' b' : List NodeId} (h : c.Lists (a ++ n :: b))
  (hsplit : a ++ b = a' ++ m :: b')

include h hsplit

lemma Lists.lt_size_of_split : m < c.links.size := by
  have hsub : (a ++ b).Sublist (a ++ n :: b) := by simp
  exact h.lt_size m (hsub.subset (by simp [hsplit]))

lemma Lists.next?_remove : (c.remove n).next? m = b'.head? := by
  rw [Chain.next?_remove _ _ (h.lt_size_of_split hsplit), h.prev rfl, h.next rfl]
  rcases append_eq_append_iff.1 hsplit with ⟨t, rfl, rfl⟩ | ⟨t, rfl, ht⟩
  · -- behind the node
    rw [if_neg, h.next (a := a ++ n :: t) (b := b') (by simp)]
    intro hlast
    have hnd : (a ++ n :: t ++ m :: b').Nodup := by simpa using h.nodup
    exact (not_mem_of_nodup_append hnd).1 (by simp [mem_of_getLast? hlast])
  · cases t with
    | nil =>
      -- the first node behind it keeps its successor
      obtain rfl : b = m :: b' := by simpa using ht.symm
      rw [append_nil] at h ⊢
      rw [if_neg, h.next (a := a' ++ [n]) (b := b') (by simp)]
      intro hlast
      have hnd : (a' ++ [n] ++ m :: b').Nodup := by simpa using h.nodup
      exact (not_mem_of_nodup_append hnd).1 (by simp [mem_of_getLast? hlast])
    | cons z t =>
      obtain ⟨rfl, rfl⟩ := cons.inj ht
      cases t with
      | nil => simp
      | cons y t =>
        -- only the last node in front of it gets a new successor
        rw [if_neg (getLast?_ne_of_nodup (nodup_append.1 h.nodup).1),
          h.next (a := a') (b := y :: t ++ n :: b) (by simp)]
        rfl

lemma Lists.prev?_remove : (c.remove n).prev? m = a'.getLast? := by
  rw [Chain.prev?_remove _ _ (h.lt_size_of_split hsplit), h.prev rfl, h.next rfl]
  rcases append_eq_append_iff.1 hsplit with ⟨t, rfl, rfl⟩ | ⟨t, rfl, ht⟩
  · cases t with
    | nil => simp
    | cons y t =>
      have hne : (y :: t ++ m :: b').head? ≠ some m := by
        intro hhead
        obtain rfl : y = m := by simpa using hhead
        have hnd : (a ++ [n] ++ (y :: t ++ y :: b')).Nodup := by simpa using h.nodup
        exact (not_mem_of_nodup_append (nodup_append.1 hnd).2.1).1 (by simp)
      rw [if_neg hne, h.prev (a := a ++ n :: y :: t) (b := b') (by simp), getLast?_append_cons,
        getLast?_append_cons, getLast?_cons_cons]
  · cases t with
    | nil =>
      obtain rfl : b = m :: b' := by simpa using ht.symm
      simp
    | cons z t =>
      obtain ⟨rfl, rfl⟩ := cons.inj ht
      rw [if_neg, h.prev (a := a') (b := t ++ n :: b) (by simp)]
      intro hhead
      have hnd : (a' ++ m :: (t ++ n :: b)).Nodup := by simpa using h.nodup
      exact (not_mem_of_nodup_append hnd).2 (by simp [mem_of_head? hhead])

end Removal

lemma Lists.remove (h : c.Lists (a ++ n :: b)) : (c.remove n).Lists (a ++ b) := by
  have hsub : (a ++ b).Sublist (a ++ n :: b) := by simp
  refine ⟨h.nodup.sublist hsub, fun m hm => ?_, h.next?_remove, h.prev?_remove⟩
  rw [size_remove]
  exact h.lt_size m (hsub.subset hm)

/-! ### Reading a list off a chain -/

lemma Lists.length_le (h : c.Lists l) : l.length ≤ c.links.size := by
  have hsub : l ⊆ range c.links.size := fun n hn => mem_range.2 (h.lt_size n hn)
  simpa using (h.nodup.subperm hsub).length_le

lemma Lists.walk (h : c.Lists l) {steps : Nat} :
    ∀ {a b : List NodeId}, l = a ++ b → b.length ≤ steps → c.walk steps b.head? = b := by
  induction steps with
  | zero =>
    intro a b _ hlen
    obtain rfl := eq_nil_of_length_eq_zero (Nat.le_zero.1 hlen)
    rfl
  | succ steps ih =>
    intro a b hl hlen
    cases b with
    | nil => rfl
    | cons n b =>
      have hrest := ih (a := a ++ [n]) (b := b) (by simpa using hl)
        (Nat.le_of_succ_le_succ (by simpa using hlen))
      rw [head?_cons, Chain.walk, h.next hl, hrest]

/-- Walking back from a node lists what stands before it. -/
lemma Lists.walkBack (h : c.Lists l) {steps : Nat} :
    ∀ {a b : List NodeId}, l = a ++ b → a.length ≤ steps →
      c.walkBack steps a.getLast? = a.reverse := by
  induction steps with
  | zero =>
    intro a b _ hlen
    obtain rfl := eq_nil_of_length_eq_zero (Nat.le_zero.1 hlen)
    rfl
  | succ steps ih =>
    intro a b hl hlen
    rcases eq_nil_or_concat a with rfl | ⟨a, n, rfl⟩
    · rfl
    · rw [concat_eq_append] at hl hlen ⊢
      have hrest := ih (a := a) (b := n :: b) (by simpa using hl)
        (Nat.le_of_succ_le_succ (by simpa using hlen))
      rw [getLast?_concat, Chain.walkBack, h.prev (a := a) (b := b) (by simpa using hl), hrest,
        reverse_append, reverse_singleton, singleton_append]

lemma Lists.onward (h : c.Lists (a ++ b)) : c.onward b.head? = b := by
  refine h.walk rfl (Nat.le_trans ?_ h.length_le)
  rw [length_append]
  exact Nat.le_add_left _ _

lemma Lists.backward (h : c.Lists (a ++ b)) : c.backward a.getLast? = a.reverse := by
  refine h.walkBack rfl (Nat.le_trans ?_ h.length_le)
  rw [length_append]
  exact Nat.le_add_right _ _

end Chain

namespace Graph

/-- The program consists of exactly the given nodes, in order. -/
structure Lists (g : Graph) (l : List NodeId) : Prop where
  chain : g.chain.Lists l
  first : g.first = l.head?
  size : g.chain.links.size = g.nodes.size

variable {g : Graph} {l l₁ l₂ a b : List NodeId} {n m : NodeId}

lemma Lists.order (h : g.Lists l) : g.order = l := by
  rw [Graph.order, h.first]
  exact h.chain.onward (a := [])

lemma Lists.lt_size (h : g.Lists l) (hn : n ∈ l) : n < g.nodes.size :=
  h.size ▸ h.chain.lt_size n hn

lemma Lists.fromNode (h : g.Lists (a ++ n :: b)) : g.fromNode n = n :: b :=
  h.chain.onward (b := n :: b)

lemma Lists.prev (h : g.Lists (a ++ n :: b)) : g.prev? n = a.getLast? := h.chain.prev rfl

lemma Lists.next (h : g.Lists (a ++ n :: b)) : g.next? n = b.head? := h.chain.next rfl

lemma Lists.prev_neighbour (h : g.Lists l) (hsplit : l = a ++ m :: n :: b) :
    g.prev? n = some m := by
  have hprev := h.chain.prev (a := a ++ [m]) (n := n) (b := b) (by simp [hsplit])
  rwa [getLast?_concat] at hprev

lemma Lists.congr {g' : Graph} (h : g.Lists l) (hchain : g'.chain = g.chain)
    (hfirst : g'.first = g.first) (hsize : g'.nodes.size = g.nodes.size) : g'.Lists l :=
  ⟨hchain ▸ h.chain, hfirst ▸ h.first, by rw [hchain, hsize, h.size]⟩

lemma Lists.remove (h : g.Lists (a ++ n :: b)) : (g.remove n).Lists (a ++ b) := by
  refine ⟨h.chain.remove, ?_, (Chain.size_remove _ _).trans h.size⟩
  show (if g.first = some n then g.next? n else g.first) = (a ++ b).head?
  cases a with
  | nil => simp [h.first, h.next]
  | cons x a =>
    have hx : x ≠ n := by
      rintro rfl
      exact (not_mem_of_nodup_append h.chain.nodup).1 (by simp)
    simp [h.first, hx]

/-- The program is the first list followed by the second one, and new nodes enter in between. -/
structure Splits (g : Graph) (l₁ l₂ : List NodeId) : Prop extends g.Lists (l₁ ++ l₂) where
  cursor : g.cursor = l₁.getLast?
  ahead : l₁ = [] → g.ahead = l₂.head?

lemma Splits.following (h : g.Splits l₁ l₂) : g.following = l₂.head? := by
  rcases eq_nil_or_concat l₁ with rfl | ⟨l, n, rfl⟩
  · rw [Graph.following, h.cursor]
    exact h.ahead rfl
  · have hl := h.toLists
    rw [concat_eq_append, append_assoc] at hl
    rw [Graph.following, h.cursor, concat_eq_append, getLast?_concat]
    exact hl.next

lemma Splits.insert (h : g.Splits l₁ l₂) (op : Operation) (type : Scalar) (args : List Argument) :
    (g.insert op type args).Splits (l₁ ++ [g.nodes.size]) l₂ := by
  have hchain : (g.insert op type args).chain = g.chain.insert l₁.getLast? l₂.head? := by
    rw [← h.cursor, ← h.following]
    rfl
  refine ⟨⟨?_, ?_, ?_⟩, ?_, ?_⟩
  · rw [hchain, append_assoc, singleton_append, ← h.size]
    exact h.chain.insert
  · show (if g.cursor = none then some g.nodes.size else g.first) = _
    rw [h.cursor, h.first]
    cases l₁ <;> simp
  · show (g.insert op type args).chain.links.size = (g.nodes.push _).size
    rw [hchain, Chain.size_insert, h.size, Array.size_push]
  · rw [getLast?_concat]
    rfl
  · simp

lemma Lists.enter_before (h : g.Lists (a ++ n :: b)) (inCluster : Bool) :
    (g.enter .before n inCluster).Splits a (n :: b) :=
  ⟨h.congr rfl rfl rfl, h.prev, fun _ => rfl⟩

lemma Lists.enter_after (h : g.Lists (a ++ n :: b)) (inCluster : Bool) :
    (g.enter .after n inCluster).Splits (a ++ [n]) b := by
  have hl : g.Lists (a ++ [n] ++ b) := by simpa using h
  refine ⟨hl.congr rfl rfl rfl, ?_, ?_⟩
  · rw [getLast?_concat]
    rfl
  · simp

end Graph

end KernelFusion
