/-
What a node is computed from.

Every visit of the search comes from a target or from an argument of a node that was visited
before, so there is fuel for all of them, and the visited nodes are closed under operands.
-/
import KernelFusion.Pass.Recompute
import KernelFusion.Proofs.Graph.Edits
import Mathlib.Data.List.Nodup

namespace KernelFusion.Graph

open List

variable {g : Graph} {fuel : Nat} {stack seen targets : List NodeId} {n m : NodeId}

/-- The arguments of the nodes that have not been visited. -/
def unvisited (g : Graph) (seen : List NodeId) : Nat :=
  (range g.nodes.size).foldr
    (fun n total => (if seen.contains n then 0 else (g.node n).args.length) + total) 0

lemma foldr_unmarked_le {l : List Nat} (hl : l.Nodup) (f : Nat → Nat)
    (hn : seen.contains n = false) :
    (if n ∈ l then f n else 0) +
        l.foldr (fun x total => (if (n :: seen).contains x then 0 else f x) + total) 0 ≤
      l.foldr (fun x total => (if seen.contains x then 0 else f x) + total) 0 := by
  induction l with
  | nil => simp
  | cons x l ih =>
    obtain ⟨hx, hl⟩ := nodup_cons.1 hl
    have ih := ih hl
    rw [foldr_cons, foldr_cons]
    by_cases hxn : x = n
    · subst hxn
      rw [if_neg hx] at ih
      rw [if_pos mem_cons_self, hn]
      simpa using ih
    · have hcontains : (n :: seen).contains x = seen.contains x := by simp [hxn]
      have hmem : n ∈ x :: l ↔ n ∈ l := by simp [Ne.symm hxn]
      rw [hcontains, if_congr hmem rfl rfl]
      omega

lemma unvisited_cons (hn : seen.contains n = false) :
    (g.node n).args.length + g.unvisited (n :: seen) ≤ g.unvisited seen := by
  have hsum := foldr_unmarked_le (l := range g.nodes.size) nodup_range
    (fun m => (g.node m).args.length) hn
  have hargs : (g.node n).args.length =
      if n ∈ range g.nodes.size then (g.node n).args.length else 0 := by
    split
    · rfl
    · rename_i hlt
      rw [mem_range, Nat.not_lt] at hlt
      rw [node_eq_default hlt]
      rfl
  rw [hargs]
  exact hsum

lemma unvisited_nil : g.unvisited [] = g.nodes.foldl (fun s n => s + n.args.length) 0 := by
  have hmap : ((range g.nodes.size).map fun n =>
      if ([] : List NodeId).contains n then 0 else (g.node n).args.length) =
      g.nodes.toList.map fun n => n.args.length := by
    refine ext_getElem? fun i => ?_
    by_cases hi : i < g.nodes.size
    · simp [node, hi]
    · simp [Nat.not_lt.1 hi]
  rw [← Array.foldl_toList, ← foldl_map, ← sum_eq_foldl, ← hmap, sum, foldr_map]
  rfl

lemma length_operandNodes_le : (g.operandNodes n).length ≤ (g.node n).args.length := by
  rw [operandNodes, length_map]
  exact length_filter_le _ _

/-- With fuel for all unvisited operands, the search ends closed under operands. -/
lemma reach_spec (hfuel : stack.length + g.unvisited seen < fuel)
    (hseen : ∀ n ∈ seen, ∀ m ∈ g.operandNodes n, m ∈ seen ∨ m ∈ stack) :
    (∀ n, n ∈ seen ∨ n ∈ stack → n ∈ g.reach fuel stack seen) ∧
      ∀ n ∈ g.reach fuel stack seen, ∀ m ∈ g.operandNodes n, m ∈ g.reach fuel stack seen := by
  induction fuel generalizing stack seen with
  | zero => exact absurd hfuel (Nat.not_lt_zero _)
  | succ fuel ih =>
    cases stack with
    | nil =>
      rw [reach]
      · refine ⟨fun n hn => hn.resolve_right not_mem_nil, fun n hn m hm => ?_⟩
        exact (hseen n hn m hm).resolve_right not_mem_nil
      · exact Nat.succ_ne_zero fuel
    | cons n rest =>
      rw [reach]
      rw [length_cons] at hfuel
      cases hn : seen.contains n with
      | true =>
        rw [if_pos rfl]
        have hmem : n ∈ seen := contains_iff_mem.1 hn
        have hrest : ∀ v, v ∈ seen ∨ v ∈ n :: rest → v ∈ seen ∨ v ∈ rest := by
          rintro v (hv | hv)
          · exact .inl hv
          · rcases mem_cons.1 hv with rfl | hv
            · exact .inl hmem
            · exact .inr hv
        have hfuel' : rest.length + g.unvisited seen < fuel := by omega
        obtain ⟨hall, hclosed⟩ := ih hfuel' fun v hv m hm => hrest m (hseen v hv m hm)
        exact ⟨fun v hv => hall v (hrest v hv), hclosed⟩
      | false =>
        rw [if_neg (by simp)]
        -- the visit is paid for by the arguments of the node, which count only once
        have hpay := unvisited_cons (g := g) hn
        have hlen := length_operandNodes_le (g := g) (n := n)
        have hfuel' : (g.operandNodes n ++ rest).length + g.unvisited (n :: seen) < fuel := by
          rw [length_append]
          omega
        have hnew : ∀ v, v ∈ seen ∨ v ∈ n :: rest →
            v ∈ n :: seen ∨ v ∈ g.operandNodes n ++ rest := by
          rintro v (hv | hv)
          · exact .inl (mem_cons_of_mem _ hv)
          · rcases mem_cons.1 hv with rfl | hv
            · exact .inl mem_cons_self
            · exact .inr (mem_append_right _ hv)
        obtain ⟨hall, hclosed⟩ := ih hfuel' fun v hv m hm => by
          rcases mem_cons.1 hv with rfl | hv
          · exact .inr (mem_append_left _ hm)
          · exact hnew m (hseen v hv m hm)
        exact ⟨fun v hv => hall v (hnew v hv), hclosed⟩

/-- The search finds nothing outside a closed set. -/
lemma reach_subset {p : NodeId → Prop} (hp : ∀ n, p n → ∀ m ∈ g.operandNodes n, p m)
    (hstack : ∀ n ∈ stack, p n) (hseen : ∀ n ∈ seen, p n) : ∀ n ∈ g.reach fuel stack seen, p n := by
  induction fuel generalizing stack seen with
  | zero => exact hseen
  | succ fuel ih =>
    cases stack with
    | nil =>
      rw [reach]
      · exact hseen
      · exact Nat.succ_ne_zero fuel
    | cons n rest =>
      rw [reach]
      split
      · exact ih (fun v hv => hstack v (mem_cons_of_mem _ hv)) hseen
      · refine ih (fun v hv => ?_) fun v hv => ?_
        · rcases mem_append.1 hv with hv | hv
          · exact hp n (hstack n mem_cons_self) v hv
          · exact hstack v (mem_cons_of_mem _ hv)
        · rcases mem_cons.1 hv with rfl | hv
          · exact hstack v mem_cons_self
          · exact hseen v hv

lemma closure_spec (g : Graph) (targets : List NodeId) : (∀ n ∈ targets, n ∈ g.closure targets) ∧
    ∀ n ∈ g.closure targets, ∀ m ∈ g.operandNodes n, m ∈ g.closure targets := by
  have hfuel : targets.length + g.unvisited [] <
      targets.length + g.nodes.foldl (fun s n => s + n.args.length) 0 + 1 := by
    rw [unvisited_nil]
    exact Nat.lt_succ_self _
  obtain ⟨htargets, hclosed⟩ := reach_spec hfuel (by simp)
  exact ⟨fun n hn => htargets n (.inr hn), hclosed⟩

lemma closure_subset {p : NodeId → Prop} (hp : ∀ n, p n → ∀ m ∈ g.operandNodes n, p m)
    (htargets : ∀ n ∈ targets, p n) : ∀ n ∈ g.closure targets, p n :=
  reach_subset hp htargets (by simp)

end KernelFusion.Graph
