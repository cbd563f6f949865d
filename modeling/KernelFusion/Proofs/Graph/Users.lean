/-
The users of nodes, found in one sweep.

A node that is visited loses the list of users it had, and then its arguments are entered in the
lists of their sources. What was entered before a node is visited is lost again; if all arguments
come from earlier nodes, this does not happen.
-/
import KernelFusion.Proofs.Pass.Dangling

namespace KernelFusion

open List

/-! ### The sweep -/

/-- The lists of users and what the arguments know of their owners. -/
structure UserLists where
  users : NodeId → List Use
  owner : NodeId × Nat → Option LabelId

/-- The argument of a node at a position, as a use. -/
def Argument.toUse (user : NodeId) (x : Argument × Nat) : Use := ⟨user, x.2, x.1.kind, x.1.index⟩

namespace UserLists

/-- Enters an argument of a node in the list of its source. -/
def enter (g : Graph) (m : NodeId) (s : UserLists) (x : Argument × Nat) : UserLists where
  users := Function.update s.users (g.source x.1) (s.users (g.source x.1) ++ [Argument.toUse m x])
  owner := Function.update s.owner (m, x.2) (some (g.label m))

/-- Clears the list of a node. -/
def clear (s : UserLists) (m : NodeId) : UserLists :=
    { s with users := Function.update s.users m [] }

/-- Clears the list of a node and enters its arguments. -/
def visit (g : Graph) (s : UserLists) (m : NodeId) : UserLists :=
  (g.node m).args.zipIdx.foldl (enter g m) (s.clear m)

end UserLists

namespace Graph

variable {g : Graph} {l a b : List NodeId} {n m k : NodeId} {s : UserLists} {u : Use}

/-- Visits the nodes of the program in order. -/
def updateUsers (g : Graph) (s : UserLists) : UserLists := g.order.foldl (UserLists.visit g) s

/-! ### Uses of one node in another one -/

lemma usesIn_eq_map (g : Graph) (m n : NodeId) : g.usesIn m n =
    ((g.node m).args.zipIdx.filter fun x => g.source x.1 = n).map (Argument.toUse m) := by
  rw [usesIn]
  induction (g.node m).args.zipIdx with
  | nil => rfl
  | cons x xs ih =>
    obtain ⟨a, i⟩ := x
    by_cases ha : g.source a = n
    · simp [ha, ih, Argument.toUse]
    · simp [ha, ih]

lemma mem_usesIn : u ∈ g.usesIn m n ↔ u.user = m ∧ ∃ a, (g.node m).args[u.position]? = some a ∧
    g.source a = n ∧ a.kind = u.kind ∧ a.index = u.index := by
  rw [usesIn_eq_map, mem_map]
  constructor
  · rintro ⟨⟨a, i⟩, hx, rfl⟩
    obtain ⟨ha, hsource⟩ := mem_filter.1 hx
    exact ⟨rfl, a, mem_zipIdx_iff_getElem?.1 ha, of_decide_eq_true hsource, rfl, rfl⟩
  · rintro ⟨rfl, a, ha, hsource, hkind, hindex⟩
    refine ⟨(a, u.position), mem_filter.2 ⟨mem_zipIdx_iff_getElem?.2 ha,
      decide_eq_true hsource⟩, ?_⟩
    rw [Argument.toUse, hkind, hindex]

lemma nodup_usesIn (g : Graph) (m n : NodeId) :
    ((g.usesIn m n).map fun u => (u.user, u.position)).Nodup := by
  have hpositions :
      (((g.node m).args.zipIdx.filter fun x => g.source x.1 = n).map Prod.snd).Nodup := by
    refine Nodup.sublist (filter_sublist.map _) ?_
    rw [zipIdx_map_snd]
    exact nodup_range'
  have hpairs := hpositions.map (f := fun i => (m, i)) fun i j h => (Prod.mk.inj h).2
  rw [map_map] at hpairs
  rw [usesIn_eq_map, map_map]
  exact hpairs

lemma nodup_flatMap_usesIn (hl : l.Nodup) (n : NodeId) :
    ((l.flatMap fun m => g.usesIn m n).map fun u => (u.user, u.position)).Nodup := by
  rw [map_flatMap, nodup_flatMap]
  refine ⟨fun m _ => g.nodup_usesIn m n, hl.imp fun {m m'} hne => ?_⟩
  -- uses in different nodes have different users
  intro q hq hq'
  obtain ⟨u, hu, rfl⟩ := mem_map.1 hq
  obtain ⟨u', hu', heq⟩ := mem_map.1 hq'
  have huser := congrArg Prod.fst heq
  rw [(mem_usesIn.1 hu).1, (mem_usesIn.1 hu').1] at huser
  exact hne huser.symm

end Graph

/-! ### What the sweep enters -/

namespace UserLists

variable {g : Graph} {l a b : List NodeId} {n m k : NodeId} {i : Nat} {s : UserLists}

lemma users_enter (s : UserLists) (x : Argument × Nat) (n : NodeId) : (enter g m s x).users n =
    if g.source x.1 = n then s.users n ++ [Argument.toUse m x] else s.users n := by
  show Function.update s.users (g.source x.1) _ n = _
  by_cases hx : g.source x.1 = n
  · subst hx
    rw [Function.update_self, if_pos rfl]
  · rw [Function.update_of_ne (Ne.symm hx), if_neg hx]

lemma users_foldl_enter (xs : List (Argument × Nat)) (s : UserLists) (n : NodeId) :
    (xs.foldl (enter g m) s).users n =
      s.users n ++ (xs.filter fun x => g.source x.1 = n).map (Argument.toUse m) := by
  induction xs generalizing s with
  | nil => exact (append_nil _).symm
  | cons x xs ih =>
    rw [foldl_cons, ih, users_enter]
    by_cases hx : g.source x.1 = n
    · simp [hx]
    · simp [hx]

lemma users_visit (s : UserLists) (m n : NodeId) :
    (s.visit g m).users n = (if n = m then [] else s.users n) ++ g.usesIn m n := by
  have hcleared : (s.clear m).users n = if n = m then [] else s.users n := Function.update_apply ..
  rw [visit, users_foldl_enter, Graph.usesIn_eq_map, hcleared]

lemma users_foldl_visit (hn : n ∉ l) (s : UserLists) :
    (l.foldl (visit g) s).users n = s.users n ++ l.flatMap fun m => g.usesIn m n := by
  induction l generalizing s with
  | nil => exact (append_nil _).symm
  | cons m l ih =>
    obtain ⟨hne, hn⟩ := ne_and_not_mem_of_not_mem_cons hn
    rw [foldl_cons, ih hn, users_visit, if_neg hne, flatMap_cons, append_assoc]

/-- A list is cleared when its node is visited. -/
lemma users_foldl_visit_append (hn : n ∉ b) (a : List NodeId) (s : UserLists) :
    ((a ++ n :: b).foldl (visit g) s).users n = (n :: b).flatMap fun m => g.usesIn m n := by
  rw [foldl_append, foldl_cons, users_foldl_visit hn, users_visit, if_pos rfl, nil_append,
    flatMap_cons]

lemma owner_foldl_enter (xs : List (Argument × Nat)) (s : UserLists) (k : NodeId) (i : Nat) :
    (xs.foldl (enter g m) s).owner (k, i) =
      if k = m ∧ i ∈ xs.map Prod.snd then some (g.label m) else s.owner (k, i) := by
  induction xs generalizing s with
  | nil => simp
  | cons x xs ih =>
    have hone : (enter g m s x).owner (k, i) = if (k, i) = (m, x.2) then some (g.label m)
      else s.owner (k, i) :=
      Function.update_apply ..
    rw [foldl_cons, ih, hone]
    simp only [Prod.mk.injEq, map_cons, mem_cons]
    grind

lemma owner_visit (s : UserLists) (m k : NodeId) (i : Nat) : (s.visit g m).owner (k, i) =
    if k = m ∧ i < (g.node k).args.length then some (g.label k) else s.owner (k, i) := by
  rw [visit, owner_foldl_enter, zipIdx_map_snd]
  by_cases hk : k = m
  · subst hk
    simp [mem_range'_1, clear]
  · simp [hk, clear]

lemma owner_foldl_visit (l : List NodeId) (s : UserLists) (k : NodeId) (i : Nat) :
    (l.foldl (visit g) s).owner (k, i) =
      if k ∈ l ∧ i < (g.node k).args.length then some (g.label k) else s.owner (k, i) := by
  induction l generalizing s with
  | nil => simp
  | cons m l ih =>
    rw [foldl_cons, ih, owner_visit]
    simp only [mem_cons]
    grind

end UserLists

namespace Graph

variable {g : Graph} {l a b : List NodeId} {n m k : NodeId} {s : UserLists} {u : Use}

lemma users_updateUsers (hl : g.Lists (a ++ n :: b)) (s : UserLists) : (g.updateUsers s).users n =
    g.uses n := by
  rw [uses, hl.fromNode, updateUsers, hl.order]
  exact UserLists.users_foldl_visit_append (not_mem_of_nodup_append hl.chain.nodup).2 a s

lemma uses_eq_of_ordered (hl : g.Lists (a ++ n :: b)) (ho : g.Ordered (a ++ n :: b)) :
    g.uses n = (a ++ n :: b).flatMap fun m => g.usesIn m n := by
  have hfront : (a.flatMap fun m => g.usesIn m n) = [] := by
    -- a node in front does not take what comes behind it
    refine flatMap_eq_nil_iff.2 fun m hm => eq_nil_iff_forall_not_mem.2 fun u hu => ?_
    obtain ⟨-, x, hx, hsource, -⟩ := mem_usesIn.1 hu
    have hprec := ho m (mem_append_left _ hm) x (mem_of_getElem? hx)
    rw [hsource] at hprec
    exact hprec.asymm hl.chain.nodup (Precedes.of_mem hm mem_cons_self)
  rw [uses, hl.fromNode, flatMap_append, hfront, nil_append]

/-! ### Exact lists -/

/-- The list of a node holds every argument of the program that comes from it, each once and nothing
else, and each knows its owner. -/
structure ListsUsers (g : Graph) (s : UserLists) (n : NodeId) : Prop where
  mem_iff : ∀ u, u ∈ s.users n ↔ u.user ∈ g.order ∧ ∃ a,
  (g.node u.user).args[u.position]? = some a ∧
    g.source a = n ∧ a.kind = u.kind ∧ a.index = u.index
  once : ((s.users n).map fun u => (u.user, u.position)).Nodup
  owner : ∀ u ∈ s.users n, ∃ i, s.owner (u.user, u.position) = some i ∧ g.target i = u.user

/-- For every program whose arguments come from earlier nodes and whose nodes are what their labels
stand for: behind a sweep over it the list of every node holds exactly the arguments that come from
it, whatever the lists held before, and it is the list of uses that the passes look at. -/
theorem listsUsers_updateUsers (hl : g.Lists l) (ho : g.Ordered l) (hlabel : ∀ m ∈ l,
    g.target (g.label m) = m)
    (s : UserLists) :
    ∀ n ∈ l, g.ListsUsers (g.updateUsers s) n ∧ (g.updateUsers s).users n = g.uses n := by
  intro n hn
  obtain ⟨a, b, rfl⟩ := append_of_mem hn
  have husers := users_updateUsers hl s
  have hall := husers.trans (uses_eq_of_ordered hl ho)
  have hmem : ∀ u, u ∈ (g.updateUsers s).users n ↔ u.user ∈ a ++ n :: b ∧ ∃ x,
      (g.node u.user).args[u.position]? = some x ∧ g.source x = n ∧ x.kind = u.kind ∧
      x.index = u.index := by
    intro u
    rw [hall, mem_flatMap]
    constructor
    · rintro ⟨m, hm, hu⟩
      obtain ⟨rfl, huse⟩ := mem_usesIn.1 hu
      exact ⟨hm, huse⟩
    · rintro ⟨hm, huse⟩
      exact ⟨u.user, hm, mem_usesIn.2 ⟨rfl, huse⟩⟩
  refine ⟨⟨hl.order.symm ▸ hmem, ?_, fun u hu => ?_⟩, husers⟩
  · rw [hall]
    exact nodup_flatMap_usesIn hl.chain.nodup n
  · obtain ⟨huser, x, hx, -⟩ := (hmem u).1 hu
    have hlt : u.position < (g.node u.user).args.length := (List.getElem?_eq_some_iff.1 hx).1
    refine ⟨g.label u.user, ?_, hlabel _ huser⟩
    rw [updateUsers, hl.order]
    exact (UserLists.owner_foldl_visit ..).trans (if_pos ⟨huser, hlt⟩)

/-- The program of `branchedGraph` after the users of two nodes have changed places and then moved
to one of them. The node and its label are different numbers. -/
def relabelledGraph : Graph := ((Script.scene branched).graph.swapLabels 4 5).redirect 5 4

/-- Lists that hold the last argument for every node. -/
def staleLists : UserLists := ⟨fun _ => [⟨6, 0, .input, 0⟩], fun _ => none⟩

theorem listsUsers_relabelledGraph :
    relabelledGraph.Lists [0, 1, 2, 3, 4, 5, 6] ∧ relabelledGraph.Ordered [0, 1, 2, 3, 4, 5, 6] ∧
      [0, 1, 2, 3, 4, 5, 6].map relabelledGraph.label = [0, 1, 2, 3, 5, 7, 6] ∧
      (relabelledGraph.updateUsers staleLists).users 1 = [⟨4, 0, .input, 0⟩, ⟨5, 0, .input, 0⟩] ∧
      ∀ n ∈ [0, 1, 2, 3, 4, 5, 6], relabelledGraph.ListsUsers
      (relabelledGraph.updateUsers staleLists) n ∧
        (relabelledGraph.updateUsers staleLists).users n = relabelledGraph.uses n := by
  have hrecorded := (Script.recorded (l := branched) (by decide +kernel)).graph
  have horder : (Script.scene branched).graph.order = [0, 1, 2, 3, 4, 5, 6] := by decide +kernel
  have hl : relabelledGraph.Lists [0, 1, 2, 3, 4, 5, 6] :=
    horder ▸ hrecorded.lists.congr rfl rfl (by simp [relabelledGraph, redirect, swapLabels])
  have ho : relabelledGraph.Ordered [0, 1, 2, 3, 4, 5, 6] := by decide +kernel
  exact ⟨hl, ho, by decide +kernel, by decide +kernel,
    listsUsers_updateUsers hl ho (by decide +kernel) staleLists⟩

end Graph

end KernelFusion
