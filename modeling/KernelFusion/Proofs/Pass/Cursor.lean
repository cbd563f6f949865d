/-
Copies at any cursor.

Wherever new nodes enter, the place cuts the program into two parts. The nodes to be copied are
known before the first copy enters, so it does not matter in which part they stand; walking along
the program while it grows meets the copies too, but copies nothing else.
-/
import KernelFusion.Proofs.Pass.Meaning

namespace KernelFusion.Graph

variable {g : Graph} {l targets : List NodeId}

/-- The cursor is at a node of the program or just in front of one. -/
def CursorInside (g : Graph) : Prop :=
  ∃ n ∈ g.order, g.cursor = some n ∨ g.cursor = g.prev? n ∧ g.ahead = some n

lemma Lists.exists_splits (h : g.Lists l) (hcursor : g.CursorInside) :
    ∃ l₁ l₂, l = l₁ ++ l₂ ∧ g.Splits l₁ l₂ := by
  obtain ⟨n, hn, hat | ⟨hfront, hahead⟩⟩ := hcursor
  all_goals
    rw [h.order] at hn
    obtain ⟨a, b, rfl⟩ := List.append_of_mem hn
  · refine ⟨a ++ [n], b, by simp, ⟨by simpa using h, ?_, by simp⟩⟩
    rw [hat, List.getLast?_concat]
  · exact ⟨a, n :: b, rfl, ⟨h, hfront.trans h.prev, fun _ => hahead⟩⟩

/-! ### Walking along the program while it grows -/

/-- Walks along the program as it is at each step and copies those of the given nodes that it meets;
the fuel bounds the steps. -/
def copyAlong (nodes : List NodeId) : Nat → Option NodeId → Copies → Build Copies
  | fuel + 1, some n, copies => do
    let copies ← if nodes.contains n then Build.copyNodes copies [n] else pure copies
    copyAlong nodes fuel ((← get).next? n) copies
  | _, _, copies => pure copies

/-- The arguments of a copy are looked up without a change. -/
lemma copiedArguments_keeps (copies : Copies) (n : NodeId) (g : Graph) :
    Keeps Eq (Build.copiedArguments copies n) g fun _ _ => True := by
  refine keeps_get_bind ((keeps_mapM (fun _ _ => trivial) fun a _ g' _ => ?_).mono
    fun _ _ _ _ => trivial)
  split
  · cases copies.lookup (g.source a) with
    | none => exact keeps_throw
    | some c => exact ends_pure trivial
  · exact ends_pure trivial

/-- When a copy enters, what stands behind a node stays the same but for this copy. -/
lemma exists_behind {X Y P S : List NodeId} {n c : NodeId} (h : X ++ Y = P ++ n :: S) :
    ∃ P' S', X ++ [c] ++ Y = P' ++ n :: S' ∧ S'.length ≤ S.length + 1 ∧
      ∀ q : NodeId → Bool, q c = false → S'.filter q = S.filter q := by
  rcases List.append_eq_append_iff.1 h with ⟨Z, rfl, rfl⟩ | ⟨Z, rfl, hZ⟩
  · exact ⟨X ++ c :: Z, S, by simp, by omega, fun _ _ => rfl⟩
  · cases Z with
    | nil =>
      obtain rfl : Y = n :: S := by simpa using hZ.symm
      exact ⟨P ++ [c], S, by simp, by omega, fun _ _ => rfl⟩
    | cons m Z =>
      obtain ⟨rfl, rfl⟩ : n = m ∧ S = Z ++ Y := List.cons.inj hZ
      refine ⟨P, Z ++ c :: Y, by simp, by simp; omega, fun q hq => ?_⟩
      rw [List.filter_append, List.filter_append, List.filter_cons_of_neg (Bool.eq_false_iff.1 hq)]

/-- Going along the list copies the chosen nodes that are ahead. -/
lemma Splits.copyAlong_eq {nodes X Y P S : List NodeId} {copies : Copies} {fuel : Nat}
    (hs : g.Splits X Y) (hrecording : g.recording) (hold : ∀ n ∈ nodes, n < g.nodes.size)
    (hS : X ++ Y = P ++ S) (hfuel : S.length + (S.filter nodes.contains).length ≤ fuel) :
    copyAlong nodes fuel S.head? copies g = Build.copyNodes copies (S.filter nodes.contains) g := by
  induction fuel generalizing g X Y P S copies with
  | zero =>
    obtain rfl : S = [] := List.eq_nil_of_length_eq_zero (by omega)
    rfl
  | succ fuel ih =>
    cases S with
    | nil => rfl
    | cons n S =>
      by_cases hn : nodes.contains n
      · have hfilter : (n :: S).filter nodes.contains = n :: S.filter nodes.contains :=
          List.filter_cons_of_pos hn
        rw [hfilter] at hfuel ⊢
        rw [List.head?_cons, copyAlong, if_pos hn, Build.copyNodes, Build.copyNodes]
        have hargs := copiedArguments_keeps copies n g
        cases hrun : Build.copiedArguments copies n g with
        | error e g₁ => rw [bind_of_error hrun, bind_of_error (bind_of_error hrun)]
        | ok args g₁ =>
          obtain ⟨rfl, -⟩ := hargs.meets.of_ok hrun
          have hcopy := Build.copyNode_eq (n := n) hrecording args
          rw [bind_of_ok hrun, bind_of_ok hcopy,
            bind_of_ok ((bind_of_ok hrun).trans (bind_of_ok hcopy))]
          have hs' : (g.withCopy n args).Splits (X ++ [g.nodes.size]) Y := hs.insertWith _ _ _ _
          have hsize : g.nodes.size ≤ (g.withCopy n args).nodes.size :=
            (Extended.insertWith g _ _ _ _).size
          obtain ⟨P', S', hS', hlength, hfilters⟩ := exists_behind (c := g.nodes.size) hS
          -- the copy is none of the nodes that are to be copied
          have hsame : S'.filter nodes.contains = S.filter nodes.contains := by
            refine hfilters _ (Bool.eq_false_iff.2 fun hmem => ?_)
            exact Nat.lt_irrefl _ (hold _ (List.contains_iff_mem.1 hmem))
          have hlists : (g.withCopy n args).Lists (P' ++ n :: S') := hS' ▸ hs'.toLists
          have hnext : (g.withCopy n args).next? n = S'.head? := hlists.next
          refine Eq.trans ?_ ((ih hs' ((Extended.insertWith g _ _ _ _).recording.trans hrecording)
            (fun m hm => (hold m hm).trans_le hsize) (P := P' ++ [n]) (S := S')
            (by simpa using hS') ?_).trans (by rw [hsame]))
          · rw [← hnext]
            rfl
          · rw [hsame]
            simp only [List.length_cons] at hfuel
            omega
      · have hfilter : (n :: S).filter nodes.contains = S.filter nodes.contains :=
          List.filter_cons_of_neg hn
        rw [hfilter] at hfuel ⊢
        rw [List.head?_cons, copyAlong, if_neg hn]
        have hlists : g.Lists (P ++ n :: S) := hS ▸ hs.toLists
        have hnext : g.next? n = S.head? := hlists.next
        refine Eq.trans ?_ (ih hs hrecording hold (P := P ++ [n]) (by simpa using hS) ?_)
        · rw [← hnext]
          rfl
        · simp only [List.length_cons] at hfuel
          omega

/-- That the list of nodes is fixed before the first copy makes no difference. -/
lemma copyComputation_eq_copyAlong (hl : g.Lists g.order) (ho : g.Ordered g.order)
    (hrecording : g.recording) (hcursor : g.CursorInside) (htargets : ∀ t ∈ targets, t ∈ g.order) :
    Build.copyComputation targets g =
      copyAlong (g.closure targets) (2 * g.order.length) g.first [] g := by
  obtain ⟨l₁, l₂, hsplit, hs⟩ := hl.exists_splits hcursor
  have hold : ∀ n ∈ g.closure targets, n < g.nodes.size := fun n hn =>
    hl.lt_size (ho.closure_subset htargets n hn)
  have hlength := List.length_filter_le (g.closure targets).contains g.order
  rw [hl.first]
  exact (hs.copyAlong_eq hrecording hold (P := []) (S := g.order) hsplit.symm (by omega)).symm

lemma Arranged.enter (h : g.Arranged g.order) (p : Place) (n : NodeId) (inCluster : Bool) :
    (g.enter p n inCluster).Arranged (g.enter p n inCluster).order := by
  cases p <;> exact h.congr rfl rfl rfl rfl rfl rfl

/-- For every recorded program whose arguments come from earlier nodes, with the cursor at a node or
in front of one, and for all listed targets: copying what the targets are computed from succeeds,
and it puts copies of exactly these nodes in one block at the cursor and changes nothing else. -/
theorem copyComputation_copies (hl : g.Linked g.order) (ho : g.Ordered g.order)
    (hrecording : g.recording = true) (hcursor : g.CursorInside)
    (htargets : ∀ t ∈ targets, t ∈ g.order) :
    ∃ copies g', Build.copyComputation targets g = .ok copies g' ∧
    g.CopiesComputation targets copies g' := by
  obtain ⟨l₁, l₂, hsplit, hs⟩ := hl.toLists.exists_splits hcursor
  rw [hsplit] at hl ho htargets
  obtain ⟨copies, g', hrun, -, hcopies, -⟩ := hs.copyComputation hl ho hrecording htargets
  exact ⟨copies, g', hrun, hcopies⟩

/-- The program of two clusters with the cursor in front of its first node. -/
def sharedStart : Graph := sharedCut.enter .before 0 true

/-- Copies of nodes 2 and 5 stand in front of everything, also of the memory that they read. -/
theorem copyComputation_sharedStart :
    sharedStart.Linked sharedStart.order ∧ sharedStart.Ordered sharedStart.order ∧
    sharedStart.CursorInside ∧
      ∃ copies g', Build.copyComputation [5] sharedStart = .ok copies g' ∧
        copies = [(5, 7), (2, 6)] ∧ g'.order = [6, 7, 0, 1, 2, 3, 4, 5] ∧
        sharedStart.CopiesComputation [5] copies g' := by
  have hrecorded := (Script.recorded (l := shared) (by decide +kernel)).graph
  have harranged : sharedStart.Arranged sharedStart.order :=
    hrecorded.tidy_clusterize_order.arranged.enter .before 0 true
  have hcursor : sharedStart.CursorInside := ⟨0, by decide +kernel, by decide +kernel⟩
  have hend : seen (fun copies g' => some (copies, g'.order))
    (Build.copyComputation [5] sharedStart) =
      some ([(5, 7), (2, 6)], [6, 7, 0, 1, 2, 3, 4, 5]) := by decide +kernel
  obtain ⟨copies, g', hrun, hcopies⟩ := copyComputation_copies harranged.linked harranged.ordered
    harranged.recording hcursor (by decide +kernel : ∀ t ∈ [5], t ∈ sharedStart.order)
  rw [hrun] at hend
  obtain ⟨hpairs, horder⟩ := Prod.mk.inj (Option.some.inj hend)
  exact ⟨harranged.linked, harranged.ordered, hcursor, copies, g', hrun, hpairs, horder, hcopies⟩

end KernelFusion.Graph
