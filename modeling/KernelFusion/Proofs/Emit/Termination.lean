/-
Merging comes to an end without a bound.

The loop over the arguments of a line appends to the list that it runs through, and a line is
looked at once for every way that leads to it. But if no line takes itself, directly or through
others, what a round brings takes less than what the round looked at (`depth`). The loops are
stated as the runs that come to an end (`ArgumentLoop`, `LineLoop`).
-/
import KernelFusion.Proofs.Emit.Compaction
import Mathlib.Data.Finset.Card

namespace KernelFusion

open List LineIndex

namespace Merging

/-! ### Loops without a bound -/

/-- The state without what is pending. -/
def settled (s : Merging) : Merging := { s with pending := [] }

/-- The loop over the arguments of the line at `i` goes on from the argument at `k` and comes to an
end. An argument that names no line stops it halfway. -/
inductive ArgumentLoop (index : LineIndex) (i size : Nat) : Nat → Merging → Merging → Prop where
  | done {k : Nat} {s : Merging} {line : Line} : s.lines[i]? = some line →
      line.arguments.length ≤ k →
    ArgumentLoop index i size k s s
  | turn {k j : Nat} {s s' : Merging} {line : Line} {arg : String} : s.lines[i]? = some line →
    line.arguments[k]? = some arg → index.place? arg = some j →
    ArgumentLoop index i size (k + 1) (s.step index i size arg).settled s' →
    ArgumentLoop index i size k s s'

/-- The loop over the lines goes on from the line at `i` and comes to an end. -/
inductive LineLoop (index : LineIndex) : Nat → Merging → Merging → Prop where
  | done {i : Nat} {s : Merging} : s.lines.length ≤ i → LineLoop index i s s
  | turn {i : Nat} {s s₁ s' : Merging} {line : Line} : s.lines[i]? = some line →
    ArgumentLoop index i line.expression.utf8ByteSize 0 s s₁ → LineLoop index (i + 1) s₁ s' →
    LineLoop index i s s'

/-! ### What lines take -/

/-- An argument of the line at `i` stands for the line at `j`. -/
def Takes (lines : List Line) (i j : Nat) : Prop :=
  ∃ line, lines[i]? = some line ∧ ∃ arg ∈ line.arguments, (ofLines lines).place? arg = some j

/-- No line takes itself, directly or through others. -/
def Acyclic (lines : List Line) : Prop := ∀ i, ¬ Relation.TransGen (Takes lines) i i

/-- Every argument names a line. -/
def Closed (lines : List Line) : Prop := ∀ line ∈ lines, ∀ arg ∈ line.arguments,
    ∃ l ∈ lines, l.name = arg

instance (lines : List Line) : Decidable (Closed lines) :=
  inferInstanceAs (Decidable (∀ line ∈ lines, ∀ arg ∈ line.arguments, ∃ l ∈ lines, l.name = arg))

open Classical in
/-- The number of lines that the line at `i` takes, directly or through others. -/
noncomputable def depth (lines : List Line) (i : Nat) : Nat :=
  ((Finset.range lines.length).filter (Relation.TransGen (Takes lines) i)).card

variable {lines : List Line} {index : LineIndex} {i j n size : Nat} {s s' : Merging}
  {arg x : String} {seen todo : List String}

lemma depth_le (lines : List Line) (i : Nat) : depth lines i ≤ lines.length := by
  classical
  exact (Finset.card_filter_le _ _).trans (Finset.card_range _).le

lemma depth_lt (h : Acyclic lines) (hij : Takes lines i j) : depth lines j < depth lines i := by
  have hlt : j < lines.length := by
    obtain ⟨-, -, arg, -, hplace⟩ := hij
    obtain ⟨l, hl, -⟩ := name_of_place? hplace
    exact (List.getElem?_eq_some_iff.1 hl).1
  classical
  refine Finset.card_lt_card (Finset.ssubset_iff.2 ⟨j, ?_, Finset.insert_subset ?_ fun k hk => ?_⟩)
  · exact fun hmem => h j (Finset.mem_filter.1 hmem).2
  · exact Finset.mem_filter.2 ⟨Finset.mem_range.2 hlt, .single hij⟩
  · obtain ⟨hk, hjk⟩ := Finset.mem_filter.1 hk
    exact Finset.mem_filter.2 ⟨hk, .head hij hjk⟩

lemma Closed.exists_takes (h : Closed lines) {line : Line} (hline : lines[i]? = some line)
    (harg : arg ∈ line.arguments) : ∃ j, (ofLines lines).place? arg = some j ∧ Takes lines i j := by
  obtain ⟨l, hl, rfl⟩ := h line (mem_of_getElem? hline) arg harg
  obtain ⟨j, hj⟩ := exists_place? hl
  exact ⟨j, hj, line, hline, l.name, harg, hj⟩

/-! ### Arguments of the line that is visited -/

/-- The arguments of the line at `i` are those that have been looked at, those that this round still
has to look at, and those that are pending. -/
def Awaits (i : Nat) (seen todo : List String) (s : Merging) : Prop :=
  ∃ line, s.lines[i]? = some line ∧ line.arguments = seen ++ todo ++ s.pending

lemma Awaits.step (h : Awaits i seen (arg :: todo) s) (index : LineIndex) (size : Nat) :
    Awaits i (seen ++ [arg]) todo (s.step index i size arg) := by
  obtain ⟨line, hline, harguments⟩ := h
  rcases step_cases index i size s arg with hsame | ⟨target, other, j, cost, hw⟩
  · rw [hsame]
    exact ⟨line, hline, by rw [harguments, append_cons]⟩
  · cases hline.symm.trans hw.target
    refine ⟨_, by rw [hw.lines, getElem?_set_self (List.getElem?_eq_some_iff.1 hline).1], ?_⟩
    rw [hw.pending, Line.written, harguments, append_cons, append_assoc]

lemma Awaits.foldl (h : Awaits i seen todo s) (index : LineIndex) (size : Nat) :
    Awaits i (seen ++ todo) [] (todo.foldl (Merging.step index i size) s) := by
  induction todo generalizing seen s with
  | nil => rwa [append_nil]
  | cons arg todo ih =>
    rw [append_cons]
    exact ih (h.step index size)

lemma mem_pending_foldl (hx : x ∈ (todo.foldl (Merging.step index i size) s).pending) :
    x ∈ s.pending ∨ ∃ arg ∈ todo, x ∈ index.takenOver arg := by
  induction todo generalizing s with
  | nil => exact .inl hx
  | cons arg todo ih =>
    rcases ih hx with hold | ⟨b, hb, htaken⟩
    · rcases step_cases index i size s arg with hsame | ⟨line, other, j, cost, hw⟩
      · exact .inl (hsame ▸ hold)
      · rw [hw.pending, mem_append] at hold
        exact hold.imp_right fun htaken => ⟨arg, mem_cons_self, htaken⟩
    · exact .inr ⟨b, mem_cons_of_mem _ hb, htaken⟩

/-! ### Rounds as loops -/

lemma settled_step (index : LineIndex) (i size : Nat) (s : Merging) (arg : String) :
    (s.settled.step index i size arg).settled = (s.step index i size arg).settled := by
  unfold step settled
  dsimp only
  split
  · split
    · split <;> rfl
    · rfl
  · rfl

lemma ArgumentLoop.foldl (h : Awaits i seen todo s) (hplaces : ∀ arg ∈ todo, ∃ j,
    index.place? arg = some j)
    (hrest : ArgumentLoop index i size (seen ++ todo).length
    (todo.foldl (Merging.step index i size) s).settled s') :
    ArgumentLoop index i size seen.length s.settled s' := by
  induction todo generalizing seen s with
  | nil => rwa [append_nil] at hrest
  | cons arg todo ih =>
    obtain ⟨⟨j, hj⟩, hplaces⟩ := forall_mem_cons.1 hplaces
    rw [append_cons] at hrest
    have hnext := ih (h.step index size) hplaces hrest
    have hlength : (seen ++ [arg]).length = seen.length + 1 := by simp
    rw [hlength] at hnext
    obtain ⟨line, hline, harguments⟩ := h
    exact .turn hline (by simp [harguments]) hj ((settled_step ..).symm ▸ hnext)

/-- Every round looks at lines that take less than those of the round before. -/
theorem ArgumentLoop.rounds (hclosed : Closed lines) (hacyclic : Acyclic lines)
    (h : Awaits i seen s.pending s.settled)
    (hpending : ∀ x ∈ s.pending, ∃ j, (ofLines lines).place? x = some j ∧ depth lines j < n) :
    ArgumentLoop (ofLines lines) i size seen.length s.settled
      (Merging.rounds (ofLines lines) i size n s).settled := by
  have hdone : ∀ {s : Merging} {seen}, s.pending = [] → Awaits i seen s.pending s.settled →
      ArgumentLoop (ofLines lines) i size seen.length s.settled s.settled := by
    rintro s seen hnil ⟨line, hline, harguments⟩
    exact .done hline (by simp [harguments, hnil, settled])
  induction n generalizing seen s with
  | zero =>
    refine hdone (eq_nil_iff_forall_not_mem.2 fun x hx => ?_) h
    obtain ⟨j, -, hlt⟩ := hpending x hx
    exact absurd hlt (Nat.not_lt_zero _)
  | succ n ih =>
    rw [Merging.rounds]
    split
    · next hempty => exact hdone (isEmpty_iff.1 hempty) h
    · obtain ⟨line, hline, harguments⟩ := h.foldl (ofLines lines) size
      refine ArgumentLoop.foldl (s := s.settled) h
        (fun x hx => (hpending x hx).imp fun j hj => hj.1)
        (ih (s := s.round _ i size) ⟨line, hline, ?_⟩ fun x hx => ?_)
      · rw [harguments, append_nil]
        exact (append_nil _).symm
      · obtain ⟨arg, harg, htaken⟩ := (mem_pending_foldl hx).resolve_left not_mem_nil
        obtain ⟨j, hj, hlt⟩ := hpending arg harg
        obtain ⟨l, hl, -⟩ := name_of_place? hj
        have htaken := (mem_filter.1 htaken).1
        rw [inputs_eq hj hl] at htaken
        obtain ⟨b, hb, htakes⟩ := hclosed.exists_takes hl htaken
        exact ⟨b, hb, Nat.lt_of_lt_of_le (depth_lt hacyclic htakes) (Nat.le_of_lt_succ hlt)⟩

lemma ArgumentLoop.visit (hclosed : Closed lines) (hacyclic : Acyclic lines) {line : Line}
    (hlength : s.lines.length = lines.length) (hline : s.lines[i]? = some line)
    (horigin : lines[i]? = some line) :
    ArgumentLoop (ofLines lines) i line.expression.utf8ByteSize 0 s.settled
      (s.visit (ofLines lines) i).settled := by
  have hbound : lines.length < maxRounds s.lines := by
    rw [maxRounds, hlength]
    exact Nat.lt_of_lt_of_le (Nat.lt_succ_self _) (Nat.le_mul_of_pos_right _ (by decide))
  simp only [Merging.visit, hline]
  have hawaits : Awaits i [] line.arguments s.settled := ⟨line, hline, (append_nil _).symm⟩
  refine ArgumentLoop.rounds (s := { s with pending := line.arguments }) hclosed hacyclic hawaits
    fun x hx => ?_
  obtain ⟨j, hj, -⟩ := hclosed.exists_takes horigin hx
  exact ⟨j, hj, Nat.lt_of_le_of_lt (depth_le lines j) hbound⟩

/-! ### All lines -/

/-- The lines from `i` on are as they were. -/
def Unvisited (lines : List Line) (i : Nat) (s : Merging) : Prop :=
  s.lines.length = lines.length ∧ ∀ j, i ≤ j → s.lines[j]? = lines[j]?

lemma invariant_unvisited (lines : List Line) : Invariant (ofLines lines) (Unvisited lines)
    fun i _ s => Unvisited lines (i + 1) s where
  enter hs _ := ⟨hs.1, fun j hj => hs.2 j (Nat.le_of_succ_le hj)⟩
  absent hs _ := ⟨hs.1, fun j hj => hs.2 j (Nat.le_of_succ_le hj)⟩
  turn hs := hs
  step hs _ _ _ _ _ _ hw := by
    refine ⟨by rw [hw.lines, length_set, hs.1], fun j hj => ?_⟩
    rw [hw.lines, getElem?_set_ne (Nat.ne_of_lt hj), hs.2 j hj]
  pass hs _ _ := hs
  leave hs := hs

/-- For every list of lines in which every argument names a line and no line takes itself, directly
or through others: the loop over the arguments ends for every line, and so does the loop over the
lines, with the lines that `mergeAll` gives and those that it drops. -/
theorem lineLoop_mergeAll (hclosed : Closed lines) (hacyclic : Acyclic lines) :
    LineLoop (LineIndex.ofLines lines) 0 { lines } { mergeAll lines with pending := [] } := by
  suffices hfrom : ∀ m i s, i + m = lines.length → Unvisited lines i s →
      LineLoop (ofLines lines) i s.settled
        ((range' i m).foldl (Merging.visit (ofLines lines)) s).settled by
    rw [mergeAll, range_eq_range']
    exact hfrom lines.length 0 { lines } (Nat.zero_add _) ⟨rfl, fun _ _ => rfl⟩
  intro m
  induction m with
  | zero => exact fun i s hi hs => .done (hs.1.trans hi.symm).le
  | succ m ih =>
    intro i s hi hs
    have horigin : lines[i]? = some (lines.get ⟨i, by omega⟩) := getElem?_eq_getElem _
    have hline := (hs.2 i (Nat.le_refl i)).trans horigin
    exact .turn hline (ArgumentLoop.visit hclosed hacyclic hs.1 hline horigin)
      (ih (i + 1) _ (by omega) ((invariant_unvisited lines).visit hs))

/-- The sum is written into the product, which takes over its arguments while the loop looks at
them. -/
theorem lineLoop_mergeAll_productLines :
    ((mergeAll productLines).lines.map (·.arguments))[2]? = some ["s", "n", "n", "n"] ∧
      LineLoop (LineIndex.ofLines productLines) 0 { lines := productLines }
        { mergeAll productLines with pending := [] } := by
  have hearlier : ∀ i < 4, ∀ l ∈ productLines[i]?, ∀ a ∈ l.arguments,
      ∀ j ∈ (ofLines productLines).place? a, j < i := by decide
  have hlt : ∀ {i j}, Relation.TransGen (Takes productLines) i j → j < i := fun h => by
    refine Relation.TransGen.trans_induction_on h ?_ fun _ _ hij hjk => Nat.lt_trans hjk hij
    rintro i j ⟨l, hl, a, ha, hj⟩
    exact hearlier i (List.getElem?_eq_some_iff.1 hl).1 l hl a ha j hj
  exact ⟨by decide +kernel, lineLoop_mergeAll (by decide) fun i h => Nat.lt_irrefl i (hlt h)⟩

end Merging

end KernelFusion
