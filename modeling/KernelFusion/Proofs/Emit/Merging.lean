/-
What merging does to lines.

A step either does nothing or writes one line into the line that is visited (`Writes`): only the
expression, the arguments and the cost of that line change. What every step keeps is kept by the
whole run (`mergeAll_induction`).
-/
import KernelFusion.Emit.Merge
import KernelFusion.Proofs.Number.Cost
import KernelFusion.Proofs.Text.Words
import Mathlib.Data.List.Basic

namespace KernelFusion

open List LineIndex Line

/-! ### Steps -/

/-- What merging leaves alone of a line: its expression, its arguments and its cost are blank. -/
def Line.frame (l : Line) : Line := { l with expression := "", arguments := [], cost := .zero }

/-- A line after another one has been written into it in place of a name. -/
def Line.written (line : Line) (arg : String) (other : Line) (taken : List String) (cost : Cost) :
    Line :=
  { line with
    expression := Text.replaceWord arg other.asOperand line.expression
    arguments := line.arguments ++ taken
    cost := cost }

@[simp]
lemma Line.frame_written (line : Line) (arg : String) (other : Line) (taken : List String)
    (cost : Cost) : (line.written arg other taken cost).frame = line.frame := rfl

/-- The cost of a line is not negative, and no dollar sign makes its expression a format. -/
def Line.Plain (l : Line) : Prop := .zero ≤ l.cost ∧ '$' ∉ l.expression.toList

lemma Line.dollar_not_mem_asOperand {l : Line} (h : '$' ∉ l.expression.toList) :
    '$' ∉ l.asOperand.toList := by
  rw [asOperand]
  split
  · simpa using h
  · exact h

lemma Line.dollar_not_mem_written {line other : Line} {arg : String} {taken : List String}
    {cost : Cost} (hline : '$' ∉ line.expression.toList) (hother : '$' ∉ other.expression.toList) :
    '$' ∉ (line.written arg other taken cost).expression.toList := fun hmem =>
  (Text.mem_replaceWord hmem).elim hline (dollar_not_mem_asOperand hother)

/-- The arguments that a line takes over from the line of a name. -/
def LineIndex.takenOver (index : LineIndex) (arg : String) : List String :=
  (index.inputs arg).filter (· ≠ arg)

namespace Merging

/-- The step at line `i` for the argument `arg` writes the line at `j`, which is `other` by now,
into `line`. -/
structure Writes (index : LineIndex) (i size : Nat) (arg : String) (line other : Line) (j : Nat)
    (cost : Cost) (s s' : Merging) : Prop where
  target : s.lines[i]? = some line
  place : index.place? arg = some j
  source : s.lines[j]? = some other
  merged : isMerged index size line other
  lines : s'.lines = s.lines.set i (line.written arg other (index.takenOver arg) cost)
  pending : s'.pending = s.pending ++ index.takenOver arg
  dropped : s'.dropped = j :: s.dropped
  dearer : (∀ l ∈ s.lines, .zero ≤ l.cost) →
    .zero ≤ cost ∧ (cost.below 1 → line.cost.below 1)

variable {line : Line} {j : Nat} {arg : String}

/-- Arguments that are taken over change the arguments and the cost of the line, and nothing
else. -/
theorem foldl_takeOver (index : LineIndex) {i : Nat} (args : List String) {lines : List Line}
    (h : lines[i]? = some line) :
    ∃ cost, args.foldl (takeOver index i) lines
      = lines.set i { line with arguments := line.arguments ++ args, cost := cost } ∧
        ((∀ l ∈ lines, .zero ≤ l.cost) →
          .zero ≤ cost ∧ (cost.below 1 → line.cost.below 1)) := by
  induction args generalizing lines line with
  | nil =>
    refine ⟨line.cost, ?_, fun hnonneg => ⟨hnonneg line (mem_of_getElem? h), id⟩⟩
    obtain ⟨hi, rfl⟩ := List.getElem?_eq_some_iff.1 h
    rw [append_nil]
    exact (set_getElem_self hi).symm
  | cons arg args ih =>
    obtain ⟨hi, he⟩ := List.getElem?_eq_some_iff.1 h
    rw [foldl_cons]
    set taken := (((index.place? arg).bind (lines[·]?)).map (·.cost)).getD .zero with htaken
    have one : takeOver index i lines arg = lines.set i { line with
        arguments := line.arguments ++ [arg]
        cost := line.cost + taken } := by
      rw [takeOver, modify_eq_set_getElem?, h]
      rfl
    have htarget : (takeOver index i lines arg)[i]? = some { line with
        arguments := line.arguments ++ [arg]
        cost := line.cost + taken } := by
      rw [one]
      exact getElem?_set_self hi
    obtain ⟨cost, hrest, hcost⟩ := ih htarget
    refine ⟨cost, ?_, fun hnonneg => ?_⟩
    · rw [hrest, one, set_set]
      simp
    have hzero : .zero ≤ taken := by
      rw [htaken]
      cases hother : (index.place? arg).bind (lines[·]?) with
      | none => exact le_rfl
      | some other =>
        obtain ⟨j, -, hj⟩ := Option.bind_eq_some_iff.1 hother
        exact hnonneg other (mem_of_getElem? hj)
    have hlines : ∀ l ∈ takeOver index i lines arg, .zero ≤ l.cost := by
      intro l hl
      rw [one] at hl
      rcases mem_or_eq_of_mem_set hl with hl | rfl
      · exact hnonneg l hl
      · exact Cost.add_nonneg (hnonneg line (mem_of_getElem? h)) hzero
    obtain ⟨hnonneg', hbelow⟩ := hcost hlines
    exact ⟨hnonneg', fun hlt => Cost.below_of_add hzero (hbelow hlt)⟩

lemma exists_writes {index : LineIndex} {i size : Nat} {s : Merging} {other : Line}
    (hline : s.lines[i]? = some line) (hplace : index.place? arg = some j)
    (hother : s.lines[j]? = some other) (hmerged : isMerged index size line other) :
    ∃ cost, Writes index i size arg line other j cost s (s.step index i size arg) := by
  obtain ⟨hi, -⟩ := List.getElem?_eq_some_iff.1 hline
  set expression := Text.replaceWord arg other.asOperand line.expression with he
  have hset : (s.lines.modify i fun l => { l with expression := expression })
      = s.lines.set i { line with expression := expression } := by
    rw [modify_eq_set_getElem?, hline]
    rfl
  have htarget : (s.lines.modify i fun l => { l with expression := expression })[i]?
      = some { line with expression := expression } := by
    rw [hset]
    exact getElem?_set_self hi
  obtain ⟨cost, htaken, hcost⟩ := foldl_takeOver index (index.takenOver arg) htarget
  have hdearer : (∀ l ∈ s.lines, .zero ≤ l.cost) →
      .zero ≤ cost ∧ (cost.below 1 → line.cost.below 1) := fun hnonneg => by
    refine hcost fun l hl => ?_
    rw [hset] at hl
    rcases mem_or_eq_of_mem_set hl with hl | rfl
    · exact hnonneg l hl
    · exact hnonneg line (mem_of_getElem? hline)
  have hstep : s.step index i size arg =
      { lines := (index.takenOver arg).foldl (takeOver index i)
          (s.lines.modify i fun l => { l with expression := expression })
        pending := s.pending ++ index.takenOver arg
        dropped := j :: s.dropped } := by
    simp only [step, hline, hplace, hother, hmerged, if_true]
    rfl
  refine ⟨cost, hline, hplace, hother, hmerged, ?_, by rw [hstep], by rw [hstep], hdearer⟩
  rw [hstep, htaken, hset, set_set]
  rfl

/-- A step does nothing or writes one line into the line visited. -/
lemma step_cases (index : LineIndex) (i size : Nat) (s : Merging) (arg : String) :
    s.step index i size arg = s ∨ ∃ line other j cost,
      Writes index i size arg line other j cost s (s.step index i size arg) := by
  cases hline : s.lines[i]? with
  | none => exact .inl (by simp only [step, hline])
  | some line =>
    cases hplace : index.place? arg with
    | none => exact .inl (by simp only [step, hline, hplace])
    | some j =>
      cases hother : s.lines[j]? with
      | none => exact .inl (by simp only [step, hline, hplace, hother])
      | some other =>
        cases hmerged : isMerged index size line other with
        | false => exact .inl (by simp [step, hline, hplace, hother, hmerged])
        | true =>
          obtain ⟨cost, hwrites⟩ := exists_writes hline hplace hother hmerged
          exact .inr ⟨line, other, j, cost, hwrites⟩

/-! ### Runs -/

/-- What is kept by merging: `I i` holds before line `i` is visited, and `J i todo` during the
visit, where `todo` are the arguments still to be looked at in this round. The first round looks at
the arguments of the line. -/
structure Invariant (index : LineIndex) (I : Nat → Merging → Prop)
    (J : Nat → List String → Merging → Prop) : Prop where
  enter : ∀ {i s line}, I i s → s.lines[i]? = some line →
    J i line.arguments { s with pending := [] }
  absent : ∀ {i s}, I i s → s.lines[i]? = none → I (i + 1) s
  turn : ∀ {i s}, J i [] s → J i s.pending { s with pending := [] }
  step : ∀ {i s arg todo}, J i (arg :: todo) s → ∀ {size line other j cost s'},
    Writes index i size arg line other j cost s s' → J i todo s'
  pass : ∀ {i s arg todo}, J i (arg :: todo) s → ∀ {size}, s.step index i size arg = s → J i todo s
  leave : ∀ {i s}, J i [] s → I (i + 1) s

namespace Invariant

variable {index : LineIndex} {I : Nat → Merging → Prop} {J : Nat → List String → Merging → Prop}
  {i size : Nat} {s : Merging}

lemma foldl (h : Invariant index I J) {todo : List String} (hs : J i todo s) :
    J i [] (todo.foldl (Merging.step index i size) s) := by
  induction todo generalizing s with
  | nil => exact hs
  | cons arg todo ih =>
    rw [foldl_cons]
    apply ih
    rcases step_cases index i size s arg with hsame | ⟨line, other, j, cost, hw⟩
    · rw [hsame]
      exact h.pass hs hsame
    · exact h.step hs hw

lemma rounds (h : Invariant index I J) (n : Nat) (hs : J i [] s) :
    J i [] (Merging.rounds index i size n s) := by
  induction n generalizing s with
  | zero => exact hs
  | succ n ih =>
    rw [Merging.rounds]
    split
    · exact hs
    · exact ih (h.foldl (h.turn hs))

lemma visit (h : Invariant index I J) (hs : I i s) : I (i + 1) (s.visit index i) := by
  unfold Merging.visit
  split
  · next line hline =>
    have hpos : maxRounds s.lines ≠ 0 := Nat.mul_ne_zero (Nat.succ_ne_zero _) (by decide)
    obtain ⟨m, hm⟩ := Nat.exists_eq_succ_of_ne_zero hpos
    have hfirst := h.enter hs hline
    refine h.leave ?_
    rw [hm, Merging.rounds]
    split
    · next hnone =>
      have hnil : line.arguments = [] := isEmpty_iff.1 hnone
      rw [hnil] at hfirst ⊢
      exact hfirst
    · exact h.rounds m (h.foldl hfirst)
  · next hnone => exact h.absent hs hnone

end Invariant

lemma Invariant.mergeAll {lines : List Line} {I : Nat → Merging → Prop}
    {J : Nat → List String → Merging → Prop} (h : Invariant (ofLines lines) I J)
    (start : I 0 { lines }) : I lines.length (mergeAll lines) := by
  unfold KernelFusion.mergeAll
  have upTo : ∀ n, I n ((range n).foldl (Merging.visit (ofLines lines)) { lines }) := by
    intro n
    induction n with
    | zero => exact start
    | succ n ih =>
      rw [range_succ, foldl_append]
      exact h.visit ih
  exact upTo lines.length

end Merging

lemma mergeAll_induction {lines : List Line} {P : List Line → List Nat → Prop} (start : P lines [])
    (step : ∀ {s s' : Merging} {i size arg line other j cost}, P s.lines s.dropped →
      Merging.Writes (ofLines lines) i size arg line other j cost s s' →
      P s'.lines s'.dropped) :
    P (mergeAll lines).lines (mergeAll lines).dropped := by
  have h : Merging.Invariant (ofLines lines) (fun _ s => P s.lines s.dropped)
      (fun _ _ s => P s.lines s.dropped) :=
    { enter := fun hs _ => hs
      absent := fun hs _ => hs
      turn := fun hs => hs
      step := fun hs _ _ _ _ _ _ hw => step hs hw
      pass := fun hs _ _ => hs
      leave := fun hs => hs }
  exact h.mergeAll start

/-! ### Frames and expressions -/

variable {lines : List Line}

lemma map_frame_set {ls : List Line} {i : Nat} {line' : Line} (h : ls[i]? = some line)
    (hframe : line'.frame = line.frame) : (ls.set i line').map frame = ls.map frame := by
  obtain ⟨hi, rfl⟩ := List.getElem?_eq_some_iff.1 h
  rw [map_set, hframe, ← getElem_map frame (h := by simpa using hi), set_getElem_self]

lemma map_frame_mergeAll (lines : List Line) :
    (mergeAll lines).lines.map frame = lines.map frame := by
  refine mergeAll_induction (P := fun ls _ => ls.map frame = lines.map frame) rfl ?_
  intro s s' i size arg line other j cost hs hw
  rw [hw.lines, map_frame_set hw.target (frame_written ..), hs]

lemma length_mergeAll (lines : List Line) : (mergeAll lines).lines.length = lines.length := by
  simpa using congrArg length (map_frame_mergeAll lines)

lemma exists_of_map_frame {ls : List Line} (hf : ls.map frame = lines.map frame) {i : Nat}
    {l : Line} (h : ls[i]? = some l) :
    ∃ l₀, lines[i]? = some l₀ ∧ l.frame = l₀.frame := by
  have hi := congrArg (fun xs : List Line => xs[i]?) hf
  simp only [getElem?_map, h, Option.map_some] at hi
  obtain ⟨l₀, hl₀, he⟩ := Option.map_eq_some_iff.1 hi.symm
  exact ⟨l₀, hl₀, he.symm⟩

lemma exists_line_of_mergeAll {i : Nat} {l : Line} (h : (mergeAll lines).lines[i]? = some l) :
    ∃ l₀, lines[i]? = some l₀ ∧ l.frame = l₀.frame :=
  exists_of_map_frame (map_frame_mergeAll lines) h

lemma LineIndex.name_of_place? (h : (ofLines lines).place? arg = some j) :
    ∃ l, lines[j]? = some l ∧ l.name = arg := by
  obtain ⟨⟨l, j'⟩, hfind, rfl⟩ := Option.map_eq_some_iff.1 (h : lastPlace? lines arg = some j)
  have hmem := mem_of_find?_eq_some hfind
  have hname := find?_some hfind
  rw [mem_reverse, mem_zipIdx_iff_getElem?] at hmem
  exact ⟨l, hmem, by simpa using hname⟩

lemma LineIndex.inputs_eq {l : Line} (h : (ofLines lines).place? arg = some j)
    (hl : lines[j]? = some l) :
    (ofLines lines).inputs arg = l.arguments := by
  have hlast : lastPlace? lines arg = some j := h
  simp [ofLines, hlast, hl]

lemma LineIndex.exists_place? {l : Line} (hl : l ∈ lines) :
    ∃ j, (ofLines lines).place? l.name = some j := by
  refine Option.ne_none_iff_exists'.1 fun hnone => ?_
  have hnone := find?_eq_none.1 (Option.map_eq_none_iff.1 (hnone : lastPlace? lines l.name = none))
  obtain ⟨i, hi⟩ := mem_iff_getElem?.1 hl
  have hmem : (l, i) ∈ lines.zipIdx.reverse := by
    rwa [mem_reverse, mem_zipIdx_iff_getElem?]
  exact absurd (hnone (l, i) hmem) (by simp)

/-- Induction over merging: what holds of each expression and survives a write. -/
lemma expression_mergeAll {E : Nat → String → Prop}
    (start : ∀ i l, lines[i]? = some l → E i l.expression)
    (write : ∀ i j line other e e', lines[i]? = some line → lines[j]? = some other →
      E i e → E j e' →
      E i (Text.replaceWord other.name { other with expression := e' }.asOperand e))
    {i : Nat} {l : Line} (h : (mergeAll lines).lines[i]? = some l) : E i l.expression := by
  suffices invariant : (mergeAll lines).lines.map frame = lines.map frame ∧
      ∀ i l, (mergeAll lines).lines[i]? = some l → E i l.expression from invariant.2 i l h
  refine mergeAll_induction (P := fun ls _ => ls.map frame = lines.map frame ∧
    ∀ i l, ls[i]? = some l → E i l.expression) ⟨rfl, start⟩ ?_
  intro s s' i size arg line other j cost hs hw
  obtain ⟨hframe, hE⟩ := hs
  refine ⟨by rw [hw.lines, map_frame_set hw.target (frame_written ..), hframe], ?_⟩
  intro k l hl
  rw [hw.lines] at hl
  by_cases hk : i = k
  · subst hk
    obtain ⟨hi, -⟩ := List.getElem?_eq_some_iff.1 hw.target
    cases (getElem?_set_self hi).symm.trans hl
    obtain ⟨line₀, hline₀, -⟩ := exists_of_map_frame hframe hw.target
    obtain ⟨other₀, hother₀, hsame⟩ := exists_of_map_frame hframe hw.source
    obtain ⟨named, hnamed, hname⟩ := name_of_place? hw.place
    cases hother₀.symm.trans hnamed
    have hoperand : other.asOperand
        = { other₀ with expression := other.expression }.asOperand := by
      have hp : other.frame.parenthesised = other₀.frame.parenthesised :=
        congrArg parenthesised hsame
      have hp' : other.parenthesised = other₀.parenthesised := hp
      simp [asOperand, hp']
    subst hname
    show E i (Text.replaceWord _ other.asOperand line.expression)
    rw [hoperand]
    exact write i j line₀ other₀ _ _ hline₀ hother₀ (hE i line hw.target) (hE j other hw.source)
  · rw [getElem?_set_ne hk] at hl
    exact hE k l hl

end KernelFusion
