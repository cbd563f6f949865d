/-
Merging keeps what lines stand for.

The arguments that a visit looks at are those the lines had in the beginning. Each of them still
occurs in the expression, or it has been written before, and then the same holds of its own
arguments (`Accounted`): so every free line that is named is looked at. Both a dollar sign in an
expression and a negative cost break this.
-/
import KernelFusion.Proofs.Emit.Occurrences

namespace KernelFusion

open List

namespace Merging

/-! ### Arguments that are accounted for -/

/-- The line of a name occurs in an expression, or it has been written into others and its own
arguments are accounted for. -/
inductive Accounted (lines : List Line) (dropped : List Nat) (e : String) : String → Prop where
  | occurs {m : Line} (hm : m ∈ lines) (h : Text.countWord m.name e ≠ 0) :
      Accounted lines dropped e m.name
  | written {j : Nat} {m : Line} (hm : lines[j]? = some m) (hj : j ∈ dropped)
    (hargs : ∀ a ∈ m.arguments, Accounted lines dropped e a) : Accounted lines dropped e m.name

variable {lines : List Line} {x e : String} {j i : Nat} {m : Line} {s : Merging} {D : List Nat}

lemma Accounted.mono {D' : List Nat} {e' : String} (h : Accounted lines D e x) (hD : D ⊆ D')
    (he : ∀ m ∈ lines, Text.countWord m.name e ≠ 0 → Accounted lines D' e' m.name) :
    Accounted lines D' e' x := by
  induction h with
  | occurs hm h => exact he _ hm h
  | written hm hj _ ih => exact .written hm (hD hj) ih

lemma Accounted.occurs_or_written
    (h : Mergeable lines) (hm : lines[j]? = some m) (ha : Accounted lines D e m.name) :
    Text.countWord m.name e ≠ 0 ∨ j ∈ D ∧ ∀ a ∈ m.arguments, Accounted lines D e a := by
  generalize hname : m.name = x at ha
  cases ha with
  | occurs _ hne => exact .inl hne
  | written hm' hj hargs =>
    obtain rfl := h.place_eq hm hm' hname
    cases hm.symm.trans hm'
    exact .inr ⟨hj, hargs⟩

/-! ### Visits -/

/-- What holds of a line that has been visited: its arguments are accounted for, and it names no
line that is free. -/
structure Visited (lines ls : List Line) (D : List Nat) (i : Nat) : Prop where
  accounted : ∀ l m : Line, ls[i]? = some l → lines[i]? = some m → ∀ a ∈ m.arguments,
    Accounted lines D l.expression a
  free : ∀ l : Line, ls[i]? = some l → ∀ x ∈ lines, x.cost.below 1 →
    Text.countWord x.name l.expression = 0

/-- The state before the line at `i` is visited. -/
structure Before (lines : List Line) (i : Nat) (s : Merging) : Prop where
  kept : Kept lines s.lines s.dropped
  dropped : ∀ j ∈ s.dropped, j < i
  fresh : ∀ j, i ≤ j → s.lines[j]? = lines[j]?
  visited : ∀ j < i, Visited lines s.lines s.dropped j

/-- The state during the visit: what is still to be looked at stands in front and is accounted for,
and among it is all that is free and named. -/
structure During (lines : List Line) (i : Nat) (todo : List String) (s : Merging) : Prop where
  kept : Kept lines s.lines s.dropped
  dropped : ∀ j ∈ s.dropped, j < i
  fresh : ∀ j, i < j → s.lines[j]? = lines[j]?
  visited : ∀ j < i, Visited lines s.lines s.dropped j
  dear : ∀ m : Line, lines[i]? = some m → m.cost.below 1 → todo = [] ∧ s.pending = []
  accounted : ∀ l m : Line, s.lines[i]? = some l → lines[i]? = some m → ∀ a ∈ m.arguments,
    Accounted lines s.dropped l.expression a
  awaited : ∀ l : Line, s.lines[i]? = some l → ∀ a ∈ todo ++ s.pending,
    Accounted lines s.dropped l.expression a
  front : ∀ a ∈ todo ++ s.pending, ∃ j < i, ∃ m : Line, lines[j]? = some m ∧ m.name = a
  free : ∀ l : Line, s.lines[i]? = some l → ∀ x ∈ lines, x.cost.below 1 →
    Text.countWord x.name l.expression ≠ 0 → x.name ∈ todo

lemma Visited.set {ls : List Line} {k : Nat} (hv : Visited lines ls D k) (hki : i ≠ k)
    (l' : Line) : Visited lines (ls.set i l') (j :: D) k := by
  have hsame : (ls.set i l')[k]? = ls[k]? := getElem?_set_ne hki
  refine ⟨fun l m hl hm a ha => ?_, fun l hl => hv.free l (hsame ▸ hl)⟩
  exact (hv.accounted l m (hsame ▸ hl) hm a ha).mono (subset_cons_self _ _) fun y hy hne =>
    .occurs hy hne

lemma Before.absent (hb : Before lines i s)
    (hnone : s.lines[i]? = none) : Before lines (i + 1) s := by
  refine ⟨hb.kept, fun j hj => Nat.lt_succ_of_lt (hb.dropped j hj),
    fun j hj => hb.fresh j (Nat.le_of_succ_le hj), fun j hj => ?_⟩
  rcases Nat.lt_succ_iff_lt_or_eq.1 hj with hlt | rfl
  · exact hb.visited j hlt
  · refine ⟨fun l m hl => ?_, fun l hl => ?_⟩ <;> rw [hnone] at hl <;> cases hl

/-- A visit begins with all arguments of the line to do. -/
lemma Before.enter {line : Line} (h : Mergeable lines) (hb : Before lines i s)
    (hline : s.lines[i]? = some line) :
    During lines i line.arguments { s with pending := [] } := by
  have horigin : lines[i]? = some line := (hb.fresh i (Nat.le_refl i)).symm.trans hline
  have hmem := mem_of_getElem? horigin
  have hargument : ∀ l, s.lines[i]? = some l → ∀ a ∈ line.arguments,
      Accounted lines s.dropped l.expression a := by
    intro l hl a ha
    cases hline.symm.trans hl
    obtain ⟨j, -, m, hm, rfl⟩ := h.earlier i line horigin a ha
    refine .occurs (mem_of_getElem? hm) ?_
    rw [h.occurs line hmem m (mem_of_getElem? hm)]
    exact Nat.ne_of_gt (count_pos_iff.2 ha)
  refine
    { kept := hb.kept, dropped := hb.dropped, fresh := fun j hj => hb.fresh j (Nat.le_of_lt hj),
      visited := hb.visited, dear := fun m hm hfree => ⟨?_, rfl⟩, accounted := fun l m hl hm => ?_,
      awaited := fun l hl => ?_, front := ?_, free := fun l hl x hx hfree hne => ?_ }
  · cases horigin.symm.trans hm
    exact h.free line hmem hfree
  · cases horigin.symm.trans hm
    exact hargument l hl
  · rw [append_nil]
    exact hargument l hl
  · rw [append_nil]
    exact h.earlier i line horigin
  · cases hline.symm.trans hl
    rw [h.occurs line hmem x hx] at hne
    exact count_pos_iff.1 (Nat.pos_of_ne_zero hne)

namespace During

variable {lines : List Line} {i j size : Nat} {s s' : Merging} {arg : String}
  {todo taken : List String} {line other : Line} {cost : Cost}

lemma exists_writable (h : Mergeable lines) (hd : During lines i (arg :: todo) s)
    (hw : Merging.Writes (LineIndex.ofLines lines) i size arg line other j cost s s') :
    ∃ m, m.name = arg ∧ Writable lines s.lines s.dropped i j line other m := by
  obtain ⟨j', hj', m, hm, rfl⟩ := hd.front arg mem_cons_self
  obtain rfl := Option.mem_unique (h.place?_eq hm) hw.place
  refine ⟨m, rfl, hw.target, hw.source, hm, hj', fun hmem =>
    Nat.lt_irrefl i (hd.dropped i hmem), ?_,
    (hd.kept.plain other (mem_of_getElem? hw.source)).2, ?_⟩
  · exact ((hd.awaited line hw.target m.name mem_cons_self).occurs_or_written h hm).symm.imp_left
      And.left
  · by_cases hfree : m.cost.below 1
    · exact .inl hfree
    · rcases isMerged_cases hw.merged with hbelow | hcase
      · exact absurd (hd.kept.dear j' other m hw.source hm hbelow) hfree
      · rw [hd.kept.name_eq hw.source hm] at hcase
        exact .inr ⟨hfree, hcase⟩

lemma accounted_arguments (h : Mergeable lines) (hd : During lines i todo s)
    (hw : Writable lines s.lines s.dropped i j line other m)
    (hne : Text.countWord m.name line.expression ≠ 0) : ∀ a ∈ m.arguments,
      Accounted lines (j :: s.dropped) (line.written m.name other taken cost).expression a := by
  intro a ha
  refine ((hd.visited j hw.lt).accounted other m hw.source hw.origin a ha).mono
    (subset_cons_self _ _) fun y hy hcount => .occurs hy ?_
  rw [hw.countWord_written h hy]
  exact Nat.ne_of_gt (Nat.add_pos_right _
    (Nat.mul_pos (Nat.pos_of_ne_zero hne) (Nat.pos_of_ne_zero hcount)))

lemma accounted_write (h : Mergeable lines) (hd : During lines i todo s)
    (hw : Writable lines s.lines s.dropped i j line other m)
    (hx : Accounted lines s.dropped line.expression x) :
    Accounted lines (j :: s.dropped) (line.written m.name other taken cost).expression x := by
  refine hx.mono (subset_cons_self _ _) fun y hy hne => ?_
  by_cases heq : y.name = m.name
  · rw [heq] at hne ⊢
    exact .written hw.origin mem_cons_self (hd.accounted_arguments h hw hne)
  · refine .occurs hy ?_
    rw [hw.countWord_written h hy, if_neg heq]
    omega

lemma step (h : Mergeable lines) (hd : During lines i (arg :: todo) s)
    (hw : Merging.Writes (LineIndex.ofLines lines) i size arg line other j cost s s') :
    During lines i todo s' := by
  obtain ⟨m, rfl, hwritable⟩ := hd.exists_writable h hw
  have hi := (List.getElem?_eq_some_iff.1 hw.target).1
  have htaken := h.takenOver_eq hwritable.origin
  have hlines := hw.lines
  have hdropped := hw.dropped
  have hpending := hw.pending
  rw [htaken] at hlines hpending
  have hself : ∀ l : Line, s'.lines[i]? = some l →
    l = line.written m.name other m.arguments cost := by
    intro l hl
    rw [hlines, getElem?_set_self hi] at hl
    exact (Option.some.inj hl).symm
  have hargument : ∀ a ∈ m.arguments, Accounted lines s'.dropped
      (line.written m.name other m.arguments cost).expression a := by
    intro a ha
    rw [hdropped]
    rcases (hd.awaited line hw.target m.name mem_cons_self).occurs_or_written h
      hwritable.origin with
      hne | ⟨-, hargs⟩
    · exact hd.accounted_arguments h hwritable hne a ha
    · exact hd.accounted_write h hwritable (hargs a ha)
  have hdear : ∀ l₀, lines[i]? = some l₀ → ¬ l₀.cost.below 1 := fun l₀ hl₀ hfree =>
    cons_ne_nil _ _ (hd.dear l₀ hl₀ hfree).1
  refine
    { kept := ?_, dropped := fun k hk => ?_, fresh := fun k hk => ?_, visited := fun k hk => ?_,
      dear := fun l₀ hl₀ hfree => absurd hfree (hdear l₀ hl₀), accounted :=
      fun l l₀ hl hl₀ a ha => ?_,
      awaited := fun l hl a ha => ?_, front := fun a ha => ?_, free :=
      fun l hl x hx hfree hne => ?_ }
  · rw [hlines, hdropped]
    exact hd.kept.write h hwritable hdear (hw.dearer fun l hl => (hd.kept.plain l hl).1)
  · rw [hdropped] at hk
    exact (mem_cons.1 hk).elim (fun heq => heq ▸ hwritable.lt) (hd.dropped k)
  · rw [hlines, getElem?_set_ne (Nat.ne_of_lt hk), hd.fresh k hk]
  · rw [hlines, hdropped]
    exact (hd.visited k hk).set (Nat.ne_of_gt hk) _
  · rw [hself l hl, hdropped]
    exact hd.accounted_write h hwritable (hd.accounted line l₀ hw.target hl₀ a ha)
  · rw [hself l hl]
    rw [hpending, ← append_assoc] at ha
    rcases mem_append.1 ha with ha | ha
    · rw [hdropped]
      exact hd.accounted_write h hwritable (hd.awaited line hw.target a (mem_cons_of_mem _ ha))
    · exact hargument a ha
  · rw [hpending, ← append_assoc] at ha
    rcases mem_append.1 ha with ha | ha
    · exact hd.front a (mem_cons_of_mem _ ha)
    · obtain ⟨k, hk, hm⟩ := h.earlier j m hwritable.origin a ha
      exact ⟨k, Nat.lt_trans hk hwritable.lt, hm⟩
  · -- the line that is written has been visited, so that it names nothing free
    have hzero := (hd.visited j hwritable.lt).free other hw.source x hx hfree
    rw [hself l hl, hwritable.countWord_written h hx, hzero, Nat.mul_zero, Nat.add_zero] at hne
    split at hne
    · exact absurd rfl hne
    · next hname =>
      exact (mem_cons.1 (hd.free line hw.target x hx hfree hne)).resolve_left hname

lemma pass (h : Mergeable lines) (hd : During lines i (arg :: todo) s)
    (hsame : s.step (LineIndex.ofLines lines) i size arg = s) : During lines i todo s := by
  refine { hd with
    dear := fun m hm hfree => absurd (hd.dear m hm hfree).1 (cons_ne_nil _ _)
    awaited := fun l hl a ha => hd.awaited l hl a (mem_cons_of_mem _ ha)
    front := fun a ha => hd.front a (mem_cons_of_mem _ ha)
    free := fun l hl x hx hfree hne => ?_ }
  refine (mem_cons.1 (hd.free l hl x hx hfree hne)).resolve_left fun hname => ?_
  subst hname
  obtain ⟨k, hk⟩ := mem_iff_getElem?.1 hx
  have hmerged : isMerged (LineIndex.ofLines lines) size l x := isMerged_of_free hfree
  obtain ⟨cost, hw⟩ := Merging.exists_writes hl (h.place?_eq hk) (hd.kept.free k x hk hfree) hmerged
  rw [hsame] at hw
  exact cons_ne_self _ _ hw.dropped.symm

lemma turn (hd : During lines i [] s) : During lines i s.pending { s with pending := [] } :=
  { hd with
    dear := fun m hm hfree => ⟨(hd.dear m hm hfree).2, rfl⟩
    awaited := fun l hl a ha => hd.awaited l hl a (by rwa [append_nil] at ha)
    front := fun a ha => hd.front a (by rwa [append_nil] at ha)
    free := fun l hl x hx hfree hne => absurd (hd.free l hl x hx hfree hne) not_mem_nil }

lemma leave (hd : During lines i [] s) : Before lines (i + 1) s := by
  refine ⟨hd.kept, fun j hj => Nat.lt_succ_of_lt (hd.dropped j hj), hd.fresh, fun j hj => ?_⟩
  rcases Nat.lt_succ_iff_lt_or_eq.1 hj with hlt | rfl
  · exact hd.visited j hlt
  · refine ⟨hd.accounted, fun l hl x hx hfree => ?_⟩
    by_contra hne
    exact absurd (hd.free l hl x hx hfree hne) not_mem_nil

end During

lemma invariant (h : Mergeable lines) :
    Invariant (LineIndex.ofLines lines) (Before lines) (During lines) where
  enter := Before.enter h
  absent := Before.absent
  turn := During.turn
  step := fun hd _ _ _ _ _ _ hw => hd.step h hw
  pass := fun hd _ hsame => hd.pass h hsame
  leave := During.leave

end Merging

lemma Mergeable.before_mergeAll (h : Mergeable lines) (hplain : ∀ l ∈ lines, l.Plain) :
    Merging.Before lines lines.length (mergeAll lines) :=
  (Merging.invariant h).mergeAll ⟨.start h hplain, by simp, fun _ _ => rfl,
    fun j hj => absurd hj (Nat.not_lt_zero j)⟩

/-! ### What stays -/

variable {lines : List Line} {l : Line}

lemma Merging.Before.countWord_dropped (hb : Merging.Before lines lines.length s)
    (hl : s.lines[i]? = some l) (hi : i ∉ s.dropped) (hm : lines[j]? = some m)
    (hj : j ∈ s.dropped) :
    Text.countWord m.name l.expression = 0 := by
  obtain ⟨l₀, hl₀, -⟩ := exists_of_map_frame hb.kept.frames hl
  have hlt : i < lines.length := (List.getElem?_eq_some_iff.1 hl₀).1
  obtain ⟨m', hm', hreason⟩ := hb.kept.reason j hj
  cases hm.symm.trans hm'
  by_cases hfree : m.cost.below 1
  · exact (hb.visited i hlt).free l hl m (mem_of_getElem? hm) hfree
  · exact (hb.kept.once j m hm hfree (hreason.resolve_left hfree)).gone hj i l hl hi

/-- The names of the lines that are dropped. -/
def droppedNames (lines : List Line) : List String :=
  (mergeAll lines).dropped.filterMap fun j => (lines[j]?).map (·.name)

lemma mem_droppedNames : x ∈ droppedNames lines ↔
    ∃ j ∈ (mergeAll lines).dropped, ∃ m : Line, lines[j]? = some m ∧ m.name = x := by
  simp only [droppedNames, mem_filterMap, Option.map_eq_some_iff]

lemma Mergeable.mem_droppedNames_iff (h : Mergeable lines)
    (hl : (mergeAll lines).lines[i]? = some l) :
    l.name ∈ droppedNames lines ↔ i ∈ (mergeAll lines).dropped := by
  obtain ⟨l₀, hl₀, hframe⟩ := exists_line_of_mergeAll hl
  have hname : l.name = l₀.name := congrArg (·.name) hframe
  rw [mem_droppedNames]
  constructor
  · rintro ⟨j, hj, m, hm, heq⟩
    rwa [h.place_eq hl₀ hm (hname.symm.trans heq.symm)]
  · exact fun hi => ⟨i, hi, l₀, hl₀, hname.symm⟩

/-- Compaction drops the merged lines and keeps the others in order. -/
lemma Mergeable.mergeLines_eq_filter (h : Mergeable lines) :
    mergeLines lines = (mergeAll lines).lines.filter fun l =>
    decide (l.name ∉ droppedNames lines) := by
  have hfst : (mergeAll lines).lines.zipIdx.map (·.1) = (mergeAll lines).lines := zipIdx_map_fst ..
  have hdrop : ∀ p ∈ (mergeAll lines).lines.zipIdx, (!(mergeAll lines).dropped.contains p.2) =
      decide (p.1.name ∉ droppedNames lines) := by
    intro p hp
    have hiff := h.mem_droppedNames_iff (mem_zipIdx_iff_getElem?.1 hp)
    rw [Bool.eq_iff_iff, Bool.not_eq_true', decide_eq_true_iff, hiff, ← Bool.not_eq_true,
      contains_iff_mem]
  calc mergeLines lines
      = ((mergeAll lines).lines.zipIdx.filter fun p
      => !(mergeAll lines).dropped.contains p.2).map (·.1) := rfl
    _ = ((mergeAll lines).lines.zipIdx.map
    (·.1)).filter fun l => decide (l.name ∉ droppedNames lines) := by
        rw [filter_congr hdrop, filter_map]
        rfl
    _ = (mergeAll lines).lines.filter fun l => decide (l.name ∉ droppedNames lines) := by rw [hfst]

section

variable (h : Mergeable lines) (hplain : ∀ l ∈ lines, l.Plain)

include h hplain

lemma Mergeable.mem_map_name_mergeLines :
    x ∈ (mergeLines lines).map (·.name) ↔ x ∈ lines.map (·.name) ∧ x ∉ droppedNames lines := by
  have hnames : lines.map (·.name) = (mergeAll lines).lines.map (·.name) := by
    rw [← map_name_expandFrom lines, ← map_name_expandFrom (mergeAll lines).lines]
    exact congrArg _ (h.before_mergeAll hplain).kept.expands.symm
  rw [hnames, h.mergeLines_eq_filter, mem_map, mem_map]
  constructor
  · rintro ⟨l, hl, rfl⟩
    obtain ⟨hmem, hstays⟩ := mem_filter.1 hl
    exact ⟨⟨l, hmem, rfl⟩, of_decide_eq_true hstays⟩
  · rintro ⟨⟨l, hl, rfl⟩, hstays⟩
    exact ⟨l, mem_filter.2 ⟨hl, decide_eq_true hstays⟩, rfl⟩

lemma Mergeable.not_mem_droppedNames (hl : l ∈ (mergeAll lines).lines)
    (hstays : l.name ∉ droppedNames lines) (hx : x.toList ∈ Text.pieces l.expression.toList) :
    x ∉ droppedNames lines := by
  intro hmem
  obtain ⟨j, hj, m, hm, rfl⟩ := mem_droppedNames.1 hmem
  obtain ⟨i, hi⟩ := mem_iff_getElem?.1 hl
  have hne := (Text.countWord_ne_zero_iff (h.isName m (mem_of_getElem? hm))).2 hx
  exact hne ((h.before_mergeAll hplain).countWord_dropped hi
    (mt (h.mem_droppedNames_iff hi).2 hstays) hm hj)

/-- What a line that stays names is a line in front of it that stays. -/
theorem Mergeable.exists_front {before after : List Line}
    (hsplit : mergeLines lines = before ++ l :: after) (hm : m ∈ lines)
    (hne : Text.countWord m.name l.expression ≠ 0) : ∃ m' ∈ before, m'.name = m.name := by
  have hkept := (h.before_mergeAll hplain).kept
  have hpiece := (Text.countWord_ne_zero_iff (h.isName m hm)).1 hne
  rw [h.mergeLines_eq_filter, filter_eq_append_iff] at hsplit
  obtain ⟨front, rest, hlines, rfl, hrest⟩ := hsplit
  obtain ⟨skipped, rest', rfl, hskipped, hstays, -⟩ := filter_eq_cons_iff.1 hrest
  have hl : (mergeAll lines).lines[(front ++ skipped).length]? = some l := by
    rw [hlines, ← append_assoc, getElem?_append_right (Nat.le_refl _), Nat.sub_self,
      getElem?_cons_zero]
  have hgone := h.not_mem_droppedNames hplain (mem_of_getElem? hl) (of_decide_eq_true hstays) hpiece
  obtain ⟨j, hj⟩ := mem_iff_getElem?.1 hm
  have hlt := hkept.earlier _ j l m hl hj hne
  -- the line of the name at the end
  obtain ⟨m', hm', hframe⟩ := exists_of_map_frame hkept.frames.symm hj
  have hname : m.name = m'.name := congrArg (·.name) hframe
  rw [hlines, ← append_assoc, getElem?_append_left hlt] at hm'
  refine ⟨m', mem_filter.2 ⟨?_, decide_eq_true (hname ▸ hgone)⟩, hname.symm⟩
  refine (mem_append.1 (mem_of_getElem? hm')).resolve_right fun hmem => ?_
  exact hskipped m' hmem (decide_eq_true (hname ▸ hgone))

end

/-- What merging keeps of lines. Every name of another line that occurs in a line that stays is that
of a line in front of it that stays, and the lines that stay have the expansions they had before. -/
structure MeaningKept (lines : List Line) : Prop where
  named : ∀ (before : List Line) (l : Line) (after : List Line),
  mergeLines lines = before ++ l :: after →
    ∀ m ∈ lines, Text.countWord m.name l.expression ≠ 0 ∨
      m.name ≠ l.name ∧ (Text.countWord m.name l.left ≠ 0 ∨ Text.countWord m.name l.right ≠ 0) →
    ∃ m' ∈ before, m'.name = m.name
  expands : expandLines (mergeLines lines) =
    (expandLines lines).filter fun l => decide (l.name ∈ (mergeLines lines).map (·.name))

/-- Merging keeps what lines stand for, if no cost is negative and no expression has a dollar
sign. -/
theorem meaningKept_mergeLines (h : Mergeable lines) (hplain : ∀ l ∈ lines, l.Plain) :
    MeaningKept lines := by
  constructor
  · rintro before l after hsplit m hm (hne | ⟨hname, hne⟩)
    · exact h.exists_front hplain hsplit hm hne
    · have hl : l ∈ mergeLines lines := by
        rw [hsplit]
        exact mem_append_right _ mem_cons_self
      rw [h.mergeLines_eq_filter] at hl
      obtain ⟨i, hi⟩ := mem_iff_getElem?.1 (mem_filter.1 hl).1
      obtain ⟨l₀, hl₀, hframe⟩ := exists_line_of_mergeAll hi
      have hname₀ : l.name = l₀.name := congrArg (·.name) hframe
      have hleft : l.left = l₀.left := congrArg (·.left) hframe
      have hright : l.right = l₀.right := congrArg (·.right) hframe
      obtain ⟨hzero, hzero'⟩ := h.apart l₀ (mem_of_getElem? hl₀) m hm (hname₀ ▸ hname)
      rw [hleft, hright] at hne
      exact absurd hne (not_or.2 ⟨fun hne => hne hzero, fun hne => hne hzero'⟩)
  · have hexpands : expandLines (mergeLines lines) =
        (expandLines lines).filter fun l => decide (l.name ∉ droppedNames lines) := by
      rw [← (h.before_mergeAll hplain).kept.expands, h.mergeLines_eq_filter]
      refine expandFrom_filter (fun x => decide (x ∉ droppedNames lines))
        (fun l hl hstays x hx => ?_)
        fun _ _ => rfl
      exact decide_eq_true (h.not_mem_droppedNames hplain hl (of_decide_eq_true hstays) hx)
    rw [hexpands]
    refine filter_congr fun l hl => ?_
    have hmem : l.name ∈ lines.map (·.name) := by
      rw [← map_name_expandFrom lines]
      exact mem_map_of_mem hl
    rw [decide_eq_decide, h.mem_map_name_mergeLines hplain]
    exact ⟨fun hstays => ⟨hmem, hstays⟩, And.right⟩

/-- A constant, a sum that is used once, a product that is used twice, and their difference. -/
def productLines : List Line :=
  [{ left := "int n = ", expression := "4", right := ";", name := "n", arguments := [],
     parenthesised := false, cost := .zero },
   { left := "int s = ", expression := "n + n", right := ";", name := "s", arguments := ["n", "n"],
     parenthesised := true, cost := .units Single.one },
   { left := "int p = ", expression := "s * n", right := ";", name := "p", arguments := ["s", "n"],
     parenthesised := true, cost := .units Single.one },
   { left := "int d = ", expression := "p - p", right := ";", name := "d", arguments := ["p", "p"],
     parenthesised := true, cost := .units Single.one }]

/-- What makes lines mergeable can be computed. -/
theorem Mergeable.of_decide
    (hname : ∀ l ∈ lines, l.name.toList ≠ [] ∧ ∀ c ∈ l.name.toList, Text.isWordChar c)
    (hnodup : (lines.map (·.name)).Nodup)
    (hearlier : ∀ i < lines.length, ∀ l ∈ lines[i]?, ∀ a ∈ l.arguments,
      ∃ j < i, ∃ m ∈ lines[j]?, m.name = a)
    (hoccurs : ∀ l ∈ lines, ∀ m ∈ lines,
      Text.countWord m.name l.expression = l.arguments.count m.name ∧
        (m.name ≠ l.name → Text.countWord m.name l.left = 0 ∧ Text.countWord m.name l.right = 0))
    (hfree : ∀ l ∈ lines, l.cost.below 1 → l.arguments = []) : Mergeable lines :=
  ⟨hname, hnodup, fun i l hl => hearlier i (List.getElem?_eq_some_iff.1 hl).1 l hl,
    fun l hl m hm => (hoccurs l hl m hm).1, fun l hl m hm => (hoccurs l hl m hm).2, hfree⟩

lemma mergeable_productLines : Mergeable productLines :=
  .of_decide (by decide) (by decide) (by decide) (by decide) (by decide)

lemma plain_productLines : ∀ l ∈ productLines, l.Plain := by
  have hplain : ∀ l ∈ productLines, Cost.zero ≤ l.cost ∧ '$' ∉ l.expression.toList :=
    by decide +kernel
  exact hplain

theorem meaningKept_productLines :
    (mergeLines productLines).map (·.expression) = ["(4 + 4) * 4", "p - p"] ∧
    MeaningKept productLines :=
  ⟨by decide +kernel, meaningKept_mergeLines mergeable_productLines plain_productLines⟩

/-- A line whose expression is a format, and a line that uses it. -/
def formatLines : List Line :=
  [{ left := "int a = ", expression := "$&", right := ";", name := "a", arguments := [],
     parenthesised := false, cost := .zero },
   { left := "int b = ", expression := "a + 1", right := ";", name := "b", arguments := ["a"],
     parenthesised := true, cost := .units Single.one }]

/-- A line that takes over a negative cost and is used twice. It names a long line that is written
into the shorter one of its users only. -/
def refundLines : List Line :=
  [{ left := "int z = ", expression := "5", right := ";", name := "z", arguments := [],
     parenthesised := false, cost := .units (-5 * Single.one) },
   { left := "int w = ", expression := String.ofList (replicate 96 '1'), right := ";", name :=
   "w", arguments := [],
     parenthesised := false, cost := .units Single.one },
   { left := "int s = ", expression := "z", right := ";", name := "s", arguments := ["z"],
     parenthesised := false, cost := .units Single.one },
   { left := "int p = ", expression := "s + w", right := ";", name := "p", arguments := ["s", "w"],
     parenthesised := true, cost := .units Single.one },
   { left := "int q = ", expression := "p", right := ";", name := "q", arguments := ["p"],
     parenthesised := false, cost := .units Single.one },
   { left := "int r = ", expression := "p + 1", right := ";", name := "r", arguments := ["p"],
     parenthesised := true, cost := .units Single.one }]

/-- Neither condition can be dropped, and the name of a line stands in its own left part: a dropped
line may be named behind a dollar sign and behind a negative cost, and a declaration names what it
declares. -/
theorem not_forall_meaningKept :
    (¬ ∀ lines, Mergeable lines → (∀ l ∈ lines, .zero ≤ l.cost) → MeaningKept lines) ∧
    (¬ ∀ lines, Mergeable lines → (∀ l ∈ lines, '$' ∉ l.expression.toList) → MeaningKept lines) ∧
    ¬ ∀ lines, Mergeable lines → (∀ l ∈ lines, l.Plain) → ∀ (before : List Line) (l : Line)
      (after : List Line), mergeLines lines = before ++ l :: after →
        ∀ m ∈ lines, Text.countWord m.name (l.left ++ l.expression ++ l.right) ≠ 0 →
          ∃ m' ∈ before, m'.name = m.name := by
  refine ⟨fun hall => ?_, fun hall => ?_, fun hall => ?_⟩
  · have hkept := hall formatLines
      (.of_decide (by decide) (by decide) (by decide) (by decide) (by decide)) (by decide +kernel)
    exact absurd (congrArg (map (·.expression)) hkept.expands) (by decide +kernel)
  · have hkept := hall refundLines
      (.of_decide (by decide +kernel) (by decide +kernel) (by decide +kernel) (by decide +kernel)
        (by decide +kernel)) (by decide +kernel)
    have hstays : (mergeLines refundLines).map (fun l =>
      (l.name, Text.countWord "w" l.expression)) =
        [("q", 0), ("r", 1)] := by decide +kernel
    obtain ⟨q, rest, hmerged, hq, hrest⟩ := map_eq_cons_iff.1 hstays
    obtain ⟨r, rest, rfl, hr, -⟩ := map_eq_cons_iff.1 hrest
    obtain ⟨hqname, -⟩ := Prod.mk.inj hq
    obtain ⟨-, hcount⟩ := Prod.mk.inj hr
    have hoccurs : Text.countWord "w" r.expression ≠ 0 := fun hzero => by simp [hzero] at hcount
    obtain ⟨m', hm', hname⟩ := hkept.named [q] r rest hmerged (refundLines.get ⟨1, by decide⟩)
      (get_mem _ _) (.inl hoccurs)
    rw [mem_singleton.1 hm', hqname] at hname
    exact absurd hname (by decide)
  · have hstays : (mergeLines productLines).map (fun l => l.left ++ l.expression ++ l.right) =
        ["int p = (4 + 4) * 4;", "int d = p - p;"] := by decide +kernel
    obtain ⟨l, rest, hmerged, hl, -⟩ := map_eq_cons_iff.1 hstays
    obtain ⟨m', hm', -⟩ := hall productLines mergeable_productLines plain_productLines []
      l rest hmerged
      (productLines.get ⟨2, by decide⟩) (get_mem _ _) (by rw [hl]; decide)
    cases hm'

end KernelFusion
