/-
What merging keeps of names and expansions.

Lines that cost next to nothing are written wherever they are named. Of the name of a line that is
used once there is at most one occurrence in lines that are not dropped (`Once`), also after lines
that name it have been written into others. `Kept` collects what every writing keeps.
-/
import KernelFusion.Proofs.Emit.Expansion

namespace KernelFusion

open List Text LineIndex

/-! ### Places -/

variable {ls : List α} {i j : Nat} {a b : α}

lemma exists_split (hlt : j < i) (hj : ls[j]? = some a)
    (hi : ls[i]? = some b) : ∃ before between after, ls = before ++ a :: between ++ b :: after ∧
      (before ++ a :: between).length = i ∧ ∀ c ∈ between, ∃ k, j < k ∧ ls[k]? = some c := by
  obtain ⟨hi', rfl⟩ := List.getElem?_eq_some_iff.1 hi
  have hj' : (ls.take i)[j]? = some a := by rw [getElem?_take_of_lt hlt, hj]
  obtain ⟨hj'', hget⟩ := List.getElem?_eq_some_iff.1 hj'
  have hfront : (ls.take i).take j ++ a :: (ls.take i).drop (j + 1) = ls.take i := by
    rw [← hget, getElem_cons_drop, take_append_drop]
  refine ⟨(ls.take i).take j, (ls.take i).drop (j + 1), ls.drop (i + 1), ?_, ?_, fun c hc => ?_⟩
  · rw [hfront, getElem_cons_drop, take_append_drop]
  · rw [hfront]
    exact length_take_of_le (Nat.le_of_lt hi')
  · obtain ⟨k, hk⟩ := mem_iff_getElem?.1 hc
    rw [getElem?_drop] at hk
    have hki : j + 1 + k < i :=
      Nat.lt_of_lt_of_le (List.getElem?_eq_some_iff.1 hk).1 (length_take_le i ls)
    rw [getElem?_take_of_lt hki] at hk
    exact ⟨j + 1 + k, by omega, hk⟩

lemma getElem?_set_cases {p : Nat} (h : (ls.set i a)[p]? = some b) :
    p = i ∧ b = a ∨ p ≠ i ∧ ls[p]? = some b := by
  by_cases hp : i = p
  · subst hp
    have hi : i < ls.length := by
      rw [← length_set]
      exact (List.getElem?_eq_some_iff.1 h).1
    exact Or.inl ⟨rfl, (Option.mem_unique (getElem?_set_self hi) h).symm⟩
  · exact Or.inr ⟨Ne.symm hp, by rwa [getElem?_set_ne hp] at h⟩

/-! ### Lines that can be merged -/

/-- Lines with different names. Their arguments are the lines in front that their expressions name,
each as often as it is named; lines that are free have none. -/
structure Mergeable (lines : List Line) : Prop where
  isName : ∀ l ∈ lines, IsName l.name.toList
  nodup : (lines.map (·.name)).Nodup
  earlier : ∀ (i : Nat) (l : Line), lines[i]? = some l → ∀ a ∈ l.arguments,
    ∃ j < i, ∃ m : Line, lines[j]? = some m ∧ m.name = a
  occurs : ∀ l ∈ lines, ∀ m ∈ lines, countWord m.name l.expression = l.arguments.count m.name
  apart : ∀ l ∈ lines, ∀ m ∈ lines, m.name ≠ l.name →
    countWord m.name l.left = 0 ∧ countWord m.name l.right = 0
  free : ∀ l ∈ lines, l.cost.below 1 → l.arguments = []

namespace Mergeable

variable {lines : List Line} {i j : Nat} {l m : Line}

lemma place_eq (h : Mergeable lines) (hi : lines[i]? = some l) (hj : lines[j]? = some m)
    (hname : l.name = m.name) : i = j := by
  have hlt : i < (lines.map (·.name)).length := by
    rw [length_map]
    exact (List.getElem?_eq_some_iff.1 hi).1
  refine (getElem?_inj hlt h.nodup).1 ?_
  rw [getElem?_map, getElem?_map, hi, hj, Option.map_some, Option.map_some, hname]

lemma place?_eq (h : Mergeable lines) (hi : lines[i]? = some l) :
    (ofLines lines).place? l.name = some i := by
  obtain ⟨j, hplace⟩ := exists_place? (mem_of_getElem? hi)
  obtain ⟨m, hm, hname⟩ := name_of_place? hplace
  rw [hplace, h.place_eq hi hm hname.symm]

lemma takenOver_eq (h : Mergeable lines) (hi : lines[i]? = some l) :
    (ofLines lines).takenOver l.name = l.arguments := by
  rw [takenOver, inputs_eq (h.place?_eq hi) hi, filter_eq_self]
  intro a ha
  obtain ⟨j, hj, m, hm, rfl⟩ := h.earlier i l hi a ha
  refine decide_eq_true fun hname => ?_
  exact absurd (h.place_eq hm hi hname) (Nat.ne_of_lt hj)

end Mergeable

namespace Merging

/-! ### Names that occur once -/

/-- There is at most one occurrence of the name in lines that are not dropped, and none when the
line of the name, at `k`, is. -/
structure Once (ls : List Line) (D : List Nat) (k : Nat) (x : String) : Prop where
  le_one : ∀ (i : Nat) (l : Line), ls[i]? = some l → i ∉ D → countWord x l.expression ≤ 1
  unique : ∀ (i j : Nat) (l m : Line), ls[i]? = some l → ls[j]? = some m → i ∉ D → j ∉ D →
    countWord x l.expression ≠ 0 → countWord x m.expression ≠ 0 → i = j
  gone : k ∈ D → ∀ (i : Nat) (l : Line), ls[i]? = some l → i ∉ D → countWord x l.expression = 0

namespace Once

variable {ls ls' : List Line} {D D' : List Nat} {k i : Nat} {x : String}

lemma transfer (h : Once ls D k x) (hk : k ∈ D' → k ∈ D)
    (hsame : ∀ (p : Nat) (l' : Line), ls'[p]? = some l' → p ∉ D' → ∃ l : Line,
    ls[p]? = some l ∧ p ∉ D ∧
      countWord x l'.expression = countWord x l.expression) : Once ls' D' k x := by
  refine ⟨fun p l' hp hD => ?_, fun p q l' m' hp hq hpD hqD hl hm => ?_, fun hkD p l' hp hD => ?_⟩
  · obtain ⟨l, hl, hlD, hcount⟩ := hsame p l' hp hD
    exact hcount ▸ h.le_one p l hl hlD
  · obtain ⟨l, hl₀, hlD, hcount⟩ := hsame p l' hp hpD
    obtain ⟨m, hm₀, hmD, hcount'⟩ := hsame q m' hq hqD
    exact h.unique p q l m hl₀ hm₀ hlD hmD (hcount ▸ hl) (hcount' ▸ hm)
  · obtain ⟨l, hl, hlD, hcount⟩ := hsame p l' hp hD
    exact hcount ▸ h.gone (hk hkD) p l hl hlD

lemma of_only (h : ∀ (p : Nat) (l : Line), ls[p]? = some l → p ∉ D →
    countWord x l.expression ≠ 0 → p = i ∧ countWord x l.expression = 1 ∧ k ∉ D) :
    Once ls D k x := by
  refine ⟨fun p l hp hD => ?_, fun p q l m hp hq hpD hqD hl hm => ?_, fun hk p l hp hD => ?_⟩
  · by_cases hzero : countWord x l.expression = 0
    · omega
    · exact Nat.le_of_eq (h p l hp hD hzero).2.1
  · exact (h p l hp hpD hl).1.trans (h q m hq hqD hm).1.symm
  · by_contra hzero
    exact (h p l hp hD hzero).2.2 hk

end Once

/-! ### What merging keeps -/

/-- What holds of the lines and of what is dropped at any time. -/
structure Kept (lines ls : List Line) (D : List Nat) : Prop where
  frames : ls.map Line.frame = lines.map Line.frame
  earlier : ∀ (i j : Nat) (l m : Line), ls[i]? = some l → lines[j]? = some m →
    countWord m.name l.expression ≠ 0 → j < i
  free : ∀ (j : Nat) (m : Line), lines[j]? = some m → m.cost.below 1 → ls[j]? = some m
  dear : ∀ (j : Nat) (l m : Line), ls[j]? = some l → lines[j]? = some m → l.cost.below 1 →
    m.cost.below 1
  expands : expandLines ls = expandLines lines
  reason : ∀ j ∈ D, ∃ m : Line, lines[j]? = some m ∧
    (m.cost.below 1 ∨ (ofLines lines).users m.name = 1)
  once : ∀ (k : Nat) (m : Line), lines[k]? = some m → ¬ m.cost.below 1 →
    (ofLines lines).users m.name = 1 → Once ls D k m.name
  plain : ∀ l ∈ ls, l.Plain

variable {index : LineIndex} {size : Nat} {line other x : Line}

lemma isMerged_cases (h : isMerged index size line other) : other.cost.below 1 ∨
      index.users other.name = 1 ∧ countWord other.name line.expression < 2 := by
  cases hfree : other.cost.below 1 with
  | true => exact .inl rfl
  | false =>
    simp only [isMerged, hfree, Bool.or_false, Bool.and_eq_true, decide_eq_true_eq] at h
    exact .inr ⟨h.1.2, h.2⟩

lemma isMerged_of_free (h : other.cost.below 1) : isMerged index size line other := by
  simp [isMerged, h]

/-- The line at `j`, which is `other` by now and was `m`, can be written into `line`, which is at
`i`: it stands in front, and it is named there unless it has been dropped. -/
structure Writable (lines ls : List Line) (D : List Nat) (i j : Nat)
    (line other m : Line) : Prop where
  target : ls[i]? = some line
  source : ls[j]? = some other
  origin : lines[j]? = some m
  lt : j < i
  stays : i ∉ D
  named : j ∈ D ∨ countWord m.name line.expression ≠ 0
  plain : '$' ∉ other.expression.toList
  cases : m.cost.below 1 ∨ ¬ m.cost.below 1 ∧
    (ofLines lines).users m.name = 1 ∧ countWord m.name line.expression < 2

lemma Writable.countWord_written {lines ls : List Line} {D : List Nat} {m : Line}
    (hw : Writable lines ls D i j line other m) (h : Mergeable lines) (hx : x ∈ lines)
    (taken : List String) (cost : Cost) :
    countWord x.name (line.written m.name other taken cost).expression =
      (if x.name = m.name then 0 else countWord x.name line.expression) +
        countWord m.name line.expression * countWord x.name other.expression := by
  have hm := h.isName m (mem_of_getElem? hw.origin)
  rw [Line.written, countWord_replaceWord (h.isName x hx) hm
    (Line.dollar_not_mem_asOperand hw.plain), Line.countWord_asOperand (h.isName x hx)]

namespace Kept

variable {lines ls : List Line} {D : List Nat} {i j k : Nat} {line other m : Line}
  {taken : List String} {cost : Cost}

lemma name_eq (hk : Kept lines ls D) {l l₀ : Line} (hl : ls[k]? = some l)
    (hl₀ : lines[k]? = some l₀) : l.name = l₀.name := by
  obtain ⟨l₁, hl₁, hframe⟩ := exists_of_map_frame hk.frames hl
  cases hl₀.symm.trans hl₁
  exact congrArg (·.name) hframe

lemma once_unchanged (hw : Writable lines ls D i j line other m) {x : String}
    (honce : Once ls D k x) (hk : k = j → j ∈ D)
    (hcount : countWord x (line.written m.name other taken cost).expression =
      countWord x line.expression) :
    Once (ls.set i (line.written m.name other taken cost)) (j :: D) k x := by
  refine honce.transfer (fun hmem => (mem_cons.1 hmem).elim (fun heq => heq ▸ hk heq) id)
    fun p l' hl' hp => ?_
  have hpD : p ∉ D := fun hmem => hp (mem_cons_of_mem _ hmem)
  rcases getElem?_set_cases hl' with ⟨rfl, rfl⟩ | ⟨-, hl⟩
  · exact ⟨line, hw.target, hpD, hcount⟩
  · exact ⟨l', hl, hpD, rfl⟩

lemma once_moved (h : Mergeable lines) (hw : Writable lines ls D i j line other m) (hj : j ∉ D)
    (hone : countWord m.name line.expression = 1) (hx : x ∈ lines) (hkj : k ≠ j)
    (hxm : x.name ≠ m.name) (honce : Once ls D k x.name)
    (hmoves : countWord x.name other.expression ≠ 0) :
    Once (ls.set i (line.written m.name other taken cost)) (j :: D) k x.name := by
  have hk : k ∉ j :: D := fun hmem => (mem_cons.1 hmem).elim hkj fun hmem =>
    hmoves (honce.gone hmem j other hw.source hj)
  have hempty : ∀ p l, ls[p]? = some l → p ∉ D → p ≠ j → countWord x.name l.expression = 0 := by
    intro p l hl hp hpj
    by_contra hne
    exact hpj (honce.unique p j l other hl hw.source hp hj hne hmoves)
  have hline := hempty i line hw.target hw.stays (Nat.ne_of_gt hw.lt)
  have hother := honce.le_one j other hw.source hj
  refine Once.of_only (i := i) fun p l' hl' hp hne => ?_
  rw [mem_cons, not_or] at hp
  rcases getElem?_set_cases hl' with ⟨rfl, rfl⟩ | ⟨-, hl⟩
  · rw [hw.countWord_written h hx, if_neg hxm, hone, hline]
    exact ⟨rfl, by omega, hk⟩
  · exact absurd (hempty p l' hl hp.2 hp.1) hne

section

variable (h : Mergeable lines) (hk : Kept lines ls D) (hw : Writable lines ls D i j line other m)

include h hk hw

lemma countWord_free (hfree : m.cost.below 1) (hx : x ∈ lines) :
    countWord x.name other.expression = 0 := by
  have hm := mem_of_getElem? hw.origin
  obtain rfl := Option.mem_unique (hk.free j m hw.origin hfree) hw.source
  rw [h.occurs m hm x hx, h.free m hm hfree, count_nil]

lemma expandLines_set :
    expandLines (ls.set i (line.written m.name other taken cost)) = expandLines ls := by
  have horigin : ∀ (k : Nat) (l : Line), ls[k]? = some l → ∃ l₀, lines[k]? = some l₀ ∧
    l.name = l₀.name := by
    intro k l hl
    obtain ⟨l₀, hl₀, -⟩ := exists_of_map_frame hk.frames hl
    exact ⟨l₀, hl₀, hk.name_eq hl hl₀⟩
  have hname := hk.name_eq hw.source hw.origin
  -- the line names nothing from its own place on
  have hbehind : ∀ (k : Nat) (l : Line), j ≤ k → ls[k]? = some l →
      countWord l.name other.expression = 0 := by
    intro k l hjk hl
    obtain ⟨l₀, hl₀, heq⟩ := horigin k l hl
    by_contra hne
    exact Nat.not_lt.2 hjk (hk.earlier j k other l₀ hw.source hl₀ (heq ▸ hne))
  obtain ⟨before, between, after, hsplit, hlength, hbetween⟩ :=
    exists_split hw.lt hw.source hw.target
  have hset : ls.set i (line.written m.name other taken cost) =
      before ++ other :: between ++ line.written m.name other taken cost :: after := by
    rw [hsplit, set_append_right _ _ (Nat.le_of_eq hlength), hlength, Nat.sub_self, set_cons_zero]
  rw [hset, hsplit]
  refine expandLines_write (fun l hl => ?_) hw.plain (fun l hl => ?_) (fun l hl heq => ?_) rfl ?_
  · have hmem : l ∈ ls := hsplit ▸ mem_append_left _ hl
    obtain ⟨k, hk⟩ := mem_iff_getElem?.1 hmem
    obtain ⟨l₀, hl₀, heq⟩ := horigin k l hk
    rw [heq]
    exact h.isName l₀ (mem_of_getElem? hl₀)
  · rcases mem_cons.1 hl with rfl | hl
    · exact hbehind j l (Nat.le_refl j) hw.source
    · obtain ⟨k, hjk, hl⟩ := hbetween l hl
      exact hbehind k l (Nat.le_of_lt hjk) hl
  · obtain ⟨k, hjk, hl⟩ := hbetween l hl
    obtain ⟨l₀, hl₀, heq₀⟩ := horigin k l hl
    exact Nat.ne_of_gt hjk (h.place_eq hl₀ hw.origin (by rw [← heq₀, heq, hname]))
  · rw [hname]
    rfl

lemma once_written (honce : Once ls D j m.name) (hne : countWord m.name line.expression ≠ 0) :
    Once (ls.set i (line.written m.name other taken cost)) (j :: D) j m.name := by
  have hself : countWord m.name other.expression = 0 := by
    by_contra hself
    exact Nat.lt_irrefl j (hk.earlier j j other m hw.source hw.origin hself)
  refine Once.of_only (i := i) fun p l' hl' hp hne' => absurd ?_ hne'
  have hpD : p ∉ D := fun hmem => hp (mem_cons_of_mem _ hmem)
  rcases getElem?_set_cases hl' with ⟨rfl, rfl⟩ | ⟨hpi, hl⟩
  · rw [hw.countWord_written h (mem_of_getElem? hw.origin), if_pos rfl, hself, Nat.mul_zero]
  · by_contra hne'
    exact hpi (honce.unique p i l' line hl hw.target hpD hw.stays hne' hne)

/-- A dear line with one user still occurs once after a write. -/
lemma once_write (hx : lines[k]? = some x) (hdear : ¬ x.cost.below 1)
    (husers : (ofLines lines).users x.name = 1) :
    Once (ls.set i (line.written m.name other taken cost)) (j :: D) k x.name := by
  have honce := hk.once k x hx hdear husers
  have hmem := mem_of_getElem? hx
  have hcount := hw.countWord_written h hmem taken cost
  by_cases heq : x.name = m.name
  · obtain rfl := h.place_eq hx hw.origin heq
    obtain rfl := Option.mem_unique hx hw.origin
    by_cases hne : countWord x.name line.expression = 0
    · refine once_unchanged hw honce (fun _ => hw.named.resolve_right (not_not_intro hne)) ?_
      rw [hcount, if_pos rfl, hne, Nat.zero_mul]
    · exact once_written h hk hw honce hne
  · have hkj : k ≠ j := by
      rintro rfl
      exact heq (congrArg (·.name) (Option.mem_unique hx hw.origin))
    have hsame : countWord m.name line.expression * countWord x.name other.expression = 0 →
        Once (ls.set i (line.written m.name other taken cost)) (j :: D) k x.name := by
      intro hzero
      refine once_unchanged hw honce (fun hkj' => absurd hkj' hkj) ?_
      rw [hcount, if_neg heq, hzero, Nat.add_zero]
    rcases hw.cases with hfree | ⟨hfree, hm, hlt⟩
    · exact hsame (by rw [countWord_free h hk hw hfree hmem, Nat.mul_zero])
    · by_cases hmoves : countWord x.name other.expression = 0
      · exact hsame (by rw [hmoves, Nat.mul_zero])
      · by_cases hj : j ∈ D
        · -- the line has been written before, so that its name does not occur
          have hzero := (hk.once j m hw.origin hfree hm).gone hj i line hw.target hw.stays
          exact hsame (by rw [hzero, Nat.zero_mul])
        · have hne := hw.named.resolve_left hj
          exact once_moved h hw hj (by omega) hmem hkj heq honce hmoves

lemma write (hline : ∀ l₀, lines[i]? = some l₀ → ¬ l₀.cost.below 1)
    (hcost : .zero ≤ cost ∧ (cost.below 1 → line.cost.below 1)) :
    Kept lines (ls.set i (line.written m.name other taken cost)) (j :: D) := by
  refine ⟨?_, fun p q l x hl hx hne => ?_, fun p x hx hfree => ?_, fun p l x hl hx hbelow => ?_, ?_,
    fun p hp => ?_, fun k x hx hdear husers => once_write h hk hw hx hdear husers, fun l hl => ?_⟩
  · rw [map_frame_set hw.target (Line.frame_written ..), hk.frames]
  · rcases getElem?_set_cases hl with ⟨rfl, rfl⟩ | ⟨-, hl⟩
    · rw [hw.countWord_written h (mem_of_getElem? hx)] at hne
      by_cases hmoves : countWord x.name other.expression = 0
      · refine hk.earlier p q line x hw.target hx fun hzero => hne ?_
        rw [hmoves, Nat.mul_zero, hzero, ite_self]
      · exact Nat.lt_trans (hk.earlier j q other x hw.source hx hmoves) hw.lt
    · exact hk.earlier p q l x hl hx hne
  · have hpi : i ≠ p := fun heq => hline x (heq ▸ hx) hfree
    rw [getElem?_set_ne hpi]
    exact hk.free p x hx hfree
  · rcases getElem?_set_cases hl with ⟨rfl, rfl⟩ | ⟨-, hl⟩
    · exact hk.dear p line x hw.target hx (hcost.2 hbelow)
    · exact hk.dear p l x hl hx hbelow
  · rw [expandLines_set h hk hw, hk.expands]
  · rcases mem_cons.1 hp with rfl | hp
    · exact ⟨m, hw.origin, hw.cases.imp id fun hcase => hcase.2.1⟩
    · exact hk.reason p hp
  · rcases mem_or_eq_of_mem_set hl with hl | rfl
    · exact hk.plain l hl
    · have hline := hk.plain line (mem_of_getElem? hw.target)
      exact ⟨hcost.1, Line.dollar_not_mem_written hline.2 hw.plain⟩

end

lemma start (h : Mergeable lines) (hplain : ∀ l ∈ lines, l.Plain) : Kept lines lines [] := by
  have hcount : ∀ {k p : Nat} {x l : Line}, lines[k]? = some x → lines[p]? = some l →
      countWord x.name l.expression = l.arguments.count x.name := fun hx hl =>
    h.occurs _ (mem_of_getElem? hl) _ (mem_of_getElem? hx)
  refine ⟨rfl, fun p q l x hl hx hne => ?_, fun p x hx _ => hx, fun p l x hl hx hbelow => ?_, rfl,
    by simp, fun k x hx _ husers => ⟨fun p l hl _ => ?_,
      fun p q l m hl hm _ _ hpl hqm => ?_, by simp⟩, hplain⟩
  · rw [hcount hx hl, ← Nat.pos_iff_ne_zero, count_pos_iff] at hne
    obtain ⟨j, hj, m, hm, hname⟩ := h.earlier p l hl x.name hne
    rwa [h.place_eq hx hm hname.symm]
  · rwa [Option.mem_unique hx hl]
  · rw [hcount hx hl, ← husers]
    obtain ⟨before, after, hsplit⟩ := append_of_mem (mem_of_getElem? hl)
    show _ ≤ (lines.flatMap (·.arguments)).count x.name
    rw [hsplit, flatMap_append, flatMap_cons, count_append, count_append]
    omega
  · -- two lines would use the name twice
    rw [hcount hx hl] at hpl
    rw [hcount hx hm] at hqm
    have htwice : ∀ {p q : Nat} {l m : Line}, p < q → lines[p]? = some l → lines[q]? = some m →
        l.arguments.count x.name ≠ 0 → m.arguments.count x.name ≠ 0 → False := by
      intro p q l m hlt hl hm hpl hqm
      obtain ⟨before, between, after, hsplit, -, -⟩ := exists_split hlt hl hm
      have hsum : (lines.flatMap (·.arguments)).count x.name = 1 := husers
      rw [hsplit] at hsum
      simp only [flatMap_append, flatMap_cons, count_append] at hsum
      omega
    rcases Nat.lt_trichotomy p q with hlt | heq | hlt
    · exact (htwice hlt hl hm hpl hqm).elim
    · exact heq
    · exact (htwice hlt hm hl hqm hpl).elim

end Kept

end Merging

end KernelFusion
