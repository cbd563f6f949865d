/-
What the text of a constant tells.

An integer is written with all its digits. A single is written with six decimal places, which tell
its sign and the nearest number of millionths; from sixteen on neighbouring singles differ by more
than that.
-/
import KernelFusion.Proofs.Emit.Names
import KernelFusion.Proofs.Number.Cost
import KernelFusion.Proofs.Recording.Scripts

namespace KernelFusion

lemma minus_append_ne {s t : String} (h : '-' ∉ t.toList) : "-" ++ s ≠ t :=
    fun heq => h (heq ▸ by simp)

lemma eq_of_toString_int {i j : Int} (h : toString i = toString j) : i = j := by
  have hminus : ∀ (s : String) (n : Nat), "-" ++ s ≠ toString n := fun _ _ =>
    minus_append_ne (not_mem_toString (by decide))
  cases i with
  | ofNat m =>
    cases j with
    | ofNat n => exact congrArg Int.ofNat (eq_of_toList_toString (congrArg String.toList h))
    | negSucc n => exact absurd h.symm (hminus _ m)
  | negSucc m =>
    cases j with
    | ofNat n => exact absurd h (hminus _ n)
    | negSucc n =>
      have hdigits : toString (m + 1) = toString (n + 1) := (String.append_right_inj "-").1 h
      have hsucc := eq_of_toList_toString (congrArg String.toList hdigits)
      exact congrArg Int.negSucc (Nat.succ.inj hsucc)

namespace Single

variable {w w' : UInt32} {m n d e e' f f' : Nat}

/-! ### Decimal places -/

lemma sixDigits_inj (h : sixDigits m = sixDigits n) : m = n := by
  have hread := congrArg (fun s => Nat.ofDigitChars 10 s.toList 0) h
  simpa [sixDigits, Nat.ofDigitChars_append] using hread

/-- The text of a number of millionths. -/
def millionthsText (n : Nat) : String := toString (n / 1000000) ++ "." ++ sixDigits (n % 1000000)

lemma toList_millionthsText (n : Nat) :
    (millionthsText n).toList = (toString (n / 1000000)).toList ++ '.' ::
    (sixDigits (n % 1000000)).toList := by
  simp [millionthsText]

lemma millionthsText_inj : millionthsText m = millionthsText n ↔ m = n := by
  refine ⟨fun h => ?_, congrArg millionthsText⟩
  have hplace : '.' ∉ (sixDigits (m % 1000000)).toList := fun hmem => by
    cases isDigit_of_mem_sixDigits hmem
  have hlist := congrArg String.toList h
  rw [toList_millionthsText, toList_millionthsText] at hlist
  obtain ⟨hwhole, -, hplaces⟩ :=
    (List.append_cons_inj_of_notMem (not_mem_toString (by decide)) hplace).1 hlist
  have hdiv := eq_of_toList_toString hwhole
  have hmod := sixDigits_inj (String.toList_inj.1 hplaces)
  omega

lemma minus_not_mem_millionthsText (n : Nat) : '-' ∉ (millionthsText n).toList := by
  intro hmem
  rw [toList_millionthsText, List.mem_append, List.mem_cons] at hmem
  rcases hmem with hmem | hmem | hmem
  · exact not_mem_toString (by decide) hmem
  · cases hmem
  · cases isDigit_of_mem_sixDigits hmem

/-- The magnitude of a finite single, in units. -/
def magnitude (w : UInt32) : Nat := units (exponent w) (fraction w)

/-- The number of millionths that is nearest to the magnitude of a finite single. -/
def millionths (w : UInt32) : Nat := roundHalfEven (magnitude w * 1000000) one

lemma magnitudeText_eq (hw : exponent w ≠ 255) : magnitudeText w = millionthsText (millionths w) :=
    if_neg hw

lemma sixPlaces_eq_iff (hw : exponent w ≠ 255) (hw' : exponent w' ≠ 255) :
    sixPlaces w = sixPlaces w' ↔ isNegative w = isNegative w' ∧ millionths w = millionths w' := by
  rw [sixPlaces, sixPlaces, magnitudeText_eq hw, magnitudeText_eq hw', ← millionthsText_inj]
  cases isNegative w <;> cases isNegative w'
  · simp
  · simpa using (minus_append_ne (minus_not_mem_millionthsText _)).symm
  · simpa using minus_append_ne (minus_not_mem_millionthsText _)
  · simp

/-! ### Neighbouring singles -/

lemma fraction_lt (w : UInt32) : fraction w < 2 ^ 23 := Nat.mod_lt _ (by decide)

lemma units_lt_units (he : e < e') (hf : f < 2 ^ 23) : units e f < units e' f' := by
  have hlarge : 2 ^ 23 * 2 ^ (e' - 1) ≤ units e' f' := by
    rw [units, if_neg (Nat.ne_of_gt (Nat.zero_lt_of_lt he))]
    exact Nat.mul_le_mul_right _ (Nat.le_add_left _ _)
  refine Nat.lt_of_lt_of_le ?_ hlarge
  rw [units]
  split
  · exact hf.trans_le (Nat.le_mul_of_pos_right _ (Nat.two_pow_pos _))
  · calc (f + 2 ^ 23) * 2 ^ (e - 1) < 2 ^ 24 * 2 ^ (e - 1) :=
          Nat.mul_lt_mul_of_pos_right (by omega) (Nat.two_pow_pos _)
      _ = 2 ^ 23 * 2 ^ e := by rw [← Nat.pow_add, ← Nat.pow_add]; congr 1; omega
      _ ≤ 2 ^ 23 * 2 ^ (e' - 1) :=
      Nat.mul_le_mul_left _ (Nat.pow_le_pow_right Nat.two_pos (by omega))

lemma units_inj (hf : f < 2 ^ 23) (hf' : f' < 2 ^ 23) (h : units e f = units e' f') :
    e = e' ∧ f = f' := by
  obtain rfl : e = e' := by
    rcases Nat.lt_trichotomy e e' with hlt | heq | hgt
    · exact absurd h (units_lt_units hlt hf).ne
    · exact heq
    · exact absurd h (units_lt_units hgt hf').ne'
  refine ⟨rfl, ?_⟩
  unfold units at h
  split at h
  · exact h
  · exact Nat.add_right_cancel (Nat.eq_of_mul_eq_mul_right (Nat.two_pow_pos _) h)

lemma eq_of_magnitude_eq (hsign : isNegative w = isNegative w')
    (h : magnitude w = magnitude w') : w = w' := by
  obtain ⟨hexponent, hfraction⟩ := units_inj (fraction_lt w) (fraction_lt w') h
  have hlt := w.toNat_lt
  have hlt' := w'.toNat_lt
  simp only [isNegative, exponent, fraction, decide_eq_decide, Nat.pow_eq]
    at hsign hexponent hfraction
  refine UInt32.toNat_inj.1 ?_
  omega

lemma two_mul_roundHalfEven_le : 2 * (roundHalfEven n d * d) ≤ 2 * n + d := by
  have hn := Nat.div_add_mod' n d
  have hnext : (n / d + 1) * d = n / d * d + d := Nat.succ_mul _ _
  unfold roundHalfEven
  dsimp only
  split_ifs <;> omega

lemma le_two_mul_roundHalfEven (hd : 0 < d) : 2 * n ≤ 2 * (roundHalfEven n d * d) + d := by
  have hn := Nat.div_add_mod' n d
  have hmod := Nat.mod_lt n hd
  have hnext : (n / d + 1) * d = n / d * d + d := Nat.succ_mul _ _
  unfold roundHalfEven
  dsimp only
  split_ifs <;> omega

lemma roundHalfEven_lt (hd : 0 < d) (h : m + d < n) : roundHalfEven m d < roundHalfEven n d := by
  have hm := two_mul_roundHalfEven_le (n := m) (d := d)
  have hn := le_two_mul_roundHalfEven (n := n) hd
  by_contra hle
  have := Nat.mul_le_mul_right d (Nat.not_lt.1 hle)
  omega

lemma dvd_units (hf : f < 2 ^ 23) (h : 2 ^ 153 ≤ units e f) : 2 ^ 130 ∣ units e f := by
  have he : 131 ≤ e := by
    by_contra hlt
    have hsmall : units e f < units 131 0 := units_lt_units (Nat.not_le.1 hlt) hf
    exact Nat.not_le.2 hsmall h
  rw [units, if_neg (by omega)]
  exact Nat.dvd_mul_left_of_dvd (Nat.pow_dvd_pow 2 (by omega)) _

lemma units_le_of_lt (hf : f < 2 ^ 23) (h : units e f < 2 ^ 153) :
    units e f ≤ (2 ^ 24 - 1) * 2 ^ 129 := by
  rcases Nat.lt_trichotomy e 130 with hlt | rfl | hgt
  · have hlast : units 130 (2 ^ 23 - 1) = (2 ^ 24 - 1) * 2 ^ 129 := by decide +kernel
    rw [← hlast]
    exact (units_lt_units hlt hf).le
  · exact Nat.mul_le_mul_right _ (by show f + 2 ^ 23 ≤ _; omega)
  · have hle : units 131 0 ≤ units e f := by
      rcases Nat.lt_or_eq_of_le hgt with hgt | rfl
      · exact (units_lt_units hgt (by decide)).le
      · exact Nat.mul_le_mul_right _ (Nat.add_le_add_right (Nat.zero_le f) _)
    exact absurd hle (Nat.not_le.2 h)

lemma millionths_lt (h : magnitude w < magnitude w') (hw' : 16 * one ≤ magnitude w') :
    millionths w < millionths w' := by
  have hlarge : 2 ^ 153 ≤ magnitude w' := hw'
  by_cases hw : 2 ^ 153 ≤ magnitude w
  · obtain ⟨q, hq⟩ := dvd_units (fraction_lt w) hw
    obtain ⟨q', hq'⟩ := dvd_units (fraction_lt w') hlarge
    rw [magnitude, magnitude, hq, hq'] at h
    refine roundHalfEven_lt (Nat.two_pow_pos 149) ?_
    rw [magnitude, magnitude, hq, hq']
    show _ + 2 ^ 149 < _
    omega
  · calc millionths w ≤ roundHalfEven ((2 ^ 24 - 1) * 2 ^ 129 * 1000000) one :=
          roundHalfEven_mono (Nat.mul_le_mul_right _
            (units_le_of_lt (fraction_lt w) (Nat.not_le.1 hw)))
      _ < roundHalfEven (2 ^ 153 * 1000000) one := by decide +kernel
      _ ≤ millionths w' := roundHalfEven_mono (Nat.mul_le_mul_right _ hlarge)

/-- Two finite singles that six decimal places do not tell apart. -/
structure Indistinct (w w' : UInt32) : Prop where
  sign : isNegative w = isNegative w'
  left_lt : magnitude w < 16 * one
  right_lt : magnitude w' < 16 * one
  millionths : millionths w = millionths w'

lemma eq_or_indistinct (hsign : isNegative w = isNegative w') (h : millionths w = millionths w') :
    w = w' ∨ Indistinct w w' := by
  rcases Nat.lt_trichotomy (magnitude w) (magnitude w') with hlt | heq | hgt
  · have hw' : magnitude w' < 16 * one := Nat.not_le.1 fun hle => (millionths_lt hlt hle).ne h
    exact .inr ⟨hsign, hlt.trans hw', hw', h⟩
  · exact .inl (eq_of_magnitude_eq hsign heq)
  · have hw : magnitude w < 16 * one := Nat.not_le.1 fun hle => (millionths_lt hgt hle).ne' h
    exact .inr ⟨hsign, hw, hgt.trans hw, h⟩

end Single

namespace Node

variable {e e' : Node}

/-- Constants of one type, integers or finite singles, have the same text only if they have the same
word, or if they are singles below sixteen that have the same sign and are nearest to the same
number of millionths. -/
theorem constantText_eq_iff (he : e.isConst = true) (he' : e'.isConst = true)
    (htype : e'.type = e.type) (hnumber : e.type = .float ∨ e.type = .int ∨ e.type = .uint)
    (hfinite : e.type = .float → Single.exponent e.word ≠ 255 ∧ Single.exponent e'.word ≠ 255) :
    e.constantText = e'.constantText ↔
      e.word = e'.word ∨ e.type = .float ∧ Single.Indistinct e.word e'.word := by
  simp only [constantText, he, he', htype, Bool.true_or, if_true]
  rcases hnumber with hfloat | hint | huint
  · obtain ⟨hw, hw'⟩ := hfinite hfloat
    simp only [hfloat, true_and]
    rw [String.append_left_inj, Single.sixPlaces_eq_iff hw hw']
    refine ⟨fun h => Single.eq_or_indistinct h.1 h.2, fun h => ?_⟩
    rcases h with heq | h
    · rw [heq]
      exact ⟨rfl, rfl⟩
    · exact ⟨h.sign, h.millionths⟩
  · simp only [hint, reduceCtorEq, false_and, or_false]
    refine ⟨fun h => ?_, fun h => by rw [h]⟩
    rw [← word_signed e.word, eq_of_toString_int h, word_signed]
  · simp only [huint, reduceCtorEq, false_and, or_false]
    rw [String.append_left_inj]
    refine ⟨fun h => ?_, fun h => by rw [h]⟩
    exact UInt32.toNat_inj.1 (eq_of_toList_toString (congrArg String.toList h))

end Node

/-- The singles nearest to `1e-7`, to `2e-7`, to sixteen and the one below sixteen. -/
def closeConstants : Graph :=
  (Script.scene ([0x33d6bf95, 0x3456bf95, 0x41800000, 0x417fffff].map fun w =>
    .act (.constant .float w (.sizes [])) none)).graph

theorem constantText_eq_iff_sixteen :
    (closeConstants.node 2).isConst = true ∧ (closeConstants.node 3).isConst = true ∧
      ((closeConstants.node 2).constantText = (closeConstants.node 3).constantText ↔
        (closeConstants.node 2).word = (closeConstants.node 3).word ∨
        (closeConstants.node 2).type = .float ∧
          Single.Indistinct (closeConstants.node 2).word (closeConstants.node 3).word) := by
  have hconst : (closeConstants.node 2).isConst = true ∧ (closeConstants.node 3).isConst = true :=
    by decide +kernel
  exact ⟨hconst.1, hconst.2, Node.constantText_eq_iff hconst.1 hconst.2 (by decide +kernel)
    (.inl (by decide +kernel)) fun _ => by decide +kernel⟩

/-- It is not true that different constants of one type always have different texts: all singles
near to zero are written alike. -/
theorem not_forall_constantText_ne :
    ¬ ∀ e e' : Node, e.isConst = true → e'.isConst = true → e'.type = e.type →
      (e.type = .float ∨ e.type = .int ∨ e.type = .uint) →
      (e.type = .float → Single.exponent e.word ≠ 255 ∧ Single.exponent e'.word ≠ 255) →
      e.word ≠ e'.word → e.constantText ≠ e'.constantText := by
  intro h
  exact h (closeConstants.node 0) (closeConstants.node 1) (by decide +kernel) (by decide +kernel)
    (by decide +kernel) (.inl (by decide +kernel)) (fun _ => by decide +kernel) (by decide +kernel)
    (by decide +kernel)

end KernelFusion
