/-
Costs are ordered.

Between two powers of two rounding goes to the multiples of one power, and it does not lead across
a power of two. So the addition of costs is monotone, and adding a cost that is not negative does
not make a single smaller.
-/
import KernelFusion.Number.Cost
import Mathlib.Algebra.GroupWithZero.Nat
import Mathlib.Data.Nat.Log

namespace KernelFusion

open Single

namespace Single

variable {m n k d e : Nat}

lemma div_le_roundHalfEven : n / d ≤ roundHalfEven n d := by
  unfold roundHalfEven
  dsimp only
  split_ifs <;> omega

lemma roundHalfEven_le : roundHalfEven n d ≤ n / d + 1 := by
  unfold roundHalfEven
  dsimp only
  split_ifs <;> omega

lemma roundHalfEven_mono (h : m ≤ n) : roundHalfEven m d ≤ roundHalfEven n d := by
  rcases Nat.lt_or_eq_of_le (Nat.div_le_div_right (c := d) h) with hlt | heq
  · exact (roundHalfEven_le.trans hlt).trans div_le_roundHalfEven
  · -- the remainders are in order
    have hm := Nat.div_add_mod m d
    have hn := Nat.div_add_mod n d
    rw [heq] at hm
    unfold roundHalfEven
    dsimp only
    rw [heq]
    split_ifs <;> omega

/-- The multiple of a power of two that is nearest to a number. -/
def roundTo (e n : Nat) : Nat := roundHalfEven n (2 ^ e) * 2 ^ e

lemma roundTo_mono (h : m ≤ n) : roundTo e m ≤ roundTo e n :=
    Nat.mul_le_mul_right _ (roundHalfEven_mono h)

lemma roundTo_of_dvd (h : 2 ^ e ∣ n) : roundTo e n = n := by
  obtain ⟨q, rfl⟩ := h
  rw [roundTo, Nat.mul_comm (2 ^ e) q, roundHalfEven_mul q (Nat.two_pow_pos e)]

lemma log2_lt (h : n < 2 ^ k) (hk : k ≠ 0) : n.log2 < k := by
  rw [Nat.log2_eq_log_two]
  exact Nat.log_lt_of_lt_pow' hk h

lemma round_eq (n : Nat) : round n = roundTo (n.log2 - 23) n := by
  rw [round]
  split
  · next hlt =>
    have hlog : n.log2 < 24 := log2_lt hlt (by decide)
    rw [Nat.sub_eq_zero_of_le (Nat.le_of_lt_succ hlog), roundTo_of_dvd (Nat.one_dvd n)]
  · rfl

lemma round_le_two_pow (n : Nat) : round n ≤ 2 ^ (n.log2 + 1) := by
  rw [round_eq, ← roundTo_of_dvd (e := n.log2 - 23) (Nat.pow_dvd_pow 2 (by omega : _ ≤ n.log2 + 1))]
  exact roundTo_mono Nat.lt_log2_self.le

lemma two_pow_le_round (h : n ≠ 0) : 2 ^ n.log2 ≤ round n := by
  rw [round_eq, ← roundTo_of_dvd (e := n.log2 - 23) (Nat.pow_dvd_pow 2 (Nat.sub_le n.log2 23))]
  exact roundTo_mono (Nat.log2_self_le h)

lemma round_mono (h : m ≤ n) : round m ≤ round n := by
  have hlog : m.log2 ≤ n.log2 := by
    rw [Nat.log2_eq_log_two, Nat.log2_eq_log_two]
    exact Nat.log_mono_right h
  rcases Nat.lt_or_eq_of_le hlog with hlt | heq
  · -- a power of two lies between the numbers
    have hn : n ≠ 0 := by
      rintro rfl
      exact Nat.not_lt_zero _ hlt
    calc round m ≤ 2 ^ (m.log2 + 1) := round_le_two_pow m
      _ ≤ 2 ^ n.log2 := Nat.pow_le_pow_right Nat.two_pos hlt
      _ ≤ round n := two_pow_le_round hn
  · rw [round_eq, round_eq, heq]
    exact roundTo_mono h

lemma round_of_dvd (hdvd : 2 ^ e ∣ n) (hlt : n < 2 ^ (e + 24)) : round n = n := by
  have hlog := log2_lt hlt (by omega)
  rw [round_eq]
  exact roundTo_of_dvd (Nat.dvd_trans (Nat.pow_dvd_pow 2 (by omega)) hdvd)

lemma round_round (n : Nat) : round (round n) = round n := by
  rcases Nat.lt_or_eq_of_le (round_le_two_pow n) with hlt | heq
  · refine round_of_dvd (e := n.log2 - 23) ?_ (hlt.trans_le
      (Nat.pow_le_pow_right Nat.two_pos (by omega)))
    rw [round_eq]
    exact Nat.dvd_mul_left _ _
  · rw [heq]
    exact round_of_dvd (Nat.dvd_refl _) (Nat.pow_lt_pow_right (by decide) (by omega))

/-! ### Signs -/

lemma natAbs_roundSigned (i : ℤ) : (roundSigned i).natAbs = round i.natAbs := by
  cases i with
  | ofNat n => exact Int.natAbs_natCast _
  | negSucc n => exact (Int.natAbs_neg _).trans (Int.natAbs_natCast _)

lemma roundSigned_neg (i : ℤ) : roundSigned (-i) = -roundSigned i := by
  cases i with
  | ofNat n =>
    cases n with
    | zero => rfl
    | succ n => rfl
  | negSucc n => exact (Int.neg_neg _).symm

/-- Below zero, rounding is the mirror image of rounding above. -/
lemma roundSigned_mono {i j : ℤ} (h : i ≤ j) : roundSigned i ≤ roundSigned j := by
  cases j with
  | ofNat n =>
    cases i with
    | ofNat m => exact Int.ofNat_le.2 (round_mono (Int.ofNat_le.1 h))
    | negSucc m =>
      exact (Int.neg_nonpos_of_nonneg (Int.natCast_nonneg _)).trans (Int.natCast_nonneg _)
  | negSucc n =>
    cases i with
    | ofNat m =>
        exact absurd ((Int.natCast_nonneg m).trans h) (Int.not_le.2 (Int.negSucc_lt_zero n))
    | negSucc m => exact Int.neg_le_neg (Int.ofNat_le.2 (round_mono (by omega)))

lemma roundSigned_roundSigned (i : ℤ) : roundSigned (roundSigned i) = roundSigned i := by
  cases i with
  | ofNat n => exact congrArg Int.ofNat (round_round n)
  | negSucc n => exact (roundSigned_neg _).trans (congrArg (fun k : ℕ => -(k : ℤ)) (round_round _))

end Single

namespace Cost

variable {a b c d : Cost} {i j : ℤ} {n : Nat}

/-- The order of costs. What is undefined is below no number and counts as more than all of them. -/
def le : Cost → Cost → Prop
  | infinite true, _ => True
  | _, infinite false => True
  | _, undefined => True
  | units i, units j => i ≤ j
  | _, _ => False

lemma le_refl (a : Cost) : le a a := by
  rcases a with i | (_ | _) | _
  · exact Int.le_refl i
  all_goals trivial

lemma le_trans (h : le a b) (h' : le b c) : le a c := by
  rcases a with i | (_ | _) | _ <;> rcases b with j | (_ | _) | _ <;> rcases c with k | (_ | _) | _
  case units.units.units => exact Int.le_trans h h'
  all_goals trivial

instance : Preorder Cost where
  le := le
  le_refl := le_refl
  le_trans _ _ _ := le_trans

instance : DecidableLE Cost
  | units i, units j => Int.decLe i j
  | units _, infinite true | infinite false, units _ | infinite false, infinite true
  | undefined, units _ | undefined, infinite true => isFalse id
  | infinite true, _ | units _, infinite false | units _, undefined | infinite false, infinite false
  | infinite false, undefined | undefined, infinite false | undefined, undefined => isTrue trivial

lemma units_add_units (i j : ℤ) : units i + units j = ofUnits (i + j) := by
  show add (units i) (units j) = ofUnits (i + j)
  rw [add]

lemma units_le_units : units i ≤ units j ↔ i ≤ j := .rfl

lemma le_infinite (a : Cost) : a ≤ infinite false := by rcases a with i | (_ | _) | _ <;> trivial

lemma le_undefined (a : Cost) : a ≤ undefined := by rcases a with i | (_ | _) | _ <;> trivial

lemma ofUnits_mono (h : i ≤ j) : ofUnits i ≤ ofUnits j := by
  unfold ofUnits
  split
  · next hi =>
    split
    · exact units_le_units.2 (roundSigned_mono h)
    · next hj =>
      -- a number that is not below a finite one overflows upward
      have hpos : ¬ j < 0 := fun hneg =>
        hj ((round_mono (by omega : j.natAbs ≤ i.natAbs)).trans_lt hi)
      rw [decide_eq_false hpos]
      trivial
  · next hi =>
    by_cases hneg : i < 0
    · rw [decide_eq_true hneg]
      trivial
    · have hj : ¬ round j.natAbs < limit := fun hj =>
        hi ((round_mono (by omega : i.natAbs ≤ j.natAbs)).trans_lt hj)
      rw [if_neg hj, decide_eq_false hneg, decide_eq_false (by omega)]

lemma add_comm (a b : Cost) : a + b = b + a := by
  rcases a with i | (_ | _) | _ <;> rcases b with j | (_ | _) | _
  case units.units => exact congrArg ofUnits (Int.add_comm i j)
  all_goals rfl

lemma add_le_add_right (h : a ≤ b) (c : Cost) : a + c ≤ b + c := by
  rcases c with k | (_ | _) | _
  · rcases a with i | (_ | _) | _ <;> rcases b with j | (_ | _) | _
    case units.units => exact ofUnits_mono (Int.add_le_add_right h k)
    all_goals first | exact le_infinite _ | exact le_undefined _ | trivial
  all_goals rcases a with i | (_ | _) | _ <;> rcases b with j | (_ | _) | _ <;> trivial

lemma add_le_add (h : a ≤ b) (h' : c ≤ d) : a + c ≤ b + d :=
  calc a + c ≤ b + c := add_le_add_right h c
    _ = c + b := add_comm b c
    _ ≤ d + b := add_le_add_right h' b
    _ = b + d := add_comm d b

lemma add_nonneg (ha : zero ≤ a) (hb : zero ≤ b) : zero ≤ a + b :=
  (le_of_eq (by decide +kernel : zero = zero + zero)).trans (add_le_add ha hb)

/-- A sum is a single, and stays as it is when nothing is added. -/
lemma add_add_zero (a b : Cost) : a + b + zero = a + b := by
  rcases a with i | (_ | _) | _ <;> rcases b with j | (_ | _) | _
  case units.units =>
    rw [units_add_units]
    unfold ofUnits
    split
    · next hlt =>
      rw [zero, units_add_units, Int.add_zero, ofUnits, natAbs_roundSigned, round_round, if_pos hlt,
        roundSigned_roundSigned]
    · rfl
  all_goals rfl

/-- The digits of a single and the zeros behind them. -/
lemma exists_digits (bits : UInt32) (h : exponent bits ≠ 255) : ∃ e ≤ 253,
    2 ^ e ∣ Single.units (exponent bits) (fraction bits) ∧
      Single.units (exponent bits) (fraction bits) < 2 ^ (e + 24) := by
  have hfraction : fraction bits < 2 ^ 23 := Nat.mod_lt _ (by decide)
  have hexponent : exponent bits < 256 := Nat.mod_lt _ (by decide)
  rw [Single.units]
  split
  · exact ⟨0, by decide, Nat.one_dvd _, by omega⟩
  · refine ⟨exponent bits - 1, by omega, Nat.dvd_mul_left _ _, ?_⟩
    rw [Nat.pow_add, Nat.mul_comm]
    exact Nat.mul_lt_mul_of_pos_left (by show _ + 2 ^ 23 < 2 ^ 24; omega) (Nat.two_pow_pos _)

lemma ofSingle_add_zero (bits : UInt32) : ofSingle bits + zero = ofSingle bits := by
  rw [ofSingle]
  split
  · split <;> rfl
  · next hfinite =>
    obtain ⟨e, he, hdvd, hlt⟩ := exists_digits bits hfinite
    generalize Single.units (exponent bits) (fraction bits) = n at hdvd hlt
    have hround := round_of_dvd hdvd hlt
    have hlimit : n < limit := hlt.trans_le <| by
      have hsum : e + 24 = min (e + 24) 128 + (e + 24 - 128) := by omega
      rw [hsum, Nat.pow_add]
      exact Nat.mul_le_mul (Nat.pow_le_pow_right Nat.two_pos (by omega))
        (Nat.pow_le_pow_right Nat.two_pos (by omega))
    have hsigned : roundSigned n = n := congrArg Int.ofNat hround
    dsimp only
    rw [zero, units_add_units, Int.add_zero, ofUnits]
    split
    · rw [Int.natAbs_neg, Int.natAbs_natCast, hround, if_pos hlimit, roundSigned_neg, hsigned]
    · rw [Int.natAbs_natCast, hround, if_pos hlimit, hsigned]

lemma le_add (h : a + zero = a) (hb : zero ≤ b) : a ≤ a + b :=
  calc a = a + zero := h.symm
    _ ≤ a + b := add_le_add le_rfl hb

lemma not_below_iff : a.below n = false ↔ units (n * one) ≤ a := by
  cases a with
  | units i =>
    rw [below, decide_eq_false_iff_not, Int.not_lt]
    exact units_le_units.symm
  | undefined => exact ⟨fun _ => trivial, fun _ => rfl⟩
  | infinite s =>
    cases s with
    | false => exact ⟨fun _ => trivial, fun _ => rfl⟩
    | true => exact ⟨fun h => absurd h.symm Bool.false_ne_true, False.elim⟩

lemma below_of_le (h : a ≤ b) (hb : b.below n) : a.below n := by
  by_contra ha
  rw [Bool.not_eq_true, not_below_iff] at ha
  rw [not_below_iff.2 (ha.trans h)] at hb
  cases hb

/-- A cost that is not negative does not bring another one below one. -/
lemma below_of_add (hb : zero ≤ b) (h : (a + b).below 1) : a.below 1 := by
  by_contra ha
  rw [Bool.not_eq_true, not_below_iff] at ha
  have hone : units ((1 : ℕ) * one) + zero = units ((1 : ℕ) * one) := by decide +kernel
  have hsum := add_le_add ha hb
  rw [hone, ← not_below_iff, h] at hsum
  cases hsum

end Cost

end KernelFusion
