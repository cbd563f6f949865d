/-
Integers as single precision numbers.

Rounding keeps the exponent or makes it one greater. So no integer but zero becomes zero, and none
but one becomes one.
-/
import KernelFusion.Tensor.Arithmetic
import KernelFusion.Proofs.Number.Word
import Mathlib.Tactic.Ring

namespace KernelFusion

open Float.Model (Format UnpackedFloat)
open Float.Model.UnpackedFloat

namespace Single

variable {m b n : Nat} {e low high i : Int} {f : UnpackedFloat} {s : Sign}

/-! ### Rounding -/

lemma mantissa_shiftRight (n : Nat) (m : ExtendedMantissa) :
    (m >>> n).mantissa = m.mantissa / 2 ^ n := by
  show (n.repeat ExtendedMantissa.shiftRightOne m).mantissa = _
  induction n with
  | zero => simp [Nat.repeat]
  | succ n ih =>
    show (n.repeat ExtendedMantissa.shiftRightOne m).mantissa / 2 = _
    rw [ih, Nat.div_div_eq_div_mul, Nat.pow_succ]

lemma roundedMantissa_bounds (m : ExtendedMantissa) :
    m.mantissa ≤ m.roundedMantissa ∧ m.roundedMantissa ≤ m.mantissa + 1 := by
  obtain ⟨n, r, t⟩ := m
  cases r <;> cases t <;>
    simp [ExtendedMantissa.roundedMantissa, ExtendedMantissa.accuracy, Accuracy.roundToNearestEven]
  omega

lemma shiftToTargetExponent_eq (hb : m.log2 = 23 + b) (he : -149 ≤ b + e) :
    (shiftToTargetExponent Format.binary32 m e .exact).1.mantissa = m / 2 ^ b ∧
      (shiftToTargetExponent Format.binary32 m e .exact).2 = e + b := by
  have htarget : Format.binary32.targetExponent (Float.Model.totalExponent m e) = b + e := by
    show max ((m.log2 : Int) + 1 + e - 24) (-149) = _
    rw [hb]
    omega
  have hshift : (((b : Int) + e) - e).toNat = b := by omega
  rw [shiftToTargetExponent, htarget, shiftToExponent, hshift]
  exact ⟨mantissa_shiftRight b _, rfl⟩

lemma log2_div (hm : m ≠ 0) (hb : m.log2 = 23 + b) :
    2 ^ 23 ≤ m / 2 ^ b ∧ m / 2 ^ b < 2 ^ 24 := by
  have hlow := Nat.log2_self_le hm
  have hhigh := Nat.lt_log2_self (n := m)
  rw [hb] at hlow hhigh
  refine ⟨(Nat.le_div_iff_mul_le (Nat.two_pow_pos b)).2 ?_, Nat.div_lt_of_lt_mul ?_⟩
  · rwa [← Nat.pow_add]
  · have hpow : 2 ^ (23 + b + 1) = 2 ^ b * 2 ^ 24 := by ring
    rwa [hpow] at hhigh

/-- A number with all bits of its mantissa, whose exponent lies between two bounds. -/
def Normal (f : UnpackedFloat) (low high : Int) : Prop :=
  ∃ s m e h, f = UnpackedFloat.finite s m e h ∧ 2 ^ 23 ≤ m ∧ m < 2 ^ 24 ∧ low ≤ e ∧ e ≤ high

lemma normal_roundWithAccuracy (s : Sign) (hm : m ≠ 0) (hb : m.log2 = 23 + b) (he : -149 ≤ b + e) :
    Normal (roundWithAccuracy Format.binary32 s m e .exact) (b + e) (b + e + 1) := by
  obtain ⟨hfirst, hexp⟩ := shiftToTargetExponent_eq hb he
  obtain ⟨hlow, hhigh⟩ := log2_div hm hb
  obtain ⟨hle, hge⟩ :=
    roundedMantissa_bounds (shiftToTargetExponent Format.binary32 m e .exact).1
  rw [hfirst] at hle hge
  unfold roundWithAccuracy
  dsimp only
  rw [hexp]
  generalize (shiftToTargetExponent Format.binary32 m e .exact).1.roundedMantissa = r at hle hge
  -- the rounded mantissa has twenty-four bits, or it is the least one with twenty-five
  obtain ⟨more, hmore, hr⟩ : ∃ more : Nat, (more = 0 ∨ more = 1) ∧ r.log2 = 23 + more := by
    by_cases hover : r = 2 ^ 24
    · exact ⟨1, .inr rfl, by rw [hover, Nat.log2_two_pow]⟩
    · exact ⟨0, .inl rfl, (Nat.log2_eq_iff (by omega)).2 ⟨by omega, by omega⟩⟩
  obtain ⟨hsecond, hexp'⟩ := shiftToTargetExponent_eq (e := e + b) hr (by omega)
  obtain ⟨hlow', hhigh'⟩ := log2_div (m := r) (by omega) hr
  rw [hsecond, hexp', dif_neg (by omega)]
  exact ⟨s, _, _, _, rfl, hlow', hhigh', by omega, by omega⟩

lemma log2_mul_two_pow (hn : n ≠ 0) (i : Nat) : (n * 2 ^ i).log2 = n.log2 + i := by
  have hpos := Nat.two_pow_pos i
  refine (Nat.log2_eq_iff (Nat.mul_ne_zero hn hpos.ne')).2 ⟨?_, ?_⟩
  · rw [Nat.pow_add]
    exact Nat.mul_le_mul_right _ (Nat.log2_self_le hn)
  · rw [Nat.add_right_comm, Nat.pow_add]
    exact Nat.mul_lt_mul_of_pos_right Nat.lt_log2_self hpos

lemma normal_ofInt (hn : n ≠ 0) (hlt : n < 2 ^ 23) :
    Normal (UnpackedFloat.ofInt Format.binary32 n) (n.log2 - 23) (n.log2 - 22) := by
  have hlog : n.log2 < 23 := (Nat.log2_lt hn).2 hlt
  obtain ⟨i, hi⟩ : ∃ i : Nat, 23 = n.log2 + i := ⟨23 - n.log2, by omega⟩
  have hcmp : compare (n : Int) 0 = .gt := Int.compare_eq_gt.2 (by omega)
  have htarget : Format.binary32.targetExponent (Float.Model.totalExponent n 0) = -i := by
    show max ((n.log2 : Int) + 1 + 0 - 24) (-149) = _
    omega
  have hround := normal_roundWithAccuracy .positive (b := 0) (e := -i)
    (Nat.mul_ne_zero hn (Nat.two_pow_pos i).ne') (by rw [log2_mul_two_pow hn]; omega) (by omega)
  have hshift : (0 - -(i : Int)).toNat = i := by omega
  rw [UnpackedFloat.ofInt, UnpackedFloat.normalize, hcmp]
  dsimp only
  rw [UnpackedFloat.round, Int.toNat_natCast, htarget, decreaseExponent, hshift]
  dsimp only
  have hlow : ((0 : Nat) : Int) + -i = n.log2 - 23 := by omega
  have hhigh : ((0 : Nat) : Int) + -i + 1 = n.log2 - 22 := by omega
  rw [Nat.shiftLeft_eq, Int.zero_sub]
  rwa [hhigh, hlow] at hround

lemma normal_ofScientific (hn : n ≠ 0) :
    Normal (UnpackedFloat.ofScientific Format.binary32 n 0) (n.log2 - 23) (n.log2 - 22) := by
  have hshift : (n <<< Format.binary32.mantissaBits) * 10 ^ (0 : Int).toNat = n * 2 ^ 24 := by
    show (n <<< 24) * 1 = _
    rw [Nat.mul_one, Nat.shiftLeft_eq]
  have hround := normal_roundWithAccuracy (.positive * .positive) (b := n.log2 + 1) (e := -24 + 0)
    (Nat.mul_ne_zero hn (Nat.two_pow_pos 24).ne') (by rw [log2_mul_two_pow hn]; omega) (by omega)
  have hlow : ((n.log2 + 1 : Nat) : Int) + (-24 + 0) = n.log2 - 23 := by omega
  have hhigh : ((n.log2 + 1 : Nat) : Int) + (-24 + 0) + 1 = n.log2 - 22 := by omega
  rw [hhigh, hlow, ← hshift] at hround
  rw [UnpackedFloat.ofScientific, dif_neg hn, if_neg (by decide), if_neg (by simp),
    if_pos (by decide)]
  exact hround

lemma Normal.mul_one (hf : Normal f low high) (hlow : -149 ≤ low) {h : 0 < 2 ^ 23} :
    Normal (UnpackedFloat.mul Format.binary32 f (.finite s (2 ^ 23) (-23) h)) low (high + 1) := by
  obtain ⟨s', m, e, h', rfl, hm, hm', he, he'⟩ := hf
  have hlog : m.log2 = 23 := (Nat.log2_eq_iff (by omega)).2 ⟨hm, hm'⟩
  obtain ⟨s'', m', e', h'', heq, hle, hlt, hlow', hhigh'⟩ :=
    normal_roundWithAccuracy (s' * s) (m := m * 2 ^ 23) (b := 23) (e := e + -23)
      (Nat.mul_ne_zero (by omega) (Nat.two_pow_pos 23).ne')
      (by rw [log2_mul_two_pow (by omega), hlog])
      (by omega)
  exact ⟨s'', m', e', h'', heq, hle, hlt, by omega, by omega⟩

/-! ### Packing -/

lemma unpack_eq_finite {spec : Format} {x : BitVec spec.numBits} (hall : unpackExponent x ≠ -1#_)
    (hzero : unpackExponent x ≠ 0#_) : ∃ s h, UnpackedFloat.unpack spec x =
      .finite s (1#1 ++ unpackMantissa x).toNat
        ((unpackExponent x).toNat - (spec.exponentBias + spec.mantissaBitsWithoutImplicit)) h := by
  have hpos : 0 < (1#1 ++ unpackMantissa x).toNat := by
    rw [BitVec.toNat_append, BitVec.toNat_ofNat, Nat.shiftLeft_eq]
    exact Nat.lt_of_lt_of_le (by simp) Nat.left_le_or
  unfold UnpackedFloat.unpack
  rw [if_neg hall, if_neg hzero]
  exact ⟨_, hpos, rfl⟩

/-- Packing a normal number in range and unpacking it keeps its bounds. -/
lemma Normal.unpack_pack (hf : Normal f low high) (hlow : -126 ≤ low)
    (hhigh : high < 100) : Normal (Float32.Model.pack f).unpack low high := by
  obtain ⟨s, m, e, h, rfl, hm, hm', he, he'⟩ := hf
  have hlog : m.log2 + 1 = Format.binary32.mantissaBits := by
    rw [(Nat.log2_eq_iff (k := 23) (by omega)).2 ⟨hm, hm'⟩]
    rfl
  have hbias : (e + Format.binary32.exponentBias +
    Format.binary32.mantissaBitsWithoutImplicit : Int)
      = e + 150 := by
    show e + 127 + 23 = _
    omega
  obtain ⟨b, hb⟩ : ∃ b : Nat, (e + 150).toNat = b := ⟨_, rfl⟩
  have hpack : UnpackedFloat.pack Format.binary32 (.finite s m e h) =
      packComponents Format.binary32 s (BitVec.ofNat _ b) (BitVec.ofNat _ m) := by
    unfold UnpackedFloat.pack
    dsimp only
    rw [hbias, hb, if_neg, if_pos hlog]
    show ¬ 256 ≤ b + 1
    omega
  have hmodel : (Float32.Model.pack (.finite s m e h)).unpack = UnpackedFloat.unpack Format.binary32
      (packComponents Format.binary32 s (BitVec.ofNat _ b) (BitVec.ofNat _ m)) := by
    rw [← hpack]
    rfl
  have hnat : (BitVec.ofNat Format.binary32.exponentBits b).toNat = b := by
    rw [BitVec.toNat_ofNat]
    exact Nat.mod_eq_of_lt (show b < 256 by omega)
  have hall : BitVec.ofNat Format.binary32.exponentBits b ≠ -1#_ := by
    intro heq
    have hval := congrArg BitVec.toNat heq
    rw [hnat] at hval
    have hones : (-BitVec.ofNat Format.binary32.exponentBits 1).toNat = 255 := rfl
    omega
  have hzero : BitVec.ofNat Format.binary32.exponentBits b ≠ 0#_ := by
    intro heq
    have hval := congrArg BitVec.toNat heq
    rw [hnat, BitVec.toNat_zero] at hval
    omega
  obtain ⟨s', h', hunpack⟩ :=
    unpack_eq_finite (x := packComponents Format.binary32 s (BitVec.ofNat _ b)
    (BitVec.ofNat _ m)) (by rwa [unpackExponent_packComponents])
    (by rwa [unpackExponent_packComponents])
  have hexp : (b : Int) - (Format.binary32.exponentBias +
    Format.binary32.mantissaBitsWithoutImplicit)
      = e := by
    show (b : Int) - (127 + 23) = e
    omega
  refine ⟨_, _, _, h', hmodel.trans hunpack, ?_, ?_, ?_, ?_⟩
  · rw [BitVec.toNat_append]
    exact Nat.left_le_or
  · exact (1#1 ++ unpackMantissa _).isLt
  · rw [unpackExponent_packComponents, hnat, hexp]
    exact he
  · rw [unpackExponent_packComponents, hnat, hexp]
    exact he'

/-! ### Comparing -/

lemma Normal.beq_zero (hf : Normal f low high) (s : Sign) :
    f.beq (.zero s) = false := by
  obtain ⟨s', m, e, h, rfl, -⟩ := hf
  cases s' <;> rfl

lemma Normal.beq_finite (hf : Normal f low high) {h : 0 < m}
    (he : e < low) : f.beq (.finite s m e h) = false := by
  obtain ⟨s', m', e', h', rfl, -, -, he', -⟩ := hf
  have hcmp : compare e' e = .gt := Int.compare_eq_gt.2 (by omega)
  unfold UnpackedFloat.beq UnpackedFloat.compare
  cases s' <;> cases s <;> simp [hcmp]

lemma unpack_zero : (0 : Float32).toModel.unpack = .zero .positive := by rfl

lemma unpack_one : ∃ h, (1 : Float32).toModel.unpack = .finite .positive (2 ^ 23) (-23) h :=
  ⟨by decide, by rfl⟩

/-- A nonzero number below `2 ^ 33` converts to a normal single. -/
lemma normal_ofNat (hn : n ≠ 0) (hlt : n < 2 ^ 33) :
    Normal (Float32.ofNat n).toModel.unpack (n.log2 - 23) (n.log2 - 21) := by
  have hlog : n.log2 < 33 := (Nat.log2_lt hn).2 hlt
  have hcases : Float32.ofNat n = if n < 2 ^ 23 ∧ 0 ≤ 10 then
      n.toUInt64.toFloat32 * Float32.ofBits 0x3F800000
      else Float32.ofModel (Float32.Model.ofScientific n 0) := rfl
  rw [hcases]
  split
  · rename_i hsmall
    have hword : n.toUInt64.toNat = n := by
      show n % 2 ^ 64 = n
      omega
    have hfactor : Normal n.toUInt64.toFloat32.toModel.unpack (n.log2 - 23) (n.log2 - 22) := by
      show Normal (Float32.Model.pack
        (UnpackedFloat.ofInt Format.binary32 (n.toUInt64.toNat : Int))).unpack _ _
      rw [hword]
      exact (normal_ofInt hn hsmall.1).unpack_pack (by omega) (by omega)
    have hone : (Float32.ofBits 0x3F800000).toModel.unpack =
        .finite .positive (2 ^ 23) (-23) (by decide) := rfl
    show Normal (Float32.Model.pack (UnpackedFloat.mul Format.binary32
      n.toUInt64.toFloat32.toModel.unpack (Float32.ofBits 0x3F800000).toModel.unpack)).unpack _ _
    have hhigh : (n.log2 : Int) - 21 = n.log2 - 22 + 1 := by omega
    rw [hone, hhigh]
    exact (hfactor.mul_one (by omega)).unpack_pack (by omega) (by omega)
  · obtain ⟨s, m, e, h, heq, hle, hlt, hlow, hhigh⟩ :=
      (normal_ofScientific hn).unpack_pack (by omega) (by omega)
    exact ⟨s, m, e, h, heq, hle, hlt, hlow, by omega⟩

lemma normal_neg {f : Float32} (hf : Normal f.toModel.unpack low high) (hlow : -126 ≤ low)
    (hhigh : high < 100) : Normal f.neg.toModel.unpack low high := by
  refine Normal.unpack_pack (f := f.toModel.unpack.neg) ?_ hlow hhigh
  obtain ⟨s, m, e, h, hf, hrest⟩ := hf
  rw [hf]
  exact ⟨-s, m, e, h, rfl, hrest⟩

lemma normal_single (hi : i ≠ 0) (hlo : -2 ^ 32 ≤ i) (hhi : i < 2 ^ 33) :
    Normal (Float32.ofInt i).toModel.unpack (i.natAbs.log2 - 23) (i.natAbs.log2 - 21) := by
  cases i with
  | ofNat n => exact normal_ofNat (fun hn => hi (congrArg Int.ofNat hn)) (Int.ofNat_lt.1 hhi)
  | negSucc n =>
    have hlog : (n + 1).log2 < 33 := (Nat.log2_lt (by omega)).2 (by omega)
    show Normal _ ((n + 1).log2 - 23) ((n + 1).log2 - 21)
    exact normal_neg (normal_ofNat (n := n + 1) (by omega) (by omega)) (by omega) (by omega)

lemma eq_zero_of_beq (hlo : -2 ^ 32 ≤ i) (hhi : i < 2 ^ 33) (h : (Float32.ofInt i == 0)) :
    i = 0 := by
  by_contra hi
  have hbeq : (Float32.ofInt i == 0) = false := by
    show (Float32.ofInt i).toModel.unpack.beq (0 : Float32).toModel.unpack = false
    rw [unpack_zero]
    exact (normal_single hi hlo hhi).beq_zero _
  rw [hbeq] at h
  cases h

lemma eq_one_of_beq (hlo : -2 ^ 32 ≤ i) (hhi : i < 2 ^ 33) (h : (Float32.ofInt i == 1)) :
    i = 1 := by
  by_contra hone
  have hbeq : (Float32.ofInt i == 1) = false := by
    by_cases hlarge : 2 ≤ i.natAbs
    · show (Float32.ofInt i).toModel.unpack.beq (1 : Float32).toModel.unpack = false
      obtain ⟨hpos, hunpack⟩ := unpack_one
      have hlog : 1 ≤ i.natAbs.log2 := (Nat.le_log2 (by omega)).2 hlarge
      rw [hunpack]
      exact (normal_single (by omega) hlo hhi).beq_finite (by omega)
    · obtain rfl | rfl : i = 0 ∨ i = -1 := by omega
      · rfl
      · rfl
  rw [hbeq] at h
  cases h

end Single

/-- The types whose words are integers. -/
def Scalar.Integral (type : Scalar) : Prop := type = .int ∨ type = .uint

lemma exists_ofInt {type : Scalar} (htype : type.Integral) (w : UInt32) (value : Float32) :
    ∃ i : Int, -2 ^ 32 ≤ i ∧ i < 2 ^ 33 ∧ word i = w ∧
      constantEquals type w value = .ok (Float32.ofInt i == value) := by
  rcases htype with rfl | rfl
  · have hlo := w.toInt32.le_toInt
    have hhi := w.toInt32.toInt_lt
    exact ⟨w.toInt32.toInt, by omega, by omega, word_signed w, rfl⟩
  · have hlt := w.toNat_lt
    exact ⟨w.toNat, by omega, by omega, word_toNat w, rfl⟩

lemma eq_zero_of_constantEquals {type : Scalar} {w : UInt32} (htype : type.Integral)
    (h : constantEquals type w 0 = .ok true) : w = 0 := by
  obtain ⟨i, hlo, hhi, rfl, heq⟩ := exists_ofInt htype w 0
  rw [Single.eq_zero_of_beq hlo hhi (Except.ok.inj (heq.symm.trans h))]
  rfl

lemma eq_one_of_constantEquals {type : Scalar} {w : UInt32} (htype : type.Integral)
    (h : constantEquals type w 1 = .ok true) : w = 1 := by
  obtain ⟨i, hlo, hhi, rfl, heq⟩ := exists_ofInt htype w 1
  rw [Single.eq_one_of_beq hlo hhi (Except.ok.inj (heq.symm.trans h))]
  rfl

end KernelFusion
