/-
Words of integers, and how many elements a box has.

The word of an integer counts modulo `2 ^ 32`, so that sums, differences and products of integers
have the sums, differences and products of their words.
-/
import KernelFusion.Scalar
import Mathlib.Algebra.BigOperators.Group.List.Basic
import Mathlib.Tactic.Linarith

namespace KernelFusion

/-- The word of an integer is its remainder modulo `2 ^ 32`. -/
lemma toNat_word_eq_emod (i : ℤ) : ((word i).toNat : ℤ) = i % 2 ^ 32 := by
  have h : (word i).toNat = (BitVec.ofInt 32 i).toNat := rfl
  rw [h, BitVec.toNat_ofInt]
  omega

lemma toNat_word {i : ℤ} (hlo : 0 ≤ i) (hhi : i < 2 ^ 32) : ((word i).toNat : ℤ) = i := by
  rw [toNat_word_eq_emod, Int.emod_eq_of_lt hlo hhi]

lemma word_toNat (w : UInt32) : word (w.toNat : ℤ) = w := UInt32.toBitVec_inj.1 (by simp [word])

/-! ### Words of results -/

lemma word_add (i j : ℤ) : word (i + j) = word i + word j := by
  rw [word, Int32.ofInt_add, Int32.toUInt32_add]
  rfl

lemma word_sub (i j : ℤ) : word (i - j) = word i - word j := by
  rw [word, Int32.ofInt_sub, Int32.toUInt32_sub]
  rfl

lemma word_mul (i j : ℤ) : word (i * j) = word i * word j := by
  rw [word, Int32.ofInt_mul, Int32.toUInt32_mul]
  rfl

/-- A quotient of signed words goes toward zero. -/
lemma word_tdiv_signed (x y : UInt32) :
    word ((signed x).tdiv (signed y)) = (x.toInt32 / y.toInt32).toUInt32 := by
  have hlo : ∀ v : Int32, Int32.minValue.toInt ≤ v.toInt := fun v => v.minValue_le_toInt
  have hhi : ∀ v : Int32, v.toInt ≤ Int32.maxValue.toInt := fun v => v.toInt_le
  rw [word, signed, signed, Int32.ofInt_tdiv (hlo _) (hhi _) (hlo _) (hhi _), Int32.ofInt_toInt,
    Int32.ofInt_toInt]

lemma word_tdiv_toNat (x y : UInt32) : word ((x.toNat : ℤ).tdiv y.toNat) = x / y := by
  rw [← Int.ofNat_tdiv, ← UInt32.toNat_div]
  exact word_toNat (x / y)

/-! ### Signed words -/

lemma signed_ofNat {n : Nat} (hn : n < 2 ^ 31) : signed (UInt32.ofNat n) = n := by
  have hnat : (UInt32.ofNat n).toNat = n := by
    rw [UInt32.toNat_ofNat']
    omega
  show (UInt32.ofNat n).toBitVec.toInt = n
  rw [BitVec.toInt_eq_toNat_of_lt, UInt32.toNat_toBitVec, hnat]
  rw [UInt32.toNat_toBitVec, hnat]
  omega

lemma word_natCast {i : Nat} (hi : i < 2 ^ 31) : word (i : Int) = UInt32.ofNat i := by
  rw [← signed_ofNat hi, word_signed]

/-- A word whose signed value is not negative counts that value. -/
lemma toNat_of_signed_nonneg {w : UInt32} (h : 0 ≤ signed w) : (w.toNat : ℤ) = signed w := by
  have hint : signed w = w.toBitVec.toInt := rfl
  rw [hint, BitVec.toInt_eq_toNat_cond, UInt32.toNat_toBitVec] at h ⊢
  have hlt := w.toNat_lt
  split at h
  · next hsmall => rw [if_pos hsmall]
  · omega

lemma signed_lt (w : UInt32) : signed w < 2 ^ 31 := by
  have hint : signed w = w.toBitVec.toInt := rfl
  have hlt := BitVec.toInt_lt (x := w.toBitVec)
  rw [hint]
  exact hlt

/-! ### Boxes -/

lemma volume_eq_prod (sides : List ℤ) : volume sides = sides.prod := List.prod_eq_foldl.symm

lemma one_le_volume {sides : List ℤ} (h : ∀ d ∈ sides, 1 ≤ d) : 1 ≤ volume sides := by
  rw [volume_eq_prod]
  induction sides with
  | nil => simp
  | cons d rest ih =>
    have hd := h d List.mem_cons_self
    have hrest := ih fun e he => h e (List.mem_cons_of_mem _ he)
    rw [List.prod_cons]
    nlinarith

/-- The number of elements does not wrap around where the volume is a signed word. -/
lemma elements_eq {shape : List ℤ} (hlo : 0 ≤ volume shape) (hhi : volume shape < 2 ^ 31) :
    elements shape = volume shape :=
  signed_word (by omega) (by omega)

/-- A number of elements that is not negative is what the word of the volume counts, whatever the
volume is. -/
lemma toNat_word_volume {shape : List ℤ} (h : 0 ≤ elements shape) :
    ((word (volume shape)).toNat : ℤ) = elements shape :=
  toNat_of_signed_nonneg h

end KernelFusion
