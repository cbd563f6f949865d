/-
Boxes in row-major order.

The elements of a box are numbered so that the last coordinate varies fastest. As long as the
numbers stay below half the range of a word, coordinates computed on words are those of the
element, and the flat address leads back to its number.
-/
import KernelFusion.Proofs.Build.Reckoning
import Mathlib.Algebra.BigOperators.Group.List.Lemmas

namespace KernelFusion

open List

/-! ### Numbers of elements -/

namespace RowMajor

/-- The coordinates of the element of a given number in a box of the given sizes, outermost
first. -/
def coordinates : List Nat → Nat → List Nat
  | [], _ => []
  | size :: rest, t => t / rest.prod % size :: coordinates rest t

/-- The numbers of elements of the boxes that leave out some of the outer sizes, largest box
first. -/
def boxes : List Nat → List Nat
  | [] => []
  | size :: rest => (size :: rest).prod :: boxes rest

variable {rest sizes is : List Nat} {t i size c bound : Nat}

@[simp] lemma length_coordinates (sizes : List Nat) (t : Nat) :
    (coordinates sizes t).length = sizes.length := by
  induction sizes with
  | nil => rfl
  | cons size rest ih => rw [coordinates, length_cons, ih, length_cons]

lemma getElem?_coordinates (sizes : List Nat) (t i : Nat) :
    (coordinates sizes t)[i]? = sizes[i]?.map fun size => t / (sizes.drop (i + 1)).prod % size := by
  induction sizes generalizing i with
  | nil => rfl
  | cons size rest ih =>
    cases i with
    | zero => rfl
    | succ i =>
      rw [coordinates, getElem?_cons_succ, ih, getElem?_cons_succ, drop_succ_cons]

lemma coordinate_lt (hsize : sizes[i]? = some size) (hpos : 1 ≤ size)
    (hc : (coordinates sizes t)[i]? = some c) : c < size := by
  rw [getElem?_coordinates, hsize, Option.map_some] at hc
  rw [← Option.some.inj hc]
  exact Nat.mod_lt _ hpos

lemma first_coordinate (ht : t < (size :: rest).prod) :
    t / rest.prod % size = t / rest.prod := by
  rw [prod_cons, Nat.mul_comm] at ht
  exact Nat.mod_eq_of_lt (Nat.div_lt_of_lt_mul ht)

lemma prod_lt_of_cons (hsize : 1 ≤ size) (h : (size :: rest).prod < bound) :
    rest.prod < bound := by
  rw [prod_cons] at h
  exact Nat.lt_of_le_of_lt (Nat.le_mul_of_pos_left _ hsize) h

lemma tail_boxes (sizes : List Nat) : (boxes sizes).tail = boxes sizes.tail := by
  cases sizes <;> rfl

lemma boxes_concat (outer : List Nat) (size inner : Nat) :
    boxes (outer ++ [size, inner]) = boxes (outer ++ [inner * size]) ++ [inner] := by
  induction outer with
  | nil => simp [boxes, Nat.mul_comm]
  | cons d outer ih =>
    rw [cons_append, boxes, ih, cons_append, boxes, cons_append]
    simp [Nat.mul_comm]

/-- The number of the element at the given coordinates: outer dimensions first, each number is
multiplied by the next size before the next coordinate is added. -/
def number (sizes is : List Nat) : Nat := (sizes.zip is).foldl (fun t d => t * d.1 + d.2) 0

/-- The coordinates lie in the box, and the element there has the given number. -/
structure IsElement (sizes : List Nat) (t : Nat) (is : List Nat) : Prop where
  lt : Forall₂ (· < ·) is sizes
  number : number sizes is = t

lemma foldl_number (h : is.length = sizes.length) (t : Nat) :
    (sizes.zip is).foldl (fun t d => t * d.1 + d.2) t = t * sizes.prod + number sizes is := by
  induction sizes generalizing is t with
  | nil => simp [number]
  | cons size rest ih =>
    obtain ⟨i, is, rfl⟩ := exists_cons_of_length_eq_add_one h
    have hlength : is.length = rest.length := Nat.succ.inj h
    rw [number, zip_cons_cons, foldl_cons, foldl_cons, ih hlength, ih hlength,
      prod_cons, Nat.zero_mul, Nat.zero_add, Nat.add_mul, Nat.mul_assoc, Nat.add_assoc]

lemma number_cons (h : is.length = rest.length) :
    number (size :: rest) (i :: is) = i * rest.prod + number rest is := by
  rw [number, zip_cons_cons, foldl_cons, foldl_number h, Nat.zero_mul, Nat.zero_add]

lemma number_lt (h : Forall₂ (· < ·) is sizes) :
    number sizes is < sizes.prod := by
  induction h with
  | nil => exact Nat.zero_lt_one
  | @cons i size is rest hi hrest ih =>
    rw [number_cons hrest.length_eq, prod_cons]
    calc i * rest.prod + number rest is < i * rest.prod + rest.prod := Nat.add_lt_add_left ih _
      _ = (i + 1) * rest.prod := (Nat.succ_mul i _).symm
      _ ≤ size * rest.prod := Nat.mul_le_mul_right _ hi

lemma number_coordinates (sizes : List Nat) (t : Nat) :
    number sizes (coordinates sizes t) = t % sizes.prod := by
  induction sizes with
  | nil => simp [number, coordinates, Nat.mod_one]
  | cons size rest ih =>
    rw [coordinates, number_cons (length_coordinates rest t), ih, prod_cons, Nat.mul_comm size,
      Nat.mod_mul, Nat.mul_comm, Nat.add_comm]

lemma coordinates_add_number (h : Forall₂ (· < ·) is sizes) (q : Nat) :
    coordinates sizes (q * sizes.prod + number sizes is) = is := by
  induction h generalizing q with
  | nil => rfl
  | @cons i size is rest hi hrest ih =>
    have hlt := number_lt hrest
    have hsplit : q * (size :: rest).prod + number (size :: rest) (i :: is) =
        (q * size + i) * rest.prod + number rest is := by
      rw [number_cons hrest.length_eq, prod_cons, Nat.add_mul, Nat.mul_assoc, Nat.add_assoc]
    have hfirst : ((q * size + i) * rest.prod + number rest is) / rest.prod = q * size + i := by
      rw [Nat.mul_comm, Nat.mul_add_div (Nat.zero_lt_of_lt hlt), Nat.div_eq_of_lt hlt, Nat.add_zero]
    rw [hsplit, coordinates, ih, hfirst, Nat.mul_add_mod', Nat.mod_eq_of_lt hi]

lemma le_of_mem_coordinates (hc : c ∈ coordinates sizes t) : c ≤ t := by
  obtain ⟨i, hi⟩ := mem_iff_getElem?.1 hc
  rw [getElem?_coordinates, Option.map_eq_some_iff] at hi
  obtain ⟨size, -, rfl⟩ := hi
  exact Nat.le_trans (Nat.mod_le _ _) (Nat.div_le_self _ _)

variable (hpos : ∀ d ∈ sizes, 1 ≤ d)

include hpos

lemma forall₂_coordinates (t : Nat) :
    Forall₂ (· < ·) (coordinates sizes t) sizes := by
  induction sizes with
  | nil => exact .nil
  | cons size rest ih =>
    exact .cons (Nat.mod_lt _ (hpos size mem_cons_self))
      (ih fun d hd => hpos d (mem_cons_of_mem _ hd))

lemma lt_of_mem (h : sizes.prod < bound) (hsize : size ∈ sizes) : size < bound := by
  have hprod : 0 < sizes.prod := Nat.zero_lt_of_lt (number_lt (forall₂_coordinates hpos 0))
  exact Nat.lt_of_le_of_lt (Nat.le_of_dvd hprod (dvd_prod hsize)) h

lemma isElement_iff (ht : t < sizes.prod) :
    IsElement sizes t is ↔ is = coordinates sizes t := by
  constructor
  · rintro ⟨hlt, rfl⟩
    simpa using (coordinates_add_number hlt 0).symm
  · rintro rfl
    exact ⟨forall₂_coordinates hpos t, by rw [number_coordinates, Nat.mod_eq_of_lt ht]⟩

end RowMajor

/-! ### The computation on words -/

namespace Address

open RowMajor

variable {sizes outer : List Nat} {t size : Nat} {clamp : UInt32 → UInt32 → UInt32 → UInt32}
  {d x : Nat → UInt32}

lemma quotient_ofNat {a b : Nat} (ha : a < 2 ^ 31) (hb : b < 2 ^ 31) :
    quotient (UInt32.ofNat a) (UInt32.ofNat b) = UInt32.ofNat (a / b) := by
  have hmsb : ∀ {n : Nat}, n < 2 ^ 31 → (BitVec.ofNat 32 n).msb = false := by
    intro n hn
    rw [BitVec.msb_eq_false_iff_two_mul_lt, BitVec.toNat_ofNat]
    omega
  have hdiv : (BitVec.ofNat 32 a).sdiv (BitVec.ofNat 32 b) = BitVec.ofNat 32 (a / b) := by
    rw [BitVec.sdiv_eq, hmsb ha, hmsb hb]
    refine BitVec.eq_of_toNat_eq ?_
    have hle := Nat.div_le_self a b
    show (BitVec.ofNat 32 a / BitVec.ofNat 32 b).toNat = _
    rw [BitVec.toNat_udiv, BitVec.toNat_ofNat, BitVec.toNat_ofNat, BitVec.toNat_ofNat,
      Nat.mod_eq_of_lt (by omega), Nat.mod_eq_of_lt (by omega), Nat.mod_eq_of_lt (by omega)]
  exact congrArg UInt32.ofBitVec hdiv

lemma reverse_strides (inner : Nat) (houter : outer ≠ []) :
    (strides (UInt32.ofNat inner) (outer.map UInt32.ofNat)).reverse =
      (boxes (outer.dropLast.reverse ++ [inner])).map UInt32.ofNat := by
  induction outer generalizing inner with
  | nil => exact absurd rfl houter
  | cons size rest ih =>
    cases rest with
    | nil => simp [strides, boxes]
    | cons size' rest =>
      have hih := ih (inner * size) (cons_ne_nil _ _)
      have hstrides : strides (UInt32.ofNat inner) ((size :: size' :: rest).map UInt32.ofNat) =
          UInt32.ofNat inner ::
            strides (UInt32.ofNat (inner * size)) ((size' :: rest).map UInt32.ofNat) := by
        rw [UInt32.ofNat_mul]
        rfl
      have hboxes := boxes_concat (size' :: rest).dropLast.reverse size inner
      rw [hstrides, reverse_cons, hih, dropLast_cons_of_ne_nil (cons_ne_nil _ _),
        reverse_cons, append_assoc, singleton_append, hboxes, map_append]
      rfl

lemma box_sub_ofNat (ht : t < 2 ^ 31) (hsizes : sizes.prod < 2 ^ 31) (size : Nat) :
    box (UInt32.ofNat t) ((boxes sizes).map UInt32.ofNat).head? -
        UInt32.ofNat (t / (size :: sizes).prod) * UInt32.ofNat size =
      UInt32.ofNat (t / sizes.prod % size) := by
  have hbox : box (UInt32.ofNat t) ((boxes sizes).map UInt32.ofNat).head? =
      UInt32.ofNat (t / sizes.prod) := by
    cases sizes with
    | nil => simp [boxes, box]
    | cons d rest => exact quotient_ofNat ht hsizes
  have hsplit : t / sizes.prod = t / sizes.prod % size + t / (size :: sizes).prod * size := by
    rw [prod_cons, Nat.mul_comm size, ← Nat.div_div_eq_div_mul, Nat.mod_add_div']
  rw [hbox, ← UInt32.ofNat_mul]
  nth_rewrite 1 [hsplit]
  rw [UInt32.ofNat_add, UInt32.add_sub_cancel]

lemma inner_ofNat (ht : t < 2 ^ 31) (hpos : ∀ d ∈ sizes, 1 ≤ d) (hsizes : sizes.prod < 2 ^ 31) :
    inner (UInt32.ofNat t) (UInt32.ofNat (t / sizes.prod)) ((boxes sizes.tail).map UInt32.ofNat)
      (sizes.map UInt32.ofNat) = (RowMajor.coordinates sizes t).map UInt32.ofNat := by
  induction sizes with
  | nil => rfl
  | cons size rest ih =>
    have hrest := prod_lt_of_cons (hpos size mem_cons_self) hsizes
    have hcoord := box_sub_ofNat ht hrest size
    rw [map_cons, inner, tail_cons, hcoord, RowMajor.coordinates, map_cons]
    refine congrArg _ ?_
    have hwhole : UInt32.ofNat (t / (size :: rest).prod) * UInt32.ofNat size +
        UInt32.ofNat (t / rest.prod % size) = UInt32.ofNat (t / rest.prod) := by
      rw [← UInt32.ofNat_mul, ← UInt32.ofNat_add, prod_cons, Nat.mul_comm size,
        ← Nat.div_div_eq_div_mul, Nat.div_add_mod']
    rw [hwhole, ← map_tail, tail_boxes]
    exact ih (fun d hd => hpos d (mem_cons_of_mem _ hd)) hrest

lemma coordinates_of_reverse {thread innermost : UInt32} {sizes outer : List UInt32}
    (hsizes : sizes.reverse = innermost :: outer) (houter : outer ≠ []) :
    coordinates thread sizes =
      quotient thread ((strides innermost outer).reverse.headD thread) ::
        inner thread (quotient thread ((strides innermost outer).reverse.headD thread))
          (strides innermost outer).reverse.tail sizes.tail := by
  obtain ⟨size, outer, rfl⟩ := exists_cons_of_ne_nil houter
  rw [coordinates, hsizes]

/-- The words of the coordinates are the coordinates of the thread's word. -/
lemma coordinates_ofNat (hpos : ∀ d ∈ sizes, 1 ≤ d) (hsizes : sizes.prod < 2 ^ 31)
    (ht : t < sizes.prod) : coordinates (UInt32.ofNat t) (sizes.map UInt32.ofNat) =
      (RowMajor.coordinates sizes t).map UInt32.ofNat := by
  cases sizes with
  | nil => rfl
  | cons size rest =>
    have hrest := prod_lt_of_cons (hpos size mem_cons_self) hsizes
    have ht₀ : t < 2 ^ 31 := Nat.lt_trans ht hsizes
    rw [RowMajor.coordinates, first_coordinate ht]
    rcases eq_nil_or_concat' rest with rfl | ⟨init, last, rfl⟩
    · simp [coordinates, RowMajor.coordinates]
    · have hsteps := reverse_strides last (by simp : init.reverse ++ [size] ≠ [])
      rw [dropLast_concat, reverse_reverse] at hsteps
      have hreverse : ((size :: (init ++ [last])).map UInt32.ofNat).reverse =
          UInt32.ofNat last :: (init.reverse ++ [size]).map UInt32.ofNat := by simp
      have houter : (init.reverse ++ [size]).map UInt32.ofNat ≠ [] := by simp
      have hhead : ((boxes (init ++ [last])).map UInt32.ofNat).headD (UInt32.ofNat t) =
          UInt32.ofNat (init ++ [last]).prod := by
        cases init <;> rfl
      rw [coordinates_of_reverse hreverse houter, hsteps, hhead, quotient_ofNat ht₀ hrest,
        ← map_tail, tail_boxes, map_cons, tail_cons,
        inner_ofNat ht₀ (fun d hd => hpos d (mem_cons_of_mem _ hd)) hrest, map_cons]

lemma ofNat_sub_one (hpos : 1 ≤ size) :
    UInt32.ofNat size - 1 = UInt32.ofNat (size - 1) := by
  have hsplit : size = size - 1 + 1 := by omega
  nth_rewrite 1 [hsplit]
  rw [UInt32.ofNat_add]
  exact UInt32.add_sub_cancel _ _

lemma index_ofNat (hclamp : ∀ x y z, signed y ≤ signed x → signed x ≤ signed z → clamp x y z = x)
    (mode : TensorMode) {c : Nat} (hc : c < size) (hsize : size < 2 ^ 31) :
    index clamp mode (UInt32.ofNat size) (UInt32.ofNat c) = UInt32.ofNat c := by
  cases mode with
  | clamp =>
    refine hclamp _ _ _ ?_ ?_
    · rw [signed_ofNat (by omega)]
      exact Int.natCast_nonneg c
    · rw [ofNat_sub_one (by omega), signed_ofNat (by omega), signed_ofNat (by omega)]
      omega
  | unchecked => rfl
  | wrap => rfl
  | zero => rfl

lemma exists_index_clamp (hclamp : ∀ x y z, signed (clamp x y z) = min
    (max (signed x) (signed y)) (signed z))
    (hpos : 1 ≤ size) (hsize : size < 2 ^ 31) (x : UInt32) :
    ∃ c < size, index clamp .clamp (UInt32.ofNat size) x = UInt32.ofNat c := by
  have hsigned : signed (clamp x 0 (UInt32.ofNat size - 1)) = min (max (signed x) 0)
    (size - 1 : Nat) := by
    rw [hclamp, ofNat_sub_one hpos, signed_ofNat (by omega)]
    rfl
  obtain ⟨c, hc⟩ := Int.eq_ofNat_of_zero_le
    (by rw [hsigned]; omega : 0 ≤ signed (clamp x 0 (UInt32.ofNat size - 1)))
  have hlt : c < size := by
    rw [hc] at hsigned
    omega
  refine ⟨c, hlt, ?_⟩
  rw [index, ← word_signed (clamp _ _ _), hc, ← signed_ofNat (by omega), word_signed]

/-- The flat index of words is the word of the element's number. -/
lemma flat_ofNat {is : List Nat} (hsizes : sizes ≠ []) (hlength : is.length = sizes.length)
    (hd : ∀ i size, sizes[i]? = some size → d i = UInt32.ofNat size)
    (hx : ∀ i c, is[i]? = some c → x i = UInt32.ofNat c) :
    flat sizes.length d x = UInt32.ofNat (number sizes is) := by
  -- the sum goes on from any dimension and any number
  have hfrom : ∀ (rest js : List Nat) (j t : Nat), js.length = rest.length →
      (∀ i size, rest[i]? = some size → d (j + i) = UInt32.ofNat size) →
      (∀ i c, js[i]? = some c → x (j + i) = UInt32.ofNat c) →
      (range' j rest.length).foldl (fun flat dim => flat * d dim + x dim) (UInt32.ofNat t) =
        UInt32.ofNat ((rest.zip js).foldl (fun t d => t * d.1 + d.2) t) := by
    intro rest
    induction rest with
    | nil => intro js j t _ _ _; rfl
    | cons size rest ih =>
      intro js j t hjs hd hx
      obtain ⟨c, js, rfl⟩ := exists_cons_of_length_eq_add_one hjs
      have hsize : d j = UInt32.ofNat size := hd 0 size rfl
      have hcoord : x j = UInt32.ofNat c := hx 0 c rfl
      rw [length_cons, range'_succ, foldl_cons, hsize, hcoord, ← UInt32.ofNat_mul,
        ← UInt32.ofNat_add, zip_cons_cons, foldl_cons]
      refine ih js (j + 1) _ (Nat.succ.inj hjs) (fun i size hi => ?_) fun i c hi => ?_
      · rw [Nat.add_right_comm]
        exact hd (i + 1) size (by simpa using hi)
      · rw [Nat.add_right_comm]
        exact hx (i + 1) c (by simpa using hi)
  obtain ⟨size, rest, rfl⟩ := exists_cons_of_ne_nil hsizes
  obtain ⟨c, is, rfl⟩ := exists_cons_of_length_eq_add_one hlength
  have hfirst : x 0 = UInt32.ofNat (0 * size + c) := by
    rw [Nat.zero_mul, Nat.zero_add]
    exact hx 0 c rfl
  rw [flat, hfirst, number, zip_cons_cons, foldl_cons]
  refine hfrom rest is 1 _ (Nat.succ.inj hlength) (fun i size hi => ?_) fun i c hi => ?_
  · exact hd (1 + i) size (by rw [Nat.add_comm]; simpa using hi)
  · exact hx (1 + i) c (by rw [Nat.add_comm]; simpa using hi)

lemma flat_coordinates (hsizes : sizes ≠ []) (ht : t < sizes.prod)
    (hd : ∀ i size, sizes[i]? = some size → d i = UInt32.ofNat size)
    (hx : ∀ i c, (RowMajor.coordinates sizes t)[i]? = some c → x i = UInt32.ofNat c) :
    flat sizes.length d x = UInt32.ofNat t := by
  rw [flat_ofNat hsizes (length_coordinates sizes t) hd hx, number_coordinates, Nat.mod_eq_of_lt ht]

end Address

end KernelFusion
