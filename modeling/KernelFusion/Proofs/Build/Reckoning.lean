/-
What recorded coordinates and addresses come to.

Coordinates and flat addresses are recorded with the four operators and the clamping function.
Whoever knows which words the results of these bear knows it for coordinates and addresses, for any
meaning of bearing a word and for operators that may fail as well as for those that do not.
-/
import KernelFusion.Proofs.Build.Arithmetic
import KernelFusion.Pass.Address

namespace KernelFusion

open List

lemma exists_of_forall₂ {R : α → β → Prop} {as : List α} {bs : List β} (h : Forall₂ R as bs)
    {i : Nat} {a : α} (ha : as[i]? = some a) : ∃ b, bs[i]? = some b ∧ R a b := by
  obtain ⟨hi, rfl⟩ := List.getElem?_eq_some_iff.1 ha
  have hi' : i < bs.length := h.length_eq ▸ hi
  exact ⟨_, getElem?_eq_getElem hi', h.get hi hi'⟩

/-! ### The computation on words -/

namespace Address

/-- The quotient of two words read as signed numbers. -/
def quotient (x y : UInt32) : UInt32 := (x.toInt32 / y.toInt32).toUInt32

/-- Products of the inner sizes, from the innermost outward. -/
def strides (product : UInt32) : List UInt32 → List UInt32
  | [] => [product]
  | [_] => [product]
  | size :: rest => product :: strides (product * size) rest

/-- The number of the box that the coordinates up to one dimension select: the thread number divided
by the number of elements of such a box, if there are sizes further inside. -/
def box (thread : UInt32) : Option UInt32 → UInt32
  | some step => quotient thread step
  | none => thread

/-- The coordinates behind the first one. -/
def inner (thread whole : UInt32) (steps : List UInt32) : List UInt32 → List UInt32
  | [] => []
  | size :: rest =>
    let coordinate := box thread steps.head? - whole * size
    coordinate :: inner thread (whole * size + coordinate) steps.tail rest

/-- The coordinates of a thread in a box of the given sizes, outermost first. -/
def coordinates (thread : UInt32) (sizes : List UInt32) : List UInt32 :=
  match sizes.reverse with
  | [] => []
  | [_] => [thread]
  | innermost :: outer =>
    let steps := (strides innermost outer).reverse
    let first := quotient thread (steps.headD thread)
    first :: inner thread first steps.tail sizes.tail

/-- The index of one dimension, kept between zero and the last element in clamp mode. -/
def index (clamp : UInt32 → UInt32 → UInt32 → UInt32) (mode : TensorMode) (size x : UInt32) :
    UInt32 :=
  match mode with
  | .clamp => clamp x 0 (size - 1)
  | _ => x

/-- The flat address in row-major order, from the sizes and the indices of the dimensions. -/
def flat (rank : Nat) (size index : Nat → UInt32) : UInt32 :=
  (range' 1 (rank - 1)).foldl (fun flat dim => flat * size dim + index dim) (index 0)

end Address

namespace Build

/-- The number of the box that the coordinates up to one dimension select. -/
def boxOf (thread : NodeId) : Option NodeId → Build NodeId
  | some step => div thread step
  | none => pure thread

/-- The number of the box in the next dimension; behind the last one it does not matter. -/
def nextBox (base coordinate : NodeId) : List NodeId → Build NodeId
  | [] => pure base
  | _ :: _ => add base coordinate

lemma innerCoordinates_cons (thread whole size : NodeId) (steps rest : List NodeId) :
    innerCoordinates thread whole steps (size :: rest) = do
      let quotient ← boxOf thread steps.head?
      let base ← mul whole size
      let coordinate ← sub quotient base
      let next ← nextBox base coordinate rest
      return coordinate :: (← innerCoordinates thread next steps.tail rest) := by
  cases steps <;> cases rest <;> rfl

/-- The node that the index of one dimension comes from. -/
def indexNode (indices : List (Int × NodeId)) (coordinates : List NodeId) (dim : Nat) : NodeId :=
  (indices.lookup (dim : Int)).getD (coordinates.getD dim 0)

/-- The operators and the clamping function give nodes that bear the words of their results. The
left operand of a quotient and one operand of the clamping function are signed. -/
structure Reckoning (R F : Graph → Graph → Prop) (Bears : NodeId → UInt32 → Graph → Prop)
    (Signed : NodeId → Graph → Prop) (clamp : UInt32 → UInt32 → UInt32 → UInt32) : Prop where
  after : ∀ g g' g'' : Graph, R g g' → F g' g'' → F g g''
  stable : ∀ {n : NodeId} {x : UInt32} {g g' : Graph}, Bears n x g → R g g' → Bears n x g'
  signed : ∀ {n : NodeId} {g g' : Graph}, Signed n g → R g g' → Signed n g'
  integer : ∀ {n : NodeId} {x : UInt32} {g : Graph}, Bears n x g → ∀ i : Int,
    Ends R F (integer i) g fun n g' => Bears n (word i) g' ∧ Signed n g'
  add : ∀ {n m : NodeId} {x y : UInt32} {g : Graph}, Bears n x g → Bears m y g →
    Ends R F (add n m) g fun o => Bears o (x + y)
  sub : ∀ {n m : NodeId} {x y : UInt32} {g : Graph}, Bears n x g → Bears m y g →
    Ends R F (sub n m) g fun o => Bears o (x - y)
  mul : ∀ {n m : NodeId} {x y : UInt32} {g : Graph}, Bears n x g → Bears m y g →
    Ends R F (mul n m) g fun o => Bears o (x * y)
  div : ∀ {n m : NodeId} {x y : UInt32} {g : Graph}, Signed n g → Bears n x g → Bears m y g →
    Ends R F (div n m) g fun o => Bears o (Address.quotient x y)
  clamp : ∀ {n m l : NodeId} {x y z : UInt32} {g : Graph}, Signed m g → Bears n x g →
    Bears m y g → Bears l z g → Ends R F (apply "clamp" [n, m, l]) g fun o => Bears o (clamp x y z)

/-- The same with one relation, whether or not an operator fails. -/
abbrev Reckons (R : Graph → Graph → Prop) (Bears : NodeId → UInt32 → Graph → Prop)
    (Signed : NodeId → Graph → Prop) (clamp : UInt32 → UInt32 → UInt32 → UInt32) : Prop :=
  Reckoning R R Bears Signed clamp

variable {R F : Graph → Graph → Prop} [IsPreorder Graph R] {Bears : NodeId → UInt32 → Graph → Prop}
  {Signed : NodeId → Graph → Prop} {clamp : UInt32 → UInt32 → UInt32 → UInt32} {g g' : Graph}

lemma Recorder.reckons {P : NodeId → Graph → Prop} (hr : Recorder R P) :
    Reckons R (fun n _ g => P n g) (fun _ _ => True) clamp where
  after _ _ _ := trans_of R
  stable h hg := hr.stable h hg
  signed h _ := h
  integer h i := (hr.constant h .int (word i)).mono fun _ _ _ hn => ⟨hn, trivial⟩
  add hn hm := hr.keeps_arithmetic .add hn hm
  sub hn hm := hr.keeps_arithmetic .sub hn hm
  mul hn hm := hr.keeps_arithmetic .mul hn hm
  div _ hn hm := hr.keeps_arithmetic .div hn hm
  clamp _ hn hm hl := hr.apply hn (by decide +kernel) (by simp [hn, hm, hl])

/-- Nodes bear words, one each. -/
abbrev BearAll (Bears : NodeId → UInt32 → Graph → Prop) (ns : List NodeId)
    (xs : List UInt32) (g : Graph) : Prop := Forall₂ (fun n x => Bears n x g) ns xs

namespace Reckoning

variable {ns sizes steps : List NodeId} {xs ds : List UInt32} {x t : UInt32} {thread : NodeId}

omit [IsPreorder Graph R] in
lemma stable_all (hr : Reckoning R F Bears Signed clamp) (h : BearAll Bears ns xs g)
    (hg : R g g') : BearAll Bears ns xs g' :=
  h.imp fun _ _ hn => hr.stable hn hg

lemma headD {n : NodeId} (h : BearAll Bears ns xs g)
    (hn : Bears n x g) : Bears (ns.headD n) (xs.headD x) g := by
  cases h with
  | nil => exact hn
  | cons h _ => exact h

lemma tail (h : BearAll Bears ns xs g) :
    BearAll Bears ns.tail xs.tail g := by
  cases h with
  | nil => exact .nil
  | cons _ h => exact h

/-! ### Coordinates from the thread number -/

section

variable (hr : Reckoning R F Bears Signed clamp)

include hr

lemma ends_strides {product : NodeId} (hproduct : Bears product x g)
    (hsizes : BearAll Bears sizes ds g) :
    Ends R F (strides product sizes) g fun ns => BearAll Bears ns (Address.strides x ds) := by
  induction sizes generalizing g product x ds with
  | nil =>
    cases hsizes
    exact ends_pure (.cons hproduct .nil)
  | cons size rest ih =>
    obtain ⟨d, ds, hsize, hrest, rfl⟩ := forall₂_cons_left_iff.1 hsizes
    cases hrest with
    | nil => exact ends_pure (.cons hproduct .nil)
    | cons hsize' hrest =>
      refine Ends.bind hr.after (hr.mul hproduct hsize) fun next g₁ h₁ hnext => ?_
      refine Ends.bind hr.after (ih hnext (hr.stable_all (.cons hsize' hrest) h₁))
        fun ns g₂ h₂ hns => ?_
      exact ends_pure (.cons (hr.stable hproduct (trans_of R h₁ h₂)) hns)

section

variable (hsigned : Signed thread g) (hthread : Bears thread t g)

include hsigned hthread

lemma ends_boxOf (hsteps : BearAll Bears steps xs g) :
    Ends R F (boxOf thread steps.head?) g fun n => Bears n (Address.box t xs.head?) := by
  cases hsteps with
  | nil => exact ends_pure hthread
  | cons hstep _ => exact hr.div hsigned hthread hstep

lemma ends_innerCoordinates {whole : NodeId} {w : UInt32} (hwhole : Bears whole w g)
    (hsteps : BearAll Bears steps xs g) (hsizes : BearAll Bears sizes ds g) :
    Ends R F (innerCoordinates thread whole steps sizes) g
      fun ns => BearAll Bears ns (Address.inner t w xs ds) := by
  induction sizes generalizing g whole steps w xs ds with
  | nil =>
    cases hsizes
    exact ends_pure .nil
  | cons size rest ih =>
    obtain ⟨d, ds, hsize, hrest, rfl⟩ := forall₂_cons_left_iff.1 hsizes
    rw [innerCoordinates_cons]
    refine Ends.bind hr.after (hr.ends_boxOf hsigned hthread hsteps)
      fun quotient g₁ h₁ hquotient => ?_
    refine Ends.bind hr.after (hr.mul (hr.stable hwhole h₁) (hr.stable hsize h₁))
      fun base g₂ h₂ hbase => ?_
    refine Ends.bind hr.after (hr.sub (hr.stable hquotient h₂) hbase)
      fun coordinate g₃ h₃ hcoord => ?_
    have h₀₃ := trans_of R (trans_of R h₁ h₂) h₃
    cases rest with
    | nil =>
      cases hrest
      exact ends_pure (.cons hcoord .nil)
    | cons size' rest =>
      refine Ends.bind hr.after (hr.add (hr.stable hbase h₃) hcoord) fun next g₄ h₄ hnext => ?_
      have h₀₄ := trans_of R h₀₃ h₄
      refine Ends.bind hr.after (ih (hr.signed hsigned h₀₄) (hr.stable hthread h₀₄) hnext
        (hr.stable_all (tail hsteps) h₀₄) (hr.stable_all hrest h₀₄)) fun ns g₅ h₅ hns => ?_
      exact ends_pure (.cons (hr.stable hcoord (trans_of R h₄ h₅)) hns)

/-- The recorded coordinates bear the numbers `Address.coordinates` gives. -/
lemma ends_coordinatesOf (hsizes : BearAll Bears sizes ds g) :
    Ends R F (coordinatesOf thread sizes) g
      fun ns => BearAll Bears ns (Address.coordinates t ds) := by
  have hreverse : BearAll Bears sizes.reverse ds.reverse g := forall₂_reverse_iff.2 hsizes
  unfold coordinatesOf Address.coordinates
  generalize sizes.reverse = outward, ds.reverse = outward' at hreverse
  cases hreverse with
  | nil => exact ends_pure .nil
  | cons hinnermost houter =>
    cases houter with
    | nil => exact ends_pure (.cons hthread .nil)
    | cons hsize houter =>
      refine Ends.bind hr.after (hr.ends_strides hinnermost (.cons hsize houter))
        fun steps g₁ h₁ hsteps => ?_
      have hinward : BearAll Bears steps.reverse _ g₁ := forall₂_reverse_iff.2 hsteps
      have hhead : Bears (steps.reverse.headD thread) _ g₁ :=
        headD hinward (hr.stable hthread h₁)
      refine Ends.bind hr.after (hr.div (hr.signed hsigned h₁) (hr.stable hthread h₁) hhead)
        fun first g₂ h₂ hfirst => ?_
      have h₀₂ := trans_of R h₁ h₂
      refine Ends.bind hr.after (hr.ends_innerCoordinates (hr.signed hsigned h₀₂)
        (hr.stable hthread h₀₂)
        hfirst (hr.stable_all (tail hinward) h₂) (hr.stable_all (tail hsizes) h₀₂))
        fun ns g₃ h₃ hns => ?_
      exact ends_pure (.cons (hr.stable hfirst h₃) hns)

/-! ### Flat addresses -/

end

lemma ends_indexFor {mode : TensorMode} (hmode : mode = .unchecked ∨ mode = .clamp ∨ ∀ g, F g g)
    {size? : Nat → Option NodeId} {indices : List (Int × NodeId)} {coordinates : List NodeId}
    {dim : Nat} {d : UInt32} (hindex : Bears (indexNode indices coordinates dim) x g)
    (hsize : mode = .clamp → Bears ((size? dim).getD 0) d g) :
    Ends R F (indexFor mode size? indices coordinates dim) g
      fun n => Bears n (Address.index clamp mode d x) := by
  unfold indexFor
  cases mode with
  | unchecked => exact ends_pure hindex
  | clamp =>
    refine Ends.bind hr.after (hr.integer hindex 1) fun one g₁ h₁ hone => ?_
    refine Ends.bind hr.after (hr.sub (hr.stable (hsize rfl) h₁) hone.1) fun top g₂ h₂ htop => ?_
    refine Ends.bind hr.after (hr.integer htop 0) fun bottom g₃ h₃ hbottom => ?_
    have h₀₃ := trans_of R (trans_of R h₁ h₂) h₃
    exact hr.clamp hbottom.2 (hr.stable hindex h₀₃) hbottom.1 (hr.stable htop h₃)
  | wrap | zero =>
    -- these modes fail
    rcases hmode with h | h | h
    · cases h
    · cases h
    · exact ends_throw (h g)

end

section Flat

variable {size? : Nat → Option NodeId} {indices : List (Int × NodeId)} {coordinates : List NodeId}
  {d x : Nat → UInt32}

/-- Each dimension multiplies the flat index by its size and adds its index. -/
lemma ends_flatFrom (hr : Reckoning R F Bears Signed clamp) {mode : TensorMode}
    (hmode : mode = .unchecked ∨ mode = .clamp ∨ ∀ g, F g g) {flat : NodeId} {w : UInt32}
    {dims : List Nat} (hflat : Bears flat w g)
    (hsize : ∀ dim ∈ dims, Bears ((size? dim).getD 0) (d dim) g)
    (hindex : ∀ dim ∈ dims, Bears (indexNode indices coordinates dim) (x dim) g) :
    Ends R F (flatFrom mode size? indices coordinates flat dims) g fun n => Bears n
      (dims.foldl (fun flat dim => flat * d dim + Address.index clamp mode (d dim) (x dim)) w) := by
  induction dims generalizing g flat w with
  | nil => exact ends_pure hflat
  | cons dim rest ih =>
    have hdim := mem_cons_self (a := dim) (l := rest)
    refine Ends.bind hr.after (hr.mul hflat (hsize dim hdim)) fun row g₁ h₁ hrow => ?_
    refine Ends.bind hr.after (hr.ends_indexFor hmode (hr.stable (hindex dim hdim) h₁)
      fun _ => hr.stable (hsize dim hdim) h₁) fun index g₂ h₂ hind => ?_
    refine Ends.bind hr.after (hr.add (hr.stable hrow h₂) hind) fun next g₃ h₃ hnext => ?_
    have h₀₃ := trans_of R (trans_of R h₁ h₂) h₃
    exact ih hnext (fun i hi => hr.stable (hsize i (mem_cons_of_mem _ hi)) h₀₃)
      fun i hi => hr.stable (hindex i (mem_cons_of_mem _ hi)) h₀₃

lemma ends_flatIndex (hr : Reckoning R F Bears Signed clamp) {mode : TensorMode}
    (hmode : mode = .unchecked ∨ mode = .clamp ∨ ∀ g, F g g) {rank : Nat}
    (hsize : ∀ dim < rank, Bears ((size? dim).getD 0) (d dim) g)
    (hfirst : mode = .clamp → Bears ((size? 0).getD 0) (d 0) g)
    (hindex : ∀ dim < max rank 1, Bears (indexNode indices coordinates dim) (x dim) g) :
    Ends R F (flatIndex mode rank size? indices coordinates) g fun n => Bears n
      (Address.flat rank d fun dim => Address.index clamp mode (d dim) (x dim)) := by
  refine Ends.bind hr.after (hr.ends_indexFor hmode (hindex 0 (by omega)) hfirst)
    fun first g₁ h₁ hnode => ?_
  refine hr.ends_flatFrom hmode hnode (fun dim hdim => ?_) fun dim hdim => ?_
  · exact hr.stable (hsize dim (by rw [mem_range'_1] at hdim; omega)) h₁
  · exact hr.stable (hindex dim (by rw [mem_range'_1] at hdim; omega)) h₁

end Flat

end Reckoning

/-! ### Operations on any nodes -/

namespace Recorder

variable (hr : Recorder R fun _ _ => True)

include hr

lemma reckons_any :
    Reckons R (fun _ _ _ => True) (fun _ _ => True) fun x _ _ => x := hr.reckons

lemma keeps_coordinatesOf (thread : NodeId) (sizes : List NodeId) :
    Keeps R (coordinatesOf thread sizes) g fun _ _ => True := by
  have hsizes : BearAll (fun _ _ _ => True) sizes (sizes.map fun _ => 0) g :=
    forall₂_map_right_iff.2 (forall₂_same.2 fun _ _ => trivial)
  exact (hr.reckons_any.ends_coordinatesOf (t := 0) trivial trivial hsizes).mono fun _ _ _ _ =>
    trivial

section

variable (mode : TensorMode) (size? : Nat → Option NodeId) (indices : List (Int × NodeId))
  (coordinates : List NodeId)

include mode size? indices coordinates

lemma keeps_indexFor (dim : Nat) :
    Keeps R (indexFor mode size? indices coordinates dim) g fun _ _ => True :=
  hr.reckons_any.ends_indexFor (d := 0) (x := 0) (.inr (.inr (refl_of R))) trivial fun _ => trivial

lemma keeps_flatFrom (flat : NodeId) (dims : List Nat) :
    Keeps R (flatFrom mode size? indices coordinates flat dims) g fun _ _ => True :=
  hr.reckons_any.ends_flatFrom (d := fun _ => 0) (x := fun _ => 0) (w := 0)
    (.inr (.inr (refl_of R))) trivial (fun _ _ => trivial) fun _ _ => trivial

end

lemma keeps_flatIndex (mode : TensorMode) (rank : Nat) (size? : Nat → Option NodeId)
    (indices : List (Int × NodeId)) (coordinates : List NodeId) :
    Keeps R (flatIndex mode rank size? indices coordinates) g fun _ _ => True :=
  hr.reckons_any.ends_flatIndex (d := fun _ => 0) (x := fun _ => 0) (.inr (.inr (refl_of R)))
    (fun _ _ => trivial) (fun _ => trivial) fun _ _ => trivial

end Recorder

/-! ### What coordinates have from the thread number -/

/-- Differences and quotients take a property over from their left operands. -/
structure Inherited (R : Graph → Graph → Prop) (P : NodeId → Graph → Prop) : Prop where
  recorder : Recorder R fun _ _ => True
  stable : ∀ {n : NodeId} {g g' : Graph}, P n g → R g g' → P n g'
  sub : ∀ {n m : NodeId} {g : Graph}, P n g → Keeps R (sub n m) g P
  div : ∀ {n m : NodeId} {g : Graph}, P n g → Keeps R (div n m) g P

namespace Inherited

variable {P : NodeId → Graph → Prop}

lemma keeps_innerCoordinates (hi : Inherited R P) {thread whole : NodeId}
    {steps sizes : List NodeId} (hthread : P thread g) :
    Keeps R (innerCoordinates thread whole steps sizes) g
      fun cs g' => cs.length = sizes.length ∧ ∀ c ∈ cs, P c g' := by
  induction sizes generalizing g whole steps with
  | nil => exact ends_pure ⟨rfl, by simp⟩
  | cons size rest ih =>
    have hbox : Keeps R (boxOf thread steps.head?) g P := by
      cases steps.head? with
      | none => exact ends_pure hthread
      | some step => exact hi.div hthread
    have hnext : ∀ base coordinate g₁, Keeps R (nextBox base coordinate rest)
      g₁ fun _ _ => True := by
      intro base coordinate g₁
      cases rest with
      | nil => exact ends_pure trivial
      | cons _ _ => exact hi.recorder.keeps_arithmetic .add trivial trivial
    rw [innerCoordinates_cons]
    refine Keeps.bind hbox fun quotient g₁ h₁ hquotient => ?_
    refine Keeps.bind (hi.recorder.keeps_arithmetic .mul trivial trivial) fun base g₂ h₂ _ => ?_
    refine Keeps.bind (hi.sub (hi.stable hquotient h₂)) fun coordinate g₃ h₃ hcoordinate => ?_
    refine Keeps.bind (hnext base coordinate g₃) fun next g₄ h₄ _ => ?_
    have h₀₄ := trans_of R (trans_of R (trans_of R h₁ h₂) h₃) h₄
    refine Keeps.bind (ih (hi.stable hthread h₀₄)) fun cs g₅ h₅ hcs => ?_
    refine ends_pure ⟨by rw [length_cons, hcs.1, length_cons], forall_mem_cons.2 ⟨?_, hcs.2⟩⟩
    exact hi.stable hcoordinate (trans_of R h₄ h₅)

lemma keeps_coordinatesOf (hi : Inherited R P) {thread : NodeId} {sizes : List NodeId}
    (hthread : P thread g) :
    Keeps R (coordinatesOf thread sizes) g
      fun cs g' => cs.length = sizes.length ∧ ∀ c ∈ cs, P c g' := by
  have hstrides : ∀ product sizes g₁, Keeps R (strides product sizes) g₁ fun _ _ => True := by
    intro product sizes g₁
    induction sizes generalizing product g₁ with
    | nil => exact ends_pure trivial
    | cons size rest ih =>
      cases rest with
      | nil => exact ends_pure trivial
      | cons size' rest =>
        refine Keeps.bind (hi.recorder.keeps_arithmetic .mul trivial trivial) fun next g₂ _ _ => ?_
        exact Keeps.bind (ih next g₂) fun _ _ _ _ => ends_pure trivial
  rw [← sizes.reverse_reverse]
  generalize sizes.reverse = outward
  unfold coordinatesOf
  rw [reverse_reverse]
  cases outward with
  | nil => exact ends_pure ⟨rfl, by simp⟩
  | cons innermost outer =>
    cases outer with
    | nil => exact ends_pure ⟨rfl, forall_mem_singleton.2 hthread⟩
    | cons size outer =>
      refine Keeps.bind (hstrides innermost (size :: outer) g) fun steps g₁ h₁ _ => ?_
      refine Keeps.bind (hi.div (hi.stable hthread h₁)) fun first g₂ h₂ hfirst => ?_
      refine Keeps.bind (hi.keeps_innerCoordinates (hi.stable hthread (trans_of R h₁ h₂)))
        fun cs g₃ h₃ hcs => ?_
      refine ends_pure ⟨?_, forall_mem_cons.2 ⟨hi.stable hfirst h₃, hcs.2⟩⟩
      rw [length_cons, hcs.1, length_tail]
      simp

end Inherited

end Build

end KernelFusion
