/-
Arguments of nodes and their order.

An argument has a use, an index among the arguments of that use, and a source. Arguments are looked
at by ascending index. Up to sixteen of them are sorted by insertion, so that arguments of equal
index keep their order. More than sixteen are divided around pivots first, which does not keep the
order of equal ones: the pivot is the median of the second, the middle and the last argument, and
arguments on the wrong side of it are exchanged in pairs, from both ends inward.
-/

namespace KernelFusion

/-- Index of a label in the table of labels. -/
abbrev LabelId := Nat

/-- What an argument is used for. -/
inductive ArgKind where
  | input
  | index
  | shape
  | memory
  | other
deriving DecidableEq, Repr, Inhabited

/-- An argument of a node: its use, its place among the arguments of this use, and the label of the
node it comes from. -/
structure Argument where
  kind : ArgKind
  index : Int
  source : LabelId
deriving DecidableEq, Repr, Inhabited

/-- Puts an argument in front of those of greater or equal index. -/
def insertByIndex (a : Argument) : List Argument → List Argument
  | [] => [a]
  | b :: rest => if a.index ≤ b.index then a :: b :: rest else b :: insertByIndex a rest

@[simp] theorem mem_insertByIndex {a b : Argument} {args : List Argument} :
    b ∈ insertByIndex a args ↔ b = a ∨ b ∈ args := by
  induction args with
  | nil => simp [insertByIndex]
  | cons c rest ih =>
    rw [insertByIndex]
    split
    · simp
    · simp only [List.mem_cons, ih]
      grind

theorem mem_foldr_insertByIndex {b : Argument} {args : List Argument} :
    b ∈ args.foldr insertByIndex [] ↔ b ∈ args := by
  induction args with
  | nil => simp
  | cons a rest ih => rw [List.foldr_cons, mem_insertByIndex, ih, List.mem_cons]

/-- The place of the median of the second, the middle and the last argument. -/
def medianPlace (args : List Argument) : Nat :=
  let key := fun i => (args.getD i default).index
  let middle := args.length / 2
  let last := args.length - 1
  if key 1 < key middle then
    if key middle < key last then middle else if key 1 < key last then last else 1
  else if key 1 < key last then 1
  else if key middle < key last then last
  else middle

/-- Divides arguments around a pivot. The first argument that is not below the pivot changes places
with the last one that is not above it, and so on with those in between. -/
def exchange (pivot : Int) : Nat → List Argument → List Argument × List Argument
  | 0, args => (args, [])
  | steps + 1, args =>
    let low := args.takeWhile fun a => a.index < pivot
    match args.dropWhile fun a => a.index < pivot with
    | [] => (low, [])
    | x :: inner =>
      let high := (inner.reverse.takeWhile fun a => pivot < a.index).reverse
      match inner.reverse.dropWhile fun a => pivot < a.index with
      | [] => (low, x :: inner)
      | y :: between =>
        let (l, r) := exchange pivot steps between.reverse
        (low ++ y :: l, r ++ x :: high)

/-- The number of arguments up to which insertion alone sorts. -/
def insertionLimit : Nat := 16

/-- Divides arguments around pivots until no part has more than sixteen of them. -/
def spread : Nat → List Argument → List Argument
  | steps + 1, first :: rest =>
    let args := first :: rest
    if args.length ≤ insertionLimit then args
    else
      let place := medianPlace args
      let pivot := args.getD place first
      let (low, high) := exchange pivot.index rest.length (rest.set (place - 1) first)
      spread steps (pivot :: low) ++ spread steps high
  | _, args => args

/-- Arguments by ascending index. -/
def sortByIndex (args : List Argument) : List Argument :=
  (spread args.length args).foldr insertByIndex []

/-- Dividing around a pivot loses and doubles nothing. -/
theorem exchange_perm (pivot : Int) (steps : Nat) (args : List Argument) :
    ((exchange pivot steps args).1 ++ (exchange pivot steps args).2).Perm args := by
  induction steps generalizing args with
  | zero => simp [exchange]
  | succ steps ih =>
    have whole := List.takeWhile_append_dropWhile
      (p := fun a : Argument => a.index < pivot) (l := args)
    rw [exchange]
    split
    · next h =>
      rw [h] at whole
      simpa using List.Perm.of_eq whole
    · next x inner h =>
      rw [h] at whole
      have inside := List.takeWhile_append_dropWhile
        (p := fun a : Argument => pivot < a.index) (l := inner.reverse)
      split
      · exact List.Perm.of_eq whole
      · next y between hr =>
        rw [hr] at inside
        have inner_eq : inner = between.reverse ++
            y :: (inner.reverse.takeWhile fun a => pivot < a.index).reverse := by
          simpa using (congrArg List.reverse inside).symm
        refine List.perm_iff_count.2 fun c => ?_
        have parts := (ih between.reverse).count_eq c
        have all := congrArg (List.count c) whole
        have ends := congrArg (List.count c) inner_eq
        simp only [List.count_append, List.count_cons] at parts all ends ⊢
        omega

/-- An element changes places with the first one. -/
theorem cons_set_perm {first pivot : Argument} {rest : List Argument} {i : Nat}
    (h : rest[i]? = some pivot) : (pivot :: rest.set i first).Perm (first :: rest) := by
  induction rest generalizing i with
  | nil => simp at h
  | cons a rest ih =>
    cases i with
    | zero =>
      simp only [List.getElem?_cons_zero, Option.some.injEq] at h
      subst h
      exact List.Perm.swap ..
    | succ i =>
      rw [List.getElem?_cons_succ] at h
      exact (List.Perm.swap ..).trans (((ih h).cons a).trans (List.Perm.swap ..))

theorem medianPlace_bounds {args : List Argument} (h : insertionLimit < args.length) :
    0 < medianPlace args ∧ medianPlace args < args.length := by
  unfold insertionLimit at h
  unfold medianPlace
  grind

/-- Dividing into parts loses and doubles nothing. -/
theorem spread_perm (steps : Nat) (args : List Argument) : (spread steps args).Perm args := by
  fun_induction spread steps args with
  | case1 => exact List.Perm.refl _
  | case2 steps first rest args h place pivot low high hx ih1 ih2 =>
    obtain ⟨hpos, hlt⟩ : 0 < place ∧ place < args.length := medianPlace_bounds (by omega)
    have hp : rest[place - 1]? = some pivot := by
      have whole : args[place]? = some pivot := by simp [pivot, hlt]
      obtain ⟨i, hi⟩ : ∃ i, place = i + 1 := ⟨place - 1, by omega⟩
      rw [hi] at whole ⊢
      simpa [args] using whole
    have hx' := exchange_perm pivot.index rest.length (rest.set (place - 1) first)
    rw [hx] at hx'
    exact (ih1.append ih2).trans ((hx'.cons pivot).trans (cons_set_perm hp))
  | case3 => exact List.Perm.refl _

@[simp] theorem mem_sortByIndex {b : Argument} {args : List Argument} :
    b ∈ sortByIndex args ↔ b ∈ args := by
  rw [sortByIndex, mem_foldr_insertByIndex, (spread_perm _ _).mem_iff]

/-- Of neighbours with one index, keeps the last. -/
def lastOfEachIndex : List Argument → List Argument
  | a :: b :: rest =>
    if a.index = b.index then lastOfEachIndex (b :: rest) else a :: lastOfEachIndex (b :: rest)
  | args => args

end KernelFusion
