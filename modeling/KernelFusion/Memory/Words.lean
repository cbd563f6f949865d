/-
Words in memory.

A buffer of words starts out as zeros. What is written into it is kept as patches, the newest in
front: a word is the one that the newest patch covering its index gives, and zero if there is none.
A large buffer therefore takes no more room than what has been written.
-/

namespace KernelFusion

/-- Words that have been written from an index on. -/
structure Patch where
  start : Nat
  data : Array UInt32
deriving DecidableEq, Repr, Inhabited

namespace Patch

/-- The word at an index, if the patch covers it. -/
def get? (p : Patch) (i : Nat) : Option UInt32 :=
  if p.start ≤ i then p.data[i - p.start]? else none

/-- The part of a patch in front of an index. -/
def cut (p : Patch) (size : Nat) : Patch := { p with data := p.data.extract 0 (size - p.start) }

@[simp] theorem get?_cut (p : Patch) (size i : Nat) :
    (p.cut size).get? i = if i < size then p.get? i else none := by
  unfold get? cut
  by_cases hs : p.start ≤ i
  · by_cases hi : i < size
    · have : i - p.start < size - p.start := by omega
      simp [hs, hi, Array.getElem?_extract]
      grind
    · simp [hs, hi, Array.getElem?_extract]
      grind
  · simp [hs]

end Patch

/-- A buffer of words. -/
structure Words where
  size : Nat := 0
  patches : List Patch := []
deriving DecidableEq, Repr, Inhabited

namespace Words

/-- The word at an index. -/
def get (w : Words) (i : Nat) : UInt32 := (w.patches.findSome? fun p => p.get? i).getD 0

/-- A buffer of the given length: cut off, or filled up with zeros. -/
def resize (w : Words) (size : Nat) : Words :=
  { size, patches := if w.size ≤ size then w.patches else w.patches.map fun p => p.cut size }

/-- A buffer with some words written from an index on; what does not fit is lost. -/
def write (w : Words) (start : Nat) (data : List UInt32) : Words :=
  { w with patches := Patch.cut ⟨start, data.toArray⟩ w.size :: w.patches }

@[simp] theorem size_resize (w : Words) (size : Nat) : (w.resize size).size = size := rfl

@[simp] theorem size_write (w : Words) (start : Nat) (data : List UInt32) :
    (w.write start data).size = w.size := rfl

/-- Growing a buffer changes none of its words. -/
theorem get_resize_of_le {w : Words} {size : Nat} (h : w.size ≤ size) (i : Nat) :
    (w.resize size).get i = w.get i := by
  simp [get, resize, h]

/-- A word of the buffer is the one that was written there, if any. -/
theorem get_write (w : Words) (start i : Nat) (data : List UInt32) :
    (w.write start data).get i =
      if start ≤ i ∧ i < w.size then (data[i - start]?).getD (w.get i) else w.get i := by
  simp only [get, write, List.findSome?_cons, Patch.get?_cut]
  by_cases hs : start ≤ i <;> by_cases hw : i < w.size <;> simp [hs, hw, Patch.get?]
  cases data[i - start]? <;> simp

/-- A word that was written is read back. -/
theorem get_write_of_mem {w : Words} {start i : Nat} {data : List UInt32} (hs : start ≤ i)
    (hi : i - start < data.length) (hw : i < w.size) :
    (w.write start data).get i = data[i - start] := by
  simp [get_write, hs, hw, hi]

/-- A word outside of what was written stays. -/
theorem get_write_of_not_mem {w : Words} {start i : Nat} {data : List UInt32}
    (h : i < start ∨ start + data.length ≤ i) : (w.write start data).get i = w.get i := by
  rw [get_write]
  split
  · rw [List.getElem?_eq_none (by omega), Option.getD_none]
  · rfl

end Words

end KernelFusion
