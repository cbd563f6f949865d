/-
How far the buffer reaches.

When a frame ends behind the buffer, the buffer grows to one and a half times the end of the frame.
This is computed in words: from a third of all words on, three times the end wraps around, and the
buffer may become shorter than it was.
-/
import KernelFusion.Proofs.Memory.Eviction

namespace KernelFusion

open List MemoryRequest

/-! ### Registered frames -/

namespace Frames

variable {frames : Frames} {f e : Frame}

lemma mem_of_mem_register (h : e ∈ frames.register f) : e = f ∨ e ∈ frames := by
  induction frames with
  | nil => exact .inl (mem_singleton.1 h)
  | cons d rest ih =>
    rw [register] at h
    split at h
    · exact mem_cons.1 h
    · split at h
      · exact (mem_cons.1 h).imp id (mem_cons_of_mem d)
      · rcases mem_cons.1 h with rfl | h
        · exact .inr mem_cons_self
        · exact (ih h).imp id (mem_cons_of_mem d)

end Frames

/-! ### Growing -/

lemma le_wrapped_iff {n : ℕ} (h : n < 2 ^ 32) : n ≤ n * 3 % 2 ^ 32 / 2 ↔ 3 * n < 2 ^ 32 := by
  by_cases hthird : 3 * n < 2 ^ 32
  · rw [Nat.mod_eq_of_lt (by omega)]
    omega
  · -- what is left is short of twice the number
    have hle : n * 3 % 2 ^ 32 ≤ n * 3 - 2 ^ 32 := by
      rw [Nat.mod_eq_sub_mod (by omega)]
      exact Nat.mod_le _ _
    omega

namespace Heap

variable {h : Heap} {f : Frame}

lemma size_grown (h : Heap) (f : Frame) : (h.grown f).size =
    if h.words.size < f.stop.toNat then f.stop.toNat * 3 % 2 ^ 32 / 2 else h.words.size := by
  unfold grown
  split
  · rw [Words.size_resize, UInt32.toNat_div, UInt32.toNat_mul]
    rfl
  · rfl

lemma stop_le_size_grown_iff : f.stop.toNat ≤ (h.grown f).size ↔
    (h.words.size < f.stop.toNat → 3 * f.stop.toNat < 2 ^ 32) := by
  rw [size_grown]
  split
  · next hlt =>
    rw [le_wrapped_iff f.stop.toNat_lt]
    exact ⟨fun hthird _ => hthird, fun hthird => hthird hlt⟩
  · next hle => exact ⟨fun _ hlt => absurd hlt hle, fun _ => Nat.le_of_not_lt hle⟩

@[simp] lemma make_size (h : Heap) (shape : List ℤ) (data : Option (List UInt32)) :
    (h.make shape data).2.words.size = (h.grown (h.place shape)).size := by
  cases data <;> rfl

end Heap

/-! ### Requests -/

/-- If the buffer grows, then for a frame that ends below a third of all words. -/
def MemoryRequest.GrowsInReach (s : Occupancy) : MemoryRequest → Prop
  | .make shape _ => s.heap.words.size < (s.heap.place shape).stop.toNat →
      3 * (s.heap.place shape).stop.toNat < 2 ^ 32
  | .free _ => True

instance (s : Occupancy) (r : MemoryRequest) : Decidable (r.GrowsInReach s) :=
  match r with
  | .make _ _ => inferInstanceAs (Decidable (_ → _))
  | .free _ => inferInstanceAs (Decidable True)

namespace Occupancy

variable {s : Occupancy} {r : MemoryRequest}

/-- The buffer reaches to the end of the last frame. -/
def Covered (s : Occupancy) : Prop := s.heap.frames.required.toNat ≤ s.heap.words.size

instance : Decidable s.Covered := inferInstanceAs (Decidable (_ ≤ _))

/-- The buffer reaches to the end of every frame. -/
def Houses (s : Occupancy) : Prop := ∀ f ∈ s.heap.frames, f.stop.toNat ≤ s.heap.words.size

lemma Houses.covered (h : s.Houses) : s.Covered := by
  unfold Covered Frames.required
  split
  · next f hlast => exact h f (mem_of_getLast? hlast)
  · exact Nat.zero_le _

lemma size_le_serve (hr : r.GrowsInReach s) : s.heap.words.size ≤ (r.serve s).heap.words.size := by
  cases r with
  | free b => exact Nat.le_refl _
  | make shape data =>
    have hstop := Heap.stop_le_size_grown_iff.2 hr
    simp only [serve, Heap.make_size]
    rw [Heap.size_grown] at hstop ⊢
    split at hstop
    · next hlt =>
      rw [if_pos hlt]
      omega
    · next hle => rw [if_neg hle]

lemma Houses.serve (h : s.Houses) (hr : r.GrowsInReach s) : (r.serve s).Houses := by
  intro f hf
  have hsize := size_le_serve hr
  cases r with
  | free b => exact h f (Frames.mem_release.1 hf).1
  | make shape data =>
    simp only [serve, Heap.make_frames] at hf
    rcases Frames.mem_of_mem_register hf with rfl | hf
    · simp only [serve, Heap.make_size]
      exact Heap.stop_le_size_grown_iff.2 hr
    · exact (h f hf).trans hsize

lemma growsInReach_of_covered (hapart : (r.serve s).heap.frames.Apart) (h : (r.serve s).Covered) :
    r.GrowsInReach s := by
  cases r with
  | free b => trivial
  | make shape data =>
    refine Heap.stop_le_size_grown_iff.1 ?_
    have hmem : s.heap.place shape ∈ ((make shape data).serve s).heap.frames := by
      simp only [serve, Heap.make_frames]
      exact Frames.mem_register_self _ _
    calc (s.heap.place shape).stop.toNat
        ≤ ((make shape data).serve s).heap.frames.required.toNat := hapart.stop_le_required hmem
      _ ≤ ((make shape data).serve s).heap.words.size := h
      _ = (s.heap.grown (s.heap.place shape)).size := s.heap.make_size shape data

end Occupancy

/-! ### Runs of requests -/

namespace MemoryHistory

variable {past : List (Occupancy × MemoryRequest)} {s : Occupancy}

lemma apart (h : MemoryHistory past s) : s.heap.frames.Apart := by
  induction h with
  | fresh => exact .nil
  | @request past s r _ hr ih =>
    cases r with
    | free b => exact ih.release _
    | make shape data =>
      simp only [serve, Heap.make_frames]
      exact (ih.register hr.stop_eq (ih.beside_fit _)).1

lemma houses (h : MemoryHistory past s) (hreach : ∀ q ∈ past, q.2.GrowsInReach q.1) :
    (∀ q ∈ past, q.1.Houses) ∧ s.Houses := by
  induction h with
  | fresh => exact ⟨fun _ hq => absurd hq not_mem_nil, fun _ hf => absurd hf not_mem_nil⟩
  | request _ _ ih =>
    obtain ⟨hlatest, hpast⟩ := forall_mem_cons.1 hreach
    obtain ⟨hall, hs⟩ := ih hpast
    exact ⟨forall_mem_cons.2 ⟨hs, hall⟩, hs.serve hlatest⟩

lemma growsInReach_of_covered (h : MemoryHistory past s) (hpast : ∀ q ∈ past, q.1.Covered)
    (hs : s.Covered) : ∀ q ∈ past, q.2.GrowsInReach q.1 := by
  induction h with
  | fresh => simp
  | request hbefore hr ih =>
    obtain ⟨hfound, hpast⟩ := forall_mem_cons.1 hpast
    have hafter := (hbefore.request hr).apart
    exact forall_mem_cons.2 ⟨Occupancy.growsInReach_of_covered hafter hs, ih hpast hfound⟩

/-- The buffer reaches to the end of the last frame in every state of a run, and no request makes it
shorter. -/
structure Covering (past : List (Occupancy × MemoryRequest)) (s : Occupancy) : Prop where
  before : ∀ q ∈ past, q.1.Covered
  after : s.Covered
  size_le : ∀ q ∈ past, q.1.heap.words.size ≤ (q.2.serve q.1).heap.words.size

/-- For every run that makes tensors without leaving the words and frees live ones: the buffer
reaches to the end of the last frame in every state and never becomes shorter, if and only if it
grows only for frames that end below a third of all words. -/
theorem covering_iff (h : MemoryHistory past s) :
    Covering past s ↔ ∀ q ∈ past, q.2.GrowsInReach q.1 := by
  constructor
  · intro hcovering
    exact h.growsInReach_of_covered hcovering.before hcovering.after
  · intro hreach
    obtain ⟨hpast, hs⟩ := h.houses hreach
    exact ⟨fun q hq => (hpast q hq).covered, hs.covered, fun q hq => Occupancy.size_le_serve
      (hreach q hq)⟩

/-- The second tensor ends at the last word below a third. The third one ends far behind it, where
the buffer could not grow to, but the buffer just reaches it. -/
theorem covering_to_the_last_word : ∃ past s, MemoryHistory past s ∧
    past.map (·.1.heap.words.size) = [2147483647, 2147483647, 150, 0] ∧
    s.heap.frames = [⟨100, 1431655665, 1431655765⟩, ⟨1431655765, 715827882, 2147483647⟩] ∧
    s.heap.words.size = 2147483647 ∧ Covering past s := by
  have hrun : MemoryHistory _ _ :=
    .request (r := .free ⟨0, [100], ⟨0, 100, 100⟩⟩) (.request (r := .make [3, 238609294] none)
      (.request (r := .make [1431655665] none) (.request (r := .make [100] none) .fresh
        (by decide +kernel)) (by decide +kernel)) (by decide +kernel)) (by decide +kernel)
  exact ⟨_, _, hrun, by decide +kernel, by decide +kernel, by decide +kernel,
    hrun.covering_iff.2 (by decide +kernel)⟩

/-- One word more, and a buffer of 150 words shrinks to one. -/
theorem not_forall_covering :
    ¬ ∀ (past : List (Occupancy × MemoryRequest)) (s : Occupancy), MemoryHistory past s →
    Covering past s := by
  intro hall
  have hrun : MemoryHistory _ _ :=
    .request (r := .make [1431655666] none) (.request (r := .make [100] none) .fresh
      (by decide +kernel))
      (by decide +kernel)
  exact absurd (hall _ _ hrun).after (by decide +kernel)

end MemoryHistory

end KernelFusion
