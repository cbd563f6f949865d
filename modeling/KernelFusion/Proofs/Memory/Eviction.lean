/-
Empty tensors among others.

An empty tensor fits everywhere, so it always gets the frame at word zero, in place of any that is
registered there, and it is itself replaced by the next tensor that is put there. A tensor that has
lost its frame is still in use: its words may be given away once more, and whoever of the two is
freed first takes the frame of the other one with it.
-/
import KernelFusion.Memory.Heap
import KernelFusion.Proofs.Memory.Registry
import KernelFusion.Proofs.Number.Word
import Mathlib.Algebra.Order.BigOperators.GroupWithZero.List
import Mathlib.Data.List.Nodup

namespace KernelFusion

open List

/-! ### Empty frames -/

namespace Frames

variable {frames : Frames} {f : Frame} {size : UInt32}

lemma fit_zero (frames : Frames) : frames.fit 0 = ⟨0, 0, 0⟩ := by
  cases frames with
  | nil => rfl
  | cons f rest =>
    have hzero : (0 : UInt32) ≤ f.start - 0 := UInt32.le_iff_toNat_le.2 (Nat.zero_le _)
    rw [fit, gap, if_pos hzero]
    rfl

end Frames

/-! ### Requests -/

/-- The memory and the tensors that are live in it. -/
structure Occupancy where
  heap : Heap := {}
  live : List Buffer := []

/-- A request to the memory. -/
inductive MemoryRequest where
  | make (shape : List ℤ) (data : Option (List UInt32))
  | free (b : Buffer)

/-- Makes a tensor in memory, and fills it if words are given. -/
def Heap.make (h : Heap) (shape : List ℤ) : Option (List UInt32) → Buffer × Heap
  | none => h.allocate shape
  | some data => h.allocateWith shape data

/-- The frame that a tensor of the given shape gets. -/
def Heap.place (h : Heap) (shape : List ℤ) : Frame := h.frames.fit (word (volume shape))

lemma Heap.place_of_volume_eq_zero {shape : List ℤ} (h : Heap) (hempty : volume shape = 0) :
    h.place shape = ⟨0, 0, 0⟩ := by
  rw [place, hempty]
  exact Frames.fit_zero _

@[simp] lemma Heap.make_fst (h : Heap) (shape : List ℤ) (data : Option (List UInt32)) :
    (h.make shape data).1 = ⟨h.next, shape, h.place shape⟩ := by
  cases data <;> rfl

@[simp] lemma Heap.make_frames (h : Heap) (shape : List ℤ) (data : Option (List UInt32)) :
    (h.make shape data).2.frames = h.frames.register (h.place shape) := by
  cases data <;> rfl

@[simp] lemma Heap.make_next (h : Heap) (shape : List ℤ) (data : Option (List UInt32)) :
    (h.make shape data).2.next = h.next + 1 := by
  cases data <;> rfl

/-- The memory after a request. -/
def MemoryRequest.serve (s : Occupancy) : MemoryRequest → Occupancy
  | .make shape data => ⟨(s.heap.make shape data).2, (s.heap.make shape data).1 :: s.live⟩
  | .free b => ⟨s.heap.free b, s.live.erase b⟩

/-- No number of elements and no end of a frame leaves the words, and only live tensors are
freed. -/
def MemoryRequest.Admitted (s : Occupancy) : MemoryRequest → Prop
  | .make shape _ => (∀ d ∈ shape, 0 ≤ d) ∧ volume shape < 2 ^ 31 ∧
      ((s.heap.place shape).start.toNat : ℤ) + volume shape < 2 ^ 32
  | .free b => b ∈ s.live

namespace MemoryRequest.Admitted

variable {s : Occupancy} {shape : List ℤ} {data : Option (List UInt32)}

variable (h : (make shape data).Admitted s)

include h

lemma volume_nonneg : 0 ≤ volume shape := by
  rw [volume_eq_prod]
  exact prod_nonneg h.1

lemma elements_eq : elements shape = volume shape :=
  KernelFusion.elements_eq h.volume_nonneg h.2.1

lemma toNat_size :
    ((s.heap.place shape).size.toNat : ℤ) = volume shape := by
  have hlt := h.2.1
  exact toNat_word h.volume_nonneg (by omega)

lemma stop_eq :
    (s.heap.place shape).stop.toNat = (s.heap.place shape).start.toNat +
    (s.heap.place shape).size.toNat := by
  have hsize := h.toNat_size
  have hlt := h.2.2
  have hstop : (s.heap.place shape).stop = (s.heap.place shape).start +
    (s.heap.place shape).size := rfl
  rw [hstop, UInt32.toNat_add]
  omega

end MemoryRequest.Admitted

/-- An empty tensor is only made while no live one starts at word zero, and no other tensor is put
there while an empty one is live. -/
def MemoryRequest.Harmless (s : Occupancy) : MemoryRequest → Prop
  | .make shape _ =>
    if volume shape = 0 then ∀ b ∈ s.live, b.frame.start ≠ 0
    else (s.heap.place shape).start = 0 → ∀ b ∈ s.live, b.size ≠ 0
  | .free _ => True

instance (s : Occupancy) (r : MemoryRequest) : Decidable (r.Admitted s) :=
  match r with
  | .make _ _ => inferInstanceAs (Decidable (_ ∧ _ ∧ _))
  | .free b => inferInstanceAs (Decidable (b ∈ s.live))

instance (s : Occupancy) (r : MemoryRequest) : Decidable (r.Harmless s) :=
  match r with
  | .make _ _ => inferInstanceAs (Decidable (ite _ _ _))
  | .free _ => inferInstanceAs (Decidable True)

/-- Runs of requests. The history has each request and the memory that it found, the latest
first. -/
inductive MemoryHistory : List (Occupancy × MemoryRequest) → Occupancy → Prop
  | fresh : MemoryHistory [] {}
  | request {past : List (Occupancy × MemoryRequest)} {s : Occupancy} {r : MemoryRequest} :
    MemoryHistory past s → r.Admitted s → MemoryHistory ((s, r) :: past) (r.serve s)

namespace Occupancy

variable {s : Occupancy} {shape : List ℤ} {data : Option (List UInt32)} {b c : Buffer}

/-- The live tensors do not disturb each other: their frames are registered, freeing one of them
leaves the frames of the others, and those with elements do not overlap. -/
structure Undisturbed (s : Occupancy) : Prop where
  registered : ∀ b ∈ s.live, b.frame ∈ s.heap.frames
  freed : ∀ b ∈ s.live, ∀ c ∈ s.live, c ≠ b → c.frame ∈ (s.heap.free b).frames
  apart : ∀ b ∈ s.live, ∀ c ∈ s.live, c ≠ b → b.size ≠ 0 → c.size ≠ 0 →
    Disjoint b.frame.span c.frame.span

lemma Undisturbed.start_ne (h : s.Undisturbed) (hb : b ∈ s.live) (hc : c ∈ s.live) (hne : c ≠ b) :
    c.frame.start ≠ b.frame.start :=
  (Frames.mem_release.1 (h.freed b hb c hc hne)).2

/-- The registered frames are those of the live tensors, which start at different words. -/
structure Settled (s : Occupancy) : Prop where
  apart : s.heap.frames.Apart
  owned : ∀ f, f ∈ s.heap.frames ↔ ∃ b ∈ s.live, b.frame = f
  starts : (s.live.map fun b => b.frame.start).Nodup
  recent : ∀ b ∈ s.live, b.serial < s.heap.next
  empty : ∀ b ∈ s.live, b.size = 0 → b.frame.start = 0
  size_eq : ∀ b ∈ s.live, (b.frame.size.toNat : ℤ) = b.size

namespace Settled

variable (h : s.Settled)

include h

lemma mem_frames (hb : b ∈ s.live) : b.frame ∈ s.heap.frames :=
  (h.owned _).2 ⟨b, hb, rfl⟩

lemma eq_of_start_eq (hb : b ∈ s.live) (hc : c ∈ s.live) (hstart : b.frame.start = c.frame.start) :
    b = c :=
  inj_on_of_nodup_map h.starts hb hc hstart

lemma undisturbed : s.Undisturbed := by
  refine ⟨fun b hb => h.mem_frames hb, fun b hb c hc hne => ?_, fun b hb c hc hne _ _ => ?_⟩
  · exact Frames.mem_release.2 ⟨h.mem_frames hc, fun heq => hne (h.eq_of_start_eq hc hb heq)⟩
  · refine h.apart.disjoint (h.mem_frames hb) (h.mem_frames hc) fun heq => hne ?_
    exact (h.eq_of_start_eq hb hc (by rw [heq])).symm

lemma beside_place (shape : List ℤ) :
    ∀ f ∈ s.heap.frames, Frames.Beside f (s.heap.place shape).size.toNat
    (s.heap.place shape).start.toNat :=
  h.apart.beside_fit (word (volume shape))

section

variable (hr : (MemoryRequest.make shape data).Admitted s)
  (hharmless : (MemoryRequest.make shape data).Harmless s)

include hr hharmless

/-- If requests are harmless, a new buffer gets a start of its own. -/
lemma start_ne_place (hb : b ∈ s.live) :
    b.frame.start ≠ (s.heap.place shape).start := by
  by_cases hempty : volume shape = 0
  · rw [MemoryRequest.Harmless, if_pos hempty] at hharmless
    rw [s.heap.place_of_volume_eq_zero hempty]
    exact hharmless b hb
  · rw [MemoryRequest.Harmless, if_neg hempty] at hharmless
    intro hstart
    have hsize := hr.toNat_size
    have hnonneg := hr.volume_nonneg
    have hframe := h.mem_frames hb
    have hstop := h.apart.stop_eq _ hframe
    have hbeside := h.beside_place shape _ hframe
    rw [Frames.Beside, ← hstart] at hbeside
    -- only an empty tensor leaves room at its own start
    have hbsize : b.size = 0 := by
      rw [← h.size_eq b hb]
      omega
    exact hharmless (hstart ▸ h.empty b hb hbsize) b hb hbsize

lemma register_place :
    (s.heap.frames.register (s.heap.place shape)).Apart ∧
      ∀ e, e ∈ s.heap.frames.register (s.heap.place shape) ↔ e = s.heap.place shape ∨
      e ∈ s.heap.frames := by
  have hstart : ∀ e ∈ s.heap.frames, e.start ≠ (s.heap.place shape).start := fun e he => by
    obtain ⟨b, hb, rfl⟩ := (h.owned e).1 he
    exact h.start_ne_place hr hharmless hb
  obtain ⟨hapart, hmem⟩ := h.apart.register hr.stop_eq (h.beside_place shape)
  refine ⟨hapart, fun e => (hmem e).trans (or_congr_right ?_)⟩
  exact ⟨And.left, fun he => ⟨he, hstart e he⟩⟩

lemma make :
    ((MemoryRequest.make shape data).serve s).Settled := by
  obtain ⟨hapart, hmem⟩ := h.register_place hr hharmless
  refine
    { apart := (s.heap.make_frames shape data).symm ▸ hapart
      owned := fun f => ?_
      starts := ?_
      recent := ?_
      empty := ?_
      size_eq := ?_ }
  · simp only [MemoryRequest.serve, Heap.make_frames, Heap.make_fst, hmem, h.owned,
      exists_mem_cons_iff]
    rw [eq_comm]
  · simp only [MemoryRequest.serve, Heap.make_fst, map_cons, nodup_cons]
    refine ⟨fun hold => ?_, h.starts⟩
    obtain ⟨b, hb, hstart⟩ := mem_map.1 hold
    exact h.start_ne_place hr hharmless hb hstart
  · simp only [MemoryRequest.serve, Heap.make_fst, Heap.make_next, forall_mem_cons]
    exact ⟨Nat.lt_succ_self _, fun b hb => Nat.lt_succ_of_lt (h.recent b hb)⟩
  · simp only [MemoryRequest.serve, Heap.make_fst, forall_mem_cons]
    exact ⟨fun hempty => by rw [s.heap.place_of_volume_eq_zero (hr.elements_eq ▸ hempty)], h.empty⟩
  · simp only [MemoryRequest.serve, Heap.make_fst, forall_mem_cons]
    exact ⟨hr.toNat_size.trans hr.elements_eq.symm, h.size_eq⟩

end

lemma free (hb : b ∈ s.live) : ((MemoryRequest.free b).serve s).Settled := by
  have hnodup : s.live.Nodup := h.starts.of_map
  -- erasing a tensor leaves the live ones that start elsewhere
  have hlive : ∀ c, c ∈ s.live.erase b ↔ c ∈ s.live ∧ c.frame.start ≠ b.frame.start := fun c => by
    rw [hnodup.mem_erase_iff, and_comm]
    refine and_congr_right fun hc => not_congr ⟨fun heq => by rw [heq], fun heq => ?_⟩
    exact h.eq_of_start_eq hc hb heq
  refine
    { apart := h.apart.release _
      owned := fun f => ?_
      starts := h.starts.sublist (erase_sublist.map _)
      recent := fun c hc => h.recent c ((hlive c).1 hc).1
      empty := fun c hc => h.empty c ((hlive c).1 hc).1
      size_eq := fun c hc => h.size_eq c ((hlive c).1 hc).1 }
  show f ∈ s.heap.frames.release b.frame.start ↔ ∃ c ∈ s.live.erase b, c.frame = f
  rw [Frames.mem_release, h.owned]
  constructor
  · rintro ⟨⟨c, hc, rfl⟩, hne⟩
    exact ⟨c, (hlive c).2 ⟨hc, hne⟩, rfl⟩
  · rintro ⟨c, hc, rfl⟩
    exact ⟨⟨c, ((hlive c).1 hc).1, rfl⟩, ((hlive c).1 hc).2⟩

lemma serve {r : MemoryRequest} (hr : r.Admitted s) (hharmless : r.Harmless s) :
    (r.serve s).Settled := by
  cases r with
  | make shape data => exact h.make hr hharmless
  | free b => exact h.free hr

lemma harmless_of_undisturbed {r : MemoryRequest} (hserve : (r.serve s).Undisturbed) :
    r.Harmless s := by
  cases r with
  | free b => trivial
  | make shape data =>
    have hstart : ∀ b ∈ s.live, b.frame.start ≠ (s.heap.place shape).start := fun b hb => by
      have hnew : b ≠ ⟨s.heap.next, shape, s.heap.place shape⟩ := fun heq => by
        have hlt := h.recent b hb
        rw [heq] at hlt
        exact Nat.lt_irrefl _ hlt
      exact hserve.start_ne (by simp [MemoryRequest.serve]) (mem_cons_of_mem _ hb) hnew
    rw [MemoryRequest.Harmless]
    split
    · next hempty =>
      rwa [s.heap.place_of_volume_eq_zero hempty] at hstart
    · intro hplace b hb hbsize
      exact hstart b hb (by rw [h.empty b hb hbsize, hplace])

end Settled

end Occupancy

/-! ### Runs of requests -/

namespace MemoryHistory

variable {past : List (Occupancy × MemoryRequest)} {s : Occupancy}

lemma settled (h : MemoryHistory past s) (hharmless : ∀ q ∈ past, q.2.Harmless q.1) :
    s.Settled := by
  induction h with
  | fresh =>
    exact ⟨.nil, by simp, nodup_nil, by simp, by simp, by simp⟩
  | request _ hr ih =>
    obtain ⟨hlatest, hpast⟩ := forall_mem_cons.1 hharmless
    exact (ih hpast).serve hr hlatest

lemma harmless_of_undisturbed (h : MemoryHistory past s) (hpast : ∀ q ∈ past, q.1.Undisturbed)
    (hs : s.Undisturbed) : ∀ q ∈ past, q.2.Harmless q.1 := by
  induction h with
  | fresh => simp
  | request hbefore _ ih =>
    obtain ⟨hfound, hpast⟩ := forall_mem_cons.1 hpast
    have hharmless := ih hpast hfound
    exact forall_mem_cons.2 ⟨(hbefore.settled hharmless).harmless_of_undisturbed hs, hharmless⟩

lemma undisturbed_of_harmless (h : MemoryHistory past s) (hharmless : ∀ q ∈ past,
    q.2.Harmless q.1) :
    ∀ q ∈ past, q.1.Undisturbed := by
  induction h with
  | fresh => simp
  | request hbefore _ ih =>
    obtain ⟨-, hpast⟩ := forall_mem_cons.1 hharmless
    exact forall_mem_cons.2 ⟨(hbefore.settled hpast).undisturbed, ih hpast⟩

/-- In every state of a run the live tensors keep their frames to themselves, if and only if no
empty tensor was made while a live one started at word zero, and none was put there while an empty
one was live. -/
theorem undisturbed_iff (h : MemoryHistory past s) :
    (∀ q ∈ past, q.1.Undisturbed) ∧ s.Undisturbed ↔ ∀ q ∈ past, q.2.Harmless q.1 := by
  constructor
  · rintro ⟨hpast, hs⟩
    exact h.harmless_of_undisturbed hpast hs
  · intro hharmless
    exact ⟨h.undisturbed_of_harmless hharmless, (h.settled hharmless).undisturbed⟩

/-- An empty tensor is made while word zero is free, and a tensor that needs more than the gap there
comes and goes beside it. -/
theorem undisturbed_of_vacant : ∃ past s, MemoryHistory past s ∧
    past.map (·.1.heap.frames.map (·.start)) = [[0, 2, 5], [0, 2], [2], [0, 2], [0], []] ∧
    s.heap.frames = [⟨2, 3, 5⟩, ⟨5, 4, 9⟩] ∧ s.Undisturbed := by
  have hrun : MemoryHistory _ _ :=
    .request (r := .free ⟨2, [3, 0], ⟨0, 0, 0⟩⟩) (.request (r := .make [4] none)
      (.request (r := .make [3, 0] none) (.request (r := .free ⟨0, [2], ⟨0, 2, 2⟩⟩)
        (.request (r := .make [3] (some [7, 8, 9])) (.request (r := .make [2] none) .fresh
          (by decide +kernel)) (by decide +kernel)) (by decide +kernel)) (by decide +kernel))
      (by decide +kernel)) (by decide +kernel)
  exact ⟨_, _, hrun, by decide +kernel, by decide +kernel,
    (hrun.undisturbed_iff.2 (by decide +kernel)).2⟩

/-- An empty tensor takes the frame of the tensor at word zero. -/
theorem not_forall_undisturbed :
    ¬ ∀ (past : List (Occupancy × MemoryRequest)) (s : Occupancy), MemoryHistory past s →
    s.Undisturbed := by
  intro hall
  have hrun : MemoryHistory _ _ :=
    .request (r := .make [0] none) (.request (r := .make [4] none) .fresh (by decide +kernel))
      (by decide +kernel)
  have hlost := (hall _ _ hrun).registered ⟨0, [4], ⟨0, 4, 4⟩⟩ (by decide +kernel)
  exact absurd hlost (by decide +kernel)

end MemoryHistory

end KernelFusion
