/-
Names tell nodes apart.

Memory is named by its number, every other listed node by its stretch and its number in its
cluster. A stretch belongs to one cluster, and the numbers in a cluster are all different.
-/
import KernelFusion.Emit.Names
import KernelFusion.Proofs.Graph.Listing
import KernelFusion.Proofs.Text.Words
import Mathlib.Data.List.Induction

namespace KernelFusion

open List Single

/-- The name of a value. -/
def variableName (stretch i : Nat) : String := "var" ++ toString stretch ++ "_" ++ toString i

/-- The name of a memory. -/
def memoryName (i : Nat) : String := "mem" ++ toString i

variable {n : Nat} {c : Char} {bits : UInt32}

lemma isDigit_of_mem_toString (h : c ∈ (toString n).toList) :
    c.isDigit := by
  rw [Nat.toString_eq_repr, Nat.toList_repr] at h
  exact Nat.isDigit_of_mem_toDigits (by decide) (by decide) h

lemma eq_of_toList_toString {m : Nat} (h : (toString m).toList = (toString n).toList) :
    m = n := by
  have hread := congrArg (fun ds => Nat.ofDigitChars 10 ds 0) h
  simpa [Nat.toString_eq_repr, Nat.toList_repr] using hread

lemma not_mem_toString (hc : c.isDigit = false) : c ∉ (toString n).toList :=
  fun hmem => Bool.false_ne_true (hc.symm.trans (isDigit_of_mem_toString hmem))

lemma isWordChar_of_isDigit (h : c.isDigit) : Text.isWordChar c := by
  simp [Text.isWordChar, Char.isAlphanum, h]

lemma toList_variableName (a b : Nat) :
    (variableName a b).toList
      = ['v', 'a', 'r'] ++ ((toString a).toList ++ '_' :: (toString b).toList) := by
  simp [variableName]

lemma isName_variableName (a b : Nat) : Text.IsName (variableName a b).toList := by
  rw [toList_variableName]
  refine ⟨by simp, fun c hc => ?_⟩
  rcases mem_append.1 hc with hc | hc
  · exact (by decide : ∀ c ∈ ['v', 'a', 'r'], Text.isWordChar c) c hc
  · rcases mem_append.1 hc with hc | hc
    · exact isWordChar_of_isDigit (isDigit_of_mem_toString hc)
    · rcases mem_cons.1 hc with rfl | hc
      · rfl
      · exact isWordChar_of_isDigit (isDigit_of_mem_toString hc)

lemma variableName_inj {a b a' b' : Nat} (h : variableName a b = variableName a' b') :
    a = a' ∧ b = b' := by
  have underscore : ∀ n : Nat, '_' ∉ (toString n).toList := fun n => not_mem_toString (by decide)
  have hl := congrArg String.toList h
  rw [toList_variableName, toList_variableName, append_cancel_left_eq] at hl
  obtain ⟨ha, -, hb⟩ :=
    (append_cons_inj_of_notMem (underscore a) (underscore b)).1 hl
  exact ⟨eq_of_toList_toString ha, eq_of_toList_toString hb⟩

lemma isName_memoryName (i : Nat) : Text.IsName (memoryName i).toList := by
  refine ⟨by simp [memoryName], fun c hc => ?_⟩
  simp only [memoryName, String.toList_append, mem_append] at hc
  rcases hc with hc | hc
  · revert c
    decide
  · exact isWordChar_of_isDigit (isDigit_of_mem_toString hc)

lemma memoryName_inj {i j : Nat} (h : memoryName i = memoryName j) : i = j :=
  eq_of_toList_toString (congrArg String.toList ((String.append_right_inj "mem").1 h))

lemma memoryName_ne_variableName (i a b : Nat) : memoryName i ≠ variableName a b := by
  intro h
  have hl := congrArg String.toList h
  rw [toList_variableName, memoryName, String.toList_append] at hl
  cases (cons.inj hl).1

/-! ### Naming the nodes of a list -/

namespace Naming

/-- The name of a node so far. -/
def of (s : Naming) (n : NodeId) : String := s.names.getD n ""

/-- The number of named nodes of a cluster. -/
def count (s : Naming) (c : Option ClusterId) : Nat := (s.counts.lookup c).getD 0

/-- The number that a node gets if it comes next: memory is numbered through, values by cluster. -/
def nextNumber (g : Graph) (s : Naming) (n : NodeId) : Nat :=
  if (g.node n).isMemory then s.memory else s.count (g.node n).cluster

/-- The nodes are numbered together. -/
def Alike (g : Graph) (m n : NodeId) : Prop :=
  (g.node m).isMemory = (g.node n).isMemory ∧
    ((g.node m).isMemory = false → (g.node m).cluster = (g.node n).cluster)

/-- The nodes of a list have been named, each by its number, and values also by their stretch. -/
structure Named (g : Graph) (l : List NodeId) (stretch number : NodeId → Nat) (s : Naming) :
    Prop where
  size : s.names.size = g.nodes.size
  other : ∀ n, n ∉ l → s.of n = ""
  memory : ∀ n ∈ l, (g.node n).isMemory → s.of n = memoryName (number n)
  value : ∀ n ∈ l, (g.node n).isMemory = false → s.of n = variableName (stretch n) (number n)
  stretch_le : ∀ n ∈ l, stretch n ≤ s.stretch
  current : ∀ n ∈ l, stretch n = s.stretch → (g.node n).cluster = s.previous
  number_lt : ∀ n ∈ l, number n < s.nextNumber g n
  together : ∀ m ∈ l, ∀ n ∈ l, stretch m = stretch n → (g.node m).cluster = (g.node n).cluster
  apart : ∀ m ∈ l, ∀ n ∈ l, Alike g m n → number m = number n → m = n

variable {g : Graph} {l : List NodeId} {stretch number : NodeId → Nat} {s : Naming} {n m : NodeId}

lemma named_nil (g : Graph) :
    Named g [] (fun _ => 0) (fun _ => 0) { names := Array.replicate g.nodes.size "" } where
  size := Array.size_replicate
  other := fun n _ => by
    simp only [of, Array.getD_eq_getD_getElem?, Array.getElem?_replicate]
    split <;> rfl
  memory := by simp
  value := by simp
  stretch_le := by simp
  current := by simp
  number_lt := by simp
  together := by simp
  apart := by simp

/-- The stretch of the next node. -/
def nextStretch (s : Naming) (c : Option ClusterId) : Nat :=
  if c = s.previous then s.stretch else s.stretch + 1

lemma stretch_step (g : Graph) (s : Naming) (n : NodeId) :
    (s.step g n).stretch = s.nextStretch (g.node n).cluster := by
  unfold step nextStretch
  split <;> rfl

lemma previous_step (g : Graph) (s : Naming) (n : NodeId) :
    (s.step g n).previous = (g.node n).cluster := by
  unfold step
  split <;> rfl

/-- The name that the next node gets. -/
def nextName (g : Graph) (s : Naming) (n : NodeId) : String :=
  if (g.node n).isMemory then memoryName (s.nextNumber g n)
  else variableName (s.nextStretch (g.node n).cluster) (s.nextNumber g n)

lemma names_step (g : Graph) (s : Naming) (n : NodeId) :
    (s.step g n).names = s.names.setIfInBounds n (s.nextName g n) := by
  unfold step nextName nextNumber
  split <;> rfl

lemma of_step (hn : n < s.names.size) (m : NodeId) :
    (s.step g n).of m = if m = n then s.nextName g n else s.of m := by
  rw [of, names_step]
  simp only [of, Array.getD_eq_getD_getElem?, Array.getElem?_setIfInBounds]
  by_cases hm : m = n
  · simp [hm, hn]
  · simp [hm, Ne.symm hm]

lemma Alike.nextNumber_eq (h : Alike g m n) (s : Naming) :
    s.nextNumber g m = s.nextNumber g n := by
  unfold nextNumber
  rw [← h.1]
  split
  · rfl
  · next hmem => rw [h.2 (by simpa using hmem)]

lemma nextNumber_step (g : Graph) (s : Naming) (m n : NodeId) :
    s.nextNumber g m ≤ (s.step g n).nextNumber g m ∧
      (Alike g m n → s.nextNumber g m < (s.step g n).nextNumber g m) := by
  unfold nextNumber Alike step count
  cases hm : (g.node m).isMemory <;> cases hn : (g.node n).isMemory
  · by_cases hc : (g.node m).cluster = (g.node n).cluster
    · simp [hc]
    · simp [hc, lookup_cons, beq_false_of_ne hc]
  all_goals simp

lemma le_nextStretch (s : Naming) (c : Option ClusterId) : s.stretch ≤ s.nextStretch c := by
  unfold nextStretch
  split <;> omega

lemma Named.cluster_of_nextStretch (h : Named g l stretch number s) (hm : m ∈ l)
    {c : Option ClusterId} (hs : stretch m = s.nextStretch c) : (g.node m).cluster = c := by
  unfold nextStretch at hs
  split at hs
  · next hc => rw [h.current m hm hs, hc]
  · have := h.stretch_le m hm
    omega

/-- One step of naming: the node gets the next number of its kind. -/
lemma Named.step (h : Named g l stretch number s) (hn : n < g.nodes.size) (hnew : n ∉ l) :
    Named g (l ++ [n]) (Function.update stretch n (s.nextStretch (g.node n).cluster))
      (Function.update number n (s.nextNumber g n)) (s.step g n) := by
  have old : ∀ {m}, m ∈ l → m ≠ n := fun hm e => hnew (e ▸ hm)
  have split : ∀ {m}, m ∈ l ++ [n] → m ∈ l ∨ m = n := fun hm => by simpa using hm
  have names : ∀ m, (s.step g n).of m = if m = n then s.nextName g n else s.of m :=
    of_step (by rw [h.size]; exact hn)
  constructor
  case size => rw [names_step, Array.size_setIfInBounds, h.size]
  case other =>
    intro m hm
    simp only [mem_append, mem_singleton, not_or] at hm
    rw [names, if_neg hm.2, h.other m hm.1]
  case memory =>
    intro m hm hmem
    rcases split hm with hm | rfl
    · rw [names, if_neg (old hm), Function.update_of_ne (old hm)]
      exact h.memory m hm hmem
    · rw [names, if_pos rfl, nextName, if_pos hmem, Function.update_self]
  case value =>
    intro m hm hmem
    rcases split hm with hm | rfl
    · rw [names, if_neg (old hm), Function.update_of_ne (old hm), Function.update_of_ne (old hm)]
      exact h.value m hm hmem
    · rw [names, if_pos rfl, nextName, if_neg (by simp [hmem]), Function.update_self,
        Function.update_self]
  case stretch_le =>
    intro m hm
    rw [stretch_step]
    rcases split hm with hm | rfl
    · rw [Function.update_of_ne (old hm)]
      exact (h.stretch_le m hm).trans (le_nextStretch s _)
    · rw [Function.update_self]
  case current =>
    intro m hm hs
    rw [stretch_step] at hs
    rw [previous_step]
    rcases split hm with hm | rfl
    · rw [Function.update_of_ne (old hm)] at hs
      exact h.cluster_of_nextStretch hm hs
    · rfl
  case number_lt =>
    intro m hm
    obtain ⟨hle, hlt⟩ := nextNumber_step g s m n
    rcases split hm with hm | rfl
    · rw [Function.update_of_ne (old hm)]
      exact (h.number_lt m hm).trans_le hle
    · rw [Function.update_self]
      exact hlt ⟨rfl, fun _ => rfl⟩
  case together =>
    intro m hm k hk hs
    rcases split hm with hm' | rfl <;> rcases split hk with hk' | rfl
    · rw [Function.update_of_ne (old hm'), Function.update_of_ne (old hk')] at hs
      exact h.together m hm' k hk' hs
    · rw [Function.update_of_ne (old hm'), Function.update_self] at hs
      exact h.cluster_of_nextStretch hm' hs
    · rw [Function.update_of_ne (old hk'), Function.update_self] at hs
      exact (h.cluster_of_nextStretch hk' hs.symm).symm
    · rfl
  case apart =>
    intro m hm k hk halike hi
    rcases split hm with hm' | rfl <;> rcases split hk with hk' | rfl
    · rw [Function.update_of_ne (old hm'), Function.update_of_ne (old hk')] at hi
      exact h.apart m hm' k hk' halike hi
    · rw [Function.update_of_ne (old hm'), Function.update_self, ← halike.nextNumber_eq] at hi
      exact absurd hi (h.number_lt m hm').ne
    · rw [Function.update_of_ne (old hk'), Function.update_self, halike.nextNumber_eq] at hi
      exact absurd hi (h.number_lt k hk').ne'
    · rfl

lemma exists_named (g : Graph) (l : List NodeId) (hl : l.Nodup)
    (hsize : ∀ n ∈ l, n < g.nodes.size) :
    ∃ stretch number, Named g l stretch number
      (l.foldl (Naming.step g) { names := Array.replicate g.nodes.size "" }) := by
  induction l using reverseRecOn with
  | nil => exact ⟨_, _, named_nil g⟩
  | append_singleton l n ih =>
    obtain ⟨hl', hn⟩ : l.Nodup ∧ n ∉ l := by
      rw [nodup_append] at hl
      exact ⟨hl.1, fun hmem => hl.2.2 n hmem n mem_cons_self rfl⟩
    obtain ⟨stretch, number, h⟩ := ih hl' fun m hm => hsize m (mem_append_left _ hm)
    rw [foldl_append]
    exact ⟨_, _, h.step (hsize n (by simp)) hn⟩

end Naming

/-! ### The names of a program -/

namespace Graph

variable {g : Graph} {l : List NodeId} {m n : NodeId}

lemma Lists.exists_named (h : g.Lists l) :
    ∃ stretch number s, Naming.Named g l stretch number s ∧ ∀ n, g.names.of n = s.of n := by
  obtain ⟨stretch, number, hs⟩ :=
    Naming.exists_named g l h.chain.nodup fun n hn => h.lt_size hn
  refine ⟨stretch, number, _, hs, fun n => ?_⟩
  rw [names, h.order]
  rfl

lemma Lists.name_eq (h : g.Lists l) (hn : n ∈ l) (hmem : (g.node n).isMemory = false) :
    ∃ a b, g.names.of n = variableName a b := by
  obtain ⟨stretch, number, s, hs, hof⟩ := h.exists_named
  exact ⟨_, _, (hof n).trans (hs.value n hn hmem)⟩

lemma Lists.names_inj (h : g.Lists l) (hm : m ∈ l) (hn : n ∈ l)
    (he : g.names.of m = g.names.of n) : m = n := by
  obtain ⟨stretch, number, s, hs, hof⟩ := h.exists_named
  rw [hof, hof] at he
  cases hmem : (g.node m).isMemory <;> cases hnem : (g.node n).isMemory
  · rw [hs.value m hm hmem, hs.value n hn hnem] at he
    obtain ⟨hstretch, hnumber⟩ := variableName_inj he
    exact hs.apart m hm n hn ⟨hmem.trans hnem.symm, fun _ => hs.together m hm n hn hstretch⟩ hnumber
  · rw [hs.value m hm hmem, hs.memory n hn hnem] at he
    exact absurd he.symm (memoryName_ne_variableName _ _ _)
  · rw [hs.memory m hm hmem, hs.value n hn hnem] at he
    exact absurd he (memoryName_ne_variableName _ _ _)
  · rw [hs.memory m hm hmem, hs.memory n hn hnem] at he
    have halike : Naming.Alike g m n :=
      ⟨hmem.trans hnem.symm, fun hf => absurd (hmem.symm.trans hf) (by simp)⟩
    exact hs.apart m hm n hn halike (memoryName_inj he)

lemma Lists.name_cases (h : g.Lists l) (hn : n ∈ l) :
    (∃ i, g.names.of n = memoryName i) ∨ ∃ a b, g.names.of n = variableName a b := by
  obtain ⟨stretch, number, s, hs, hof⟩ := h.exists_named
  rw [hof]
  cases hmem : (g.node n).isMemory with
  | true => exact .inl ⟨_, hs.memory n hn hmem⟩
  | false => exact .inr ⟨_, _, hs.value n hn hmem⟩

lemma Lists.name_of_not_mem (h : g.Lists l) (hn : n ∉ l) : g.names.of n = "" := by
  obtain ⟨stretch, number, s, hs, hof⟩ := h.exists_named
  rw [hof, hs.other n hn]

lemma Lists.isWordChar_of_mem_name (h : g.Lists l)
    (hc : c ∈ (g.names.of n).toList) : Text.isWordChar c := by
  by_cases hn : n ∈ l
  · rcases h.name_cases hn with ⟨i, hi⟩ | ⟨a, b, hab⟩
    · exact (isName_memoryName i).2 c (hi ▸ hc)
    · exact (isName_variableName a b).2 c (hab ▸ hc)
  · rw [h.name_of_not_mem hn] at hc
    simp at hc

end Graph

/-! ### The texts of operands -/

/-- The characters of names and of numbers. -/
def isOperandChar (c : Char) : Bool := Text.isWordChar c || c == '.' || c == '-'

lemma isOperandChar_of_isWordChar (h : Text.isWordChar c) :
    isOperandChar c := by
  simp [isOperandChar, h]

lemma isOperandChar_of_mem_toString (h : c ∈ (toString n).toList) :
    isOperandChar c :=
  isOperandChar_of_isWordChar (isWordChar_of_isDigit (isDigit_of_mem_toString h))

lemma Single.isDigit_of_mem_sixDigits (h : c ∈ (sixDigits n).toList) : c.isDigit := by
  simp only [sixDigits, String.toList_ofList, mem_append] at h
  rcases h with h | h
  · rw [eq_of_mem_replicate h]
    decide
  · exact Nat.isDigit_of_mem_toDigits (by decide) (by decide) h

lemma Single.isOperandChar_of_mem_magnitudeText
    (h : c ∈ (magnitudeText bits).toList) : isOperandChar c := by
  unfold magnitudeText at h
  split at h
  · revert c
    split <;> decide
  · simp only [unitsText, String.toList_append, mem_append] at h
    rcases h with (h | h) | h
    · exact isOperandChar_of_mem_toString h
    · revert c
      decide
    · exact isOperandChar_of_isWordChar (isWordChar_of_isDigit (isDigit_of_mem_sixDigits h))

lemma Single.isOperandChar_of_mem_sixPlaces (h : c ∈ (sixPlaces bits).toList) :
    isOperandChar c := by
  unfold sixPlaces at h
  split at h
  · rw [String.toList_append, mem_append] at h
    rcases h with h | h
    · revert c
      decide
    · exact isOperandChar_of_mem_magnitudeText h
  · exact isOperandChar_of_mem_magnitudeText h

lemma isOperandChar_of_mem_toString_int {i : Int} (h : c ∈ (toString i).toList) :
    isOperandChar c := by
  cases i with
  | ofNat n => exact isOperandChar_of_mem_toString h
  | negSucc n =>
    have hneg : c ∈ ("-" ++ toString (n + 1)).toList := h
    rw [String.toList_append, mem_append] at hneg
    rcases hneg with hneg | hneg
    · exact (by decide : ∀ c ∈ "-".toList, isOperandChar c) c hneg
    · exact isOperandChar_of_mem_toString hneg

lemma Node.isOperandChar_of_mem_constantText {e : Node}
    (h : c ∈ e.constantText.toList) : isOperandChar c := by
  unfold Node.constantText at h
  split at h
  · split at h
    · rw [String.toList_append, mem_append] at h
      rcases h with h | h
      · exact isOperandChar_of_mem_sixPlaces h
      · revert c
        decide
    · exact isOperandChar_of_mem_toString_int h
    · rw [String.toList_append, mem_append] at h
      rcases h with h | h
      · exact isOperandChar_of_mem_toString h
      · revert c
        decide
    · simp at h
    · simp at h
  · simp at h

lemma Graph.Lists.isOperandChar_of_mem_valueName {g : Graph} {l : List NodeId} {n : NodeId}
    (h : g.Lists l) (hc : c ∈ (g.valueName g.names n).toList) :
    isOperandChar c := by
  unfold Graph.valueName at hc
  split at hc
  · exact Node.isOperandChar_of_mem_constantText hc
  · exact isOperandChar_of_isWordChar (h.isWordChar_of_mem_name hc)

end KernelFusion
