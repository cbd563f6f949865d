/-
Editing a program.

The list of the nodes stays coherent under all edits, with two exceptions. Taking out the node at
the cursor when nothing is in front of it leaves no cursor, and what is recorded next enters in
front of whatever followed the last insertion. Taking out the last node leaves it registered as the
last one.
-/
import KernelFusion.Program
import KernelFusion.Proofs.Graph.Listing
import KernelFusion.Proofs.Recording.Forms

namespace KernelFusion

open List

/-- A node that is going to be recorded. -/
structure Draft where
  op : Operation
  type : Scalar
  args : List Argument

/-- Records the node. -/
def Draft.record (d : Draft) : Build Unit := do
  let _ ← Build.record d.op d.type d.args

lemma Draft.record_eq {g : Graph} (h : g.recording) (d : Draft) :
    d.record g = .ok ⟨⟩ (g.insert d.op d.type d.args) :=
  bind_of_ok (Build.record_eq h d.op d.type d.args)

/-- One edit of a program. -/
inductive Edit where
  | record (d : Draft)
  | placed (p : Graph.Place) (n : NodeId) (inCluster : Bool) (ds : List Draft)
  | remove (n : NodeId)

/-- Makes an edit. -/
def Edit.run : Edit → Build Unit
  | .record d => d.record
  | .placed p n inCluster ds => Build.placed p n inCluster (ds.forM Draft.record)
  | .remove n => modify fun g => g.remove n

namespace Graph

variable {g g' : Graph} {l l₁ l₂ : List NodeId} {n m : NodeId}

/-! ### Coherent lists -/

/-- Going from the first node to its neighbours runs through every node once, neighbours know each
other, and the first node is the one with nothing in front of it. -/
structure Coherent (g : Graph) : Prop where
  once : g.order.Nodup
  visits : ∀ n, n ∈ g.order ↔ n ∈ g.created
  next : ∀ n ∈ g.created, ∀ m, g.next? n = some m → m ∈ g.created ∧ g.prev? m = some n
  prev : ∀ n ∈ g.created, ∀ m, g.prev? n = some m → m ∈ g.created ∧ g.next? m = some n
  first : ∀ n, g.first = some n ↔ n ∈ g.created ∧ g.prev? n = none

/-- Moreover the last node is the one with nothing behind it. -/
structure FullyCoherent (g : Graph) : Prop extends g.Coherent where
  last : ∀ n, g.last = some n ↔ n ∈ g.created ∧ g.next? n = none

/-- The state between two edits of a coherent list: the cursor, if there is one, is at a node of the
list. -/
structure Editable (g : Graph) : Prop where
  lists : g.Lists g.order
  visits : ∀ n, n ∈ g.order ↔ n ∈ g.created
  cursor : ∀ c, g.cursor = some c → c ∈ g.order
  recording : g.recording

lemma Lists.editable (h : g.Lists l) (hvisits : ∀ n, n ∈ l ↔ n ∈ g.created)
    (hcursor : ∀ c, g.cursor = some c → c ∈ l) (hrecording : g.recording) : g.Editable := by
  obtain rfl := h.order
  exact ⟨h, hvisits, hcursor, hrecording⟩

lemma Lists.first_eq_some_iff (h : g.Lists l) : g.first = some n ↔ n ∈ l ∧ g.prev? n = none := by
  rw [h.first]
  constructor
  · intro hhead
    obtain ⟨t, rfl⟩ := head?_eq_some_iff.1 hhead
    exact ⟨mem_cons_self, h.prev (a := [])⟩
  · rintro ⟨hn, hprev⟩
    obtain ⟨a, b, rfl⟩ := append_of_mem hn
    rw [h.prev, getLast?_eq_none_iff] at hprev
    rw [hprev]
    rfl

lemma Lists.getLast?_eq_some_iff (h : g.Lists l) : l.getLast? = some n ↔ n ∈ l ∧
    g.next? n = none := by
  constructor
  · intro hlast
    obtain ⟨a, rfl⟩ := List.getLast?_eq_some_iff.1 hlast
    exact ⟨by simp, h.next⟩
  · rintro ⟨hn, hnext⟩
    obtain ⟨a, b, rfl⟩ := append_of_mem hn
    rw [h.next, head?_eq_none_iff] at hnext
    rw [hnext, getLast?_concat]

lemma Editable.coherent (h : g.Editable) : g.Coherent := by
  refine ⟨h.lists.chain.nodup, h.visits, fun n hn m hm => ?_, fun n hn m hm => ?_, fun n => ?_⟩
  · obtain ⟨a, b, hsplit⟩ := append_of_mem ((h.visits n).2 hn)
    rw [Graph.next?, h.lists.chain.next hsplit, head?_eq_some_iff] at hm
    obtain ⟨b, rfl⟩ := hm
    exact ⟨(h.visits m).1 (by simp [hsplit]), h.lists.prev_neighbour hsplit⟩
  · obtain ⟨a, b, hsplit⟩ := append_of_mem ((h.visits n).2 hn)
    rw [Graph.prev?, h.lists.chain.prev hsplit, getLast?_eq_some_iff] at hm
    obtain ⟨a, rfl⟩ := hm
    refine ⟨(h.visits m).1 (by simp [hsplit]), ?_⟩
    exact h.lists.chain.next (a := a) (b := n :: b) (by simpa using hsplit)
  · rw [h.lists.first_eq_some_iff, h.visits]

lemma Editable.fullyCoherent_iff (h : g.Editable) : g.FullyCoherent ↔
    g.last = g.order.getLast? := by
  constructor
  · intro hfull
    refine Option.ext fun n => ?_
    rw [hfull.last, ← h.visits, h.lists.getLast?_eq_some_iff]
  · intro hlast
    refine ⟨h.coherent, fun n => ?_⟩
    rw [hlast, h.lists.getLast?_eq_some_iff, h.visits]

/-! ### Recording -/

/-- Nodes are being recorded between two parts of a coherent list. -/
structure Recordable (g : Graph) (l₁ l₂ : List NodeId) : Prop extends g.Splits l₁ l₂ where
  visits : ∀ n, n ∈ l₁ ++ l₂ ↔ n ∈ g.created
  recording : g.recording

lemma Recordable.insert (h : g.Recordable l₁ l₂) (d : Draft) :
    (g.insert d.op d.type d.args).Recordable (l₁ ++ [g.nodes.size]) l₂ := by
  refine ⟨h.toSplits.insert d.op d.type d.args, fun n => ?_, h.recording⟩
  show _ ↔ n ∈ g.created ++ [g.nodes.size]
  rw [mem_append (s := g.created), ← h.visits]
  simp only [mem_append]
  tauto

lemma Recordable.last_insert (h : g.Recordable l₁ l₂) (d : Draft)
    (hlast : g.last = (l₁ ++ l₂).getLast?) :
    (g.insert d.op d.type d.args).last = (l₁ ++ [g.nodes.size] ++ l₂).getLast? := by
  show (if g.following = none then some g.nodes.size else g.last) = _
  rw [h.following, hlast]
  cases l₂ with
  | nil => simp
  | cons x l₂ => simp

lemma Recordable.records (ds : List Draft) (h : g.Recordable l₁ l₂)
    (hrun : ds.forM Draft.record g = .ok ⟨⟩ g') :
    ∃ new, g'.Recordable (l₁ ++ new) l₂ ∧
      (g.last = (l₁ ++ l₂).getLast? → g'.last = (l₁ ++ new ++ l₂).getLast?) := by
  induction ds generalizing g l₁ with
  | nil =>
    cases hrun
    exact ⟨[], by simpa using h, by simp⟩
  | cons d ds ih =>
    obtain ⟨⟨⟩, g₁, hd, hrun⟩ := bind_eq_ok.1 hrun
    cases (Draft.record_eq h.recording d).symm.trans hd
    obtain ⟨new, hnew, hlast⟩ := ih (h.insert d) hrun
    refine ⟨g.nodes.size :: new, by simpa using hnew, fun hg => ?_⟩
    simpa using hlast (h.last_insert d hg)

/-- Without a cursor, nodes enter in front of the first one. -/
def Aligned (g : Graph) : Prop := g.cursor = none → g.ahead = g.first

lemma Editable.recordable (h : g.Editable) (haligned : g.Aligned) :
    ∃ l₁ l₂, g.order = l₁ ++ l₂ ∧ g.Recordable l₁ l₂ := by
  cases hcursor : g.cursor with
  | none =>
    refine ⟨[], g.order, rfl, ⟨⟨h.lists, hcursor, fun _ => ?_⟩, h.visits, h.recording⟩⟩
    rw [haligned hcursor, h.lists.first]
  | some c =>
    obtain ⟨a, b, hsplit⟩ := append_of_mem (h.cursor c hcursor)
    have hsplit' : g.order = a ++ [c] ++ b := by simpa using hsplit
    refine ⟨a ++ [c], b, hsplit',
      ⟨⟨hsplit' ▸ h.lists, ?_, by simp⟩, hsplit' ▸ h.visits, h.recording⟩⟩
    rw [hcursor, getLast?_concat]

/-- A record without a cursor loses nodes unless the list goes on with its first one. -/
lemma Editable.not_coherent_insert (h : g.Editable) (d : Draft) (hcursor : g.cursor = none)
    (hahead : g.ahead ≠ g.first) : ¬ (g.insert d.op d.type d.args).Coherent := by
  intro hnew
  have hid : g.chain.links.size = g.nodes.size := h.lists.size
  have hfollowing : g.following = g.ahead := by rw [following, hcursor]
  have hchain : (g.insert d.op d.type d.args).chain = g.chain.insert none g.ahead := by
    rw [← hcursor, ← hfollowing]
    rfl
  have hfirst : (g.insert d.op d.type d.args).first = some g.nodes.size := if_pos hcursor
  have hcreated : ∀ n, n ∈ (g.insert d.op d.type d.args).created ↔ n ∈ g.created ∨
    n = g.nodes.size :=
    fun n => by
      show n ∈ g.created ++ [g.nodes.size] ↔ _
      simp
  obtain ⟨-, hfront⟩ := (hnew.first _).1 hfirst
  cases hold : g.first with
  | none =>
    -- the list was empty, and the new node has a neighbour that is none of its nodes
    obtain ⟨m, hm⟩ := Option.ne_none_iff_exists'.1 (hold ▸ hahead)
    have hnext : (g.insert d.op d.type d.args).next? g.nodes.size = some m := by
      rw [Graph.next?, hchain, Chain.next?_insert _ _ _ (Nat.le_of_eq hid.symm), hid, hm]
      simp
    obtain ⟨hmem, hprev⟩ := hnew.next _ ((hcreated _).2 (.inr rfl)) m hnext
    rcases (hcreated m).1 hmem with hmem | rfl
    · rw [← h.visits] at hmem
      rw [h.lists.first, head?_eq_none_iff] at hold
      rw [hold] at hmem
      cases hmem
    · rw [hfront] at hprev
      cases hprev
  | some f =>
    -- the old first node still has nothing in front of it
    obtain ⟨hf, hprev⟩ := h.lists.first_eq_some_iff.1 hold
    have hlt : f < g.nodes.size := h.lists.lt_size hf
    have hprev' : (g.insert d.op d.type d.args).prev? f = none := by
      rw [Graph.prev?, hchain, Chain.prev?_insert _ _ _ (hid ▸ Nat.le_of_lt hlt),
        if_neg (hold ▸ hahead), if_neg (hid ▸ Nat.ne_of_lt hlt)]
      exact hprev
    have heq := (hnew.first f).2 ⟨(hcreated f).2 (.inl ((h.visits f).1 hf)), hprev'⟩
    rw [hfirst] at heq
    exact absurd (Option.some.inj heq) (Nat.ne_of_gt hlt)

/-! ### Other places -/

/-- Recording beside a node keeps the graph editable. -/
lemma Editable.placed {p : Place} {inCluster : Bool} {ds : List Draft} (h : g.Editable)
    (hn : n ∈ g.order) (hrun : Build.placed p n inCluster (ds.forM Draft.record) g = .ok ⟨⟩ g') :
    g'.Editable ∧ (g.last = g.order.getLast? → g'.last = g'.order.getLast?) := by
  obtain ⟨g₁, hact, rfl⟩ := Build.placed_eq_ok.1 hrun
  obtain ⟨a, b, hsplit⟩ := append_of_mem hn
  have hlists : g.Lists (a ++ n :: b) := hsplit ▸ h.lists
  obtain ⟨l₁, l₂, horder, hins⟩ : ∃ l₁ l₂, g.order = l₁ ++ l₂ ∧
      (g.enter p n inCluster).Recordable l₁ l₂ := by
    cases p with
    | before => exact ⟨a, n :: b, hsplit, hlists.enter_before inCluster,
        hsplit ▸ h.visits, h.recording⟩
    | after =>
      have hsplit' : g.order = a ++ [n] ++ b := by simpa using hsplit
      exact ⟨a ++ [n], b, hsplit', hlists.enter_after inCluster, hsplit' ▸ h.visits, h.recording⟩
  obtain ⟨new, hnew, hlast⟩ := hins.records ds hact
  have hlists' : (g₁.leave g).Lists (l₁ ++ new ++ l₂) := hnew.toLists.congr rfl rfl rfl
  refine ⟨hlists'.editable hnew.visits (fun c hc => ?_) hnew.recording, fun hg => ?_⟩
  · -- the old cursor is still there
    have hmem := h.cursor c hc
    rw [horder] at hmem
    simp only [mem_append] at hmem ⊢
    tauto
  · rw [hlists'.order]
    refine hlast ?_
    rw [← horder, ← hg]
    cases p <;> rfl

/-! ### Taking nodes out -/

/-- Removal keeps the graph editable, and its last node unless that one left. -/
lemma Editable.remove (h : g.Editable) (hn : n ∈ g.order) : (g.remove n).Editable ∧
    (g.last = g.order.getLast? →
      ((g.remove n).last = (g.remove n).order.getLast? ↔ g.next? n ≠ none)) := by
  obtain ⟨a, b, hsplit⟩ := append_of_mem hn
  have hlists : g.Lists (a ++ n :: b) := hsplit ▸ h.lists
  have hnot := not_mem_of_nodup_append hlists.chain.nodup
  have hlists' : (g.remove n).Lists (a ++ b) := hlists.remove
  have hmem : ∀ m, m ∈ a ++ b ↔ m ∈ g.order ∧ m ≠ n := by
    intro m
    rw [hsplit]
    simp only [mem_append, mem_cons]
    constructor
    · intro hm
      exact ⟨hm.imp_right .inr, fun heq => (heq ▸ hm).elim hnot.1 hnot.2⟩
    · rintro ⟨hm | rfl | hm, hne⟩
      · exact .inl hm
      · exact absurd rfl hne
      · exact .inr hm
  refine ⟨hlists'.editable (fun m => ?_) (fun c hc => ?_) h.recording, fun hg => ?_⟩
  · show _ ↔ m ∈ g.created.filter (· ≠ n)
    rw [hmem, h.visits]
    simp
  · have hcursor : (if g.cursor = some n then g.prev? n else g.cursor) = some c := hc
    by_cases hat : g.cursor = some n
    · -- the cursor moves to the node in front
      rw [if_pos hat, hlists.prev] at hcursor
      exact mem_append_left _ (mem_of_getLast? hcursor)
    · rw [if_neg hat] at hcursor
      refine (hmem c).2 ⟨h.cursor c hcursor, ?_⟩
      rintro rfl
      exact hat hcursor
  · have hlast : (g.remove n).last = (a ++ n :: b).getLast? := hg.trans (by rw [hsplit])
    rw [hlast, hlists'.order, hlists.next]
    cases b with
    | nil =>
      rw [getLast?_concat, append_nil]
      refine iff_of_false (fun heq => hnot.1 (mem_of_getLast? heq.symm)) (by simp)
    | cons x b => simp

end Graph

/-! ### Runs -/

namespace Edit

variable {g g' : Graph} {e : Edit}

/-- The edit is about a node of the list. -/
def Fits (g : Graph) : Edit → Prop
  | .record _ => True
  | .placed _ n _ _ => n ∈ g.order
  | .remove n => n ∈ g.order

/-- If the edit records at the cursor, the list goes on with its first node if there is no
cursor. -/
def KeepsNodes (g : Graph) : Edit → Prop
  | .record _ => g.Aligned
  | .placed _ _ _ _ => True
  | .remove _ => True

/-- If the edit takes a node out, it is not the last one. -/
def KeepsLast (g : Graph) : Edit → Prop
  | .record _ => True
  | .placed _ _ _ _ => True
  | .remove n => g.next? n ≠ none

instance (g : Graph) (e : Edit) : Decidable (e.Fits g) :=
  match e with
  | .record _ => inferInstanceAs (Decidable True)
  | .placed _ n _ _ => inferInstanceAs (Decidable (n ∈ g.order))
  | .remove n => inferInstanceAs (Decidable (n ∈ g.order))

instance (g : Graph) (e : Edit) : Decidable (e.KeepsNodes g) :=
  match e with
  | .record _ => inferInstanceAs (Decidable (g.cursor = none → g.ahead = g.first))
  | .placed _ _ _ _ => inferInstanceAs (Decidable True)
  | .remove _ => inferInstanceAs (Decidable True)

instance (g : Graph) (e : Edit) : Decidable (e.KeepsLast g) :=
  match e with
  | .record _ => inferInstanceAs (Decidable True)
  | .placed _ _ _ _ => inferInstanceAs (Decidable True)
  | .remove n => inferInstanceAs (Decidable (g.next? n ≠ none))

lemma KeepsNodes.editable (hkeeps : e.KeepsNodes g) (h : g.Editable) (hfits : e.Fits g)
    (hrun : e.run g = .ok ⟨⟩ g') : g'.Editable ∧
      (g.last = g.order.getLast? → (g'.last = g'.order.getLast? ↔ e.KeepsLast g)) := by
  cases e with
  | record d =>
    cases (Draft.record_eq h.recording d).symm.trans hrun
    obtain ⟨l₁, l₂, horder, hins⟩ := h.recordable hkeeps
    have hnew := hins.insert d
    refine ⟨hnew.toLists.editable hnew.visits (fun c hc => ?_) hnew.recording, fun hg => ?_⟩
    · have hcursor : some g.nodes.size = some c := hc
      simp [← Option.some.inj hcursor]
    · rw [hnew.toLists.order]
      exact iff_of_true (hins.last_insert d (horder ▸ hg)) trivial
  | placed p n inCluster ds =>
    obtain ⟨hg', hlast⟩ := h.placed hfits hrun
    exact ⟨hg', fun hg => iff_of_true (hlast hg) trivial⟩
  | remove n =>
    cases hrun
    exact h.remove hfits

lemma keepsNodes_of_coherent (h : g.Editable) (hrun : e.run g = .ok ⟨⟩ g') (hg' : g'.Coherent) :
    e.KeepsNodes g := by
  cases e with
  | record d =>
    cases (Draft.record_eq h.recording d).symm.trans hrun
    intro hcursor
    by_contra hahead
    exact h.not_coherent_insert d hcursor hahead hg'
  | placed p n inCluster ds => trivial
  | remove n => trivial

end Edit

/-- Runs of edits from the empty program on. The history has each edit and the program that it
found, the latest first. -/
inductive EditHistory : List (Graph × Edit) → Graph → Prop
  | opened : EditHistory [] Graph.opened
  | edit {past : List (Graph × Edit)} {g g' : Graph} {e : Edit} :
    EditHistory past g → e.Fits g → e.run g = .ok ⟨⟩ g' → EditHistory ((g, e) :: past) g'

namespace EditHistory

variable {past : List (Graph × Edit)} {g : Graph}

lemma editable_opened : Graph.opened.Editable := by
  have hlists : Graph.opened.Lists [] := ⟨Chain.lists_nil _, rfl, rfl⟩
  exact hlists.editable (by simp [Graph.opened]) (by simp [Graph.opened]) rfl

section

variable (h : EditHistory past g)

include h

lemma editable (hkeeps : ∀ s ∈ past, s.2.KeepsNodes s.1) : g.Editable := by
  induction h with
  | opened => exact editable_opened
  | edit _ hfits hrun ih =>
    obtain ⟨he, hpast⟩ := forall_mem_cons.1 hkeeps
    exact (he.editable (ih hpast) hfits hrun).1

lemma keepsNodes_of_coherent (hpast : ∀ s ∈ past, s.1.Coherent) (hg : g.Coherent) :
    ∀ s ∈ past, s.2.KeepsNodes s.1 := by
  induction h with
  | opened => simp
  | edit hbefore hfits hrun ih =>
    obtain ⟨hfound, hpast⟩ := forall_mem_cons.1 hpast
    have hkeeps := ih hpast hfound
    exact forall_mem_cons.2
      ⟨Edit.keepsNodes_of_coherent (hbefore.editable hkeeps) hrun hg, hkeeps⟩

lemma coherent_of_keepsNodes (hkeeps : ∀ s ∈ past, s.2.KeepsNodes s.1) :
    (∀ s ∈ past, s.1.Coherent) ∧ g.Coherent := by
  refine ⟨?_, (h.editable hkeeps).coherent⟩
  induction h with
  | opened => simp
  | edit hbefore _ _ ih =>
    obtain ⟨-, hpast⟩ := forall_mem_cons.1 hkeeps
    exact forall_mem_cons.2 ⟨(hbefore.editable hpast).coherent, ih hpast⟩

lemma fullyCoherent_iff (hkeeps : ∀ s ∈ past, s.2.KeepsNodes s.1) :
    (∀ s ∈ past, s.1.FullyCoherent) ∧ g.FullyCoherent ↔ ∀ s ∈ past, s.2.KeepsLast s.1 := by
  induction h with
  | opened =>
    refine iff_of_true ⟨by simp, ?_⟩ (by simp)
    exact editable_opened.fullyCoherent_iff.2 rfl
  | @edit past g g' e hbefore hfits hrun ih =>
    obtain ⟨he, hpast⟩ := forall_mem_cons.1 hkeeps
    have hg := hbefore.editable hpast
    obtain ⟨hg', hlast⟩ := he.editable hg hfits hrun
    rw [forall_mem_cons, forall_mem_cons, ← ih hpast, hg'.fullyCoherent_iff]
    constructor
    · rintro ⟨⟨hfound, hpast⟩, hend⟩
      exact ⟨(hlast (hg.fullyCoherent_iff.1 hfound)).1 hend, hpast, hfound⟩
    · rintro ⟨hend, hpast, hfound⟩
      exact ⟨⟨hfound, hpast⟩, (hlast (hg.fullyCoherent_iff.1 hfound)).2 hend⟩

end

/-- In every state of a run the list of nodes is coherent, if and only if no node was recorded
without a cursor in front of another node than the first. In every state also its last node is
known, if and only if moreover the last node was never taken out. -/
theorem coherent_iff (h : EditHistory past g) :
    ((∀ s ∈ past, s.1.Coherent) ∧ g.Coherent ↔ ∀ s ∈ past, s.2.KeepsNodes s.1) ∧
      ((∀ s ∈ past, s.1.FullyCoherent) ∧ g.FullyCoherent ↔
        ∀ s ∈ past, s.2.KeepsNodes s.1 ∧ s.2.KeepsLast s.1) := by
  have hnodes : (∀ s ∈ past, s.1.Coherent) ∧ g.Coherent ↔ ∀ s ∈ past, s.2.KeepsNodes s.1 :=
    ⟨fun hall => h.keepsNodes_of_coherent hall.1 hall.2, h.coherent_of_keepsNodes⟩
  refine ⟨hnodes, fun hall => ?_, fun hall => ?_⟩
  · have hkeeps := hnodes.1 ⟨fun s hs => (hall.1 s hs).toCoherent, hall.2.toCoherent⟩
    exact fun s hs => ⟨hkeeps s hs, (h.fullyCoherent_iff hkeeps).1 hall s hs⟩
  · exact (h.fullyCoherent_iff fun s hs => (hall s hs).1).2 fun s hs => (hall s hs).2

/-- A constant. -/
def number : Draft := ⟨((Operation.find "const").toOption).getD default, .int, []⟩

/-- Nodes enter at both sides of the first one; then this one and one in the middle are taken out,
and the next node enters where the cursor was. -/
theorem coherent_of_surrounded : ∃ past g, EditHistory past g ∧
    past.map (·.1.order) = [[2, 4, 1], [2, 3, 4, 1], [2, 0, 3, 4, 1], [2, 0, 1], [0, 1], [0], []] ∧
    g.order = [2, 4, 1, 5] ∧ g.FullyCoherent := by
  have hrun : EditHistory _ _ :=
    .edit (e := .record number) (.edit (e := .remove 3) (.edit (e := .remove 0)
      (.edit (e := .placed .after 0 true [number, number])
      (.edit (e := .placed .before 0 true [number])
        (.edit (e := .record number) (.edit (e := .record number) .opened trivial rfl) trivial rfl)
        (by decide +kernel) rfl) (by decide +kernel) rfl) (by decide +kernel) rfl)
        (by decide +kernel) rfl)
      trivial rfl
  exact ⟨_, _, hrun, by decide +kernel, by decide +kernel,
    (hrun.coherent_iff.2.2 (by decide +kernel)).2⟩

/-- A node enters behind the first one, this one is taken out, and the next node takes the place of
the whole list. -/
theorem not_forall_fullyCoherent :
    ¬ ∀ (past : List (Graph × Edit)) (g : Graph), EditHistory past g → g.FullyCoherent := by
  intro hall
  have hrun : EditHistory _ _ :=
    .edit (e := .record number) (.edit (e := .remove 0)
      (.edit (e := .placed .after 0 true [number]) (.edit (e := .record number) .opened trivial rfl)
        (by decide +kernel) rfl) (by decide +kernel) rfl) trivial rfl
  have hvisits := ((hall _ _ hrun).visits 1).2 (by decide +kernel)
  exact absurd hvisits (by decide +kernel)

end EditHistory

end KernelFusion
