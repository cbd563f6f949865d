/-
Chains of neighbours.

Nodes are listed by their neighbours: each knows the node in front of it and the node behind it. A
list of nodes is read off by going from neighbour to neighbour, forward or backward. A node can
enter between two others and it can be taken out; both change the links next to it only.

Nothing forces the two links of an edge to agree. If a node enters in front of another one and
behind none, the nodes that used to be in front still lead to the second one, but no longer the
other way round. Both directions are therefore walked by their own links.
-/

namespace KernelFusion

/-- Index of a node in the table of nodes. -/
abbrev NodeId := Nat

/-- The neighbours of one node. -/
structure Link where
  prev : Option NodeId := none
  next : Option NodeId := none
deriving DecidableEq, Repr, Inhabited

/-- The neighbours of all nodes. -/
structure Chain where
  links : Array Link := #[]
deriving Repr, Inhabited

namespace Chain

/-- The link of a node. -/
def link (c : Chain) (n : NodeId) : Link := c.links.getD n {}

/-- The node in front of another one. -/
def prev? (c : Chain) (n : NodeId) : Option NodeId := (c.link n).prev

/-- The node behind another one. -/
def next? (c : Chain) (n : NodeId) : Option NodeId := (c.link n).next

/-- Sets the node behind a node, if there is one. -/
def setNext (c : Chain) (n next : Option NodeId) : Chain :=
  match n with
  | some a => ⟨c.links.modify a fun l => { l with next }⟩
  | none => c

/-- Sets the node in front of a node, if there is one. -/
def setPrev (c : Chain) (n prev : Option NodeId) : Chain :=
  match n with
  | some a => ⟨c.links.modify a fun l => { l with prev }⟩
  | none => c

/-- The chain with a new node between two others. Its index is the number of nodes before. -/
def insert (c : Chain) (prev next : Option NodeId) : Chain :=
  let id := c.links.size
  ((⟨c.links.push ⟨prev, next⟩⟩ : Chain).setNext prev (some id)).setPrev next (some id)

/-- The chain with the neighbours of a node joined to each other. The node keeps its own link. -/
def remove (c : Chain) (n : NodeId) : Chain :=
  (c.setNext (c.prev? n) (c.next? n)).setPrev (c.next? n) (c.prev? n)

@[simp] theorem size_setNext (c : Chain) (n next : Option NodeId) :
    (c.setNext n next).links.size = c.links.size := by
  cases n <;> simp [setNext]

@[simp] theorem size_setPrev (c : Chain) (n prev : Option NodeId) :
    (c.setPrev n prev).links.size = c.links.size := by
  cases n <;> simp [setPrev]

@[simp] theorem prev?_setNext (c : Chain) (n next : Option NodeId) (m : NodeId) :
    (c.setNext n next).prev? m = c.prev? m := by
  cases n <;> simp [setNext, prev?, link, Array.getElem?_modify]
  grind

@[simp] theorem next?_setPrev (c : Chain) (n prev : Option NodeId) (m : NodeId) :
    (c.setPrev n prev).next? m = c.next? m := by
  cases n <;> simp [setPrev, next?, link, Array.getElem?_modify]
  grind

theorem next?_setNext (c : Chain) (n next : Option NodeId) {m : NodeId} (h : m < c.links.size) :
    (c.setNext n next).next? m = if n = some m then next else c.next? m := by
  cases n <;> simp [setNext, next?, link, h]
  grind

theorem prev?_setPrev (c : Chain) (n prev : Option NodeId) {m : NodeId} (h : m < c.links.size) :
    (c.setPrev n prev).prev? m = if n = some m then prev else c.prev? m := by
  cases n <;> simp [setPrev, prev?, link, h]
  grind

/-- What comes behind a node once another one has entered. -/
theorem next?_insert (c : Chain) (prev next : Option NodeId) {m : NodeId} (h : m ≤ c.links.size) :
    (c.insert prev next).next? m =
      if prev = some m then some c.links.size
      else if m = c.links.size then next else c.next? m := by
  have hm : m < (⟨c.links.push ⟨prev, next⟩⟩ : Chain).links.size := by
    simpa using Nat.lt_succ_of_le h
  rw [insert, next?_setPrev, next?_setNext _ _ _ hm]
  simp [next?, link, Array.getElem?_push]
  grind

/-- What comes in front of a node once another one has entered. -/
theorem prev?_insert (c : Chain) (prev next : Option NodeId) {m : NodeId} (h : m ≤ c.links.size) :
    (c.insert prev next).prev? m =
      if next = some m then some c.links.size
      else if m = c.links.size then prev else c.prev? m := by
  have hm : m < (⟨c.links.push ⟨prev, next⟩⟩ : Chain).links.size := by
    simpa using Nat.lt_succ_of_le h
  rw [insert, prev?_setPrev _ _ _ (by rwa [size_setNext]), prev?_setNext]
  simp [prev?, link, Array.getElem?_push]
  grind

/-- What comes behind a node once another one has been taken out. -/
theorem next?_remove (c : Chain) (n : NodeId) {m : NodeId} (h : m < c.links.size) :
    (c.remove n).next? m = if c.prev? n = some m then c.next? n else c.next? m := by
  rw [remove, next?_setPrev, next?_setNext _ _ _ h]

/-- What comes in front of a node once another one has been taken out. -/
theorem prev?_remove (c : Chain) (n : NodeId) {m : NodeId} (h : m < c.links.size) :
    (c.remove n).prev? m = if c.next? n = some m then c.prev? n else c.prev? m := by
  rw [remove, prev?_setPrev _ _ _ (by simpa using h), prev?_setNext]

/-- At most the given number of nodes from one on, going forward. -/
def walk (c : Chain) : Nat → Option NodeId → List NodeId
  | steps + 1, some n => n :: c.walk steps (c.next? n)
  | _, _ => []

/-- At most the given number of nodes from one on, going backward. -/
def walkBack (c : Chain) : Nat → Option NodeId → List NodeId
  | steps + 1, some n => n :: c.walkBack steps (c.prev? n)
  | _, _ => []

/-- The nodes from one on, going forward. -/
def onward (c : Chain) (start : Option NodeId) : List NodeId := c.walk c.links.size start

/-- The nodes from one on, going backward. -/
def backward (c : Chain) (start : Option NodeId) : List NodeId := c.walkBack c.links.size start

end Chain

end KernelFusion
