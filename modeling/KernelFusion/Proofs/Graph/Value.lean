/-
Values of nodes.

The nodes of a cluster are executed once for every element of an index space. The value of a node
follows from the values of its arguments, from the thread, and from what the program leaves open:
what comes from outside of the cluster, what accesses to memory give, and what operations mean.
-/
import KernelFusion.Proofs.Number.Single
import KernelFusion.Proofs.Graph.Arguments
import KernelFusion.Proofs.Graph.Edits

namespace KernelFusion

/-- What the program leaves open at one moment. On integers the operators are those that fold
constants, and a value that lies between the bounds is not clamped. -/
structure Setting where
  outer : NodeId → UInt32
  compute : String → Scalar → List UInt32 → List UInt32 → UInt32
  access : NodeId → List UInt32 → List UInt32 → UInt32
  arithmetic : ∀ {f : Arithmetic} {type : Scalar} {x y w : UInt32}, type.Integral →
    f.evaluate type x y = some w → compute f.operation type [] [x, y] = w
  neg : ∀ {type : Scalar} (x : UInt32), type.Integral → compute "neg" type [] [x] = 0 - x
  clamp : ∀ {x y z : UInt32}, signed y ≤ signed x → signed x ≤ signed z →
    compute "clamp" .int [] [x, y, z] = x

/-- The operators on integers, and zero for what is left open. -/
def Setting.plain : Setting where
  outer _ := 0
  compute name type _ operands :=
    match operands with
    | [x] => 0 - x
    | [x, y] =>
      ((([.add, .sub, .mul, .div] : List Arithmetic).find? fun f =>
      f.operation = name).bind fun f =>
        f.evaluate type x y).getD 0
    | [x, y, z] => if signed x < signed y then y else if signed z < signed x then z else x
    | _ => 0
  access _ _ _ := 0
  arithmetic := by
    intro f type x y w _ h
    cases f <;> simp [Arithmetic.operation, h]
  neg _ _ := rfl
  clamp := by
    intro x y z hy hz
    simp [Int.not_lt.2 hy, Int.not_lt.2 hz]

instance : Inhabited Setting := ⟨.plain⟩

/-- The element that a thread works on. -/
structure Position where
  thread : UInt32
  place : List UInt32

/-- What the value of a node comes from. -/
inductive ValueKind where
  | word
  | thread
  | coordinate
  | memory
  | operands
deriving DecidableEq

/-- What the values of nodes with this operation come from. -/
def Operation.valueKind (op : Operation) : ValueKind :=
  if op.name = "const" then .word
  else if op.name = "thread_id" then .thread
  else if op.name = "dim_id" then .coordinate
  else if op.kind.accesses then .memory
  else .operands

namespace Graph

/-- The value of a node for the nodes of the cluster `k`. Before threads run there is no
position. -/
inductive Yields (σ : Setting) (g : Graph) (k : ClusterId) (p : Option Position) :
    NodeId → UInt32 → Prop where
  | constant {n : NodeId} (hn : n < g.nodes.size) (hkind : (g.node n).op.valueKind = .word) :
    Yields σ g k p n (g.node n).word
  | outside {n : NodeId} (hn : n < g.nodes.size) (hword : (g.node n).op.valueKind ≠ .word)
    (hcoord : (g.node n).op.valueKind ≠ .coordinate) (hk : (g.node n).cluster ≠ some k) :
    Yields σ g k p n (σ.outer n)
  | thread {n : NodeId} {q : Position} (hp : p = some q) (hk : (g.node n).cluster = some k)
    (hkind : (g.node n).op.valueKind = .thread) : Yields σ g k p n q.thread
  | coordinate {n : NodeId} {q : Position} {v : UInt32} (hp : p = some q)
    (hk : (g.node n).cluster = some k) (hkind : (g.node n).op.valueKind = .coordinate)
    (hdim : 0 ≤ signed (g.node n).word)
    (hv : q.place[(signed (g.node n).word).toNat]? = some v) : Yields σ g k p n v
  | operation {n : NodeId} {value : Argument → UInt32} (hk : (g.node n).cluster = some k)
    (hkind : (g.node n).op.valueKind = .operands)
    (hlt : ∀ a ∈ (g.node n).args, a.kind = .input → a.source < g.labels.size)
    (hargs : ∀ a ∈ (g.node n).args, a.kind = .input → Yields σ g k p (g.source a) (value a)) :
    Yields σ g k p n (σ.compute (g.node n).op.name (g.node n).type (g.node n).data
      (((g.node n).arguments .input).map value))
  | access {n : NodeId} {q : Position} {value : Argument → UInt32} (hp : p = some q)
    (hk : (g.node n).cluster = some k) (hkind : (g.node n).op.valueKind = .memory)
    (hargs : ∀ a ∈ (g.node n).args, a.kind = .input ∨ a.kind = .index →
      Yields σ g k p (g.source a) (value a)) :
    Yields σ g k p n (σ.access n (((g.node n).arguments .input).map value)
      (((g.node n).arguments .index).map value))

namespace Yields

variable {σ : Setting} {g : Graph} {k : ClusterId} {p : Option Position} {n : NodeId} {v w : UInt32}

lemma lt_size (h : g.Yields σ k p n v) : n < g.nodes.size := by
  have hlt : (g.node n).cluster = some k → n < g.nodes.size := fun hk =>
    lt_size_of_node (P := fun x => x.cluster = some k) hk (Option.some_ne_none k).symm
  cases h with
  | constant hn => exact hn
  | outside hn => exact hn
  | thread _ hk => exact hlt hk
  | coordinate _ hk => exact hlt hk
  | operation hk => exact hlt hk
  | access _ hk => exact hlt hk

lemma always (h : g.Yields σ k none n v) (p : Option Position) : g.Yields σ k p n v := by
  induction h with
  | constant hn hkind => exact .constant hn hkind
  | outside hn hword hcoord hk => exact .outside hn hword hcoord hk
  | thread hp => cases hp
  | coordinate hp => cases hp
  | operation hk hkind hlt _ ih => exact .operation hk hkind hlt ih
  | access hp => cases hp

lemma map_arguments_congr {x : Node} {K : ArgKind} {value value' : Argument → UInt32}
    (h : ∀ a ∈ x.args, a.kind = K → value a = value' a) :
    (x.arguments K).map value = (x.arguments K).map value' :=
  List.map_congr_left fun a ha => h a (Node.mem_arguments.1 ha).1 (Node.mem_arguments.1 ha).2

lemma unique (h : g.Yields σ k p n v) (h' : g.Yields σ k p n w) : v = w := by
  induction h generalizing w with
  | constant hn hkind => cases h' <;> simp_all
  | outside hn hword hcoord hk => cases h' <;> simp_all
  | thread hp hk hkind => cases h' <;> simp_all
  | coordinate hp hk hkind hv => cases h' <;> simp_all
  | operation hk hkind hlt hargs ih =>
    cases h' with
    | operation _ _ _ hargs' =>
      rw [map_arguments_congr fun a ha hinput => ih a ha hinput (hargs' a ha hinput)]
    | _ => simp_all
  | access hp hk hkind hargs ih =>
    cases h' with
    | access _ _ _ hargs' =>
      rw [map_arguments_congr fun a ha hinput => ih a ha (.inl hinput) (hargs' a ha (.inl hinput)),
        map_arguments_congr fun a ha hindex => ih a ha (.inr hindex) (hargs' a ha (.inr hindex))]
    | _ => simp_all

end Yields

end Graph

end KernelFusion
