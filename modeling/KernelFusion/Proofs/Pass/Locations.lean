/-
Where the accesses of a cluster go.

In either mode a cluster is provided with nodes that have the coordinates of the element as their
values (`Provided`). The value of the index of an access is the row-major address of its indices,
with these coordinates in the dimensions without one.
-/
import KernelFusion.Proofs.Number.RowMajor
import KernelFusion.Proofs.Pass.Flatten
import KernelFusion.Proofs.Pass.Values

namespace KernelFusion

open List

variable {K : ArgKind}

lemma Node.places_congr {x y : Node}
    (h : (x.args.filter fun a => a.kind = K) = y.args.filter fun a => a.kind = K) :
    x.places K = y.places K := by
  rw [Node.places, Node.places, Node.arguments, Node.arguments, h]

lemma lookup_map_snd {l : List (Int × α)} {f : α → β} (i : Int) :
    (l.map (Prod.map id f)).lookup i = (l.lookup i).map f := by
  induction l with
  | nil => rfl
  | cons x l ih =>
    obtain ⟨j, a⟩ := x
    rw [map_cons, Prod.map_apply, lookup_cons, lookup_cons, ih, id_eq]
    split <;> rfl

/-- The address that indices select in memory of the given sizes. In a dimension without an index
the coordinate of the element counts. -/
def Setting.address (σ : Setting) (mode : TensorMode) (ds : List UInt32)
    (indices : List (Int × UInt32)) (place : List UInt32) : UInt32 :=
  Address.flat ds.length (fun dim => ds.getD dim 0) fun dim =>
    Address.index (fun x y z => σ.compute "clamp" .int [] [x, y, z]) mode (ds.getD dim 0)
      ((indices.lookup (dim : Int)).getD (place.getD dim 0))

/-- Without indices an access addresses its thread's own element. -/
lemma Setting.address_nil (σ : Setting) (mode : TensorMode) {sizes : List Nat} {t : Nat}
    (hne : sizes ≠ []) (hpos : ∀ d ∈ sizes, 1 ≤ d) (hsizes : sizes.prod < 2 ^ 31)
    (ht : t < sizes.prod) : σ.address mode (sizes.map UInt32.ofNat) []
      ((RowMajor.coordinates sizes t).map UInt32.ofNat) = UInt32.ofNat t := by
  rw [address, length_map]
  refine Address.flat_coordinates hne ht (fun i size hi => ?_) fun i c hc => ?_
  · rw [getD_eq_getElem?_getD, getElem?_map, hi]
    rfl
  · have hi : i < sizes.length := by
      rw [← RowMajor.length_coordinates sizes t]
      exact (List.getElem?_eq_some_iff.1 hc).1
    have hget : sizes[i]? = some sizes[i] := getElem?_eq_getElem hi
    have hsize := RowMajor.lt_of_mem hpos hsizes (getElem_mem hi)
    have hc' := RowMajor.coordinate_lt hget (hpos _ (getElem_mem hi)) hc
    rw [getD_eq_getElem?_getD, getD_eq_getElem?_getD, getElem?_map, getElem?_map, hget, hc]
    exact Address.index_ofNat (fun _ _ _ => σ.clamp) mode hc' hsize

namespace Graph

variable {σ : Setting} {s f g g' gm : Graph} {k : ClusterId} {p : Option Position} {q : Position}
  {n m h flat : NodeId} {x v : UInt32} {ds xs : List UInt32} {thread : Option NodeId}
  {coordinates l : List NodeId} {D D' : ClusterId → Prop} {sizes : List Nat} {t : Nat}

/-! ### Sizes -/

/-- The sizes of a node are integers with the given values, before any thread runs. -/
def HasSizes (σ : Setting) (g : Graph) (k : ClusterId) (n : NodeId) (ds : List UInt32) : Prop :=
  Forall₂ (fun m d => (g.node m).type.Integral ∧ g.Yields σ k none m d)
    ((g.sources n .shape).map Prod.snd) ds

lemma HasSizes.length_sources (h : s.HasSizes σ k n ds) : (s.sources n .shape).length =
    ds.length := by
  rw [← Forall₂.length_eq h, length_map]

lemma Sparse.sources_eq (hs : s.Sparse s.order) (hn : n ∈ s.order)
    (h : ((g.node n).args.filter fun a => a.kind = K) =
    (s.node n).args.filter fun a => a.kind = K) :
    g.sources n K = (s.sources n K).map (Prod.map id g.target) := by
  rw [sources, sources, Node.places_congr h, map_map]
  refine map_congr_left fun a ha => ?_
  rw [(hs.regular n hn).places_eq, ← (hs.regular n hn).blocks] at ha
  have hsource := hs.source_eq hn (mem_filter.1 ha).1
  simp only [Function.comp_apply, Prod.map_apply, id_eq, hsource]
  rfl

lemma Sparse.exists_of_mem_sources (hs : s.Sparse s.order) (hn : n ∈ s.order) {i : Int}
    (h : (i, m) ∈ s.sources n K) : ∃ a ∈ (s.node n).args, a.kind = K ∧ a.source = m := by
  obtain ⟨a, ha, heq⟩ := mem_map.1 h
  rw [(hs.regular n hn).places_eq, ← (hs.regular n hn).blocks] at ha
  obtain ⟨ha, hkind⟩ := mem_filter.1 ha
  exact ⟨a, ha, by simpa using hkind, (hs.source_eq hn ha).symm.trans (Prod.mk.inj heq).2⟩

lemma GoesOn.target (hg : GoesOn s s g) (hs : s.Labelled) (hm : m < s.nodes.size)
    (hstays : ¬ MovedIn s anywhere m) : g.target m = m := by
  have htarget := hs.target m hm
  rw [Evolves.target hg m (hs.size ▸ hm) (by rwa [htarget]), htarget]

lemma GoesOn.lt_labels (hg : GoesOn s s g) (hs : s.Labelled) (hm : m < s.nodes.size) :
    m < g.labels.size := by
  rw [← hs.size] at hm
  exact Nat.lt_of_lt_of_le hm hg.labels

lemma bears_of_yields (hs : s.Labelled) (hm : m < s.nodes.size) (hint : (s.node m).type.Integral)
    (hstays : ¬ MovedIn s anywhere m) (hg : GoesOn s s g) (hcurrent : g.current = some k)
    (hv : GoesOn s g f → f.Yields σ k p m v) : Bears σ s f k p m v g :=
  ⟨hg.size, Nat.lt_of_lt_of_le hm hg.size, hcurrent, by rw [hg.type m hm]; exact hint,
    (hs.named hm).evolves hg hm hstays, hstays, hv⟩

lemma HasSizes.bearAll (hd : s.HasSizes σ k n ds) (hs : s.Sparse s.order) (hn : n ∈ s.order)
    (hg : GoesOn s s g) (hg' : GoesOn s s g') (hcurrent : g'.current = some k) :
    Build.BearAll (Bears σ s f k p) ((g.sources n .shape).map Prod.snd) ds g' := by
  have hsources : (g.sources n .shape).map Prod.snd = (s.sources n .shape).map Prod.snd := by
    rw [hs.sources_eq hn (hg.others n (hs.lists.lt_size hn) .shape (by decide)), map_map]
    refine map_congr_left fun z hz => ?_
    obtain ⟨i, hi⟩ := mem_iff_getElem?.1 (mem_map_of_mem (f := Prod.snd) hz)
    obtain ⟨d, -, -, hyields⟩ := exists_of_forall₂ hd hi
    exact GoesOn.target hg hs.labelled hyields.lt_size hyields.not_movedIn
  rw [hsources]
  refine hd.imp fun z d hz => ?_
  exact bears_of_yields hs.labelled hz.2.lt_size hz.1 hz.2.not_movedIn hg' hcurrent
    fun hf => (hz.2.goesOn (hg'.trans hf)).always p

lemma Sparse.size?_eq (hs : s.Sparse s.order) (hm : m ∈ s.order) (hg : GoesOn s s g) :
    ((g.node m).extent .shape).toNat = (g.sources m .shape).length ∧
      ∀ dim : Nat, g.size? m dim = ((g.sources m .shape).map Prod.snd)[dim]? := by
  have hblock : ((g.node m).args.filter fun a => a.kind = .shape) =
      block .shape ((s.node m).labels .shape) := by
    rw [hg.others m (hs.lists.lt_size hm) .shape (by decide), (hs.regular m hm).blocks]
  have hplaces := Node.places_of_block hblock
  refine ⟨?_, fun dim => ?_⟩
  · rw [Node.extent_of_block hblock, sources, hplaces, length_map, length_block, Int.toNat_natCast]
  · rw [size?, Node.sizeAt?_of_block hblock, sources, hplaces, map_map, getElem?_map,
      getElem?_block, Option.map_map, Option.map_map]
    rfl

/-! ### Coordinates -/

/-- The graph with a current cluster. -/
def within (g : Graph) (k : ClusterId) : Graph := { g with current := some k }

lemma goesOn_within (s g : Graph) (k : ClusterId) : GoesOn s g (g.within k) ∧
    GoesOn s (g.within k) g :=
  ⟨Evolves.of_tables rfl rfl rfl rfl rfl, Evolves.of_tables rfl rfl rfl rfl rfl⟩

lemma goesOn_enter (s g : Graph) (n : NodeId) : GoesOn s g (g.enter .before n true) ∧
    GoesOn s (g.enter .before n true) g :=
  ⟨Evolves.of_tables rfl rfl rfl rfl rfl, Evolves.of_tables rfl rfl rfl rfl rfl⟩

/-- The coordinates `xs` of the element at `q` have been provided: by nodes that bear them, and the
users of coordinate nodes take the same values. -/
structure Provided (σ : Setting) (s f : Graph) (k : ClusterId) (q : Position) (gm : Graph)
    (thread : Option NodeId) (coordinates : List NodeId) (xs : List UInt32) : Prop where
  begins : GoesOn s s gm
  ends : GoesOn s gm f
  number : ∀ t, thread = some t → Bears σ s f k (some q) t q.thread (gm.within k)
  bears : Build.BearAll (Bears σ s f k (some q)) coordinates xs (gm.within k)
  moved : ∀ n ∈ s.order, (s.node n).isCoordinate → (s.node n).cluster = some k →
    0 ≤ signed (s.node n).word ∧ ∃ v, xs[(signed (s.node n).word).toNat]? = some v ∧
      Bears σ s f k (some q) (gm.target n) v (gm.within k)

lemma yields_coordinate (hf : GoesOn s g f) (hlt : m < g.nodes.size)
    (hcoord : (g.node m).isCoordinate) (hk : (g.node m).cluster = some k)
    (hdim : 0 ≤ signed (g.node m).word) (hv : q.place[(signed (g.node m).word).toNat]? = some v) :
    f.Yields σ k (some q) m v := by
  have hword : (f.node m).word = (g.node m).word := by rw [Node.word, Node.word, hf.data m hlt]
  refine .coordinate rfl (by rw [hf.cluster m hlt, hk]) ?_ (hword ▸ hdim) (hword ▸ hv)
  rw [hf.op m hlt]
  exact Node.isCoordinate_iff_valueKind.1 hcoord

lemma CoordinateAt.bears {i : Nat} (hc : CoordinateAt s k i m gm) (hs : s.Sparse s.order)
    (hgm : GoesOn s s gm) (hmode : s.kernelMode ≠ .linear) (hi : i < 2 ^ 31)
    (hv : q.place[i]? = some v) : Bears σ s f k (some q) m v (gm.within k) := by
  have hstays : ¬ MovedIn s anywhere m := fun hm => hmode hm.1
  have hword : signed ((gm.within k).node m).word = i :=
    (congrArg signed hc.word).trans (signed_word (by omega) (by omega))
  have hyields : GoesOn s (gm.within k) f → f.Yields σ k (some q) m v := fun hf =>
    yields_coordinate hf hc.lt hc.coordinate hc.cluster (hword ▸ Int.natCast_nonneg i)
      (by rw [hword, Int.toNat_natCast]; exact hv)
  rcases hc.fresh with hmem | ⟨htype, hnamed⟩
  · have hlt := hs.lists.lt_size hmem
    have hcoord : (s.node m).isCoordinate := by rw [← hgm.isCoordinate hlt, hc.coordinate]
    exact bears_of_yields hs.labelled hlt (.inl (hs.typed.coordinate m hmem hcoord).1) hstays
      (hgm.trans (goesOn_within s gm k).1) rfl hyields
  · exact ⟨hgm.size, hc.lt, rfl, .inl htype, ⟨hnamed.lt, hnamed.target⟩, hstays, hyields⟩

namespace Prepares

variable (hp : Prepares s k h D g gm thread coordinates l)

include hp

lemma goesOn : GoesOn s s g ∧ GoesOn s g gm :=
  ⟨hp.reached.evolves.mono_clusters fun _ _ => trivial,
    hp.provided.mono (fun _ => False.elim) fun _ hn => hn.mono fun _ _ => trivial⟩

lemma coordinate (hs : s.Sparse s.order) (hn : n ∈ s.order) (hcoord : (s.node n).isCoordinate)
    (hkn : (s.node n).cluster = some k) :
    n ∈ l ∧ (g.node n).isCoordinate ∧ (g.node n).cluster = some k ∧
      (g.node n).word = (s.node n).word ∧ g.label n = n := by
  have hlt := hs.lists.lt_size hn
  refine ⟨hp.listed.mem_of_untouched hp.fresh hn hkn, ?_, ?_, ?_, ?_⟩
  · rw [hp.reached.evolves.isCoordinate hlt, hcoord]
  · rw [hp.reached.evolves.cluster n hlt, hkn]
  · rw [Node.word, Node.word, hp.reached.evolves.data n hlt]
  · rw [hp.reached.evolves.label n hlt (not_movedIn hp.fresh hkn), hs.labelled.label n hlt]

variable (hs : s.Sparse s.order) (hh : s.head? k = some h) (hmem : h ∈ s.order)
  (hkh : (s.node h).cluster = some k)

include hs hh hmem hkh

lemma linearized (hlinear : s.kernelMode = .linear) :
    ∃ t g₀ g₁, thread = some t ∧
      Linearized g l k h ((g.sources h .shape).map Prod.snd) coordinates t g₀ g₁ gm ∧
      Evolves nothing (MovedIn s (· = k)) g₁ gm := by
  obtain ⟨h', hh', -, -, hhg, hhl, hkg⟩ := hp.listed.head_of_untouched hs hp.fresh hmem hkh
  obtain rfl := Option.mem_unique hh hh'
  cases hp.provides with
  | linear _ hrun =>
    obtain ⟨g₀, g₁, -, hlin, hevolves, -⟩ := (hp.listed.touch hhg hhl).linearCoordinates hs.lists
      hlinear hhl (hs.lists.lt_size hmem) hkg (.inr rfl) (fun c hc hmoved => by
        obtain ⟨-, -, j, rfl, hkc⟩ := hmoved
        exact hp.reached.named hs.labelled hp.fresh hc hkc) hrun
    exact ⟨_, g₀, g₁, rfl, hlin, hevolves⟩
  | multi hmode _ =>
    rw [hp.reached.evolves.mode] at hmode
    exact absurd hlinear hmode

lemma multiplied (hmode : s.kernelMode ≠ .linear) :
    thread = none ∧ Forall₂ (fun i c => CoordinateAt s k i c gm)
      (range (g.sources h .shape).length) coordinates ∧
      ∀ c ∈ l, (g.node c).isCoordinate → (g.node c).cluster = some k →
        0 ≤ signed (g.node c).word ∧ signed (g.node c).word < (g.sources h .shape).length := by
  obtain ⟨h', hh', -, -, hhg, hhl, hkg⟩ := hp.listed.head_of_untouched hs hp.fresh hmem hkh
  obtain rfl := Option.mem_unique hh hh'
  cases hp.provides with
  | linear hlinear _ =>
    rw [hp.reached.evolves.mode] at hlinear
    exact absurd hlinear hmode
  | multi _ hrun =>
    exact ⟨rfl, ((hp.listed.touch hhg hhl).multiCoordinates hmode hhl hkg (.inr rfl)
      (fun v hv hkv => hp.listed.untouched hs.lists hp.fresh hv hkv) hrun).2⟩

lemma target_mem (hlinear : s.kernelMode = .linear) (hn : n ∈ s.order)
    (hcoord : (s.node n).isCoordinate) (hkn : (s.node n).cluster = some k) :
    gm.target n ∈ coordinates := by
  obtain ⟨t, g₀, g₁, rfl, hlin, -⟩ := hp.linearized hs hh hmem hkh hlinear
  obtain ⟨hnl, hcoordg, hkg, -, hlabel⟩ := hp.coordinate hs hn hcoord hkn
  obtain ⟨hrange, htarget⟩ := hlin.moved n hnl hcoordg hkg
  have hi : (signed (g.node n).word).toNat < coordinates.length := by omega
  rw [hlabel, getD_eq_getElem?_getD, getElem?_eq_getElem hi, Option.getD_some] at htarget
  exact htarget ▸ getElem_mem hi

end Prepares

namespace Treats

variable (ht : Treats s k h f D D' g gm g' thread coordinates l)

include ht

lemma ends : GoesOn s gm f :=
  (ht.addressed.mono (fun _ hn => hn.mono fun _ _ => trivial) fun _ => False.elim).trans
    (ht.after.mono_clusters fun _ _ => trivial)

variable (hs : s.Sparse s.order) (hh : s.head? k = some h) (hmem : h ∈ s.order)
  (hkh : (s.node h).cluster = some k)

include hs hh hmem hkh

/-- What a linear cluster is provided with bears the coordinates of the thread. -/
lemma provided_linear (hlinear : s.kernelMode = .linear) (hd : s.HasSizes σ k h ds) :
    (∃ t, thread = some t) ∧
      Provided σ s f k q gm thread coordinates (Address.coordinates q.thread ds) := by
  obtain ⟨t, g₀, g₁, rfl, hlin, hevolves⟩ := ht.linearized hs hh hmem hkh hlinear
  obtain ⟨hg, hgm⟩ := ht.goesOn
  have hf := ht.ends
  -- the thread number and the coordinates are recorded in front of the head
  have hcurrent : (g.enter .before h true).current = some k := by
    show (g.node h).cluster = some k
    rw [ht.reached.evolves.cluster h (hs.lists.lt_size hmem), hkh]
  have hg' : GoesOn s s (g.enter .before h true) := hg.trans (goesOn_enter s g h).1
  obtain ⟨hrecorded, hthread, hsigned⟩ := (Build.keeps_bears_threadIndex (σ := σ) (f := f) (q := q)
    hg'.size hcurrent _).meets.of_ok hlin.thread
  have hsizes : Build.BearAll (Bears σ s f k (some q))
    ((g.sources h .shape).map Prod.snd) ds
      g₀ := hd.bearAll hs hmem hg (hg'.trans hrecorded.evolves) hthread.current
  obtain ⟨hrecorded', hcoordinates⟩ := ((Build.bearing σ s f k (some q)).ends_coordinatesOf hsigned
    hthread hsizes).meets.of_ok hlin.run
  have hlater : GoesOn s g₁ (gm.within k) := (hevolves.mono (fun _ => False.elim)
    fun _ hn => hn.mono fun _ _ => trivial).trans (goesOn_within s gm k).1
  have hbears : Build.BearAll (Bears σ s f k (some q)) coordinates
      (Address.coordinates q.thread ds) (gm.within k) :=
    hcoordinates.imp fun _ _ hc => hc.goesOn hlater rfl
  refine ⟨⟨t, rfl⟩, hg.trans hgm, hf, ?_, hbears, fun n hn hcoord hkn => ?_⟩
  · rintro _ ⟨rfl⟩
    exact (hthread.stable hrecorded').goesOn hlater rfl
  · obtain ⟨hnl, hcoordg, hkg, hword, hlabel⟩ := ht.coordinate hs hn hcoord hkn
    obtain ⟨hrange, htarget⟩ := hlin.moved n hnl hcoordg hkg
    rw [hword, hlabel] at htarget
    rw [hword] at hrange
    have hi : (signed (s.node n).word).toNat < coordinates.length := by omega
    have hget := getElem?_eq_getElem hi
    rw [getD_eq_getElem?_getD, hget, Option.getD_some] at htarget
    obtain ⟨v, hv, hc⟩ := exists_of_forall₂ hbears hget
    exact ⟨hrange.1, v, hv, htarget ▸ hc⟩

lemma provided_multi (hmode : s.kernelMode ≠ .linear)
    (hrank : q.place.length = (s.sources h .shape).length) (hlt : q.place.length < 2 ^ 31) :
    thread = none ∧ Provided σ s f k q gm thread coordinates q.place := by
  obtain ⟨rfl, hall, hrange⟩ := ht.multiplied hs hh hmem hkh hmode
  obtain ⟨hg, hgm⟩ := ht.goesOn
  have hf := ht.ends
  have hsources : (g.sources h .shape).length = q.place.length := by
    rw [hs.sources_eq hmem (hg.others h (hs.lists.lt_size hmem) .shape (by decide)), length_map,
      hrank]
  rw [hsources] at hall hrange
  refine ⟨rfl, hg.trans hgm, hf, nofun, ?_, fun n hn hcoord hkn => ?_⟩
  · refine forall₂_iff_get.2 ⟨by rw [← hall.length_eq, length_range], fun i hi hi' => ?_⟩
    have hc := hall.get (by rwa [hall.length_eq]) hi
    simp only [get_eq_getElem, getElem_range] at hc
    exact hc.bears hs (hg.trans hgm) hmode (Nat.lt_trans hi' hlt) (getElem?_eq_getElem hi')
  · obtain ⟨hnl, hcoordg, hkg, hword, -⟩ := ht.coordinate hs hn hcoord hkn
    have hr := hrange n hnl hcoordg hkg
    rw [hword] at hr
    have hi : (signed (s.node n).word).toNat < q.place.length := by omega
    have hstays : ¬ MovedIn s anywhere n := fun hm => hmode hm.1
    have hltn := hs.lists.lt_size hn
    have hwithin := (hg.trans hgm).trans (goesOn_within s gm k).1
    have htarget : gm.target n = n := GoesOn.target (hg.trans hgm) hs.labelled hltn hstays
    refine ⟨hr.1, _, getElem?_eq_getElem hi, ?_⟩
    rw [htarget]
    exact bears_of_yields hs.labelled hltn (.inl (hs.typed.coordinate n hn hcoord).1)
      hstays hwithin
      rfl fun hf => yields_coordinate (hwithin.trans hf) hltn hcoord hkn hr.1
      (getElem?_eq_getElem hi)

end Treats

/-! ### Addresses -/

/-- The access `n` of a cluster with the given sizes finds its elements in the memory `m`, which has
the sizes `ds`. The whole memory is accessed if there are no indices, and otherwise the coordinates
of the cluster stand in for those that are missing. -/
structure Indexed (σ : Setting) (s : Graph) (k : ClusterId) (sizes : List UInt32) (n m : NodeId)
    (ds : List UInt32) : Prop where
  memory : s.memoryOf? n = some m
  sized : s.HasSizes σ k m ds
  clamp : s.tensorMode = .clamp → ds ≠ []
  whole : s.sources n .index = [] → ds = sizes
  rest : ∀ dim < max ds.length 1, (s.sources n .index).lookup (dim : Int) = none →
  dim < sizes.length

lemma Sparse.memoryOf?_eq (hs : s.Sparse s.order) (hn : n ∈ s.order) (hm : s.memoryOf? n = some m)
    (hargs : ((g.node n).args.filter fun a => a.kind = .memory) =
      (s.node n).args.filter fun a => a.kind = .memory) : g.memoryOf? n = some (g.target m) := by
  obtain ⟨a, ha, hsource⟩ := Option.map_eq_some_iff.1 hm
  have hmem := mem_of_find?_eq_some ha
  rw [(hs.regular n hn).places_eq, ← (hs.regular n hn).blocks] at hmem
  rw [hs.source_eq hn (mem_filter.1 hmem).1] at hsource
  have hplaces : (g.node n).places .memory = (s.node n).places .memory := Node.places_congr hargs
  rw [memoryOf?, hplaces, ha, ← hsource]
  rfl

lemma Bears.final (h : Bears σ s f k p flat v g) (hg : GoesOn s g g')
    (hf : GoesOn s g' f) : f.target (g'.label flat) = flat ∧ f.Yields σ k p flat v := by
  have hlt' := Nat.lt_of_lt_of_le h.lt hg.size
  have hnamed := (h.named.evolves hg h.lt h.stays).evolves hf hlt' h.stays
  rw [← hf.label flat hlt' h.stays]
  exact ⟨hnamed.target, h.yields (hg.trans hf)⟩

namespace Provided

variable (hp : Provided σ s f k q gm thread coordinates xs) {box : List UInt32}
  {value : NodeId → UInt32}

include hp

lemma bears_target (hs : s.Sparse s.order) (hg : GoesOn s gm g) (hcurrent : g.current = some k)
    (hf : GoesOn s g f) (hm : m ∈ s.order) (hkm : (s.node m).cluster = some k)
    (hint : (s.node m).type.Integral) (hv : f.Yields σ k (some q) (f.target m) v) :
    Bears σ s f k (some q) (g.target m) v g := by
  have hlt := hs.lists.lt_size hm
  by_cases hmoved : MovedIn s anywhere m
  · obtain ⟨-, w, -, hw⟩ := hp.moved m hm hmoved.2.1 hkm
    have hstep : ∀ {g'}, GoesOn s gm g' → g'.target m = gm.target m := fun hg' =>
      Evolves.target hg' m (GoesOn.lt_labels hp.begins hs.labelled hlt) hw.stays
    have hwg : Bears σ s f k (some q) (gm.target m) w g :=
      hw.goesOn ((goesOn_within s gm k).2.trans hg) hcurrent
    rw [hstep hp.ends] at hv
    rw [hstep hg, hv.unique (hwg.yields hf)]
    exact hwg
  · have hbegins := hp.begins.trans hg
    rw [GoesOn.target (hbegins.trans hf) hs.labelled hlt hmoved] at hv
    rw [GoesOn.target hbegins hs.labelled hlt hmoved]
    exact bears_of_yields hs.labelled hlt hint hmoved hbegins hcurrent fun _ => hv

/-- The recorded flat index bears the address. -/
lemma bears_flatIndex (hs : s.Sparse s.order) (hn : n ∈ s.order) (hkn : (s.node n).cluster = some k)
    {g₁ g₂ : Graph} (hg : GoesOn s gm g₁) (hargs : (g₁.node n).args = (s.node n).args)
    (hi : s.Indexed σ k box n m ds) (hm : m ∈ s.order) (hstays : ¬ MovedIn s anywhere m)
    (hrank : box.length = xs.length)
    (hvalue : ∀ a ∈ (s.node n).args, a.kind = .index → Bears σ s f k (some q) (g₁.target a.source)
      (value a.source) (g₁.enter .before n true))
    (hrun : Build.flatIndex g₁.tensorMode ((g₁.node ((g₁.memoryOf? n).getD 0)).extent .shape).toNat
      (g₁.size? ((g₁.memoryOf? n).getD 0)) (g₁.sources n .index) coordinates
      (g₁.enter .before n true) = .ok flat g₂) :
    Bears σ s f k (some q) flat (σ.address s.tensorMode ds
      ((s.sources n .index).map (Prod.map id value)) xs) g₂ := by
  have hbegins := hp.begins.trans hg
  have henter := (goesOn_enter s g₁ n).1
  have hcurrent : (g₁.enter .before n true).current = some k := by
    show (g₁.node n).cluster = some k
    rw [hbegins.cluster n (hs.lists.lt_size hn), hkn]
  have hmemory : g₁.memoryOf? n = some m := by
    rw [hs.memoryOf?_eq hn hi.memory (by rw [hargs]), GoesOn.target hbegins hs.labelled
      (hs.lists.lt_size hm) hstays]
  have hsizes : Build.BearAll (Bears σ s f k (some q))
    ((g₁.sources m .shape).map Prod.snd) ds
      (g₁.enter .before n true) := hi.sized.bearAll hs hm hbegins (hbegins.trans henter) hcurrent
  have hplaces : Build.BearAll (Bears σ s f k (some q)) coordinates xs
      (g₁.enter .before n true) := hp.bears.imp fun _ _ hc =>
    hc.goesOn ((goesOn_within s gm k).2.trans (hg.trans henter)) hcurrent
  obtain ⟨hextent, hsize⟩ := hs.size?_eq hm hbegins
  have hlength : (g₁.sources m .shape).length = ds.length := by
    rw [← hsizes.length_eq, length_map]
  have hsources : g₁.sources n .index = (s.sources n .index).map (Prod.map id g₁.target) :=
    hs.sources_eq hn (by rw [hargs])
  -- the size of every dimension that counts
  have hdim : ∀ dim < ds.length, Bears σ s f k (some q) ((g₁.size? m dim).getD 0) (ds.getD dim 0)
      (g₁.enter .before n true) := by
    intro dim hdim
    obtain ⟨d, hd, hbears⟩ := exists_of_forall₂ hsizes (getElem?_eq_getElem
      (by rwa [length_map, hlength]))
    rw [hsize, getElem?_eq_getElem (by rwa [length_map, hlength]), getD_eq_getElem?_getD, hd]
    exact hbears
  rw [hmemory, Option.getD_some, hextent, hlength, hbegins.tensorMode] at hrun
  refine ((Build.bearing σ s f k (some q)).ends_flatIndex (d := fun dim => ds.getD dim 0)
    (x := fun dim => (((s.sources n .index).map (Prod.map id value)).lookup (dim : Int)).getD
      (xs.getD dim 0)) (.inr (.inr (refl_of _))) hdim
    (fun hclamp => hdim 0 (length_pos_iff.2 (hi.clamp hclamp))) fun dim hlt => ?_).meets.of_ok
      hrun |>.2
  -- an index counts if there is one, and otherwise the coordinate
  rw [Build.indexNode, hsources, lookup_map_snd, lookup_map_snd]
  cases hlookup : (s.sources n .index).lookup (dim : Int) with
  | some z =>
    obtain ⟨a, ha, hkind, rfl⟩ := hs.exists_of_mem_sources hn (mem_of_lookup hlookup)
    exact hvalue a ha hkind
  | none =>
    have hc : dim < coordinates.length := by
      rw [hplaces.length_eq, ← hrank]
      exact hi.rest dim hlt hlookup
    obtain ⟨v, hv, hbears⟩ := exists_of_forall₂ hplaces (getElem?_eq_getElem hc)
    rw [Option.map_none, Option.map_none, Option.getD_none, Option.getD_none,
      getD_eq_getElem?_getD, getD_eq_getElem?_getD, getElem?_eq_getElem hc, hv]
    exact hbears

/-- Every access ends at the address its indices give. -/
lemma addressed (ht : Treats s k h f D D' g gm g' thread coordinates l) (hs : s.Sparse s.order)
    (hn : n ∈ s.order) (hkn : (s.node n).cluster = some k) (haccess : (s.node n).op.kind.accesses)
    (hi : s.Indexed σ k box n m ds) (hm : m ∈ s.order) (hrank : box.length = xs.length)
    (hthread : thread ≠ none → σ.address s.tensorMode box [] xs = q.thread)
    (hstays : thread = none ∨ s.sources n .index ≠ [] → ¬ MovedIn s anywhere m)
    (hindex : ∀ a ∈ (s.node n).args, a.kind = .index → a.source ∈ s.order ∧
      (s.node a.source).cluster = some k ∧ f.Yields σ k (some q) (f.target a.source)
      (value a.source)) :
    ∃ a, (f.node n).arguments .index = [a] ∧ f.Yields σ k (some q) (f.source a)
      (σ.address s.tensorMode ds ((s.sources n .index).map (Prod.map id value)) xs) := by
  obtain ⟨g₁, g₂, flat, hg₁, hargs, hby, hg₁₂, hg₂, hfilter⟩ := ht.access hs hn hkn haccess
  have hgm₁ : GoesOn s gm g₁ := hg₁.mono (fun _ hv => hv.mono fun _ _ => trivial)
    fun _ => False.elim
  have hthis : AccessIn s anywhere n := ⟨haccess, k, trivial, hkn⟩
  have hgoes₁₂ : GoesOn s g₁ g₂ := hg₁₂.mono (fun _ hv => hv ▸ hthis) fun _ => False.elim
  have hf₂ : GoesOn s g₂ f := hg₂.mono (fun _ hv => hv.mono fun _ _ => trivial)
    fun _ hv => hv.mono fun _ _ => trivial
  have hsources : g₁.sources n .index = [] ↔ s.sources n .index = [] := by
    rw [hs.sources_eq hn (by rw [hargs]), map_eq_nil_iff]
  -- the node of the address, when it has been recorded
  have hflat : ∃ g₀, GoesOn s g₀ g₂ ∧ Bears σ s f k (some q) flat (σ.address s.tensorMode ds
      ((s.sources n .index).map (Prod.map id value)) xs) g₀ := by
    cases hby with
    | thread heq hnone =>
      rw [hsources] at hnone
      refine ⟨gm.within k, ?_, ?_⟩
      · exact (goesOn_within s gm k).2.trans (hgm₁.trans hgoes₁₂)
      · rw [hnone, map_nil, hi.whole hnone, hthread (by rw [heq]; nofun)]
        exact hp.number flat heq
    | computed hsome hrun hrest =>
      have hrest : GoesOn s _ g₂ := hrest.mono (fun _ hv => hv ▸ hthis) fun _ => False.elim
      rw [Ne, hsources] at hsome
      refine ⟨_, hrest, hp.bears_flatIndex hs hn hkn hgm₁ hargs hi hm (hstays hsome) hrank ?_ hrun⟩
      intro a ha hkind
      obtain ⟨hmem, hka, hv⟩ := hindex a ha hkind
      obtain ⟨henter, hleave⟩ := goesOn_enter s g₁ n
      refine hp.bears_target hs (hgm₁.trans henter) ?_ ?_ hmem hka
        (.inl (hs.typed.index n hn a ha hkind)) hv
      · show (g₁.node n).cluster = some k
        rw [(hp.begins.trans hgm₁).cluster n (hs.lists.lt_size hn), hkn]
      · exact hleave.trans (hgoes₁₂.trans hf₂)
  obtain ⟨g₀, hg₀, hbears⟩ := hflat
  obtain ⟨htarget, hyields⟩ := hbears.final hg₀ hf₂
  refine ⟨⟨.index, 0, g₂.label flat⟩, ?_, ?_⟩
  · rw [Node.arguments, hfilter]
    rfl
  · rw [source, htarget]
    exact hyields

end Provided

end Graph

end KernelFusion
