/-
Names and the short names that replace them.

Listed nodes have different names, and so have the lines of a kernel, merged or not. None of these
names is a short one: they are replaced all at once, though it is done one after the other.
-/
import KernelFusion.Proofs.Cluster.Partition
import KernelFusion.Proofs.Emit.Rendering

namespace KernelFusion

open List

open Text (pieces)

/-- The variables of the lines are renamed all at once, each to the short name of its place. -/
structure RenamedAtOnce (lines : List Line) : Prop where
  text : renderLines lines = renamed (lines.map (·.name)) (String.join (lines.map Line.text))
  pieces : pieces (renderLines lines).toList =
    (pieces (String.join (lines.map Line.text)).toList).map (renamedPiece (lines.map (·.name)))
  name : ∀ {i : Nat} {line : Line}, lines[i]? = some line →
    renamedPiece (lines.map (·.name)) line.name.toList = (shortName i).toList
  distinct : ∀ x ∈ lines.map (·.name), ∀ y ∈ lines.map (·.name),
    renamedPiece (lines.map (·.name)) x.toList = renamedPiece (lines.map (·.name)) y.toList → x = y
  other : ∀ p, (∀ x ∈ lines.map (·.name), x.toList ≠ p) → renamedPiece (lines.map (·.name)) p = p

lemma shortName_inj {i j : Nat} (h : shortName i = shortName j) : i = j :=
  eq_of_toList_toString (congrArg String.toList ((String.append_right_inj "v").1 h))

lemma renamedPiece_of_nodup {names : List String} (h : names.Nodup) {i : Nat} {x : String}
    (hx : names[i]? = some x) : renamedPiece names x.toList = (shortName i).toList := by
  obtain ⟨hi, rfl⟩ := List.getElem?_eq_some_iff.1 hx
  have hfind : (names.findIdx? fun y => y.toList = names[i].toList) = some i := by
    refine findIdx?_eq_some_iff_getElem.2 ⟨hi, by simp, fun j hji => ?_⟩
    simp only [decide_eq_true_eq, String.toList_inj]
    exact fun heq => hji.ne ((h.getElem_inj_iff).1 heq)
  rw [renamedPiece, hfind]

lemma renamedAtOnce {lines : List Line} (hnodup : (lines.map (·.name)).Nodup)
    (hlong : AreLong (lines.map (·.name))) : RenamedAtOnce lines := by
  have htext := foldl_replaceWord_eq_renamed hlong (String.join (lines.map Line.text))
  refine ⟨htext, ?_, fun {i line} hline => ?_, fun x hx y hy h => ?_, fun p hp =>
    renamedPiece_eq_self hp⟩
  · rw [renderLines, htext, hlong.pieces_renamed]
  · exact renamedPiece_of_nodup hnodup (by rw [getElem?_map, hline]; rfl)
  · obtain ⟨i, hi⟩ := mem_iff_getElem?.1 hx
    obtain ⟨j, hj⟩ := mem_iff_getElem?.1 hy
    rw [renamedPiece_of_nodup hnodup hi, renamedPiece_of_nodup hnodup hj, String.toList_inj] at h
    rw [shortName_inj h] at hi
    exact Option.mem_unique hi hj

namespace Graph

variable {g : Graph} {l : List NodeId} {k : Kernel} {lines : List Line}

/-- The lines are named by different listed nodes. -/
def NamesLines (g : Graph) (l : List NodeId) (lines : List Line) : Prop :=
  ∃ ns : List NodeId, ns.Sublist l ∧ lines.map (·.name) = ns.map g.names.of

/-- One after another the renamings do what one pass over the words does. -/
lemma NamesLines.renamedAtOnce (hl : g.Lists l) (h : g.NamesLines l lines) :
    RenamedAtOnce lines := by
  obtain ⟨ns, hsub, hnames⟩ := h
  refine KernelFusion.renamedAtOnce ?_ ?_
  · rw [hnames]
    refine Nodup.map_on (fun m hm n hn => ?_) (hl.chain.nodup.sublist hsub)
    exact hl.names_inj (hsub.subset hm) (hsub.subset hn)
  · rw [hnames]
    intro x hx
    obtain ⟨n, hn, rfl⟩ := mem_map.1 hx
    rcases hl.name_cases (hsub.subset hn) with ⟨i, hi⟩ | ⟨a, b, hab⟩
    · rw [hi]
      refine ⟨isName_memoryName i, fun j heq => ?_⟩
      have hlist := congrArg String.toList heq
      rw [memoryName, shortName, String.toList_append, String.toList_append] at hlist
      cases (cons.inj hlist).1
    · have hvalues : OfValues [g.names.of n] := fun y hy => ⟨a, b, (mem_singleton.1 hy).trans hab⟩
      exact hvalues.areLong _ (mem_singleton_self _)

lemma NamesLines.mergeLines (h : g.NamesLines l lines) : g.NamesLines l (mergeLines lines) := by
  obtain ⟨ns, hsub, hnames⟩ := h
  have hmerged : (mergeAll lines).lines.map (·.name) = lines.map (·.name) := by
    have hframes := congrArg (map fun line : Line => line.name) (map_frame_mergeAll lines)
    rwa [map_map, map_map] at hframes
  have hkept : ((KernelFusion.mergeLines lines).map (·.name)).Sublist (ns.map g.names.of) := by
    rw [← hnames, ← hmerged]
    refine Sublist.map _ ?_
    have hfilter := (filter_sublist (l := (mergeAll lines).lines.zipIdx)
      (p := fun q => !(mergeAll lines).dropped.contains q.2)).map Prod.fst
    rwa [zipIdx_map_fst] at hfilter
  obtain ⟨ns', hsub', heq⟩ := sublist_map_iff.1 hkept
  exact ⟨ns', hsub'.trans hsub, heq⟩

/-- The lines of a kernel carry the names of its nodes. -/
lemma namesLines_kernelLines (hl : g.Lists l)
    (hhead : ∀ c h, (g.node k.first).cluster = some c → g.head? c = some h → h ∈ l)
    (hlines : g.kernelLines k = .ok lines) : g.NamesLines l lines := by
  refine ⟨g.lineNodes k, ?_, ?_⟩
  · unfold lineNodes
    split
    · next c hc =>
      refine filter_sublist.trans ?_
      cases hh : g.head? c with
      | some h => exact run_sublist hl hh (hhead c h hc hh)
      | none =>
        rw [run, hh]
        exact nil_sublist l
    · exact nil_sublist l
  · rw [kernelLines_eq] at hlines
    have hall := (linesOf_eq_ok hlines).flip
    rw [← forall₂_eq_eq_eq, forall₂_map_left_iff, forall₂_map_right_iff]
    refine hall.imp fun line n h => ?_
    obtain ⟨type, hline⟩ := h
    exact hline.name

/-- The listed nodes of a program have different names, and the names of lines are replaced all at
once. -/
structure DistinctlyNamed (g : Graph) (l : List NodeId) : Prop where
  distinct : ∀ m ∈ l, ∀ n ∈ l, g.names.of m = g.names.of n → m = n
  renamed : ∀ lines, g.NamesLines l lines → RenamedAtOnce lines
  kernels : ∀ k lines, (∀ c h, (g.node k.first).cluster = some c → g.head? c = some h → h ∈ l) →
    g.kernelLines k = .ok lines → g.NamesLines l lines ∧ g.NamesLines l (mergeLines lines)

/-- For every program, whatever clusters its nodes are in: different listed nodes have different
names; and if lines are named by different listed nodes, as those of every kernel are, replacing
their names by short ones in turn is replacing them all at once: different names become different
short names, and no other word changes. -/
theorem Lists.distinctlyNamed (hl : g.Lists l) : g.DistinctlyNamed l := by
  refine ⟨fun m hm n hn => hl.names_inj hm hn, fun lines h => h.renamedAtOnce hl,
    fun k lines hhead hlines => ?_⟩
  have hnames := namesLines_kernelLines hl hhead hlines
  exact ⟨hnames, hnames.mergeLines⟩

theorem distinctlyNamed_gatheredStale :
    gatheredStale.Lists (range (Script.scene gathered).graph.nodes.size) ∧
      gatheredStale.DistinctlyNamed (range (Script.scene gathered).graph.nodes.size) := by
  have hrecorded := (Script.recorded (l := gathered) (by decide +kernel)).graph
  have hcut : (Script.scene gathered).graph.Recut gatheredStale :=
    (hrecorded.recut_clusterize.trans recut_setCluster).trans recut_setCluster
  have hl := hcut.lists hrecorded.lists
  exact ⟨hl, hl.distinctlyNamed⟩

end Graph

end KernelFusion
