import TensorStorage.Proofs.Pack.Structure
/-!
# Ranges — counts that the entries of an index array can hold

The outermost dense level that would have more positions than the largest index is refused, and nothing else
(`modesFrom_eq_error_iff`).  A compressed level is laid out without a look at its count (`Packer.merge_of_compressed`).
Where the count fits, its positions are the running counts and a walk starts (`Packer.segments_of_merge`); where it does
not, the positions are cut down to entries and none starts (`Packer.merge_strip`).
-/
namespace TensorStorage

/-- **The outermost dense level with more positions than the largest index**, where `count` gives the positions above
each level. -/
structure FirstOverflow (shapes : List (ModeType × Nat)) (count : Nat → Nat) (l extent : Nat) : Prop where
  dense : shapes[l]? = some (.dense, extent)
  past : maxIndex < count l * extent
  first : ∀ m < l, ∀ extent', shapes[m]? = some (.dense, extent') → count m * extent' ≤ maxIndex

section Levels

variable {keys nodes below : List Coordinate} {positions coordinates : Array Int32}
  {shapes : List (ModeType × Nat)} {count : Nat → Nat} {l l' extent extent' : Nat}

theorem FirstOverflow.unique (h : FirstOverflow shapes count l extent) (h' : FirstOverflow shapes count l' extent') :
    l = l' ∧ extent = extent' := by
  have hl : l = l' := by
    rcases Nat.lt_trichotomy l l' with hlt | heq | hlt
    · exact absurd (h'.first l hlt extent h.dense) (Nat.not_le_of_lt h.past)
    · exact heq
    · exact absurd (h.first l' hlt extent' h'.dense) (Nat.not_le_of_lt h'.past)
  subst hl
  have hshape := h.dense.symm.trans h'.dense
  cases hshape
  exact ⟨rfl, rfl⟩

theorem FirstOverflow.congr {count' : Nat → Nat} (h : FirstOverflow shapes count l extent)
    (hcount : ∀ m < shapes.length, count m = count' m) : FirstOverflow shapes count' l extent := by
  have hat : ∀ {m shape}, shapes[m]? = some shape → count m = count' m := fun hm =>
    hcount _ (List.getElem?_eq_some_iff.1 hm).1
  refine ⟨h.dense, hat h.dense ▸ h.past, fun m hm extent' hshape => ?_⟩
  exact hat hshape ▸ h.first m hm extent' hshape

/-- Where a dense level has too many positions, one of them is the outermost. -/
theorem exists_firstOverflow (hl : shapes[l]? = some (.dense, extent)) (hpast : maxIndex < count l * extent) :
    ∃ l extent, FirstOverflow shapes count l extent := by
  induction l using Nat.strongRecOn generalizing extent with
  | ind l ih =>
    by_cases hfirst : ∃ m < l, ∃ extent', shapes[m]? = some (.dense, extent') ∧ maxIndex < count m * extent'
    · obtain ⟨m, hm, extent', hshape, hpast'⟩ := hfirst
      exact ih m hm hshape hpast'
    · refine ⟨l, extent, hl, hpast, fun m hm extent' hshape => Nat.le_of_not_lt fun hpast' => hfirst ?_⟩
      exact ⟨m, hm, extent', hshape, hpast'⟩

theorem firstOverflow_cons_succ {shape : ModeType × Nat}
    (hfits : ∀ extent', shape = (.dense, extent') → count 0 * extent' ≤ maxIndex) :
    FirstOverflow (shape :: shapes) count (l + 1) extent ↔ FirstOverflow shapes (fun m => count (m + 1)) l extent := by
  constructor
  · rintro ⟨hdense, hpast, hfirst⟩
    exact ⟨hdense, hpast, fun m hm extent' h => hfirst (m + 1) (Nat.succ_lt_succ hm) extent' h⟩
  · rintro ⟨hdense, hpast, hfirst⟩
    refine ⟨hdense, hpast, fun m hm extent' h => ?_⟩
    cases m with
    | zero => exact hfits extent' (Option.some.inj h)
    | succ m => exact hfirst m (Nat.lt_of_succ_lt_succ hm) extent' h

theorem maxIndex_lt_saturated {n : Nat} (h : maxIndex < n) : maxIndex < saturated n :=
  Nat.lt_min.2 ⟨h, by decide⟩

/-- **Laying out supported levels fails at the outermost dense level with too many positions**, and only there. -/
theorem modesFrom_eq_error_iff : ∀ {shapes : List (ModeType × Nat)} {depth : Nat} {nodes : List Coordinate}
    {e : Failure}, (∀ shape ∈ shapes, shape.1.isSupported = true) → (modesFrom keys depth shapes nodes = .error e ↔
      ∃ l extent, FirstOverflow shapes (fun l => (nodesAfter keys depth (shapes.take l) nodes).length) l extent ∧
        e = .refused (.indexOverflow (saturated ((nodesAfter keys depth (shapes.take l) nodes).length * extent))))
  | [], _, _, _, _ => by
    refine ⟨by rintro ⟨⟩, ?_⟩
    rintro ⟨l, extent, hover, -⟩
    cases hover.dense
  | (type, extent) :: rest, depth, nodes, e, hsupported => by
    have ih := @modesFrom_eq_error_iff rest (depth + 1) (nodesBelow keys depth (type, extent) nodes) e
      fun s hs => hsupported s (List.mem_cons_of_mem _ hs)
    rw [modesFrom]
    by_cases hover : type = .dense ∧ maxIndex < nodes.length * extent
    -- the level itself is refused
    · obtain ⟨rfl, hpast⟩ := hover
      have hhead : FirstOverflow ((.dense, extent) :: rest)
          (fun l => (nodesAfter keys depth (((.dense, extent) :: rest).take l) nodes).length) 0 extent :=
        ⟨rfl, hpast, fun m hm => absurd hm (Nat.not_lt_zero m)⟩
      rw [modeBetween, if_pos hpast, error_bind]
      constructor
      · intro h
        cases h
        exact ⟨0, extent, hhead, rfl⟩
      · rintro ⟨l, extent', hl, rfl⟩
        obtain ⟨rfl, rfl⟩ := hl.unique hhead
        rfl
    -- the level is laid out
    · have hfits : ∀ extent', (type, extent) = (.dense, extent') → nodes.length * extent' ≤ maxIndex := by
        rintro extent' h
        cases h
        exact Nat.le_of_not_lt fun hpast => hover ⟨rfl, hpast⟩
      obtain ⟨mode, hmode⟩ : ∃ mode,
          modeBetween depth nodes (nodesBelow keys depth (type, extent) nodes) (type, extent) = .ok mode := by
        cases type with
        | dense => exact ⟨_, by rw [modeBetween, if_neg (Nat.not_lt_of_le (hfits extent rfl))]⟩
        | compressed => exact ⟨_, rfl⟩
        | singleton => exact absurd (hsupported _ List.mem_cons_self) Bool.false_ne_true
      rw [hmode, ok_bind, bind_pure_eq_error, ih]
      constructor
      · rintro ⟨l, extent', hl, rfl⟩
        exact ⟨l + 1, extent', (firstOverflow_cons_succ hfits).2 hl, rfl⟩
      · rintro ⟨l, extent', hl, rfl⟩
        cases l with
        | zero =>
          cases hl.dense
          exact absurd ⟨rfl, hl.past⟩ hover
        | succ l => exact ⟨l, extent', (firstOverflow_cons_succ hfits).1 hl, rfl⟩

theorem modesFrom_of_compressed : ∀ {shapes : List (ModeType × Nat)} {depth : Nat} {nodes : List Coordinate},
    (∀ shape ∈ shapes, shape.1 = .compressed) → ∃ modes, modesFrom keys depth shapes nodes = .ok modes
  | [], _, _, _ => ⟨[], rfl⟩
  | (type, extent) :: rest, depth, nodes, h => by
    obtain rfl : type = .compressed := h _ List.mem_cons_self
    obtain ⟨modes, hmodes⟩ : ∃ modes,
        modesFrom keys (depth + 1) rest (nodesBelow keys depth (.compressed, extent) nodes) = .ok modes :=
      modesFrom_of_compressed fun s hs => h s (List.mem_cons_of_mem _ hs)
    rw [modesFrom, hmodes]
    exact ⟨_, rfl⟩

/-! ## Position arrays -/

theorem Segments.toInt_mono (h : Segments positions coordinates nodes below) {i : Nat} : ∀ {j : Nat}, i ≤ j →
    (hj : j < positions.size) → ∀ hi : i < positions.size, positions[i].toInt ≤ positions[j].toInt
  | 0, hij, _, _ => by
    obtain rfl : i = 0 := Nat.le_zero.1 hij
    exact Int.le_refl _
  | j + 1, hij, hj, hi => by
    rcases Nat.lt_or_eq_of_le hij with hlt | rfl
    · have hsize := h.size
      obtain ⟨here, next, hhere, hnext, hstep⟩ := h.step j _ (List.getElem?_eq_getElem (by omega))
      obtain ⟨_, rfl⟩ := Array.getElem?_eq_some_iff.1 hhere
      obtain ⟨_, rfl⟩ := Array.getElem?_eq_some_iff.1 hnext
      have ih := h.toInt_mono (Nat.le_of_lt_succ hlt) (Nat.lt_of_succ_lt hj) hi
      rw [hstep]
      exact Int.le_trans ih (Int.le_add_of_nonneg_right (Int.natCast_nonneg _))
    · exact Int.le_refl _

/-- **The position array of a level passes the check of segments**: it starts at 0, never decreases, and ends at the
number of coordinates. -/
theorem Segments.checkSegments_eq_ok (h : Segments positions coordinates nodes below) :
    checkSegments positions coordinates.size = .ok () := by
  obtain ⟨first, hfirst, hzero⟩ := Option.map_eq_some_iff.1 h.first
  obtain ⟨last, hlast, hend⟩ := Option.map_eq_some_iff.1 h.last
  have hnone : firstDecrease? 0 (positions.toList.map (·.toInt)) = none := by
    refine firstDecrease?_eq_none 0 (List.pairwise_iff_getElem.2 fun i j hi hj hij => ?_)
    rw [List.length_map, Array.length_toList] at hi hj
    simpa using h.toInt_mono (Nat.le_of_lt hij) hj hi
  simp only [checkSegments, hfirst, hlast, hnone]
  rw [if_neg (not_not_intro hzero), if_neg (not_not_intro hend)]

end Levels

namespace Packer

variable {p : Packer} {stored records : List Entry} {out : List Record} {s : Storage}

/-- The number of positions below a dense level of a storage that was laid out. -/
theorem length_nodes_le_of_dense {modes : List ModeIndex}
    (hmodes : modesFrom (out.map (·.key)) 0 p.levelShapes [[]] = .ok modes) {l extent : Nat}
    (hl : p.levelShapes[l]? = some (.dense, extent)) : (p.nodes out (l + 1)).length ≤ maxIndex := by
  obtain ⟨mode, -, hbetween⟩ := getElem?_modesFrom hmodes hl
  rw [modeBetween, guard_eq_ok] at hbetween
  rw [nodes_succ p out hl, length_nodesBelow_of_ne (by simp)]
  exact Nat.le_of_not_lt hbetween.1

/-- **Counts fit where those of the compressed levels do**: those of the dense levels were compared with the largest
index when they were laid out. -/
theorem fitsEntries_of_compressed (hc : p.check = .ok ()) (h : p.LaysOut out) (hlay : p.lay out = .ok s)
    (hcompressed : ∀ positions coordinates,
      ModeIndex.compressed positions coordinates ∈ s.index.modes → coordinates.size ≤ maxIndex) :
    p.FitsEntries out := by
  obtain ⟨modes, hmodes, rfl⟩ := lay_eq_ok hc h hlay
  refine fits_iff.2 fun n hn => ?_
  cases n with
  | zero => exact Nat.succ_le_of_lt (by decide : 0 < maxIndex)
  | succ l =>
    obtain ⟨⟨type, extent⟩, hl, -⟩ := exists_levelShape (p.length_levelShapes ▸ hn : l < p.format.order)
    cases type with
    | dense => exact length_nodes_le_of_dense hmodes hl
    | compressed =>
      obtain ⟨mode, hmode, hbetween⟩ := getElem?_modesFrom hmodes hl
      cases hbetween
      have hsize := hcompressed _ _ (List.mem_of_getElem? hmode)
      simpa [Buffer.size] using hsize
    | singleton =>
      obtain ⟨mode, -, hbetween⟩ := getElem?_modesFrom hmodes hl
      cases hbetween

/-- The arrays of a compressed level of a storage whose counts fit. -/
theorem segments_of_lay (hc : p.check = .ok ()) (h : p.LaysOut out) (hlay : p.lay out = .ok s)
    (hfits : p.FitsEntries out) {l : Nat} {positions coordinates : IndexArray}
    (hmode : s.index.modes[l]? = some (.compressed positions coordinates)) :
    Segments positions.data coordinates.data (p.nodes out l) (p.nodes out (l + 1)) := by
  have hlt := (List.getElem?_eq_some_iff.1 hmode).1
  rw [length_modes_of_lay hc h hlay] at hlt
  obtain ⟨⟨type, extent⟩, hl, -⟩ := exists_levelShape hlt
  obtain ⟨mode, hat, hlists⟩ := listsNodes_of_lay hc h hlay hfits hl
  rw [hmode] at hat
  cases hat
  cases type with
  | dense =>
    obtain ⟨entry, he, -⟩ := hlists
    cases he
  | compressed =>
    obtain ⟨positions', coordinates', he, hsegments⟩ := hlists
    cases he
    exact hsegments
  | singleton => exact hlists.elim

theorem supported_levelShapes (hc : p.check = .ok ()) : ∀ shape ∈ p.levelShapes, shape.1.isSupported = true := by
  intro shape hshape
  refine Format.ensureSupported_eq_ok.1 (check_eq_ok hc).2.1 shape.1 ?_
  rw [← map_fst_levelShapes]
  exact List.mem_map_of_mem hshape

/-- **A dense level with more positions than the largest index is refused.** -/
theorem lay_eq_error (hc : p.check = .ok ()) (h : p.LaysOut out) {l extent : Nat}
    (hl : p.levelShapes[l]? = some (.dense, extent)) (hcount : maxIndex < (p.nodes out (l + 1)).length) :
    ∃ n, maxIndex < n ∧ p.lay out = .error (.refused (.indexOverflow n)) := by
  rw [lay_eq hc h]
  cases hmodes : modesFrom (out.map (·.key)) 0 p.levelShapes [[]] with
  | ok modes => exact absurd (length_nodes_le_of_dense hmodes hl) (Nat.not_le_of_lt hcount)
  | error e =>
    obtain ⟨m, extent', hover, rfl⟩ := (modesFrom_eq_error_iff (supported_levelShapes hc)).1 hmodes
    exact ⟨_, maxIndex_lt_saturated hover.past, rfl⟩

/-- **Compressed levels are laid out whatever their counts**, with the count cut down to an entry at the end of the
position array. -/
theorem merge_of_compressed (hc : p.check = .ok ()) (hresolve : p.resolve stored records = .ok out)
    (hcompressed : ∀ type ∈ p.format.types, type = .compressed) :
    ∃ s, p.merge stored records = .ok s ∧ s.values.size = (p.leaves out).length ∧
      ∀ l < p.format.order, ∃ positions coordinates : IndexArray,
        s.index.modes[l]? = some (.compressed positions coordinates) ∧
          coordinates.size = (p.nodes out (l + 1)).length ∧
          positions.data.back? = some (Int32.ofNat (p.nodes out (l + 1)).length) := by
  have hout := (resolve_eq_ok (check_eq_ok hc).1 hresolve).laysOut
  have hshapes : ∀ shape ∈ p.levelShapes, shape.1 = .compressed := fun shape hshape =>
    hcompressed _ (by rw [← map_fst_levelShapes]; exact List.mem_map_of_mem hshape)
  obtain ⟨modes, hmodes⟩ : ∃ modes, modesFrom (out.map (·.key)) 0 p.levelShapes [[]] = .ok modes :=
    modesFrom_of_compressed hshapes
  have hmerge : p.merge stored records = .ok ⟨⟨modes, (p.leaves out).length⟩,
      .ofArray p.dtype ((p.leaves out).map (scalarAt p.dtype out)).toArray⟩ := by
    rw [merge, hc, Outcome.liftM_checked, Outcome.ofChecked_ok, ok_bind, hresolve, ok_bind, lay_eq hc hout, hmodes]
    rfl
  refine ⟨_, hmerge, by simp [ValueArray.ofArray, ValueArray.size, Buffer.size], fun l hl => ?_⟩
  obtain ⟨⟨type, extent⟩, hshape, htype⟩ := exists_levelShape hl
  obtain rfl := hcompressed type htype
  obtain ⟨mode, hmode, hbetween⟩ := getElem?_modesFrom hmodes hshape
  have hbelow := nodes_succ p out hshape
  rw [Nat.zero_add, ← nodes, ← nodes, hbelow] at hbetween
  cases hbetween
  refine ⟨_, _, hmode, ?_, ?_⟩
  · simp [Buffer.size, hbelow]
  · rw [back?_positionArray, sum_length_familiesOf hout.sorted (hout.keysWithin_drop hshape)
      (hout.nodesAt (Nat.le_of_lt hl)), hbelow]

/-- A walk of a packed storage starts only if the count of every level fits. -/
theorem length_nodes_le_of_start {source : Nat} {t : Traversal} (hresolve : p.resolve stored records = .ok out)
    (hmerge : p.merge stored records = .ok s) (ht : Traversal.start source s p.format = .ok t) {l : Nat}
    (hl : l ≤ p.format.order) : (p.nodes out l).length ≤ maxIndex := by
  obtain ⟨hc, out', hresolve', hlay⟩ := merge_eq_ok hmerge
  cases hresolve.symm.trans hresolve'
  have hout := resolve_eq_ok (check_eq_ok hc).1 hresolve
  exact (fits_of_checkedLevels hc hout.laysOut hlay (Traversal.start_eq_ok ht).1).length_nodes_le hl

/-- The nodes below dense levels are there whatever goes in. -/
theorem mem_nodes_iff_of_dense (p : Packer) (out : List Record) (entries : List Entry) : ∀ {l : Nat},
    l ≤ p.format.order → (∀ type ∈ p.format.types.take l, type = .dense) → ∀ {x : Coordinate},
      x ∈ p.nodes out l ↔ p.IsNode entries l x
  | 0, _, _, _ => List.mem_singleton
  | l + 1, hl, hdense, x => by
    obtain ⟨⟨type, extent⟩, hshape, -⟩ := exists_levelShape hl
    have hat : p.format.types[l]? = some type := by
      rw [← map_fst_levelShapes, List.getElem?_map, hshape]
      rfl
    rw [List.take_add_one, hat] at hdense
    obtain rfl : type = .dense := hdense type (by simp)
    have ih := fun node => mem_nodes_iff_of_dense p out entries (Nat.le_of_succ_le hl)
      (fun type htype => hdense type (List.mem_append_left _ htype)) (x := node)
    rw [nodes_succ p out hshape, IsNode, hshape, nodesBelow_of_ne (by simp), mem_children]
    constructor
    · rintro ⟨node, hnode, hx⟩
      exact ⟨node, (ih node).1 hnode, hx⟩
    · rintro ⟨node, hnode, hx⟩
      exact ⟨node, (ih node).2 hnode, hx⟩

/-- **Ranges of packed index arrays.**  If every compressed level of a packed storage lists at most as many coordinates
as the largest index, its position array holds the exact running counts of the nodes below, and a traversal of the
storage starts.  If the packer passes its check, the entries resolve, and a dense level would have more positions than
the largest index, packing refuses with an overflow. -/
theorem segments_of_merge (p : Packer) (stored records : List Entry) :
    (∀ s, p.merge stored records = .ok s →
      (∀ positions coordinates,
        ModeIndex.compressed positions coordinates ∈ s.index.modes → coordinates.size ≤ maxIndex) →
      (∃ nodes : Nat → List Coordinate,
        (∀ l ≤ p.format.order, (nodes l).Pairwise Coordinate.Before ∧
          ∀ x, x ∈ nodes l ↔ p.IsNode (stored ++ records) l x) ∧
        ∀ l (positions coordinates : IndexArray), s.index.modes[l]? = some (.compressed positions coordinates) →
          Segments positions.data coordinates.data (nodes l) (nodes (l + 1)) ∧
          checkSegments positions.data coordinates.size = .ok ()) ∧
      ∀ source, ∃ t, Traversal.start source s p.format = .ok t) ∧
    (∀ out l extent (below : List Coordinate), p.check = .ok () → p.resolve stored records = .ok out →
      p.levelShapes[l]? = some (.dense, extent) → below.Nodup →
      (∀ x, x ∈ below ↔ p.IsNode (stored ++ records) (l + 1) x) → maxIndex < below.length →
      ∃ n, maxIndex < n ∧ p.merge stored records = .error (.refused (.indexOverflow n))) := by
  constructor
  · intro s hmerge hcompressed
    obtain ⟨hc, out, hresolve, hlay⟩ := merge_eq_ok hmerge
    obtain ⟨horder, hsupported, -⟩ := check_eq_ok hc
    have hout := resolve_eq_ok horder hresolve
    have hfits := fitsEntries_of_compressed hc hout.laysOut hlay hcompressed
    refine ⟨⟨p.nodes out, fun l hl => ⟨(hout.laysOut.nodesAt hl).inOrder, fun x => hout.mem_nodes_iff hsupported hl⟩,
      fun l positions coordinates hmode => ?_⟩, fun source => ?_⟩
    · have hsegments := segments_of_lay hc hout.laysOut hlay hfits hmode
      exact ⟨hsegments, hsegments.checkSegments_eq_ok⟩
    · refine ⟨⟨source, s, p.format, p.levels out, .new (p.levels out).length⟩, ?_⟩
      rw [Traversal.start, checkedLevels_of_lay hc hout.laysOut hlay hfits]
      rfl
  · intro out l extent below hc hresolve hl hnodup hmem hcount
    obtain ⟨horder, hsupported, -⟩ := check_eq_ok hc
    have hout := resolve_eq_ok horder hresolve
    have hlt : l < p.format.order := by
      rw [← length_levelShapes]
      exact (List.getElem?_eq_some_iff.1 hl).1
    have hsub : below ⊆ p.nodes out (l + 1) := fun x hx => (hout.mem_nodes_iff hsupported hlt).2 ((hmem x).1 hx)
    obtain ⟨n, hn, hlay⟩ :=
      lay_eq_error hc hout.laysOut hl (Nat.lt_of_lt_of_le hcount (hnodup.length_le_of_subset hsub))
    refine ⟨n, hn, ?_⟩
    rw [merge, hc, Outcome.liftM_checked, Outcome.ofChecked_ok, ok_bind, hresolve, ok_bind, hlay]

/-- A packer of dense matrices with more places than the largest index. -/
def square : Packer := ⟨[65536, 65536], .dense 2, .int32, .reject⟩

theorem exists_nodes_square (entries : List Entry) : ∃ below : List Coordinate, below.Nodup ∧
    (∀ x, x ∈ below ↔ square.IsNode entries 2 x) ∧ maxIndex < below.length := by
  have hempty : square.LaysOut [] := ⟨List.Pairwise.nil, by simp, by simp, by simp⟩
  have hrows : square.levelShapes[0]? = some (.dense, 65536) := rfl
  have hcolumns : square.levelShapes[1]? = some (.dense, 65536) := rfl
  refine ⟨square.nodes [] 2, (hempty.nodesAt (Nat.le_refl 2)).nodup,
    fun x => mem_nodes_iff_of_dense square [] entries (Nat.le_refl 2) (by decide), ?_⟩
  rw [nodes_succ square [] hcolumns, nodes_succ square [] hrows, length_nodesBelow_of_ne (by simp),
    length_nodesBelow_of_ne (by simp)]
  decide

/-- A packer of matrices with two rows of as many columns as the largest index, and both levels compressed. -/
def strip : Packer := ⟨[2, maxIndex], .sparse 2, .int32, .sum⟩

/-- The places of the strip, row after row. -/
def stripEntry (k : Nat) : Entry := ⟨[k / maxIndex, k % maxIndex], ⟨.int32, (0 : Int32)⟩⟩

theorem stripEntry_injective : Function.Injective fun k => (stripEntry k).coordinate := by
  intro k k' h
  obtain ⟨hrow, hcolumn, -⟩ : k / maxIndex = k' / maxIndex ∧ k % maxIndex = k' % maxIndex ∧ True := by
    simpa [stripEntry] using h
  rw [← Nat.div_add_mod k maxIndex, ← Nat.div_add_mod k' maxIndex, hrow, hcolumn]

theorem admits_stripEntry {k : Nat} (hk : k < 2 * maxIndex) : strip.Admits (stripEntry k) := by
  refine ⟨rfl, rfl, ?_⟩
  have hrow : k / maxIndex < 2 := Nat.div_lt_of_lt_mul (Nat.mul_comm 2 maxIndex ▸ hk)
  have hcolumn : k % maxIndex < maxIndex := Nat.mod_lt k (by decide)
  simp [stripEntry, strip, Coordinate.inBounds, hrow, hcolumn]

/-- **The strip packs however many of its places are in use**, and no walk starts over more of them than the largest
index. -/
theorem merge_strip {n : Nat} (hn : n ≤ 2 * maxIndex) (hlt : maxIndex < n) :
    ∃ s positions coordinates, strip.merge [] ((List.range n).map stripEntry) = .ok s ∧
      s.index.modes[1]? = some (.compressed positions coordinates) ∧ coordinates.size = n ∧
      positions.data.back? = some (Int32.ofNat n) ∧ checkSegments positions.data coordinates.size ≠ .ok () ∧
      ∀ source t, Traversal.start source s strip.format ≠ .ok t := by
  have hc : strip.check = .ok () := by decide
  have hadmits : ∀ e ∈ [] ++ (List.range n).map stripEntry, strip.Admits e := fun e he => by
    obtain ⟨k, hk, rfl⟩ := List.mem_map.1 he
    exact admits_stripEntry (Nat.lt_of_lt_of_le (List.mem_range.1 hk) hn)
  obtain ⟨out, hresolve⟩ := resolve_isOk (p := strip) rfl hadmits fun h => by cases h
  have hout := resolve_eq_ok (p := strip) rfl hresolve
  have hcount : (strip.nodes out 2).length = n := by
    have hplaces : ((List.range n).map fun k => (stripEntry k).coordinate).Nodup :=
      List.nodup_range.map stripEntry_injective
    have hperm := (List.perm_ext_iff_of_nodup (hout.laysOut.nodesAt (Nat.le_refl 2)).nodup hplaces).2 fun x => by
      rw [hout.mem_nodes_iff (by decide) (Nat.le_refl 2)]
      constructor
      · rintro ⟨e, he, rfl⟩
        obtain ⟨k, hk, rfl⟩ := List.mem_map.1 he
        exact List.mem_map_of_mem hk
      · intro hx
        obtain ⟨k, hk, rfl⟩ := List.mem_map.1 hx
        exact ⟨stripEntry k, List.mem_map_of_mem hk, rfl⟩
    rw [hperm.length_eq, List.length_map, List.length_range]
  obtain ⟨s, hmerge, -, hmodes⟩ := merge_of_compressed hc hresolve (by decide)
  obtain ⟨positions, coordinates, hmode, hsize, hlast⟩ := hmodes 1 (by decide)
  rw [hcount] at hsize hlast
  refine ⟨s, positions, coordinates, hmerge, hmode, hsize, hlast, fun h => ?_, fun source t ht => ?_⟩
  · have hle := le_of_checkSegments h
    rw [hsize] at hle
    exact Nat.not_le_of_lt hlt hle
  · have hle := length_nodes_le_of_start hresolve hmerge ht (Nat.le_refl 2)
    rw [hcount] at hle
    exact Nat.not_le_of_lt hlt hle

/-- Rows in use over dense columns, and the dense matrix that is refused. -/
theorem segments_of_merge_rows :
    let p : Packer := ⟨[3, 2], ⟨[.compressed, .dense], [0, 1], rfl, by decide⟩, .int32, .sum⟩
    let records : List Entry := [⟨[0, 1], ⟨.int32, (7 : Int32)⟩⟩, ⟨[2, 0], ⟨.int32, (1 : Int32)⟩⟩]
    let s : Storage := ⟨⟨[.compressed { data := #[0, 2] } { data := #[0, 2] }, .dense 2], 4⟩,
      .ofArray .int32 #[0, 7, 1, 0]⟩
    (p.merge [] records = .ok s ∧ ∃ t, Traversal.start 0 s p.format = .ok t) ∧
      square.check = .ok () ∧ square.resolve [] [] = .ok [] ∧
      ∃ n, maxIndex < n ∧ square.merge [] [] = .error (.refused (.indexOverflow n)) := by
  intro p records s
  have hmerge : p.merge [] records = .ok s := by cbv
  have hsmall : ∀ positions coordinates, ModeIndex.compressed positions coordinates ∈ s.index.modes →
      coordinates.size ≤ maxIndex := by
    intro positions coordinates hmem
    rcases List.mem_cons.1 hmem with he | hmem
    · cases he
      decide
    · cases List.mem_singleton.1 hmem
  have hcheck : square.check = .ok () := by decide
  have hresolve : square.resolve [] [] = .ok [] := by cbv
  obtain ⟨below, hnodup, hmem, hcount⟩ := exists_nodes_square []
  exact ⟨⟨hmerge, ((segments_of_merge p [] records).1 s hmerge hsmall).2 0⟩, hcheck, hresolve,
    (segments_of_merge square [] []).2 [] 1 65536 below hcheck hresolve rfl hnodup hmem hcount⟩

/-- **A compressed level of one coordinate too many** is packed: its position array ends below zero, and no walk of the
storage starts. -/
theorem merge_past_range :
    ∃ (s : Storage) (positions coordinates : IndexArray),
      strip.merge [] ((List.range (maxIndex + 1)).map stripEntry) = .ok s ∧
      s.index.modes[1]? = some (.compressed positions coordinates) ∧ coordinates.size = maxIndex + 1 ∧
      positions.data.back? = some (-2147483648) ∧ checkSegments positions.data coordinates.size ≠ .ok () ∧
      ∀ source t, Traversal.start source s strip.format ≠ .ok t :=
  merge_strip (by decide) (Nat.lt_succ_self maxIndex)

end Packer

end TensorStorage
