import TensorStorage.Proofs.Pack.Layout
/-!
# Fill — the values of the leaves

Each record's value goes to the slot of its node, and the slots of the other leaves stay zero (`Layout.values_at`).
With the arrays of the levels this is all that packing makes of records in storage order (`Packer.lay_eq`), so records
with the same nodes and the same values at them make the same storage (`Packer.lay_congr`).
-/
namespace TensorStorage

/-- The scalar of a leaf: that of the record at it, or zero. -/
def scalarAt (d : DataType) (records : List Record) (x : Coordinate) : d.Scalar :=
  ((records.find? (·.key = x)).bind (·.value.as? d)).getD d.zero

theorem find?_key_eq_none {records : List Record} {x : Coordinate} (h : ∀ r ∈ records, r.key ≠ x) :
    records.find? (·.key = x) = none :=
  List.find?_eq_none.2 fun r hr => by simpa using h r hr

theorem InOrder.find?_key : ∀ {records : List Record}, InOrder records → ∀ {r : Record}, r ∈ records →
    records.find? (·.key = r.key) = some r
  | [], _, _, hr => by cases hr
  | a :: records, h, r, hr => by
    rcases List.mem_cons.1 hr with rfl | hr
    · simp
    · have ha : a.key ≠ r.key := (List.rel_of_pairwise_cons h hr).2
      rw [List.find?_cons_of_neg (by simpa using ha)]
      exact InOrder.find?_key h.of_cons hr

theorem ValueArray.set_ofArray {d : DataType} {cells : Array d.Scalar} {i : Nat} {v : Value} (hi : i < cells.size)
    {x : d.Scalar} (hv : v.as? d = some x) : (ofArray d cells).set i v = .ok (ofArray d (cells.set i x hi)) := by
  have h : i < (ofArray d cells).cells.data.size := hi
  have hv' : v.as? (ofArray d cells).dtype = some x := hv
  rw [ValueArray.set, dif_pos h, hv']
  rfl

theorem foldlM_set_at {d : DataType} {leaves : List Coordinate} {depth : Nat} (hnodup : leaves.Nodup) :
    ∀ (records : List Record) (cells : Array d.Scalar), InOrder records → cells.size = leaves.length →
      (∀ r ∈ records, r.key ∈ leaves ∧ r.key.length = depth ∧ r.value.dtype = d) →
      ∃ filled : Array d.Scalar, (records.map (·.at leaves depth)).foldlM (fun array p => array.set p.position p.value)
          (ValueArray.ofArray d cells) = .ok (.ofArray d filled) ∧ filled.size = leaves.length ∧
        ∀ i (hi : i < leaves.length) (hf : i < filled.size) (hc : i < cells.size),
          filled[i] = ((records.find? (·.key = leaves[i])).bind (·.value.as? d)).getD cells[i]
  | [], cells, _, hsize, _ => ⟨cells, rfl, hsize, fun i hi hf hc => by simp⟩
  | r :: records, cells, hin, hsize, h => by
    obtain ⟨hmem, hlen, hd⟩ := h r List.mem_cons_self
    have hplace : (r.at leaves depth).position = leaves.idxOf r.key := by
      rw [Record.at, List.take_of_length_le (Nat.le_of_eq hlen)]
    have hi : leaves.idxOf r.key < leaves.length := List.idxOf_lt_length_of_mem hmem
    have hr : leaves[leaves.idxOf r.key] = r.key := List.getElem_idxOf hi
    obtain ⟨x, hx⟩ : ∃ x, r.value.as? d = some x := by
      subst hd
      exact ⟨_, r.value.as?_self⟩
    obtain ⟨filled, hfold, hfsize, hfilled⟩ := foldlM_set_at hnodup records (cells.set _ x (hsize ▸ hi)) hin.of_cons
      (by rw [Array.size_set, hsize]) fun r hr => h r (List.mem_cons_of_mem _ hr)
    refine ⟨filled, ?_, hfsize, fun i hi' hf hc => ?_⟩
    · have hset : (ValueArray.ofArray d cells).set (leaves.idxOf r.key) (r.at leaves depth).value = _ :=
        ValueArray.set_ofArray (hsize ▸ hi) hx
      rw [List.map_cons, List.foldlM_cons, hplace, hset]
      exact hfold
    · rw [hfilled i hi' hf (by rwa [Array.size_set])]
      by_cases hir : leaves.idxOf r.key = i
      · subst hir
        have hnone : records.find? (·.key = leaves[leaves.idxOf r.key]) = none := find?_key_eq_none fun s hs => by
          rw [hr]
          exact (List.rel_of_pairwise_cons hin hs).2.symm
        rw [hnone, List.find?_cons_of_pos (by simp [hr])]
        simp [hx]
      · have hne : r.key ≠ leaves[i] := fun he => hir (by rw [he]; exact hnodup.idxOf_getElem i hi')
        rw [List.find?_cons_of_neg (by simpa using hne), Array.getElem_set_ne _ _ hir]

/-- **The values of records at their leaves.** -/
theorem Layout.values_at {d : DataType} {leaves : List Coordinate} {depth : Nat} {records : List Record}
    (hnodup : leaves.Nodup) (hin : InOrder records)
    (h : ∀ r ∈ records, r.key ∈ leaves ∧ r.key.length = depth ∧ r.value.dtype = d) :
    (Layout.at leaves depth records).values d = .ok (.ofArray d (leaves.map (scalarAt d records)).toArray) := by
  obtain ⟨filled, hfold, hsize, hfilled⟩ := foldlM_set_at hnodup records (Array.replicate leaves.length d.zero) hin
    (by simp) h
  have heq : filled = (leaves.map (scalarAt d records)).toArray := by
    refine Array.ext (by simp [hsize]) fun i hi _ => ?_
    rw [hfilled i (hsize ▸ hi) hi (by simpa [hsize] using hi)]
    simp [scalarAt]
  rw [← heq]
  exact hfold

/-! ## Storages -/

namespace Packer

variable {p : Packer} {records : List Record}

/-- The mode type of each level with the extent of the dimension it stores, for a packer that passes its check. -/
def levelShapes (p : Packer) : List (ModeType × Nat) := p.format.types.zip (p.format.keyOf p.dimensions)

theorem check_eq_ok (h : p.check = .ok ()) :
    p.format.order = p.dimensions.length ∧ p.format.ensureSupported = .ok () ∧ ∀ d ∈ p.dimensions, d ≤ maxIndex := by
  simp only [check, error_bind, guard_eq_ok, bind_eq_ok] at h
  obtain ⟨horder, ⟨⟩, hs, h⟩ := h
  refine ⟨by simpa using horder, hs, ?_⟩
  split at h
  · cases h
  · rename_i hnone
    simpa [List.find?_eq_none] using hnone

theorem check_isOk (horder : p.format.order = p.dimensions.length) (hsupported : p.format.ensureSupported = .ok ())
    (hdimensions : ∀ d ∈ p.dimensions, d ≤ maxIndex) : p.check = .ok () := by
  have hnone : p.dimensions.find? (maxIndex < ·) = none := List.find?_eq_none.2 fun d hd => by
    simpa using hdimensions d hd
  simp [check, horder, hsupported, hnone]

theorem shapes_eq (h : p.format.order = p.dimensions.length) : p.shapes = .ok p.levelShapes := by
  rw [shapes, Format.extents?, Format.toLevels?_eq (Nat.le_of_eq h)]
  rfl

theorem map_fst_levelShapes (p : Packer) : p.levelShapes.map Prod.fst = p.format.types := by
  rw [levelShapes, List.map_fst_zip]
  rw [Format.length_keyOf]
  exact Nat.le_refl _

theorem map_snd_levelShapes (p : Packer) : p.levelShapes.map Prod.snd = p.format.keyOf p.dimensions := by
  rw [levelShapes, List.map_snd_zip]
  rw [Format.length_keyOf]
  exact Nat.le_refl _

theorem length_levelShapes (p : Packer) : p.levelShapes.length = p.format.order := by
  rw [levelShapes, List.length_zip, Format.length_keyOf]
  exact Nat.min_self _

/-- **Records to lay out**: in storage order, each with a number in bounds for each level, and of the right kind. -/
structure LaysOut (p : Packer) (records : List Record) : Prop where
  inOrder : InOrder records
  length : ∀ r ∈ records, r.key.length = p.format.order
  inBounds : ∀ r ∈ records, r.key.inBounds (p.format.keyOf p.dimensions) = true
  dtype : ∀ r ∈ records, r.value.dtype = p.dtype

/-- The leaves of the storage of some records, in level order. -/
def leaves (p : Packer) (records : List Record) : List Coordinate :=
  nodesAfter (records.map (·.key)) 0 p.levelShapes [[]]

/-- The number of levels up to the last compressed one. -/
def pinned (p : Packer) : Nat := pinnedLevels p.format.types

theorem LaysOut.sorted (h : p.LaysOut records) : (records.map (·.key)).Pairwise Coordinate.Before :=
  List.pairwise_map.2 h.inOrder

theorem LaysOut.keysWithin (h : p.LaysOut records) : KeysWithin (records.map (·.key)) 0 p.levelShapes := by
  intro k hk
  obtain ⟨r, hr, rfl⟩ := List.mem_map.1 hk
  rw [length_levelShapes, map_snd_levelShapes, Nat.zero_add]
  exact ⟨h.length r hr, h.inBounds r hr⟩

theorem LaysOut.nodesAt_leaves (h : p.LaysOut records) :
    NodesAt (records.map (·.key)) p.format.order (p.leaves records) := by
  have := nodesAt_nodesAfter h.sorted h.keysWithin (nodesAt_root _)
  rwa [length_levelShapes, Nat.zero_add] at this

/-- **The leaves of a storage** are the coordinates in bounds that agree with a record up to the last compressed
level. -/
theorem LaysOut.mem_leaves (h : p.LaysOut records) {x : Coordinate} :
    x ∈ p.leaves records ↔ x.length = p.format.order ∧ x.inBounds (p.format.keyOf p.dimensions) = true ∧
      (p.pinned = 0 ∨ ∃ r ∈ records, r.key.take p.pinned = x.take p.pinned) := by
  rw [leaves, mem_nodesAfter h.sorted h.keysWithin (nodesAt_root _), length_levelShapes, map_snd_levelShapes,
    map_fst_levelShapes, ← pinned, Pinned]
  simp only [Nat.zero_add, List.drop_zero]
  refine and_congr_right fun _ => and_congr_right fun _ => ?_
  by_cases h0 : p.pinned = 0
  · simp [h0]
  · rw [if_neg h0, or_iff_right h0]
    constructor
    · rintro ⟨k, hk, he⟩
      obtain ⟨r, hr, rfl⟩ := List.mem_map.1 hk
      exact ⟨r, hr, he⟩
    · rintro ⟨r, hr, he⟩
      exact ⟨r.key, List.mem_map_of_mem hr, he⟩

theorem LaysOut.key_mem_leaves (h : p.LaysOut records) {r : Record} (hr : r ∈ records) : r.key ∈ p.leaves records :=
  h.mem_leaves.2 ⟨h.length r hr, h.inBounds r hr, .inr ⟨r, hr, rfl⟩⟩

/-- **What packing makes of records in storage order.** -/
theorem lay_eq (hc : p.check = .ok ()) (h : p.LaysOut records) :
    p.lay records = (do
      let modes ← modesFrom (records.map (·.key)) 0 p.levelShapes [[]]
      return ⟨⟨modes, (p.leaves records).length⟩,
        .ofArray p.dtype ((p.leaves records).map (scalarAt p.dtype records)).toArray⟩) := by
  have hvalues := Layout.values_at (d := p.dtype) h.nodesAt_leaves.nodup h.inOrder fun r hr =>
    ⟨h.key_mem_leaves hr, h.length r hr, h.dtype r hr⟩
  have hdescend := descendAll_at h.sorted h.keysWithin (nodesAt_root _)
  rw [length_levelShapes, Nat.zero_add, ← leaves] at hdescend
  rw [lay, shapes_eq (check_eq_ok hc).1, ok_bind, Layout.root_eq, hdescend]
  cases modesFrom (records.map (·.key)) 0 p.levelShapes [[]] with
  | error e => rfl
  | ok modes =>
    simp only [ok_bind, pure_eq_ok, hvalues, Outcome.liftM_checked, Outcome.ofChecked_ok, Storage.of]
    rw [if_pos (by simp [Layout.at, ValueArray.ofArray, ValueArray.size, Buffer.size])]
    rfl

def valueOf (p : Packer) (records : List Record) (x : Coordinate) : Value := ⟨p.dtype, scalarAt p.dtype records x⟩

theorem LaysOut.valueOf_key (h : p.LaysOut records) {r : Record} (hr : r ∈ records) :
    p.valueOf records r.key = r.value := by
  have hd := h.dtype r hr
  rw [valueOf, scalarAt, h.inOrder.find?_key hr, Option.bind_some]
  obtain ⟨x, hx⟩ := Option.ne_none_iff_exists'.1 fun h => (r.value.as?_eq_none_iff p.dtype).1 h hd
  rw [hx]
  exact (Value.eq_of_as? hx).symm

theorem valueOf_eq_zero {x : Coordinate} (h : ∀ r ∈ records, r.key ≠ x) : p.valueOf records x = .zero p.dtype := by
  rw [valueOf, scalarAt, find?_key_eq_none h]
  rfl

/-- **Records with the same nodes and the same values at the leaves make the same storage**, or fail alike. -/
theorem lay_congr {records' : List Record} (hc : p.check = .ok ()) (h : p.LaysOut records) (h' : p.LaysOut records')
    (hsame : SamePinned 0 p.format.types (records.map (·.key)) (records'.map (·.key)))
    (hvalues : ∀ x ∈ p.leaves records, p.valueOf records x = p.valueOf records' x) :
    p.lay records = p.lay records' := by
  rw [← map_fst_levelShapes] at hsame
  have hscalars : ∀ x ∈ p.leaves records, scalarAt p.dtype records x = scalarAt p.dtype records' x := fun x hx => by
    simpa [valueOf] using hvalues x hx
  have hleaves : p.leaves records = p.leaves records' := nodesAfter_congr h.sorted h'.sorted hsame
  rw [lay_eq hc h, lay_eq hc h', modesFrom_congr h.sorted h'.sorted hsame, ← hleaves, List.map_congr_left hscalars]

end Packer

end TensorStorage
