import TensorStorage.Proofs.Matrix
import TensorStorage.Proofs.Pack.Canonical
/-!
# Exchange — the arrays of a matrix, in and out

The entries of a matrix are those of its segments, one after the other (`MatrixKind.listing`), and read by the other
kind the same arrays are the transposed matrix.  A matrix that was packed has the arrays that the factory takes
(`MatrixKind.Packs`), so they come out of one tensor and go into another.
-/
namespace TensorStorage

/-- The entry with its coordinate read backwards; of a matrix, the entry across the diagonal. -/
def Entry.mirrored (e : Entry) : Entry := { e with coordinate := e.coordinate.reverse }

variable {pointers inner : IndexArray} {values : ValueArray} {kind : MatrixKind} {name : String}
  {dimensions : List Nat} {rows columns n : Nat} {t u : Tensor} {p : Packer} {pending : List Entry} {s : Storage}

namespace MatrixKind

def other : MatrixKind → MatrixKind
  | .rows => .columns
  | .columns => .rows

/-- The coordinate of an inner number that is listed in an outer segment. -/
def cell (kind : MatrixKind) (outer inner : Nat) : Coordinate :=
  match kind with
  | .rows => [outer, inner]
  | .columns => [inner, outer]

/-- **What the slots of a matrix say**, segment by segment: slot `k` of segment `i` has its value at the place of the
inner number `k`. -/
def listing (kind : MatrixKind) (outer : Nat) (pointers inner : Array Int32) (values : ValueArray) :
    List (Option Entry) :=
  (List.range outer).flatMap fun i =>
    (List.range' (Level.entryAt pointers i) (Level.entryAt pointers (i + 1) - Level.entryAt pointers i)).map fun k =>
      (values.get? k).map fun v => ⟨kind.cell i (Level.entryAt inner k), v⟩

/-! ## In -/

theorem leavesBelow_segments (outer : Nat) (positions coordinates : Array Int32) :
    leavesBelow [.dense outer, .compressed positions coordinates] 0 = (List.range outer).flatMap fun i =>
      (List.range' (Level.entryAt positions i) (Level.entryAt positions (i + 1) - Level.entryAt positions i)).map
        fun k => ([i, Level.entryAt coordinates k], k) := by
  simp only [leavesBelow, Level.children, List.flatMap_map, List.map_flatMap, List.map_cons, List.map_nil, Nat.zero_mul,
    Nat.zero_add]
  exact flatMap_congr_left fun i _ => List.map_eq_flatMap.symm

theorem fromLevels_format (kind : MatrixKind) (i c : Nat) : kind.format.fromLevels [i, c] = kind.cell i c := by
  cases kind with
  | rows => rfl
  | columns => rfl

theorem listing_other (kind : MatrixKind) (outer : Nat) (positions coordinates : Array Int32) (values : ValueArray) :
    kind.other.listing outer positions coordinates values =
      (kind.listing outer positions coordinates values).map (Option.map Entry.mirrored) := by
  have hcell : ∀ i c, kind.other.cell i c = (kind.cell i c).reverse := by
    cases kind with
    | rows => exact fun i c => rfl
    | columns => exact fun i c => rfl
  simp only [listing, List.map_flatMap, List.map_map, Function.comp_def, Option.map_map, Entry.mirrored, hcell]

/-- Arrays that describe a matrix by the one kind describe the transposed matrix by the other. -/
theorem Describes.other {positions coordinates : Array Int32}
    (h : kind.Describes [rows, columns] positions coordinates n) :
    kind.other.Describes [columns, rows] positions coordinates n := by
  obtain ⟨_, _, hdimensions, hrows, hcolumns, hlists⟩ := h
  cases hdimensions
  refine ⟨columns, rows, rfl, hcolumns, hrows, ?_⟩
  cases kind with
  | rows => exact hlists
  | columns => exact hlists

theorem checkedLevels_of_describes (h : kind.Describes [rows, columns] pointers.data inner.data values.size) :
    (storageOver pointers inner values).checkedLevels kind.format =
      .ok [.dense (kind.outer rows columns), .compressed pointers.data inner.data] := by
  obtain ⟨_, _, hdimensions, hrows, hcolumns, hlists⟩ := h
  cases hdimensions
  obtain ⟨hsize, hsegments, hnonneg, houter⟩ := hlists.passes (kind.outer_le hrows hcolumns)
  rw [← hsize]
  exact checkedLevels_storageOver hsegments hnonneg houter hlists.count

/-- **The entries of a matrix are what its slots say.** -/
theorem yields_tensorOver (name : String)
    (h : kind.Describes [rows, columns] pointers.data inner.data values.size) :
    ∃ es, (kind.tensorOver name [rows, columns] pointers inner values).Yields es ∧
      es.map some = kind.listing (kind.outer rows columns) pointers.data inner.data values := by
  have hlevels := checkedLevels_of_describes h
  obtain ⟨-, hn, hv⟩ := Storage.levelsNested_of_checkedLevels hlevels
  refine ⟨_, Tensor.yields_of_checkedLevels rfl hlevels, ?_⟩
  refine (Storage.map_some_nestedEntries kind.format hn hv).trans ?_
  rw [leavesBelow_segments, List.map_flatMap, listing]
  refine flatMap_congr_left fun i _ => ?_
  rw [List.map_map]
  refine List.map_congr_left fun k _ => ?_
  show (values.get? k).map _ = _
  rw [fromLevels_format]

/-! ## Out -/

/-- **A storage over arrays of the engine's own**, with a position array for these outer places. -/
def IsOver (outer : Nat) (s : Storage) : Prop :=
  ∃ positions coordinates d cells, positions.size = outer + 1 ∧
    s = storageOver { data := positions } { data := coordinates } (.ofArray d cells)

theorem IsOver.zero {outer : Nat} (h : IsOver outer s) : IsOver outer s.zero := by
  obtain ⟨positions, coordinates, d, cells, hsize, rfl⟩ := h
  exact ⟨positions, coordinates, d, _, hsize, rfl⟩

theorem modesFrom_matrix {keys : List Coordinate} {outer width : Nat} {modes : List ModeIndex}
    (h : modesFrom keys 0 [(.dense, outer), (.compressed, width)] [[]] = .ok modes) :
    ∃ positions coordinates, positions.size = outer + 1 ∧
      coordinates.size = (nodesAfter keys 0 [(.dense, outer), (.compressed, width)] [[]]).length ∧
      modes = [.dense (Int32.ofNat outer), .compressed { data := positions } { data := coordinates }] := by
  simp only [modesFrom, modeBetween, bind_eq_ok, guard_eq_ok] at h
  obtain ⟨dense, ⟨-, hdense⟩, _, ⟨compressed, hcompressed, _, hnil, hmore⟩, h⟩ := h
  cases hdense
  cases hcompressed
  cases hnil
  cases hmore
  cases h
  refine ⟨_, _, ?_, ?_, rfl⟩
  · rw [size_positionArray, List.length_map, familiesOf, List.length_map, length_nodesBelow_of_ne (by simp),
      List.length_singleton, Nat.one_mul]
  · rw [List.size_toArray, List.length_map]
    rfl

/-- **Packing a matrix makes the arrays of a matrix.** -/
theorem isOver_of_merge {stored records : List Entry} (hformat : p.format = kind.format)
    (hdimensions : p.dimensions = [rows, columns]) (h : p.merge stored records = .ok s) :
    IsOver (kind.outer rows columns) s := by
  obtain ⟨hc, out, hresolve, hlay⟩ := Packer.merge_eq_ok h
  obtain ⟨modes, hmodes, rfl⟩ :=
    Packer.lay_eq_ok hc (Packer.resolve_eq_ok (Packer.check_eq_ok hc).1 hresolve).laysOut hlay
  have hshapes : p.levelShapes = [(.dense, kind.outer rows columns), (.compressed, kind.width rows columns)] := by
    rw [Packer.levelShapes, hformat, hdimensions, keyOf_format]
    cases kind with
    | rows => rfl
    | columns => rfl
  rw [hshapes] at hmodes
  obtain ⟨positions, coordinates, hsize, hcount, rfl⟩ := modesFrom_matrix hmodes
  refine ⟨positions, coordinates, p.dtype, ((p.leaves out).map (scalarAt p.dtype out)).toArray, hsize, ?_⟩
  rw [storageOver, Buffer.size, Buffer.size, hsize, hcount, Nat.add_sub_cancel, Packer.leaves, hshapes]

/-- **A storage that fits has arrays that describe its matrix.** -/
theorem describes_of_checkFits (hrows : rows ≤ maxIndex) (hcolumns : columns ≤ maxIndex)
    (hsize : pointers.data.size = kind.outer rows columns + 1)
    (h : (storageOver pointers inner values).checkFits kind.format [rows, columns] = .ok ()) :
    kind.Describes [rows, columns] pointers.data inner.data values.size := by
  have houter : ¬ maxIndex < pointers.size - 1 := by
    rw [Buffer.size, hsize, Nat.add_sub_cancel]
    exact Nat.not_lt.2 (kind.outer_le hrows hcolumns)
  obtain ⟨levels, hlevels, hextents⟩ := (Storage.checkFits_eq_ok kind.order_format).1 h
  obtain ⟨hl, hcount, hv⟩ := Storage.checkedLevels_eq_ok hlevels
  rw [levels_storageOver houter] at hl
  cases hl
  rw [keyOf_format] at hextents
  obtain ⟨-, hwidth⟩ := checkExtents_storageOver.1 hextents
  rw [countLeaves, bind_eq_ok] at hcount
  obtain ⟨above, habove, hcount⟩ := hcount
  rw [countLeaves, bind_eq_ok] at hcount
  obtain ⟨below, hbelow, -⟩ := hcount
  have habove : above ≤ maxIndex := by
    rw [Level.countBelow] at habove
    split at habove
    · cases habove
      omega
    · cases habove
  obtain ⟨-, hsegments, hnegative, -⟩ := countBelow_compressed_eq_ok habove hbelow
  obtain ⟨hfirst, hsorted, hlast⟩ := checkSegments_eq_ok_iff.1 hsegments
  have hnonneg := firstNegative?_eq_none_iff.1 hnegative
  exact ⟨rows, columns, rfl, hrows, hcolumns, hsize, hfirst, hsorted, hlast,
    fun c hc => ⟨hnonneg c hc, hwidth c hc⟩, hv⟩

/-- The arrays of a matrix come out as they are stored. -/
theorem matrixArrays_eq {positions coordinates : Array Int32} {d : DataType} {cells : Array d.Scalar}
    (hformat : t.format = kind.format) (hdtype : t.dtype = d)
    (hs : t.storage? = some (storageOver { data := positions } { data := coordinates } (.ofArray d cells))) :
    t.matrixArrays kind d = .ok ⟨positions, coordinates, cells⟩ := by
  have hvalues : (storageOver { data := positions } { data := coordinates } (.ofArray d cells)).valuesAs d = cells := by
    simp [Storage.valuesAs, storageOver, ValueArray.slice, ValueArray.ofArray]
  simp only [Tensor.matrixArrays, hformat, hdtype, ne_eq, not_true_eq_false, if_false, Tensor.storage, hs, ok_bind,
    hvalues]
  rfl

/-! ## Runs -/

/-- **A sound tensor of a matrix whose storage is over arrays of the engine's own.** -/
structure Packs (kind : MatrixKind) (rows columns : Nat) (t : Tensor) (p : Packer) (pending : List Entry) : Prop where
  sound : t.Sound p pending
  format : p.format = kind.format
  dimensions : p.dimensions = [rows, columns]
  stored : ∀ s, t.storage? = some s → IsOver (kind.outer rows columns) s

theorem Packs.serve (h : kind.Packs rows columns t p pending) (r : Request) (hwithin : r = .pack → t.PacksWithin) :
    ∃ pending', kind.Packs rows columns (t.serve r).2 p pending' := by
  obtain ⟨pending', hsound⟩ := h.sound.serve r hwithin
  refine ⟨pending', hsound, h.format, h.dimensions, ?_⟩
  cases r with
  | insert e =>
    rw [(h.sound.waits.serve_insert e).2.2]
    exact h.stored
  | reserve n =>
    rw [(h.sound.waits.serve_reserve n).2]
    exact h.stored
  | rename name => exact h.stored
  | zero =>
    intro s hs
    rw [h.sound.waits.serve_zero.2] at hs
    obtain ⟨old, hold, rfl⟩ := Option.map_eq_some_iff.1 hs
    exact (h.stored old hold).zero
  | pack =>
    by_cases hgranted : (t.serve .pack).1 = true
    · rcases Tensor.pack_eq_ok (Tensor.serve_pack_granted hgranted) with ⟨-, hu⟩ | ⟨-, stored, s, -, hmerge, hu⟩
      · rw [hu]
        exact h.stored
      · rw [hu]
        intro s' hs'
        cases hs'
        rw [h.sound.waits.packer] at hmerge
        exact isOver_of_merge h.format h.dimensions hmerge
    · rw [Tensor.serve_pack_refused (Bool.eq_false_iff.2 hgranted)]
      exact h.stored

theorem Packs.run : ∀ (requests : List Request) {t : Tensor} {pending : List Entry},
    kind.Packs rows columns t p pending →
    (∀ before after, requests = before ++ .pack :: after → (t.run before).2.PacksWithin) →
      ∃ pending', kind.Packs rows columns (t.run requests).2 p pending'
  | [], _, pending, h, _ => ⟨pending, h⟩
  | r :: requests, t, pending, h, hwithin => by
    obtain ⟨pending', hstep⟩ := h.serve r fun hr => hwithin [] requests (by rw [hr]; rfl)
    refine run requests hstep fun before after heq => ?_
    exact hwithin (r :: before) after (by rw [heq]; rfl)

/-- **The arrays of a packed matrix make the same matrix.** -/
theorem Packs.returned (h : kind.Packs rows columns t p pending) (hpacked : t.isPacked = true) (name : String) :
    ∃ a u, t.matrixArrays kind p.dtype = .ok a ∧
      kind.assemble name [rows, columns] { data := a.pointers } { data := a.inner } (.ofArray p.dtype a.values) =
        .ok u ∧
      u.storage? = t.storage? ∧ ∃ es, t.Yields es ∧ u.Yields es := by
  obtain ⟨s, hs⟩ := Option.isSome_iff_exists.1 hpacked
  obtain ⟨positions, coordinates, d, cells, hsize, rfl⟩ := h.stored s hs
  obtain ⟨hdtype, hfits⟩ := h.sound.stored _ hs
  obtain rfl : d = p.dtype := hdtype
  rw [h.format, h.dimensions] at hfits
  have hformat : t.format = kind.format := h.sound.waits.format.trans h.format
  have hrange := (Tensor.checkShape_eq_ok h.sound.shape).2
  rw [h.dimensions] at hrange
  have hdescribes := describes_of_checkFits (hrange _ (by simp)) (hrange _ (by simp)) hsize hfits
  obtain ⟨levels, hlevels, -⟩ := (Storage.checkFits_eq_ok kind.order_format).1 hfits
  refine ⟨_, _, matrixArrays_eq hformat (congrArg Packer.dtype h.sound.waits.packer) hs,
    assemble_eq_ok_iff.2 ⟨hdescribes, rfl⟩, hs.symm, _,
    Tensor.yields_of_checkedLevels hs (hformat ▸ hlevels), ?_⟩
  rw [hformat]
  exact Tensor.yields_of_checkedLevels rfl hlevels

/-- **The arrays of a matrix say what the tensor over them yields, and come back from it.**  A tensor that the factory
makes yields, segment by segment, the entry of each slot, and gives back its arrays; the other kind makes the transposed
matrix of the same arrays.  And a tensor of the kind's format that was packed by requests gives arrays of which the
factory makes a tensor with the same storage. -/
theorem assemble_exchange (kind : MatrixKind) :
    (∀ (name name' : String) (rows columns : Nat) (pointers inner : IndexArray) (values : ValueArray) (t : Tensor),
      kind.assemble name [rows, columns] pointers inner values = .ok t →
        ∃ es, t.Yields es ∧ es.map some = kind.listing (kind.outer rows columns) pointers.data inner.data values ∧
          t.matrixArrays kind values.dtype = .ok ⟨pointers.data, inner.data, values.cells.data⟩ ∧
          ∃ u, kind.other.assemble name' [columns, rows] pointers inner values = .ok u ∧
            u.Yields (es.map Entry.mirrored) ∧
            u.matrixArrays kind.other values.dtype = .ok ⟨pointers.data, inner.data, values.cells.data⟩) ∧
    (∀ (name name' : String) (d : DataType) (dimensions : List Nat) (options : Options) (requests : List Request)
        (t₀ : Tensor), Tensor.new name d dimensions kind.format options = .ok t₀ →
      (∀ before after, requests = before ++ .pack :: after → (t₀.run before).2.PacksWithin) →
      (t₀.run requests).2.isPacked = true →
        ∃ a u, (t₀.run requests).2.matrixArrays kind d = .ok a ∧
          kind.assemble name' dimensions { data := a.pointers } { data := a.inner } (.ofArray d a.values) = .ok u ∧
          u.storage? = (t₀.run requests).2.storage? ∧ ∃ es, (t₀.run requests).2.Yields es ∧ u.Yields es) := by
  refine ⟨fun name name' rows columns pointers inner values t ht => ?_,
    fun name name' d dimensions options requests t₀ ht₀ hwithin hpacked => ?_⟩
  · obtain ⟨hdescribes, rfl⟩ := assemble_eq_ok_iff.1 ht
    obtain ⟨es, hyields, hes⟩ := yields_tensorOver name hdescribes
    obtain ⟨es', hyields', hes'⟩ := yields_tensorOver name' hdescribes.other
    have houter : kind.other.outer columns rows = kind.outer rows columns := by
      cases kind with
      | rows => rfl
      | columns => rfl
    rw [houter, listing_other, ← hes, List.map_map] at hes'
    obtain rfl : es' = es.map Entry.mirrored := by
      refine List.map_injective_iff.2 (Option.some_injective _) (hes'.trans ?_)
      rw [List.map_map]
      rfl
    exact ⟨es, hyields, hes, matrixArrays_tensorOver _ _ _, _, assemble_eq_ok_iff.2 ⟨hdescribes.other, rfl⟩, hyields',
      matrixArrays_tensorOver _ _ _⟩
  · have hsound := Tensor.sound_of_new ht₀
    obtain ⟨rows, columns, rfl⟩ := List.length_eq_two.1 (hsound.order.symm.trans kind.order_format)
    have hnone := (Tensor.waits_of_new ht₀).2
    obtain ⟨pending, h⟩ := Packs.run requests ⟨hsound, rfl, rfl, fun s hs => by rw [hnone] at hs; cases hs⟩ hwithin
    exact h.returned hpacked name'

/-- Rows of which one is empty and one lists a column twice; and rows that were packed. -/
theorem assemble_exchange_rows :
    let inserted : Entry := ⟨[2, 1], ⟨.int32, (7 : Int32)⟩⟩
    (∃ t es, MatrixKind.rows.assemble "m" [3, 2] { data := #[0, 2, 2, 3] } { data := #[1, 1, 0] }
        (.ofArray .int32 #[5, 6, 7]) = .ok t ∧ t.Yields es ∧ es.map some = [some ⟨[0, 1], ⟨.int32, (5 : Int32)⟩⟩,
          some ⟨[0, 1], ⟨.int32, (6 : Int32)⟩⟩, some ⟨[2, 0], ⟨.int32, (7 : Int32)⟩⟩]) ∧
    ∃ t₀ a u, Tensor.new "t" .int32 [3, 2] .csr {} = .ok t₀ ∧
      (t₀.run [.insert inserted, .pack]).2.matrixArrays .rows .int32 = .ok a ∧
      MatrixKind.rows.assemble "u" [3, 2] { data := a.pointers } { data := a.inner } (.ofArray .int32 a.values) =
        .ok u ∧
      u.storage? = (t₀.run [.insert inserted, .pack]).2.storage? := by
  intro inserted
  obtain ⟨taken, returned⟩ := assemble_exchange .rows
  constructor
  · obtain ⟨t, ht⟩ : ∃ t, MatrixKind.rows.assemble "m" [3, 2] { data := #[0, 2, 2, 3] } { data := #[1, 1, 0] }
        (.ofArray .int32 #[5, 6, 7]) = .ok t := ⟨_, rfl⟩
    obtain ⟨es, hyields, hes, -⟩ := taken "m" "n" 3 2 _ _ _ t ht
    exact ⟨t, es, ht, hyields, hes⟩
  · obtain ⟨t₀, ht₀⟩ : ∃ t₀, Tensor.new "t" .int32 [3, 2] .csr {} = .ok t₀ := ⟨_, rfl⟩
    have hwithin : ∀ before after, [.insert inserted, .pack] = before ++ .pack :: after →
        (t₀.run before).2.PacksWithin := by
      cases ht₀
      rintro (_ | ⟨_, _ | ⟨_, _⟩⟩) after heq stored s - hstored -
      · cases heq
      · cases heq
        cases hstored
        decide
      · simp at heq
    have hpacked : (t₀.run [.insert inserted, .pack]).2.isPacked = true := by
      cases ht₀
      cbv
    obtain ⟨a, u, ha, hu, hstorage, -⟩ := returned "t" "u" .int32 [3, 2] {} _ t₀ ht₀ hwithin hpacked
    exact ⟨t₀, a, u, ht₀, ha, hu, hstorage⟩

end MatrixKind

end TensorStorage
