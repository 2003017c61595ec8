import TensorStorage.Proofs.Pack.Segments
import TensorStorage.Proofs.Tensor.Soundness
/-!
# Matrix — which arrays make a matrix

The arrays of a matrix are checked at five places: the pointers and the inner numbers when the index is made, the number
of values when the storage is made, the dimensions when the tensor is made, and the extents when the storage is
installed.  Together the checks accept the arrays that describe a matrix (`MatrixKind.Describes`) and no others
(`Workspace.addMatrix_accepts`).
-/
namespace TensorStorage

variable {positions : Array Int32} {pointers inner : IndexArray} {values : ValueArray} {kind : MatrixKind}
  {name : String} {dimensions : List Nat} {n : Nat} {t : Tensor} {e : Failure}

/-! ## The checks, one by one -/

theorem firstDecrease?_eq_none_iff (place : Nat) (entries : List Int) :
    firstDecrease? place entries = none ↔ entries.Pairwise (· ≤ ·) :=
  ⟨Level.pairwise_of_firstDecrease? place entries, firstDecrease?_eq_none place⟩

theorem firstNegative?_eq_none_iff {coordinates : Array Int32} :
    firstNegative? coordinates = none ↔ ∀ c ∈ coordinates, 0 ≤ c.toInt := by
  simp only [firstNegative?, Array.find?_eq_none, decide_eq_true_eq, Int.not_lt]

theorem checkSegments_eq_ok_iff : checkSegments positions n = .ok () ↔ positions[0]?.map (·.toInt) = some 0 ∧
    (positions.toList.map (·.toInt)).Pairwise (· ≤ ·) ∧ positions.back?.map (·.toInt) = some (n : Int) := by
  rw [← firstDecrease?_eq_none_iff 0]
  unfold checkSegments
  cases hfirst : positions[0]? with
  | none => simp
  | some first =>
    cases hlast : positions.back? with
    | none => simp
    | some last =>
      simp only [Option.map_some, Option.some.injEq, guard_eq_ok, ne_eq, not_not]
      refine and_congr_right fun _ => ?_
      cases firstDecrease? 0 (positions.toList.map (·.toInt)) with
      | none => simp
      | some found => simp

theorem checkSegments_eq_error {cause : StorageError} (h : checkSegments positions n = .error cause) :
    ∃ fault, cause = .invalidIndex fault := by
  unfold checkSegments at h
  repeat' split at h
  all_goals first | (cases h; done) | exact ⟨_, (Except.error.inj h).symm⟩

theorem TensorIndex.segmented_eq : segmented pointers inner = (do
    checkSegments pointers.data inner.size
    match firstNegative? inner.data with
    | some c => .error (.invalidIndex (.negativeCoordinate c.toInt))
    | none =>
      if maxIndex < pointers.size - 1 then .error (.indexOverflow (pointers.size - 1))
      else .ok ⟨[.dense (Int32.ofNat (pointers.size - 1)), .compressed pointers inner], inner.size⟩) := by
  unfold segmented
  cases checkSegments pointers.data inner.size with
  | error cause => rfl
  | ok u =>
    cases firstNegative? inner.data with
    | some c => rfl
    | none =>
      simp only [ok_bind]
      split <;> rfl

theorem TensorIndex.segmented_eq_ok_iff {x : TensorIndex} : segmented pointers inner = .ok x ↔
    checkSegments pointers.data inner.size = .ok () ∧ (∀ c ∈ inner.data, 0 ≤ c.toInt) ∧
      ¬ maxIndex < pointers.size - 1 ∧
      x = ⟨[.dense (Int32.ofNat (pointers.size - 1)), .compressed pointers inner], inner.size⟩ := by
  rw [segmented_eq, bind_eq_ok, ← firstNegative?_eq_none_iff]
  cases firstNegative? inner.data with
  | some c => simp
  | none =>
    simp only [guard_eq_ok, Except.ok.injEq, true_and, eq_comm (b := x)]
    exact ⟨fun ⟨⟨⟩, h⟩ => h, fun h => ⟨(), h⟩⟩

theorem TensorIndex.segmented_eq_error {cause : StorageError} (h : segmented pointers inner = .error cause) :
    (∃ fault, cause = .invalidIndex fault) ∨ cause = .indexOverflow (pointers.size - 1) := by
  rw [segmented_eq] at h
  rcases bind_eq_error.1 h with h | ⟨⟨⟩, -, h⟩
  · exact .inl (checkSegments_eq_error h)
  · cases hnegative : firstNegative? inner.data with
    | some c =>
      rw [hnegative] at h
      exact .inl ⟨_, (Except.error.inj h).symm⟩
    | none =>
      simp only [hnegative] at h
      split at h
      · exact .inr (Except.error.inj h).symm
      · cases h

theorem Storage.of_eq_ok_iff {index : TensorIndex} {s : Storage} :
    Storage.of index values = .ok s ↔ values.size = index.size ∧ s = ⟨index, values⟩ := by
  unfold Storage.of
  split <;> simp_all [eq_comm]

theorem Level.checkExtent_eq_error {level : Level} {number extent : Nat} {cause : StorageError}
    (h : level.checkExtent number extent = .error cause) : ∃ fault, cause = .invalidIndex fault := by
  cases level with
  | dense found =>
    simp only [checkExtent] at h
    split at h
    · exact ⟨_, (Except.error.inj h).symm⟩
    · cases h
  | compressed positions coordinates =>
    simp only [checkExtent] at h
    split at h
    · exact ⟨_, (Except.error.inj h).symm⟩
    · cases h

theorem checkExtents_eq_error {cause : StorageError} : ∀ {number : Nat} {levels : List (Level × Nat)},
    checkExtents number levels = .error cause → ∃ fault, cause = .invalidIndex fault
  | _, [], h => by cases h
  | number, (level, extent) :: rest, h => by
    rw [checkExtents] at h
    rcases bind_eq_error.1 h with h | ⟨⟨⟩, -, h⟩
    · exact Level.checkExtent_eq_error h
    · exact checkExtents_eq_error h

/-! ## Matrices -/

/-- **Segments that list a matrix**: one for each outer place, from 0 on and end to end up to the last of the inner
numbers; these are below the width, and there is a value for each. -/
structure ListsMatrix (outer width : Nat) (pointers inner : Array Int32) (values : Nat) : Prop where
  size : pointers.size = outer + 1
  first : pointers[0]?.map (·.toInt) = some 0
  sorted : (pointers.toList.map (·.toInt)).Pairwise (· ≤ ·)
  last : pointers.back?.map (·.toInt) = some (inner.size : Int)
  within : ∀ c ∈ inner, 0 ≤ c.toInt ∧ c.toInt < width
  count : values = inner.size

/-- Segments that list a matrix pass the checks of an index. -/
theorem ListsMatrix.passes {outer width : Nat} (h : ListsMatrix outer width pointers.data inner.data n)
    (houter : outer ≤ maxIndex) : pointers.size - 1 = outer ∧ checkSegments pointers.data inner.size = .ok () ∧
      (∀ c ∈ inner.data, 0 ≤ c.toInt) ∧ ¬ maxIndex < pointers.size - 1 := by
  have hsize : pointers.size - 1 = outer := by
    rw [Buffer.size, h.size]
    rfl
  exact ⟨hsize, checkSegments_eq_ok_iff.2 ⟨h.first, h.sorted, h.last⟩, fun c hc => (h.within c hc).1,
    hsize ▸ Nat.not_lt.2 houter⟩

namespace MatrixKind

def outer (kind : MatrixKind) (rows columns : Nat) : Nat :=
  match kind with
  | .rows => rows
  | .columns => columns

def width (kind : MatrixKind) (rows columns : Nat) : Nat :=
  match kind with
  | .rows => columns
  | .columns => rows

theorem outer_le (kind : MatrixKind) {rows columns : Nat} (hrows : rows ≤ maxIndex) (hcolumns : columns ≤ maxIndex) :
    kind.outer rows columns ≤ maxIndex := by
  cases kind with
  | rows => exact hrows
  | columns => exact hcolumns

/-- **The arrays describe a matrix** with these dimensions, by its rows or by its columns. -/
def Describes (kind : MatrixKind) (dimensions : List Nat) (pointers inner : Array Int32) (values : Nat) : Prop :=
  ∃ rows columns, dimensions = [rows, columns] ∧ rows ≤ maxIndex ∧ columns ≤ maxIndex ∧
    ListsMatrix (kind.outer rows columns) (kind.width rows columns) pointers inner values

/-- The storage over the arrays of a matrix. -/
def storageOver (pointers inner : IndexArray) (values : ValueArray) : Storage :=
  ⟨⟨[.dense (Int32.ofNat (pointers.size - 1)), .compressed pointers inner], inner.size⟩, values⟩

/-- The packed tensor over the arrays of a matrix. -/
def tensorOver (kind : MatrixKind) (name : String) (dimensions : List Nat) (pointers inner : IndexArray)
    (values : ValueArray) : Tensor where
  name
  dimensions
  dtype := values.dtype
  format := kind.format
  options := {}
  buffer := .new 2 values.dtype
  storage? := some (storageOver pointers inner values)
  generation := 1

theorem levels_storageOver (houter : ¬ maxIndex < pointers.size - 1) :
    (storageOver pointers inner values).levels kind.format =
      .ok [.dense (pointers.size - 1), .compressed pointers.data inner.data] := by
  have hdense : (ModeIndex.dense (Int32.ofNat (pointers.size - 1))).level .dense 0 =
      .ok (.dense (pointers.size - 1)) := by
    simp [ModeIndex.level, ModeIndex.dense, ModeIndex.array, toInt_ofNat (Nat.le_of_not_lt houter)]
  have hfrom : levelsFrom 0 [(.dense (Int32.ofNat (pointers.size - 1)), .dense), (.compressed pointers inner,
      .compressed)] = .ok [.dense (pointers.size - 1), .compressed pointers.data inner.data] := by
    rw [levelsFrom, hdense]
    rfl
  cases kind with
  | rows => exact hfrom
  | columns => exact hfrom

/-- **Segments that were checked nest** under both formats. -/
theorem checkedLevels_storageOver (hsegments : checkSegments pointers.data inner.size = .ok ())
    (hnonneg : ∀ c ∈ inner.data, 0 ≤ c.toInt) (houter : ¬ maxIndex < pointers.size - 1)
    (hvalues : values.size = inner.size) : (storageOver pointers inner values).checkedLevels kind.format =
      .ok [.dense (pointers.size - 1), .compressed pointers.data inner.data] := by
  obtain ⟨hpos, -⟩ := Level.checkSegments_eq_ok hsegments
  have hsize : pointers.data.size = (1 * (pointers.size - 1) + 1) % wordLimit := by
    simp only [Buffer.size, maxIndex, wordLimit] at hpos houter ⊢
    omega
  have hword : 1 * (pointers.size - 1) < wordLimit := by
    simp only [maxIndex, wordLimit] at houter ⊢
    omega
  have hcompressed : (Level.compressed pointers.data inner.data).countBelow 1 (1 * (pointers.size - 1)) =
      .ok inner.size := by
    have hnone := firstNegative?_eq_none_iff.2 hnonneg
    simp only [Buffer.size] at hsegments
    simp only [Level.countBelow, ← hsize, ne_eq, not_true_eq_false, if_false, hsegments, ok_bind, hnone, pure_eq_ok]
    rfl
  have hcount : countLeaves 0 1 [.dense (pointers.size - 1), .compressed pointers.data inner.data] =
      .ok inner.size := by
    simp only [countLeaves]
    rw [Level.countBelow, if_pos hword, ok_bind, hcompressed]
    rfl
  unfold Storage.checkedLevels Storage.checkNested
  rw [levels_storageOver houter, ok_bind, hcount, ok_bind, if_neg]
  · rfl
  · exact fun h => h.elim (fun h => h rfl) fun h => h hvalues.symm

theorem checkExtents_storageOver {outer width : Nat} : checkExtents 0 [(.dense (pointers.size - 1), outer),
    (.compressed pointers.data inner.data, width)] = .ok () ↔
      pointers.size - 1 = outer ∧ ∀ c ∈ inner.data, c.toInt < width := by
  have hdense : (Level.dense (pointers.size - 1)).checkExtent 0 outer = .ok () ↔ pointers.size - 1 = outer := by
    simp only [Level.checkExtent, guard_eq_ok, ne_eq, not_not, and_true]
  have hcompressed : (Level.compressed pointers.data inner.data).checkExtent 1 width = .ok () ↔
      ∀ c ∈ inner.data, c.toInt < width := by
    simp only [Level.checkExtent]
    cases hfound : inner.data.find? fun c => (width : Int) ≤ c.toInt with
    | none => simpa using hfound
    | some c =>
      simp only [reduceCtorEq, false_iff, not_forall]
      exact ⟨c, Array.mem_of_find?_eq_some hfound, by simpa using Array.find?_some hfound⟩
  rw [← hdense, ← hcompressed, checkExtents, checkExtents, bind_eq_ok]
  constructor
  · rintro ⟨⟨⟩, houter, h⟩
    obtain ⟨⟨⟩, hwidth, -⟩ := bind_eq_ok.1 h
    exact ⟨houter, hwidth⟩
  · rintro ⟨houter, hwidth⟩
    exact ⟨(), houter, bind_eq_ok.2 ⟨(), hwidth, rfl⟩⟩

/-! ## The factory -/

theorem keyOf_format (kind : MatrixKind) (rows columns : Nat) :
    kind.format.keyOf [rows, columns] = [kind.outer rows columns, kind.width rows columns] := by
  cases kind <;> rfl

theorem order_format (kind : MatrixKind) : kind.format.order = 2 := by
  cases kind <;> rfl

/-- The tensor that is made before the storage is installed. -/
theorem new_eq (hdimensions : dimensions.length = 2) (hrange : ∀ d ∈ dimensions, d ≤ maxIndex) (d : DataType) :
    Tensor.new name d dimensions kind.format {} =
      .ok ⟨name, dimensions, d, kind.format, {}, .new 2 d, none, 0⟩ := by
  have hshape : Tensor.checkShape dimensions kind.format = .ok () := by
    have hnone : dimensions.find? (maxIndex < ·) = none := List.find?_eq_none.2 fun d hd => by
      simpa using hrange d hd
    simp only [Tensor.checkShape, order_format, hdimensions, hnone, ne_eq, not_true_eq_false, if_false]
  have hroom : CoordinateBuffer.withRoom? dimensions.length d ({} : Options).capacity = some (.new 2 d) := by
    rw [hdimensions]
    rfl
  simp only [Tensor.new, hshape, hroom, Outcome.liftM_checked, Outcome.liftM_option, Outcome.ofChecked_ok,
    Outcome.ofOption_some, ok_bind, pure_eq_ok]

/-- Once the segments were checked, only the extents decide whether the storage is installed. -/
theorem setStorage_storageOver {rows columns : Nat} (hsegments : checkSegments pointers.data inner.size = .ok ())
    (hnonneg : ∀ c ∈ inner.data, 0 ≤ c.toInt) (houter : ¬ maxIndex < pointers.size - 1)
    (hvalues : values.size = inner.size) :
    Tensor.setStorage ⟨name, [rows, columns], values.dtype, kind.format, {}, .new 2 values.dtype, none, 0⟩
        (storageOver pointers inner values) = (do
      checkExtents 0 [(.dense (pointers.size - 1), kind.outer rows columns),
        (.compressed pointers.data inner.data, kind.width rows columns)]
      return kind.tensorOver name [rows, columns] pointers inner values) := by
  have hextents : kind.format.extents? [rows, columns] = some (kind.format.keyOf [rows, columns]) :=
    Format.toLevels?_eq (Nat.le_of_eq kind.order_format)
  have hdtype : (storageOver pointers inner values).dtype = values.dtype := rfl
  unfold Tensor.setStorage Storage.checkFits
  simp only [hdtype, ne_eq, not_true_eq_false, if_false, checkedLevels_storageOver hsegments hnonneg houter hvalues,
    hextents, keyOf_format, Outcome.liftM_checked, Outcome.liftM_option, Outcome.ofChecked_ok, Outcome.ofOption_some,
    ok_bind]
  rfl

/-- **The factory makes the tensor over the arrays** if they describe a matrix, and none otherwise. -/
theorem assemble_eq_ok_iff : kind.assemble name dimensions pointers inner values = .ok t ↔
    kind.Describes dimensions pointers.data inner.data values.size ∧
      t = kind.tensorOver name dimensions pointers inner values := by
  have hopened : kind.assemble name dimensions pointers inner values = .ok t ↔ dimensions.length = 2 ∧
      ∃ index, TensorIndex.segmented pointers inner = .ok index ∧ ∃ s, Storage.of index values = .ok s ∧
        ∃ empty, Tensor.new name values.dtype dimensions kind.format {} = .ok empty ∧ empty.setStorage s = .ok t := by
    simp only [assemble, error_bind, guard_eq_ok, ne_eq, not_not, bind_eq_ok, Outcome.liftM_checked,
      Outcome.ofChecked_eq_ok]
  rw [hopened]
  constructor
  · rintro ⟨hlen, index, hindex, s, hs, empty, hempty, h⟩
    obtain ⟨hsegments, hnonneg, houter, rfl⟩ := TensorIndex.segmented_eq_ok_iff.1 hindex
    obtain ⟨hcount, rfl⟩ := Storage.of_eq_ok_iff.1 hs
    obtain ⟨rows, columns, rfl⟩ := List.length_eq_two.1 hlen
    have hrange := (Tensor.checkShape_eq_ok (Tensor.sound_of_new hempty).shape).2
    rw [new_eq rfl hrange] at hempty
    cases hempty
    rw [← storageOver, setStorage_storageOver hsegments hnonneg houter hcount, bind_eq_ok] at h
    obtain ⟨⟨⟩, hextents, h⟩ := h
    obtain ⟨hsize, hwidth⟩ := checkExtents_storageOver.1 (Outcome.ofChecked_eq_ok.1 hextents)
    obtain ⟨hfirst, hsorted, hlast⟩ := checkSegments_eq_ok_iff.1 hsegments
    obtain ⟨hpos, -⟩ := Level.checkSegments_eq_ok hsegments
    have hsize : pointers.data.size = kind.outer rows columns + 1 := by
      rw [← hsize, Buffer.size]
      omega
    exact ⟨⟨rows, columns, rfl, hrange _ (by simp), hrange _ (by simp), hsize, hfirst, hsorted, hlast,
      fun c hc => ⟨hnonneg c hc, hwidth c hc⟩, hcount⟩, (Except.ok.inj h).symm⟩
  · rintro ⟨⟨rows, columns, rfl, hrows, hcolumns, hlists⟩, rfl⟩
    have hrange : ∀ d ∈ [rows, columns], d ≤ maxIndex := by simp [hrows, hcolumns]
    obtain ⟨hsize, hsegments, hnonneg, houter⟩ := hlists.passes (kind.outer_le hrows hcolumns)
    have hextents := checkExtents_storageOver.2 ⟨hsize, fun c hc => (hlists.within c hc).2⟩
    refine ⟨rfl, _, TensorIndex.segmented_eq_ok_iff.2 ⟨hsegments, hnonneg, houter, rfl⟩, _,
      Storage.of_eq_ok_iff.2 ⟨hlists.count, rfl⟩, _, new_eq rfl hrange _, ?_⟩
    refine (setStorage_storageOver hsegments hnonneg houter hlists.count).trans ?_
    rw [hextents]
    rfl

theorem checkShape_eq_error {format : Format} {cause : StorageError}
    (h : Tensor.checkShape dimensions format = .error cause) :
    (∃ fault, cause = .invalidFormat fault) ∨ ∃ fault, cause = .invalidShape fault := by
  unfold Tensor.checkShape at h
  split at h
  · exact .inl ⟨_, (Except.error.inj h).symm⟩
  · split at h
    · exact .inr ⟨_, (Except.error.inj h).symm⟩
    · cases h

/-- **A refusal is for the number of dimensions** if and only if there are not two. -/
theorem assemble_eq_error (h : kind.assemble name dimensions pointers inner values = .error e) :
    (∃ expected got, e = .refused (.dimensionMismatch expected got)) ↔ dimensions.length ≠ 2 := by
  by_cases hlen : dimensions.length = 2
  · refine iff_of_false ?_ (not_not.2 hlen)
    rintro ⟨expected, got, rfl⟩
    simp only [assemble, error_bind, hlen, ne_eq, not_true_eq_false, if_false, bind_eq_error, Outcome.liftM_checked,
      Outcome.ofChecked_eq_error, Outcome.ofChecked_eq_ok] at h
    rcases h with ⟨cause, h, he⟩ | ⟨index, hindex, ⟨cause, h, he⟩ | ⟨s, hs, h | ⟨empty, hempty, h⟩⟩⟩
    · rcases TensorIndex.segmented_eq_error h with ⟨fault, rfl⟩ | rfl <;> cases he
    · unfold Storage.of at h
      split at h <;> cases h
      cases he
    · simp only [Tensor.new, bind_eq_error, Outcome.liftM_checked, Outcome.liftM_option, Outcome.ofChecked_eq_error,
        Outcome.ofOption_eq_error] at h
      rcases h with ⟨cause, h, he⟩ | ⟨⟨⟩, -, ⟨-, he⟩ | ⟨buffer, -, h⟩⟩
      · rcases checkShape_eq_error h with ⟨fault, rfl⟩ | ⟨fault, rfl⟩ <;> cases he
      · cases he
      · cases h
    · obtain ⟨hsegments, hnonneg, houter, rfl⟩ := TensorIndex.segmented_eq_ok_iff.1 hindex
      obtain ⟨hcount, rfl⟩ := Storage.of_eq_ok_iff.1 hs
      obtain ⟨rows, columns, rfl⟩ := List.length_eq_two.1 hlen
      rw [new_eq rfl (Tensor.checkShape_eq_ok (Tensor.sound_of_new hempty).shape).2] at hempty
      cases hempty
      rw [← storageOver, setStorage_storageOver hsegments hnonneg houter hcount, bind_eq_error, Outcome.liftM_checked,
        Outcome.ofChecked_eq_error] at h
      rcases h with ⟨cause, h, he⟩ | ⟨⟨⟩, -, h⟩
      · obtain ⟨fault, rfl⟩ := checkExtents_eq_error h
        cases he
      · cases h
  · simp only [assemble, error_bind, if_pos hlen] at h
    cases h
    exact ⟨fun _ => hlen, fun _ => ⟨_, _, rfl⟩⟩

/-- The arrays that were handed in are handed back. -/
theorem matrixArrays_tensorOver (d : DataType) (data : Array d.Scalar) (owner : Owner) :
    (kind.tensorOver name dimensions pointers inner ⟨d, { data, owner }⟩).matrixArrays kind d =
      .ok ⟨pointers.data, inner.data, data⟩ := by
  have hstorage : (kind.tensorOver name dimensions pointers inner ⟨d, { data, owner }⟩).storage =
      .ok (storageOver pointers inner ⟨d, { data, owner }⟩) := rfl
  have hvalues : (storageOver pointers inner ⟨d, { data, owner }⟩).valuesAs d = data := by
    simp [Storage.valuesAs, storageOver, ValueArray.slice]
  have hformat : (kind.tensorOver name dimensions pointers inner ⟨d, { data, owner }⟩).format = kind.format := rfl
  have hdtype : (kind.tensorOver name dimensions pointers inner ⟨d, { data, owner }⟩).dtype = d := rfl
  simp only [Tensor.matrixArrays, hformat, hdtype, ne_eq, not_true_eq_false, if_false, hstorage, ok_bind, hvalues]
  rfl

end MatrixKind

/-! ## Lent arrays -/

namespace Ledger

theorem setIfInBounds_of_getElem? {arrays : Array LentArray} {i : Nat} {a : LentArray} (h : arrays[i]? = some a) :
    arrays.setIfInBounds i a = arrays := by
  obtain ⟨hi, rfl⟩ := Array.getElem?_eq_some_iff.1 h
  rw [Array.setIfInBounds, dif_pos hi, Array.set_getElem_self]

/-- A ledger that shows what the arrays of a storage hold stays as it is when it is settled. -/
theorem settle_storageOver {l : Ledger} (hpointers : l.settleEntries pointers = l) (hinner : l.settleEntries inner = l)
    (hvalues : l.settleValues values = l) : l.settle (MatrixKind.storageOver pointers inner values) = l := by
  have hmode : l.settleMode (.compressed pointers inner) = l := by
    simp only [settleMode, ModeIndex.compressed, List.foldl_cons, List.foldl_nil, hpointers, hinner]
  have hdense : ∀ extent, l.settleMode (.dense extent) = l := fun _ => rfl
  simp only [settle, MatrixKind.storageOver, List.foldl_cons, List.foldl_nil, hdense, hmode, hvalues]

end Ledger

namespace Workspace

/-- The arrays as the engine takes them, and a ledger that shows them. -/
theorem exists_taken (w : Workspace) (kind : MatrixKind) (name : String) (dimensions : List Nat) (lent : Bool)
    (pointers inner : Array Int32) (d : DataType) (values : Array d.Scalar) :
    ∃ (p i : IndexArray) (v : Buffer d.Scalar) (ledger : Ledger), p.data = pointers ∧ i.data = inner ∧ v.data = values ∧
      w.addMatrix kind name dimensions lent pointers inner d values =
        { w with ledger }.addMade (kind.assemble name dimensions p i ⟨d, v⟩) ∧
      ledger.arrays = w.ledger.arrays ++
        (if lent then #[.entries pointers, .entries inner, .components d values] else #[]) ∧
      ledger.settle (MatrixKind.storageOver p i ⟨d, v⟩) = ledger := by
  cases lent with
  | false => exact ⟨_, _, _, _, rfl, rfl, rfl, rfl, Array.append_empty.symm, Ledger.settle_storageOver rfl rfl rfl⟩
  | true =>
    refine ⟨_, _, _, _, rfl, rfl, rfl, rfl, Array.toList_inj.1 (by simp), Ledger.settle_storageOver ?_ ?_ ?_⟩
    -- each array stands at the number of its loan
    all_goals
      refine congrArg Ledger.mk (Ledger.setIfInBounds_of_getElem? ?_)
      grind

/-- **The factory accepts exactly the arrays of a matrix.**  A tensor that it makes is a new one over the arrays that
were handed in; when it makes none it refuses for the number of dimensions exactly if there are not two, and no tensor
changes.  In both cases lent arrays are shown as they were lent. -/
theorem addMatrix_accepts (w : Workspace) (kind : MatrixKind) (name : String) (dimensions : List Nat) (lent : Bool)
    (pointers inner : Array Int32) (d : DataType) (values : Array d.Scalar) :
    let (answer, w') := w.addMatrix kind name dimensions lent pointers inner d values
    ((∃ h, answer = .ok h) ↔ kind.Describes dimensions pointers inner values.size) ∧
    w'.ledger.arrays = w.ledger.arrays ++
      (if lent then #[.entries pointers, .entries inner, .components d values] else #[]) ∧
    (∀ h, answer = .ok h → h.place = w.tensors.size ∧ ∃ t, w'.tensors = w.tensors.push t ∧ t.name = name ∧
      t.dimensions = dimensions ∧ t.matrixArrays kind d = .ok ⟨pointers, inner, values⟩) ∧
    (∀ e, answer = .error e → w'.tensors = w.tensors ∧
      ((∃ expected got, e = .refused (.dimensionMismatch expected got)) ↔ dimensions.length ≠ 2)) := by
  obtain ⟨p, i, v, ledger, rfl, rfl, rfl, hadd, hledger, hshown⟩ :=
    w.exists_taken kind name dimensions lent pointers inner d values
  rw [hadd]
  cases hmade : kind.assemble name dimensions p i ⟨d, v⟩ with
  | error e =>
    have hrefused : ¬ kind.Describes dimensions p.data i.data v.data.size := by
      intro h
      rw [MatrixKind.assemble_eq_ok_iff.2 ⟨h, rfl⟩] at hmade
      cases hmade
    refine ⟨⟨?_, fun h => absurd h hrefused⟩, hledger, ?_, ?_⟩
    · rintro ⟨h, hh⟩
      cases hh
    · intro h hh
      cases hh
    · intro e' he
      cases he
      exact ⟨rfl, MatrixKind.assemble_eq_error hmade⟩
  | ok t =>
    obtain ⟨hdescribes, rfl⟩ := MatrixKind.assemble_eq_ok_iff.1 hmade
    refine ⟨⟨fun _ => hdescribes, fun _ => ⟨_, rfl⟩⟩, ?_, ?_, ?_⟩
    · exact (congrArg Ledger.arrays hshown).trans hledger
    · intro h hh
      cases hh
      exact ⟨rfl, _, tensors_settle _ _, rfl, rfl, MatrixKind.matrixArrays_tensorOver d v.data v.owner⟩
    · intro e he
      cases he

/-- A matrix without rows, over lent arrays. -/
example : (empty.addMatrix .rows "M" [0, 3] true #[0] #[] .int32 #[]).1 = .ok ⟨0⟩ := by cbv

end Workspace

end TensorStorage
