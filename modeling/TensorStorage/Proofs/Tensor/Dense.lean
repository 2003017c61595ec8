import TensorStorage.Proofs.DenseArray
import TensorStorage.Proofs.Matrix
import TensorStorage.Proofs.Tensor.Kinds
import TensorStorage.Proofs.Tensor.Soundness
/-!
# Dense — what a dense copy holds, and when there is none

A dense copy holds, at every coordinate of the tensor's shape, the last value that an iterator answers for it, or zero
(`Tensor.toDense_agrees`).  It is refused for its shape exactly where the count of the elements is
(`Tensor.invalidShape_iff`).  If the storage was made for the tensor, all entries are within the shape, and the copy is
a breach exactly where the array cannot be made although the count is not refused (`Tensor.toDense_breach_iff`): with
more bytes than an array can have, or without elements, but with the other dimensions too large.
-/
namespace TensorStorage

/-! ## Causes -/

/-- **What the checks of a storage are refused for.** -/
inductive StorageError.OfLevels : StorageError → Prop
  | access (array available : Nat) : OfLevels (.invalidModeAccess array available)
  | unsupported (type : ModeType) (level : Nat) : OfLevels (.unsupportedModeType type level)
  | format (fault : FormatFault) : OfLevels (.invalidFormat fault)
  | index (fault : IndexFault) : OfLevels (.invalidIndex fault)
  | overflow (count : Nat) : OfLevels (.indexOverflow count)

section Causes

variable {s : Storage} {f : Format} {number above : Nat} {e : StorageError}

theorem ModeIndex.ofLevels_of_array {m : ModeIndex} {i : Nat} (h : m.array i = .error e) : e.OfLevels := by
  unfold array at h
  split at h
  · cases h
  · cases h
    exact .access _ _

theorem ModeIndex.ofLevels_of_level {m : ModeIndex} {type : ModeType} (h : m.level type number = .error e) :
    e.OfLevels := by
  cases type with
  | dense =>
    simp only [level, bind_eq_error, guard_eq_error] at h
    obtain h | ⟨extents, -, ⟨-, rfl⟩ | ⟨-, h⟩⟩ := h
    · exact ofLevels_of_array h
    · exact .index _
    · cases h
  | compressed =>
    simp only [level, bind_eq_error] at h
    obtain h | ⟨positions, -, h | ⟨coordinates, -, h⟩⟩ := h
    · exact ofLevels_of_array h
    · exact ofLevels_of_array h
    · cases h
  | singleton =>
    cases h
    exact .unsupported _ _

theorem ofLevels_of_levelsFrom : ∀ {modes : List (ModeIndex × ModeType)} {number : Nat},
    levelsFrom number modes = .error e → e.OfLevels
  | [], _, h => by cases h
  | (m, type) :: rest, number, h => by
    simp only [levelsFrom, bind_eq_error] at h
    obtain h | ⟨level, -, h | ⟨levels, -, h⟩⟩ := h
    · exact ModeIndex.ofLevels_of_level h
    · exact ofLevels_of_levelsFrom h
    · cases h

theorem Level.ofLevels_of_countBelow {level : Level} (h : level.countBelow number above = .error e) : e.OfLevels := by
  cases level with
  | dense extent =>
    simp only [countBelow] at h
    split at h
    · cases h
    · cases h
      exact .overflow _
  | compressed positions coordinates =>
    simp only [countBelow, error_bind, guard_eq_error, bind_eq_error] at h
    obtain ⟨-, rfl⟩ | ⟨-, h | ⟨-, -, h⟩⟩ := h
    · exact .index _
    · obtain ⟨fault, rfl⟩ := checkSegments_eq_error h
      exact .index fault
    · split at h
      · cases h
        exact .index _
      · cases h

theorem ofLevels_of_countLeaves : ∀ {levels : List Level} {number above : Nat},
    countLeaves number above levels = .error e → e.OfLevels
  | [], _, _, h => by cases h
  | level :: rest, number, above, h => by
    rw [countLeaves, bind_eq_error] at h
    obtain h | ⟨below, -, h⟩ := h
    · exact Level.ofLevels_of_countBelow h
    · exact ofLevels_of_countLeaves h

theorem Storage.ofLevels_of_checkedLevels (h : s.checkedLevels f = .error e) : e.OfLevels := by
  simp only [checkedLevels, bind_eq_error] at h
  obtain h | ⟨levels, -, h | ⟨-, -, h⟩⟩ := h
  · simp only [levels, error_bind, bind_eq_error, guard_eq_error] at h
    obtain h | ⟨-, -, ⟨-, rfl⟩ | ⟨-, h⟩⟩ := h
    · unfold Format.ensureSupported at h
      split at h
      · cases h
        exact .unsupported _ _
      · cases h
    · exact .format _
    · exact ofLevels_of_levelsFrom h
  · simp only [checkNested, bind_eq_error, guard_eq_error] at h
    obtain h | ⟨leaves, -, ⟨-, rfl⟩ | ⟨-, h⟩⟩ := h
    · exact ofLevels_of_countLeaves h
    · exact .index _
    · cases h
  · cases h

end Causes

/-! ## Storages that were made -/

/-- **A storage that was made for these dimensions and this format**: packed for them, or taken in as a matrix of them.
Its values may have been overwritten since. -/
inductive Storage.MadeFor (dimensions : List Nat) (f : Format) : Storage → Prop
  | packed {p : Packer} {stored records : List Entry} {s : Storage} : p.dimensions = dimensions → p.format = f →
      p.merge stored records = .ok s → MadeFor dimensions f s
  | matrix {kind : MatrixKind} {name : String} {pointers inner : IndexArray} {values : ValueArray} {t : Tensor}
      {s : Storage} : kind.assemble name dimensions pointers inner values = .ok t → t.format = f →
      t.storage? = some s → MadeFor dimensions f s
  | overwritten {s s' : Storage} : MadeFor dimensions f s → s'.index = s.index → s'.values.size = s.values.size →
      MadeFor dimensions f s'

namespace Storage.MadeFor

variable {dimensions : List Nat} {f : Format} {s : Storage} {levels : List Level}

/-- **A storage that was made fits**, if it passes the checks of a walk. -/
theorem fits (h : s.MadeFor dimensions f) : f.order = dimensions.length ∧
    ∀ levels, s.checkedLevels f = .ok levels → s.checkFits f dimensions = .ok () := by
  induction h with
  | packed hdimensions hformat hmerge =>
    subst hdimensions hformat
    obtain ⟨hc, out, hresolve, hlay⟩ := Packer.merge_eq_ok hmerge
    have horder := (Packer.check_eq_ok hc).1
    have hout := (Packer.resolve_eq_ok horder hresolve).laysOut
    exact ⟨horder, fun levels hlevels =>
      Packer.checkFits_of_lay hc hout hlay (Packer.fits_of_checkedLevels hc hout hlay hlevels)⟩
  | @matrix kind name pointers inner values t s hmade hformat hs =>
    have hsound := Tensor.sound_of_assemble hmade
    have hkind : t.format = kind.format := congrArg Packer.format hsound.waits.packer
    rw [← hformat, hkind]
    exact ⟨hsound.order, fun _ _ => (hsound.stored _ hs).2⟩
  | overwritten _ hindex hsize ih =>
    refine ⟨ih.1, fun levels hlevels => ?_⟩
    have hsame := checkedLevels_of_sameShape hindex hsize f
    have hfits := ih.2 levels (hsame.symm.trans hlevels)
    unfold checkFits at hfits ⊢
    rwa [hsame]

theorem within (h : s.MadeFor dimensions f) (hlevels : s.checkedLevels f = .ok levels) :
    ∀ e ∈ s.nestedEntries f levels, e.coordinate.Within dimensions := by
  obtain ⟨horder, hfits⟩ := h.fits
  obtain ⟨levels', hlevels', -, hentries⟩ := entries_of_checkFits horder (hfits levels hlevels)
  cases hlevels.symm.trans hlevels'
  exact fun e he => ⟨(hentries e he).1, (hentries e he).2.1⟩

end Storage.MadeFor

/-! ## Tensors -/

/-- The last scalar at a coordinate is the last value there. -/
theorem getLastD_valuesAt_map_wrap {d : DataType} (items : List (Coordinate × d.Scalar)) (c : Coordinate) :
    (valuesAt (items.map .wrap) c).getLastD (.zero d) = ⟨d, (DenseArray.lastAt items c).getD d.zero⟩ := by
  have hvalues : valuesAt (items.map .wrap) c = ((items.filter (·.1 = c)).map Prod.snd).map (⟨d, ·⟩) := by
    rw [valuesAt, List.filter_map, List.map_map, List.map_map]
    rfl
  rw [hvalues, List.getLastD_eq_getLast?, List.getLast?_map, DenseArray.lastAt]
  cases ((items.filter (·.1 = c)).map Prod.snd).getLast? <;> rfl

namespace Tensor

variable {t u : Tensor} {s : Storage} {d : DataType}

theorem madeFor_of_pack (hu : t.pack = .ok u) (ht : ∀ s, t.storage? = some s → s.MadeFor t.dimensions t.format) :
    ∀ s, u.storage? = some s → s.MadeFor u.dimensions u.format := by
  unfold pack at hu
  split at hu
  · cases hu
    exact ht
  · simp only [bind_eq_ok] at hu
    obtain ⟨stored, -, s, hmerge, hu⟩ := hu
    cases hu
    rintro _ ⟨⟩
    exact .packed rfl rfl hmerge

theorem madeFor_of_assemble {kind : MatrixKind} {name : String} {dimensions : List Nat} {pointers inner : IndexArray}
    {values : ValueArray} (h : kind.assemble name dimensions pointers inner values = .ok t) :
    ∀ s, t.storage? = some s → s.MadeFor t.dimensions t.format := fun s hs => by
  have hdimensions : t.dimensions = dimensions := congrArg Packer.dimensions (sound_of_assemble h).waits.packer
  rw [hdimensions]
  exact .matrix h rfl hs

theorem iteratorAs_ne_invalidShape {fault : ShapeFault} : t.iteratorAs d ≠ .error (.invalidShape fault) := by
  intro h
  simp only [iteratorAs, guard_eq_error, iterator, bind_eq_error] at h
  obtain ⟨-, ⟨⟩⟩ | ⟨-, h | ⟨s, -, h | ⟨levels, -, ⟨⟩⟩⟩⟩ := h
  · unfold storage at h
    split at h <;> cases h
  · cases Storage.ofLevels_of_checkedLevels h

/-- **The entries at a kind are refused as an iterator is**, or listed. -/
theorem entriesAs_cases (t : Tensor) (d : DataType) :
    (∃ cause, t.iteratorAs d = .error cause ∧ t.entriesAs d = .error (.refused cause)) ∨
      t.dtype = d ∧ ∃ s levels, t.storage? = some s ∧ s.checkedLevels t.format = .ok levels ∧
        t.entriesAs d = .ok ((s.nestedEntries t.format levels).filterMap (·.as? d)) := by
  cases hi : t.iteratorAs d with
  | error cause =>
    refine .inl ⟨cause, rfl, ?_⟩
    simp only [entriesAs, hi, Outcome.liftM_checked, Outcome.ofChecked_error, error_bind]
  | ok i =>
    rw [iteratorAs, guard_eq_ok] at hi
    obtain ⟨s, levels, hs, hlevels, -⟩ := iterator_eq_ok_iff.1 hi.2
    have hd : t.dtype = d := Decidable.not_not.1 hi.1
    exact .inr ⟨hd, s, levels, hs, hlevels, entriesAs_of_checkedLevels hd hs hlevels⟩

theorem toDense_of_uncounted (h : elementCount? t.dimensions = none) :
    t.toDense d = .error (.refused (.invalidShape (.tooManyElements t.dimensions))) := by
  simp only [toDense, h, Option.isNone_none, if_true, error_bind]

theorem toDense_of_counted {n : Nat} (h : elementCount? t.dimensions = some n) :
    t.toDense d = if DenseArray.allocatable d t.dimensions then
        t.entriesAs d >>= fun items => .ofOption ((DenseArray.zeros d t.dimensions).fill? items)
      else .error .breach := by
  unfold toDense
  rw [h]
  cases DenseArray.allocatable d t.dimensions <;> rfl

theorem toDense_eq_ok {a : DenseArray d} (h : t.toDense d = .ok a) : t.dtype = d ∧ ∃ s levels, t.storage? = some s ∧
    s.checkedLevels t.format = .ok levels ∧ (DenseArray.zeros d t.dimensions).fill?
      ((s.nestedEntries t.format levels).filterMap (·.as? d)) = some a := by
  cases hcount : elementCount? t.dimensions with
  | none =>
    rw [toDense_of_uncounted hcount] at h
    cases h
  | some n =>
    rw [toDense_of_counted hcount] at h
    split at h
    · obtain ⟨items, hitems, hfill⟩ := bind_eq_ok.1 h
      rw [Outcome.ofOption_eq_ok] at hfill
      rcases entriesAs_cases t d with ⟨cause, -, he⟩ | ⟨hd, s, levels, hs, hlevels, hentries⟩
      · cases he.symm.trans hitems
      · cases hentries.symm.trans hitems
        exact ⟨hd, s, levels, hs, hlevels, hfill⟩
    · cases h

/-- **A dense copy is refused for the shape** exactly where the count of its elements is. -/
theorem invalidShape_iff (t : Tensor) (d : DataType) :
    (∃ fault, t.toDense d = .error (.refused (.invalidShape fault))) ↔
      LeavesWords t.dimensions ∨ maxRoom < t.dimensions.prod := by
  rw [← elementCount?_eq_none_iff]
  cases hcount : elementCount? t.dimensions with
  | none => exact iff_of_true ⟨_, toDense_of_uncounted hcount⟩ rfl
  | some n =>
    refine iff_of_false ?_ nofun
    rintro ⟨fault, h⟩
    rw [toDense_of_counted hcount] at h
    split at h
    · rcases entriesAs_cases t d with ⟨cause, hi, he⟩ | ⟨-, s, levels, -, -, hentries⟩
      · rw [he, error_bind] at h
        cases h
        exact iteratorAs_ne_invalidShape hi
      · rw [hentries, ok_bind, Outcome.ofOption_eq_error] at h
        cases h.2
    · cases h

/-- Entries within the shape are all filled in, at whatever kind. -/
theorem exists_fill_entries {dimensions : List Nat} {es : List Entry}
    (hwithin : ∀ e ∈ es, e.coordinate.Within dimensions) (d : DataType) :
    ∃ a, (DenseArray.zeros d dimensions).fill? (es.filterMap (·.as? d)) = some a := by
  have hitems : ∀ p ∈ es.filterMap (·.as? d), p.1.Within dimensions := by
    intro p hp
    obtain ⟨e, he, hep⟩ := List.mem_filterMap.1 hp
    rw [show p.1 = e.coordinate from congrArg Entry.coordinate (Entry.wrap_of_as? hep)]
    exact hwithin e he
  obtain ⟨a, ha, -⟩ := (DenseArray.whole_zeros d dimensions).exists_fill hitems
  exact ⟨a, ha⟩

/-- **A tensor whose storage fits has a dense copy** at its kind, if there is room for the array. -/
theorem toDense_isOk (hd : t.dtype = d) (hshape : checkShape t.dimensions t.format = .ok ()) (hs : t.storage? = some s)
    (hfits : s.checkFits t.format t.dimensions = .ok ()) {n : Nat} (hcount : elementCount? t.dimensions = some n)
    (hroom : DenseArray.allocatable d t.dimensions = true) : ∃ a, t.toDense d = .ok a := by
  obtain ⟨levels, hlevels, -, hentries⟩ := Storage.entries_of_checkFits (checkShape_eq_ok hshape).1 hfits
  obtain ⟨a, ha⟩ := exists_fill_entries (fun e he => ⟨(hentries e he).1, (hentries e he).2.1⟩) d
  refine ⟨a, ?_⟩
  rw [toDense_of_counted hcount, if_pos hroom, entriesAs_of_checkedLevels hd hs hlevels, ok_bind, ha]
  rfl

/-- **The cells of an array that entries of one kind were filled in**: the last value for the coordinate, or zero. -/
theorem exists_cell {dimensions : List Nat} {es : List Entry} {kind : DataType}
    (hkind : ∀ e ∈ es, e.value.dtype = kind) {a : DenseArray d}
    (hfill : (DenseArray.zeros d dimensions).fill? (es.filterMap (·.as? d)) = some a) :
    a.shape = dimensions ∧ a.cells.size = dimensions.prod ∧ ∀ c : Coordinate, c.Within dimensions → ∃ x,
      a.get? c = some x ∧ a.cells[c.rowMajor dimensions]? = some x ∧
      (kind = d → (⟨d, x⟩ : Value) = (valuesAt es c).getLastD (.zero d)) ∧ (kind ≠ d → x = d.zero) := by
  let items : List (Coordinate × d.Scalar) := es.filterMap (·.as? d)
  have hwhole := DenseArray.whole_zeros d dimensions
  obtain ⟨b, hb, hbwhole, hshape, hget⟩ := hwhole.exists_fill (hwhole.within_of_fill hfill)
  cases hfill.symm.trans hb
  have hshape : a.shape = dimensions := hshape
  refine ⟨hshape, hshape ▸ hbwhole, fun c hc => ?_⟩
  have hx : a.get? c = some ((DenseArray.lastAt items c).getD d.zero) := by
    rw [hget, DenseArray.get?_zeros hc]
    cases DenseArray.lastAt items c <;> rfl
  refine ⟨_, hx, ?_, fun heq => ?_, fun hne => ?_⟩
  · rw [← hx, DenseArray.get?_of_within (hshape.symm ▸ hc), hshape]
  · have hwrap : items.map .wrap = es := Entry.map_wrap_filterMap fun e he => (hkind e he).trans heq
    rw [← hwrap, getLastD_valuesAt_map_wrap]
  · have hnil : items = [] := Entry.filterMap_eq_nil fun e he => ne_of_eq_of_ne (hkind e he) hne
    rw [hnil]
    rfl

/-- **What a dense copy holds.**  A copy at kind `d` is of a tensor of this kind.  It has the tensor's dimensions, and a
cell for each coordinate of them, at its row-major place.  Where the storage holds the kind too, the cell has the value
of the last entry that an iterator answers at the coordinate, or zero if there is none; where the storage holds another
kind, all cells are zero.  A copy is refused for the shape only if the product of the dimensions leaves the words on the
way, or is more than an array can have; and if it is not, and there is room for the array, a tensor of the kind whose
storage fits has one. -/
theorem toDense_agrees (t : Tensor) (d : DataType) :
    (∀ a, t.toDense d = .ok a → t.dtype = d ∧ a.shape = t.dimensions ∧ a.cells.size = t.dimensions.prod ∧
      ∃ s es, t.storage? = some s ∧ t.Yields es ∧ ∀ c : Coordinate, c.Within t.dimensions → ∃ x, a.get? c = some x ∧
        a.cells[c.rowMajor t.dimensions]? = some x ∧
        (s.dtype = d → (⟨d, x⟩ : Value) = (valuesAt es c).getLastD (.zero d)) ∧ (s.dtype ≠ d → x = d.zero)) ∧
      ((∃ fault, t.toDense d = .error (.refused (.invalidShape fault))) →
        LeavesWords t.dimensions ∨ maxRoom < t.dimensions.prod) ∧
      (t.dtype = d → checkShape t.dimensions t.format = .ok () → ∀ s, t.storage? = some s →
        s.checkFits t.format t.dimensions = .ok () → (elementCount? t.dimensions).isSome →
          DenseArray.allocatable d t.dimensions = true → ∃ a, t.toDense d = .ok a) := by
  refine ⟨fun a ha => ?_, (invalidShape_iff t d).1, fun hd hshape s hs hfits hcount hroom => ?_⟩
  · obtain ⟨hd, s, levels, hs, hlevels, hfill⟩ := toDense_eq_ok ha
    obtain ⟨hshape, hsize, hcells⟩ := exists_cell (fun e he => Storage.dtype_of_mem_nestedEntries he) hfill
    exact ⟨hd, hshape, hsize, s, _, hs, yields_of_checkedLevels hs hlevels, hcells⟩
  · obtain ⟨n, hcount⟩ := Option.isSome_iff_exists.1 hcount
    exact toDense_isOk hd hshape hs hfits hcount hroom

/-- Entries that are stored by columns, in an array by rows. -/
theorem toDense_agrees_columns :
    let s : Storage := ⟨⟨[.dense 2, .compressed { data := #[0, 1, 2] } { data := #[2, 0] }], 2⟩,
      .ofArray .int32 #[5, 7]⟩
    let t : Tensor := ⟨"t", [3, 2], .int32, .csc, ⟨.sum, 0⟩, .new 2 .int32, some s, 1⟩
    ∃ (a : DenseArray .int32) (es : List Entry), t.toDense .int32 = .ok a ∧
      a.cells = (#[0, 7, 0, 0, 5, 0] : Array Int32) ∧ t.Yields es ∧ ∀ c : Coordinate, c.Within [3, 2] → ∃ x,
        a.cells[c.rowMajor [3, 2]]? = some x ∧ (⟨.int32, x⟩ : Value) = (valuesAt es c).getLastD (.zero .int32) := by
  intro s t
  have ha : t.toDense .int32 = .ok ⟨[3, 2], (#[0, 7, 0, 0, 5, 0] : Array Int32)⟩ := by cbv
  obtain ⟨-, -, -, s', es, hs, hyields, hcells⟩ := (toDense_agrees t .int32).1 _ ha
  cases hs
  refine ⟨_, es, ha, rfl, hyields, fun c hc => ?_⟩
  obtain ⟨x, -, hx, hof, -⟩ := hcells c hc
  exact ⟨x, hx, hof rfl⟩

/-- The values of an open storage are replaced by two of another kind, and the dense copy at the tensor's kind holds
neither. -/
theorem toDense_of_replaced_values :
    let commands : List Command := [.new "t" .int32 [2] (.dense 1) ⟨.lastWins, 0⟩, .ask ⟨0⟩ .pack,
      .edit ⟨0⟩ fun s => .ok ((), { s with values := .ofArray .int64 #[5, 6] })]
    ∃ t s a, (Workspace.obeyAll .empty commands).tensor? ⟨0⟩ = some t ∧ t.storage? = some s ∧
      s.checkFits t.format t.dimensions = .ok () ∧
      t.entries = .ok [⟨[0], ⟨.int64, (5 : Int64)⟩⟩, ⟨[1], ⟨.int64, (6 : Int64)⟩⟩] ∧
      t.toDense .int32 = .ok a ∧ a.cells = (#[0, 0] : Array Int32) := by
  intro commands
  have hcomputed : ((Workspace.obeyAll .empty commands).tensor? ⟨0⟩).map (fun t =>
      (t.storage?.map (·.checkFits t.format t.dimensions), t.entries, t.toDense .int32)) =
      some (some (.ok ()), .ok [⟨[0], ⟨.int64, (5 : Int64)⟩⟩, ⟨[1], ⟨.int64, (6 : Int64)⟩⟩],
        .ok ⟨[2], (#[0, 0] : Array Int32)⟩) := by
    cbv
  obtain ⟨t, ht, hcomputed⟩ := Option.map_eq_some_iff.1 hcomputed
  simp only [Prod.mk.injEq] at hcomputed
  obtain ⟨hfits, hentries, hdense⟩ := hcomputed
  obtain ⟨s, hs, hfits⟩ := Option.map_eq_some_iff.1 hfits
  exact ⟨t, s, _, ht, hs, hfits, hentries, hdense, rfl⟩

/-- **Entries of a storage that was made are all filled in**, at whatever kind. -/
theorem toDense_ne_breach_of_allocatable (hmade : ∀ s, t.storage? = some s → s.MadeFor t.dimensions t.format)
    {n : Nat} (hcount : elementCount? t.dimensions = some n)
    (hroom : DenseArray.allocatable d t.dimensions = true) : t.toDense d ≠ .error .breach := by
  rw [toDense_of_counted hcount, if_pos hroom]
  rcases entriesAs_cases t d with ⟨cause, -, he⟩ | ⟨-, s, levels, hs, hlevels, hentries⟩
  · rw [he, error_bind]
    nofun
  · obtain ⟨a, ha⟩ := exists_fill_entries ((hmade s hs).within hlevels) d
    rw [hentries, ok_bind, ha]
    nofun

/-- **When a dense copy is a breach.**  If the storage of a tensor was made for it, its dense copy is an array or
refused, except where the elements are counted as few enough for an array, but a dimension is zero and the product of
the others is more than an array can have, or the elements have too many bytes. -/
theorem toDense_breach_iff (t : Tensor) (d : DataType)
    (hmade : ∀ s, t.storage? = some s → s.MadeFor t.dimensions t.format) :
    t.toDense d = .error .breach ↔ ¬ LeavesWords t.dimensions ∧ t.dimensions.prod ≤ maxRoom ∧
      (0 ∈ t.dimensions ∧ maxRoom < (t.dimensions.filter (· ≠ 0)).prod ∨
        maxRoom < t.dimensions.prod * d.byteSize) := by
  cases hcount : elementCount? t.dimensions with
  | none =>
    rw [toDense_of_uncounted hcount]
    refine iff_of_false nofun fun ⟨hwords, hsmall, _⟩ => ?_
    exact (elementCount?_eq_none_iff.1 hcount).elim hwords (Nat.not_lt_of_le hsmall)
  | some n =>
    obtain ⟨⟨hwords, rfl⟩, hsmall⟩ := elementCount?_eq_some_iff.1 hcount
    rw [← DenseArray.not_allocatable_iff hsmall]
    constructor
    · exact fun hbreach => ⟨hwords, hsmall, fun hroom => toDense_ne_breach_of_allocatable hmade hcount hroom hbreach⟩
    · rintro ⟨-, -, hroom⟩
      rw [toDense_of_counted hcount, if_neg hroom]

/-- A matrix of six elements. -/
theorem toDense_breach_iff_rows :
    ∃ t, MatrixKind.rows.assemble "m" [3, 2] { data := #[0, 1, 1, 2] } { data := #[1, 0] } (.ofArray .int32 #[7, 5]) =
      .ok t ∧ (∀ s, t.storage? = some s → s.MadeFor t.dimensions t.format) ∧ t.toDense .int32 ≠ .error .breach := by
  obtain ⟨t, ht, hdimensions⟩ : ∃ t, MatrixKind.rows.assemble "m" [3, 2] { data := #[0, 1, 1, 2] } { data := #[1, 0] }
      (.ofArray .int32 #[7, 5]) = .ok t ∧ t.dimensions = [3, 2] := ⟨_, rfl, rfl⟩
  have hmade := madeFor_of_assemble ht
  refine ⟨t, ht, hmade, fun hbreach => ?_⟩
  obtain ⟨-, -, ⟨hzero, -⟩ | hlarge⟩ := (toDense_breach_iff t .int32 hmade).1 hbreach
  · rw [hdimensions] at hzero
    exact absurd hzero (by decide)
  · rw [hdimensions] at hlarge
    exact absurd hlarge (by decide)

/-- A dimension is zero, and the others are the largest there are.  Nothing is stored and the elements are counted as
none, but the dense copy is a breach. -/
theorem toDense_breach_of_zero_dimension :
    ∃ t u, new "t" .int32 [0, 2147483647, 2147483647, 2147483647] (.sparse 4) ⟨.lastWins, 0⟩ = .ok t ∧
      t.pack = .ok u ∧ (∀ s, u.storage? = some s → s.MadeFor u.dimensions u.format) ∧ u.entries = .ok [] ∧
      elementCount? u.dimensions = some 0 ∧ u.toDense .int32 = .error .breach := by
  have hcount : elementCount? [0, 2147483647, 2147483647, 2147483647] = some 0 := by cbv
  have hroom : DenseArray.allocatable .int32 [0, 2147483647, 2147483647, 2147483647] = false := by decide
  have hcomputed : (do
      let t ← new "t" .int32 [0, 2147483647, 2147483647, 2147483647] (.sparse 4) ⟨.lastWins, 0⟩
      let u ← t.pack
      return (t.storage?, u.dimensions, u.entries)) =
      .ok (none, [0, 2147483647, 2147483647, 2147483647], .ok []) := by
    cbv
  obtain ⟨t, ht, hcomputed⟩ := bind_eq_ok.1 hcomputed
  obtain ⟨u, hu, hcomputed⟩ := bind_eq_ok.1 hcomputed
  simp only [pure_eq_ok, Except.ok.injEq, Prod.mk.injEq] at hcomputed
  obtain ⟨hnone, hdimensions, hentries⟩ := hcomputed
  rw [← hdimensions] at hcount hroom
  refine ⟨t, u, ht, hu, madeFor_of_pack hu fun s hs => ?_, hentries, hcount, ?_⟩
  · rw [hnone] at hs
    cases hs
  · rw [toDense_of_counted hcount, hroom]
    rfl

end Tensor

end TensorStorage
