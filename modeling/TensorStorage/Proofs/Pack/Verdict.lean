import TensorStorage.Proofs.Pack.Ranges
import TensorStorage.Proofs.Pack.Repetitions
/-!
# Verdict — when packing succeeds, and why it fails

Packing looks at the shape, at the entries one after the other, at repetitions and at the counts of the dense levels, in
this order, and the first that is wrong decides the error.  What is wrong is said of what went in (`Packer.Refuses`), so
is what packing takes (`Packer.Grants`), and the two leave nothing out (`Packer.merge_verdict`).  Over stored entries
that it takes, packing records of the right order and kind never fails for what is stored (`Packer.merge_fails`).
-/
namespace TensorStorage

/-! ## Mode types -/

theorem ModeType.isSupported_eq_false_iff {type : ModeType} : type.isSupported = false ↔ type = .singleton := by
  cases type <;> decide

namespace Format

variable {f : Format} {type : ModeType} {l : Nat} {cause : StorageError}

/-- The level that is refused is the outermost singleton. -/
theorem unsupported?_eq_some : f.unsupported? = some (type, l) ↔
    type = .singleton ∧ f.types[l]? = some .singleton ∧ .singleton ∉ f.types.take l := by
  rw [unsupported?, List.find?_eq_some_iff_getElem]
  simp only [List.getElem_zipIdx, List.length_zipIdx, Prod.mk.injEq, Nat.zero_add, Bool.not_eq_true', Bool.not_not,
    ModeType.isSupported_eq_false_iff, List.mem_take_iff_getElem, not_exists, List.getElem?_eq_some_iff]
  constructor
  · rintro ⟨rfl, i, hi, ⟨hat, rfl⟩, hfirst⟩
    refine ⟨rfl, ⟨hi, hat⟩, fun j hj hsingleton => ?_⟩
    have hsupported := hfirst j (by omega)
    rw [hsingleton] at hsupported
    cases hsupported
  · rintro ⟨rfl, ⟨hi, hat⟩, hfirst⟩
    refine ⟨rfl, l, hi, ⟨hat, rfl⟩, fun j hj => ?_⟩
    exact Bool.of_not_eq_false fun h => hfirst j (by omega) (ModeType.isSupported_eq_false_iff.1 h)

theorem ensureSupported_eq_ok_iff : f.ensureSupported = .ok () ↔ .singleton ∉ f.types := by
  rw [ensureSupported_eq_ok]
  constructor
  · intro h hmem
    exact Bool.false_ne_true (h _ hmem)
  · intro h type htype
    exact Bool.of_not_eq_false fun hfalse => h (ModeType.isSupported_eq_false_iff.1 hfalse ▸ htype)

theorem ensureSupported_eq_error_iff : f.ensureSupported = .error cause ↔
    ∃ l, f.types[l]? = some .singleton ∧ .singleton ∉ f.types.take l ∧ cause = .unsupportedModeType .singleton l := by
  have hfound : ∀ {type l}, f.unsupported? = some (type, l) ↔ _ := unsupported?_eq_some
  rw [ensureSupported]
  cases hcase : f.unsupported? with
  | none =>
    refine ⟨by rintro ⟨⟩, ?_⟩
    rintro ⟨l, hl, hfirst, -⟩
    rw [hfound.2 ⟨rfl, hl, hfirst⟩] at hcase
    cases hcase
  | some found =>
    obtain ⟨type, l⟩ := found
    obtain ⟨rfl, hl, hfirst⟩ := hfound.1 hcase
    constructor
    · intro h
      cases h
      exact ⟨l, hl, hfirst, rfl⟩
    · rintro ⟨l', hl', hfirst', rfl⟩
      rw [hfound.2 ⟨rfl, hl', hfirst'⟩] at hcase
      cases hcase
      rfl

end Format

namespace Packer

variable {p : Packer} {stored records entries : List Entry} {out : List Record} {s : Storage}
  {cause : StorageError}

/-! ## The shape -/

/-- **A shape that packing takes.** -/
structure Shaped (p : Packer) : Prop where
  order : p.format.order = p.dimensions.length
  supported : .singleton ∉ p.format.types
  extents : ∀ d ∈ p.dimensions, d ≤ maxIndex

/-- **What is wrong with a shape**: the order, or else the outermost singleton level, or else the first dimension that
is too large. -/
inductive Misshapen (p : Packer) : StorageError → Prop where
  | order (h : p.format.order ≠ p.dimensions.length) :
    Misshapen p (.invalidFormat (.tensorOrder p.format.order p.dimensions.length))
  | type {l : Nat} (horder : p.format.order = p.dimensions.length) (h : p.format.types[l]? = some .singleton)
    (hfirst : .singleton ∉ p.format.types.take l) : Misshapen p (.unsupportedModeType .singleton l)
  | dimension {before after : List Nat} {d : Nat} (horder : p.format.order = p.dimensions.length)
    (hsupported : .singleton ∉ p.format.types) (h : p.dimensions = before ++ d :: after)
    (hbefore : ∀ d' ∈ before, d' ≤ maxIndex) (hpast : maxIndex < d) : Misshapen p (.indexOverflow d)

theorem check_eq_ok_iff : p.check = .ok () ↔ p.Shaped := by
  constructor
  · intro hc
    obtain ⟨horder, hsupported, hextents⟩ := check_eq_ok hc
    exact ⟨horder, Format.ensureSupported_eq_ok_iff.1 hsupported, hextents⟩
  · rintro ⟨horder, hsupported, hextents⟩
    exact check_isOk horder (Format.ensureSupported_eq_ok_iff.2 hsupported) hextents

theorem check_eq_error_iff : p.check = .error cause ↔ p.Misshapen cause := by
  simp only [check, error_bind, guard_eq_error, bind_eq_error, Format.ensureSupported_eq_error_iff,
    ne_eq, Decidable.not_not]
  constructor
  · rintro (⟨horder, h⟩ | ⟨horder, ⟨l, hl, hfirst, rfl⟩ | ⟨⟨⟩, hsupported, h⟩⟩)
    · cases h
      exact .order horder
    · exact .type horder hl hfirst
    · cases hd : p.dimensions.find? (maxIndex < ·) with
      | none =>
        rw [hd] at h
        cases h
      | some d =>
        rw [hd] at h
        cases h
        obtain ⟨hpast, before, after, hsplit, hbefore⟩ := List.find?_eq_some_iff_append.1 hd
        exact .dimension horder (Format.ensureSupported_eq_ok_iff.1 hsupported) hsplit (by simpa using hbefore)
          (by simpa using hpast)
  · intro h
    cases h with
    | order horder => exact .inl ⟨horder, rfl⟩
    | type horder hl hfirst => exact .inr ⟨horder, .inl ⟨_, hl, hfirst, rfl⟩⟩
    | dimension horder hsupported hsplit hbefore hpast =>
      have hd : p.dimensions.find? (maxIndex < ·) = some _ :=
        List.find?_eq_some_iff_append.2 ⟨by simpa using hpast, _, _, hsplit, by simpa using hbefore⟩
      exact .inr ⟨horder, .inr ⟨(), Format.ensureSupported_eq_ok_iff.2 hsupported, by rw [hd]⟩⟩

/-! ## The entries -/

/-- **What is wrong with an entry**: the number of its coordinates, or else its kind, or else one of the coordinates. -/
inductive Faulty (p : Packer) (e : Entry) : StorageError → Prop where
  | length (h : e.coordinate.length ≠ p.dimensions.length) :
    Faulty p e (.dimensionMismatch p.dimensions.length e.coordinate.length)
  | dtype (hlength : e.coordinate.length = p.dimensions.length) (h : e.value.dtype ≠ p.dtype) :
    Faulty p e (.typeMismatch p.dtype e.value.dtype)
  | bounds (hlength : e.coordinate.length = p.dimensions.length) (hdtype : e.value.dtype = p.dtype)
    (h : e.coordinate.inBounds p.dimensions = false) : Faulty p e (.outOfBounds e.coordinate p.dimensions)

theorem record_eq_error_iff (horder : p.format.order = p.dimensions.length) {x : Entry} {e : Failure} :
    p.record x = .error e ↔ ∃ cause, p.Faulty x cause ∧ e = .refused cause := by
  simp only [record, error_bind, guard_eq_error, ne_eq, Decidable.not_not, Bool.not_eq_true', Bool.not_eq_false]
  constructor
  · rintro (⟨h, he⟩ | ⟨hlength, ⟨h, he⟩ | ⟨hdtype, ⟨h, he⟩ | ⟨hbounds, h⟩⟩⟩)
    · exact ⟨_, .length h, he⟩
    · exact ⟨_, .dtype hlength h, he⟩
    · exact ⟨_, .bounds hlength hdtype h, he⟩
    · rw [Format.toLevels?_eq (by omega)] at h
      cases h
  · rintro ⟨cause, hfault, rfl⟩
    cases hfault with
    | length h => exact .inl ⟨h, rfl⟩
    | dtype hlength h => exact .inr ⟨hlength, .inl ⟨h, rfl⟩⟩
    | bounds hlength hdtype h => exact .inr ⟨hlength, .inr ⟨hdtype, .inl ⟨h, rfl⟩⟩⟩

/-- **Collecting fails for the first entry that is at fault.** -/
theorem collect_eq_error_iff (horder : p.format.order = p.dimensions.length) {e : Failure} :
    p.collect entries = .error e ↔ ∃ before x after cause, entries = before ++ x :: after ∧
      (∀ x' ∈ before, p.Admits x') ∧ p.Faulty x cause ∧ e = .refused cause := by
  simp only [collect, mapM_eq_error_iff, record_eq_ok horder, record_eq_error_iff horder]
  constructor
  · rintro ⟨before, x, after, hsplit, hbefore, cause, hfault, rfl⟩
    refine ⟨before, x, after, cause, hsplit, fun x' hx' => ?_, hfault, rfl⟩
    obtain ⟨r, hadmits, -⟩ := hbefore x' hx'
    exact hadmits
  · rintro ⟨before, x, after, cause, hsplit, hbefore, hfault, rfl⟩
    exact ⟨before, x, after, hsplit, fun x' hx' => ⟨_, hbefore x' hx', rfl⟩, cause, hfault, rfl⟩

/-- What cannot be collected is not resolved. -/
theorem resolve_eq_error_of_collect {e : Failure} (h : p.collect (stored ++ records) = .error e) :
    p.resolve stored records = .error e := by
  rw [collect_append, bind_eq_error] at h
  simp only [bind_pure_eq_error] at h
  rw [resolve]
  rcases h with h | ⟨held, hheld, h⟩
  · rw [h, error_bind]
  · rw [hheld, ok_bind, h, error_bind]

/-! ## Counts -/

/-- **The number of positions above a level, by what went in**: below a dense level as many as above it, times its
extent; below a compressed level as many as there are different beginnings of the entries' keys. -/
def positions (p : Packer) (entries : List Entry) : Nat → Nat
  | 0 => 1
  | l + 1 =>
    match p.levelShapes[l]? with
    | some (.dense, extent) => p.positions entries l * extent
    | some (.compressed, _) => (entries.map fun e => (p.format.keyOf e.coordinate).take (l + 1)).eraseDups.length
    | _ => 0

theorem Resolved.length_nodes (h : p.Resolved stored records out) (hsupported : .singleton ∉ p.format.types) :
    ∀ {l : Nat}, l ≤ p.format.order → (p.nodes out l).length = p.positions (stored ++ records) l
  | 0, _ => rfl
  | l + 1, hl => by
    obtain ⟨⟨type, extent⟩, hshape, htype⟩ := exists_levelShape hl
    have hnodes := (h.laysOut.nodesAt hl).nodup
    have hmem := fun x => h.mem_nodes_iff (Format.ensureSupported_eq_ok_iff.2 hsupported) hl (x := x)
    rw [positions, hshape]
    cases type with
    | dense =>
      rw [nodes_succ p out hshape, length_nodesBelow_of_ne (by simp), h.length_nodes hsupported (Nat.le_of_succ_le hl)]
    | compressed =>
      simp only [IsNode, hshape] at hmem
      refine ((List.perm_ext_iff_of_nodup hnodes (nodup_eraseDups _)).2 fun x => ?_).length_eq
      rw [hmem, List.mem_eraseDups, List.mem_map]
      simp only [eq_comm]
    | singleton => exact absurd htype hsupported

/-- As long as the dense levels above fit, a level has few positions. -/
theorem positions_le (hcount : (entries.map (·.coordinate)).eraseDups.length ≤ maxIndex) :
    ∀ {l : Nat}, (∀ m < l, ∀ extent, p.levelShapes[m]? = some (.dense, extent) →
      p.positions entries m * extent ≤ maxIndex) → p.positions entries l ≤ maxIndex
  | 0, _ => Nat.succ_le_of_lt (by decide : 0 < maxIndex)
  | l + 1, hfits => by
    rw [positions]
    split
    · rename_i extent hl
      exact hfits l (Nat.lt_succ_self l) extent hl
    · refine Nat.le_trans ?_ hcount
      have hle := length_eraseDups_le (l := entries.map fun e => (p.format.keyOf e.coordinate).take (l + 1))
        (m := (entries.map (·.coordinate)).eraseDups.map fun c => (p.format.keyOf c).take (l + 1)) fun a ha => by
          obtain ⟨e, he, rfl⟩ := List.mem_map.1 ha
          exact List.mem_map_of_mem (List.mem_eraseDups.2 (List.mem_map_of_mem he))
      rwa [List.length_map] at hle
    · exact Nat.zero_le _

/-- The count that is too large is told as it is. -/
theorem saturated_positions (hshape : p.Shaped) (hcount : (entries.map (·.coordinate)).eraseDups.length ≤ maxIndex)
    {l extent : Nat} (h : FirstOverflow p.levelShapes (p.positions entries) l extent) :
    saturated (p.positions entries l * extent) = p.positions entries l * extent := by
  have hpositions := positions_le hcount h.first
  have hextent := extent_le (check_eq_ok_iff.2 hshape) _ (List.mem_of_getElem? h.dense)
  have hproduct : p.positions entries l * extent ≤ maxIndex * maxIndex := Nat.mul_le_mul hpositions hextent
  exact Nat.min_eq_left (Nat.le_trans hproduct (by decide))

theorem lay_eq_error_iff (hshape : p.Shaped) (h : p.Resolved stored records out) {e : Failure} :
    p.lay out = .error e ↔ ∃ l extent, FirstOverflow p.levelShapes (p.positions (stored ++ records)) l extent ∧
      e = .refused (.indexOverflow (saturated (p.positions (stored ++ records) l * extent))) := by
  have hc := check_eq_ok_iff.2 hshape
  have hlength : ∀ m < p.levelShapes.length, (p.nodes out m).length = p.positions (stored ++ records) m := fun m hm =>
    h.length_nodes hshape.supported (Nat.le_of_lt (p.length_levelShapes ▸ hm))
  have hmodes := @modesFrom_eq_error_iff (out.map (·.key)) p.levelShapes 0 [[]] e (supported_levelShapes hc)
  have hlay : p.lay out = .error e ↔ modesFrom (out.map (·.key)) 0 p.levelShapes [[]] = .error e := by
    rw [lay_eq hc h.laysOut, bind_pure_eq_error]
  rw [hlay, hmodes]
  constructor
  · rintro ⟨l, extent, hover, rfl⟩
    have hl := (List.getElem?_eq_some_iff.1 hover.dense).1
    exact ⟨l, extent, hover.congr hlength, by rw [← hlength l hl]; rfl⟩
  · rintro ⟨l, extent, hover, rfl⟩
    have hl := (List.getElem?_eq_some_iff.1 hover.dense).1
    exact ⟨l, extent, hover.congr fun m hm => (hlength m hm).symm, by rw [← hlength l hl]; rfl⟩

/-! ## The verdict -/

/-- **What packing takes**: a shape, entries that fit it, new entries that the policy lets pass, and counts that the
index arrays can hold. -/
structure Grants (p : Packer) (stored records : List Entry) : Prop where
  shaped : p.Shaped
  admits : ∀ e ∈ stored ++ records, p.Admits e
  distinct : p.policy = .reject → (records.map (·.coordinate)).Nodup
  fits : ∀ l extent, p.levelShapes[l]? = some (.dense, extent) →
    p.positions (stored ++ records) l * extent ≤ maxIndex

/-- **Why packing refuses**: the shape, or else the first entry at fault, stored entries first, or else the first
repetition, or else the outermost dense level with too many positions. -/
inductive Refuses (p : Packer) (stored records : List Entry) : StorageError → Prop where
  | shape {cause : StorageError} (h : p.Misshapen cause) : Refuses p stored records cause
  | entry {before after : List Entry} {e : Entry} {cause : StorageError} (hshape : p.Shaped)
    (h : stored ++ records = before ++ e :: after) (hbefore : ∀ e' ∈ before, p.Admits e') (hfault : p.Faulty e cause) :
    Refuses p stored records cause
  | repeated {c : Coordinate} (hshape : p.Shaped) (hadmits : ∀ e ∈ stored ++ records, p.Admits e)
    (hpolicy : p.policy = .reject) (h : p.FirstRepeated records c) : Refuses p stored records (.duplicateCoordinate c)
  | overflow {l extent : Nat} (hshape : p.Shaped) (hadmits : ∀ e ∈ stored ++ records, p.Admits e)
    (hdistinct : p.policy = .reject → (records.map (·.coordinate)).Nodup)
    (h : FirstOverflow p.levelShapes (p.positions (stored ++ records)) l extent) :
    Refuses p stored records (.indexOverflow (p.positions (stored ++ records) l * extent))

theorem Misshapen.not_shaped (h : p.Misshapen cause) : ¬ p.Shaped := fun hshape => by
  have hc := check_eq_ok_iff.2 hshape
  rw [check_eq_error_iff.2 h] at hc
  cases hc

theorem Faulty.not_admits {e : Entry} (h : p.Faulty e cause) : ¬ p.Admits e := fun hadmits => by
  cases h with
  | length h => exact h hadmits.length
  | dtype _ h => exact h hadmits.dtype
  | bounds _ _ h => exact Bool.false_ne_true (h.symm.trans hadmits.inBounds)

/-- What packing takes it does not refuse. -/
theorem Grants.not_refuses (h : p.Grants stored records) : ¬ p.Refuses stored records cause := fun hrefuses => by
  cases hrefuses with
  | shape hshape => exact hshape.not_shaped h.shaped
  | entry _ hsplit _ hfault => exact hfault.not_admits (h.admits _ (hsplit ▸ by simp))
  | repeated _ _ hpolicy hc =>
    have hle := Nat.le_trans hc.repeated (List.nodup_iff_count.1 (h.distinct hpolicy) _)
    exact Nat.not_succ_le_self 1 hle
  | overflow _ _ _ hover => exact Nat.not_le_of_lt hover.past (h.fits _ _ hover.dense)

theorem merge_eq_ok_iff : p.merge stored records = .ok s ↔
    p.Shaped ∧ ∃ out, p.resolve stored records = .ok out ∧ p.lay out = .ok s := by
  rw [← check_eq_ok_iff]
  constructor
  · exact merge_eq_ok
  · rintro ⟨hc, out, hresolve, hlay⟩
    rw [merge_eq_lay hc hresolve, hlay]

/-- The steps of packing, one of which has failed. -/
theorem merge_eq_error_iff {e : Failure} : p.merge stored records = .error e ↔
    (∃ cause, p.Misshapen cause ∧ e = .refused cause) ∨ p.Shaped ∧ p.resolve stored records = .error e ∨
      ∃ out, p.Shaped ∧ p.resolve stored records = .ok out ∧ p.lay out = .error e := by
  simp only [merge, bind_eq_error, Outcome.liftM_checked, Outcome.ofChecked_eq_error, Outcome.ofChecked_eq_ok,
    check_eq_error_iff, ← check_eq_ok_iff]
  constructor
  · rintro (h | ⟨⟨⟩, hc, h | ⟨out, hout, h⟩⟩)
    · exact .inl h
    · exact .inr (.inl ⟨hc, h⟩)
    · exact .inr (.inr ⟨out, hc, hout, h⟩)
  · rintro (h | ⟨hc, h⟩ | ⟨out, hc, hout, h⟩)
    · exact .inl h
    · exact .inr ⟨(), hc, .inl h⟩
    · exact .inr ⟨(), hc, .inr ⟨out, hout, h⟩⟩

/-- Resolving fails for the first entry at fault, and if there is none for the first repetition. -/
theorem resolve_refuses (hshape : p.Shaped) {e : Failure} (h : p.resolve stored records = .error e) :
    ∃ cause, p.Refuses stored records cause ∧ e = .refused cause := by
  cases hcollect : p.collect (stored ++ records) with
  | error e' =>
    obtain ⟨before, x, after, cause, hsplit, hbefore, hfault, rfl⟩ := (collect_eq_error_iff hshape.order).1 hcollect
    rw [resolve_eq_error_of_collect hcollect] at h
    cases h
    exact ⟨cause, .entry hshape hsplit hbefore hfault, rfl⟩
  | ok keyed =>
    obtain ⟨hadmits, -⟩ := (collect_eq_ok hshape.order).1 hcollect
    obtain ⟨hpolicy, c, hc, rfl⟩ := (resolve_eq_error_iff hshape.order hadmits).1 h
    exact ⟨_, .repeated hshape hadmits hpolicy hc, rfl⟩

/-- **Packing names a repetition for nothing but the first of them**, and names it. -/
theorem merge_eq_duplicate_iff (hshape : p.Shaped) (hadmits : ∀ e ∈ stored ++ records, p.Admits e) {c : Coordinate} :
    p.merge stored records = .error (.refused (.duplicateCoordinate c)) ↔
      p.policy = .reject ∧ p.FirstRepeated records c := by
  rw [merge_eq_error_iff]
  have hresolve := resolve_eq_error_iff hshape.order hadmits (e := .refused (.duplicateCoordinate c))
  constructor
  · rintro (⟨cause, h, he⟩ | ⟨-, h⟩ | ⟨out, -, hout, h⟩)
    · exact absurd hshape h.not_shaped
    · obtain ⟨hpolicy, c', hc', he⟩ := hresolve.1 h
      cases he
      exact ⟨hpolicy, hc'⟩
    · obtain ⟨l, extent, -, he⟩ := (lay_eq_error_iff hshape (resolve_eq_ok hshape.order hout)).1 h
      cases he
  · rintro ⟨hpolicy, hc⟩
    exact .inr (.inl ⟨hshape, hresolve.2 ⟨hpolicy, c, hc, rfl⟩⟩)

/-- What packing has made is of what it takes. -/
theorem grants_of_merge (h : p.merge stored records = .ok s) : p.Grants stored records := by
  obtain ⟨hc, out, hresolve, hlay⟩ := merge_eq_ok h
  have hshape := check_eq_ok_iff.1 hc
  have hout := resolve_eq_ok hshape.order hresolve
  refine ⟨hshape, hout.admits, nodup_of_resolve hshape.order hresolve, fun l extent hl => ?_⟩
  refine Nat.le_of_not_lt fun hpast => ?_
  obtain ⟨l', extent', hover⟩ := exists_firstOverflow hl hpast
  rw [(lay_eq_error_iff hshape hout).2 ⟨l', extent', hover, rfl⟩] at hlay
  cases hlay

/-- **When packing succeeds, and why it fails.**  With at most as many different coordinates as the largest index,
packing succeeds for what it takes; else it is refused for the first thing that is wrong, and for nothing else. -/
theorem merge_verdict (hcount : ((stored ++ records).map (·.coordinate)).eraseDups.length ≤ maxIndex) :
    ((∃ s, p.merge stored records = .ok s) ↔ p.Grants stored records) ∧
      ∀ e, p.merge stored records = .error e ↔ ∃ cause, p.Refuses stored records cause ∧ e = .refused cause := by
  have herror : ∀ e, p.merge stored records = .error e ↔
      ∃ cause, p.Refuses stored records cause ∧ e = .refused cause := fun e => by
    rw [merge_eq_error_iff]
    constructor
    · rintro (⟨cause, h, rfl⟩ | ⟨hshape, h⟩ | ⟨out, hshape, hresolve, h⟩)
      · exact ⟨cause, .shape h, rfl⟩
      · exact resolve_refuses hshape h
      · have hout := resolve_eq_ok hshape.order hresolve
        obtain ⟨l, extent, hover, rfl⟩ := (lay_eq_error_iff hshape hout).1 h
        rw [saturated_positions hshape hcount hover]
        exact ⟨_, .overflow hshape hout.admits (nodup_of_resolve hshape.order hresolve) hover, rfl⟩
    · rintro ⟨cause, hrefuses, rfl⟩
      cases hrefuses with
      | shape h => exact .inl ⟨cause, h, rfl⟩
      | entry hshape hsplit hbefore hfault =>
        refine .inr (.inl ⟨hshape, resolve_eq_error_of_collect ?_⟩)
        exact (collect_eq_error_iff hshape.order).2 ⟨_, _, _, _, hsplit, hbefore, hfault, rfl⟩
      | repeated hshape hadmits hpolicy hc =>
        exact .inr (.inl ⟨hshape, (resolve_eq_error_iff hshape.order hadmits).2 ⟨hpolicy, _, hc, rfl⟩⟩)
      | overflow hshape hadmits hdistinct hover =>
        obtain ⟨out, hresolve⟩ := resolve_isOk hshape.order hadmits hdistinct
        have hout := resolve_eq_ok hshape.order hresolve
        refine .inr (.inr ⟨out, hshape, hresolve, (lay_eq_error_iff hshape hout).2 ⟨_, _, hover, ?_⟩⟩)
        rw [saturated_positions hshape hcount hover]
  refine ⟨⟨?_, fun h => ?_⟩, herror⟩
  · rintro ⟨s, hmerge⟩
    exact grants_of_merge hmerge
  · cases hmerge : p.merge stored records with
    | ok s => exact ⟨s, rfl⟩
    | error e =>
      obtain ⟨cause, hrefuses, -⟩ := (herror e).1 hmerge
      exact absurd hrefuses h.not_refuses

/-- Rows in use over dense columns, which are packed; and two rows of as many columns as the largest index, which have
too many positions. -/
theorem merge_verdict_rows :
    let f : Format := ⟨[.compressed, .dense], [0, 1], rfl, by decide⟩
    let records : List Entry := [⟨[0, 1], ⟨.int32, (7 : Int32)⟩⟩, ⟨[2, 0], ⟨.int32, (1 : Int32)⟩⟩]
    (records.map (·.coordinate)).eraseDups.length ≤ maxIndex ∧
      (∃ s, Packer.merge ⟨[3, 2], f, .int32, .reject⟩ [] records = .ok s) ∧
      Packer.merge ⟨[3, maxIndex], f, .int32, .reject⟩ [] records =
        .error (.refused (.indexOverflow (2 * maxIndex))) := by
  intro f records
  have hcount : (records.map (·.coordinate)).eraseDups.length ≤ maxIndex := by decide
  have hdistinct : (records.map (·.coordinate)).Nodup := by decide
  refine ⟨hcount, (merge_verdict hcount).1.2 ?_, ((merge_verdict hcount).2 _).2 ⟨_, ?_, rfl⟩⟩
  · refine ⟨⟨rfl, by decide, by decide⟩, ?_, fun _ => hdistinct, fun l extent hl => ?_⟩
    · exact List.forall_mem_cons.2 ⟨⟨rfl, rfl, rfl⟩, List.forall_mem_singleton.2 ⟨rfl, rfl, rfl⟩⟩
    · obtain rfl : l = 1 := by
        rcases l with _ | _ | l
        · cases hl
        · rfl
        · cases hl
      cases hl
      decide
  · have hover : FirstOverflow (Packer.levelShapes ⟨[3, maxIndex], f, .int32, .reject⟩)
        (Packer.positions ⟨[3, maxIndex], f, .int32, .reject⟩ records) 1 maxIndex := by
      refine ⟨rfl, by decide, fun m hm extent hshape => ?_⟩
      obtain rfl : m = 0 := Nat.lt_one_iff.1 hm
      cases hshape
    refine @Refuses.overflow _ _ _ 1 maxIndex ⟨rfl, by decide, by decide⟩ ?_ (fun _ => hdistinct) hover
    exact List.forall_mem_cons.2 ⟨⟨rfl, rfl, rfl⟩, List.forall_mem_singleton.2 ⟨rfl, rfl, rfl⟩⟩

/-! ## Over stored entries that packing takes -/

/-- **Why packing can fail** for these records. -/
inductive Fails (p : Packer) (records : List Entry) : Failure → Prop where
  | unsupported {type : ModeType} {level : Nat} (h : p.format.unsupported? = some (type, level)) :
    Fails p records (.refused (.unsupportedModeType type level))
  | outOfBounds {e : Entry} (he : e ∈ records) (h : e.coordinate.inBounds p.dimensions = false) :
    Fails p records (.refused (.outOfBounds e.coordinate p.dimensions))
  | repeated {c : Coordinate} (hpolicy : p.policy = .reject) (h : 2 ≤ (valuesAt records c).length) :
    Fails p records (.refused (.duplicateCoordinate c))
  | overflow {n : Nat} (h : maxIndex < n) : Fails p records (.refused (.indexOverflow n))

/-- **Packing over what is stored never fails for what is stored.** -/
theorem merge_fails {e : Failure} (horder : p.format.order = p.dimensions.length)
    (hdimensions : ∀ d ∈ p.dimensions, d ≤ maxIndex) (hstored : ∀ e ∈ stored, p.Admits e)
    (htakes : ∀ r ∈ records, r.coordinate.length = p.dimensions.length ∧ r.value.dtype = p.dtype)
    (h : p.merge stored records = .error e) : p.Fails records e := by
  rw [merge_eq_error_iff] at h
  rcases h with ⟨cause, h, rfl⟩ | ⟨hshape, h⟩ | ⟨out, hshape, hresolve, h⟩
  · cases h with
    | order h => exact absurd horder h
    | type _ hl hfirst => exact .unsupported (Format.unsupported?_eq_some.2 ⟨rfl, hl, hfirst⟩)
    | dimension _ _ hsplit _ hpast =>
      exact absurd (hdimensions _ (hsplit ▸ by simp)) (Nat.not_le_of_lt hpast)
  · obtain ⟨cause, hrefuses, rfl⟩ := resolve_refuses hshape h
    clear h
    cases hrefuses with
    | shape h => exact absurd hshape h.not_shaped
    | @entry before after x _ _ hsplit _ hfault =>
      have hx : x ∈ records := by
        have hmem : x ∈ stored ++ records := hsplit ▸ by simp
        exact (List.mem_append.1 hmem).resolve_left fun hx => hfault.not_admits (hstored x hx)
      obtain ⟨hlength, hdtype⟩ := htakes x hx
      cases hfault with
      | length h => exact absurd hlength h
      | dtype _ h => exact absurd hdtype h
      | bounds _ _ h => exact .outOfBounds hx h
    | repeated _ _ hpolicy hc => exact .repeated hpolicy (by rw [length_valuesAt]; exact hc.repeated)
    | overflow _ _ _ hover => exact .overflow hover.past
  · obtain ⟨l, extent, hover, rfl⟩ := (lay_eq_error_iff hshape (resolve_eq_ok hshape.order hresolve)).1 h
    exact .overflow (maxIndex_lt_saturated hover.past)

end Packer
end TensorStorage
