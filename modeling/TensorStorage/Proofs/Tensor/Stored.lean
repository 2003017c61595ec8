import TensorStorage.Proofs.Pack.Structure
import TensorStorage.Proofs.Tensor.Iterator
import TensorStorage.Proofs.Tensor.Pack
import TensorStorage.Proofs.Value
/-!
# Stored — the entries of a tensor and the values that they say

An iterator over a tensor and a traversal of its storage list the same entries (`Tensor.entries_eq`).  Where the stored
coordinates differ, the entries say one value for each coordinate (`Tensor.valueAt`), which is zero where nothing is
stored.
-/
namespace TensorStorage

/-! ## Lists of entries -/

/-- The value that entries say for a coordinate: that of the first at it, or zero. -/
def valueIn (d : DataType) (entries : List Entry) (c : Coordinate) : Value := (valuesAt entries c).headD (.zero d)

section Lists

variable {d : DataType} {entries : List Entry} {c : Coordinate}

theorem valueIn_of_mem (h : (entries.map (·.coordinate)).Nodup) {e : Entry} (he : e ∈ entries) :
    valueIn d entries e.coordinate = e.value := by
  rw [valueIn, valuesAt_of_nodup h he]
  rfl

theorem valueIn_of_not_mem (h : ∀ e ∈ entries, e.coordinate ≠ c) : valueIn d entries c = .zero d := by
  rw [valueIn, valuesAt_eq_nil_iff.2 h]
  rfl

end Lists

/-- **What a packed storage says for a coordinate in bounds**, whether it stores it or not. -/
theorem Packer.Lists.valueIn_eq {p : Packer} {stored records es : List Entry} {c : Coordinate}
    (h : p.Lists stored records es) (hlen : c.length = p.dimensions.length) (hin : c.inBounds p.dimensions = true) :
    p.policy.packed? p.dtype (valuesAt stored c).head? (valuesAt records c) = some (valueIn p.dtype es c) := by
  by_cases hc : c ∈ es.map (·.coordinate)
  · obtain ⟨e, he, rfl⟩ := List.mem_map.1 hc
    rw [h.value e he, valueIn_of_mem h.nodup he]
  · have hnone : ∀ e ∈ stored ++ records, e.coordinate ≠ c := fun e he hec =>
      hc ((h.mem_iff c).2 ⟨hlen, hin, .inr ⟨e, he, by rw [hec]⟩⟩)
    rw [valueIn_of_not_mem fun e he hec => hc (List.mem_map.2 ⟨e, he, hec⟩),
      valuesAt_eq_nil_iff.2 fun e he => hnone e (List.mem_append_left _ he),
      valuesAt_eq_nil_iff.2 fun e he => hnone e (List.mem_append_right _ he)]
    rfl

/-! ## Packed storages -/

theorem engine_of_modesFrom {keys : List Coordinate} : ∀ {shapes : List (ModeType × Nat)} {depth : Nat}
    {nodes : List Coordinate} {modes : List ModeIndex}, modesFrom keys depth shapes nodes = .ok modes →
      ∀ mode ∈ modes, ∀ a ∈ mode.arrays, a.owner = .engine
  | [], _, _, _, h, mode, hmode => by
    cases h
    cases hmode
  | (type, extent) :: rest, depth, nodes, modes, h, mode, hmem => by
    simp only [modesFrom, bind_eq_ok] at h
    obtain ⟨first, hfirst, modes', hmodes, h⟩ := h
    cases h
    rcases List.mem_cons.1 hmem with rfl | hmem
    · intro a ha
      cases type with
      | dense =>
        rw [modeBetween, guard_eq_ok] at hfirst
        cases hfirst.2
        rw [List.mem_singleton.1 ha]
      | compressed =>
        cases hfirst
        rcases List.mem_pair.1 ha with rfl | rfl
        · rfl
        · rfl
      | singleton => cases hfirst
    · exact engine_of_modesFrom hmodes mode hmem

namespace Packer

variable {p : Packer} {stored records : List Entry} {s : Storage}

/-- **A packed storage is the engine's own.** -/
theorem isOwned_of_merge (h : p.merge stored records = .ok s) : s.isOwned = true := by
  obtain ⟨hc, out, hresolve, hlay⟩ := merge_eq_ok h
  obtain ⟨modes, hmodes, rfl⟩ := lay_eq_ok hc (resolve_eq_ok (check_eq_ok hc).1 hresolve).laysOut hlay
  rw [Storage.isOwned, Bool.and_eq_true, List.all_eq_true]
  refine ⟨rfl, fun a ha => ?_⟩
  obtain ⟨mode, hmode, ha⟩ := List.mem_flatMap.1 ha
  rw [engine_of_modesFrom hmodes mode hmode a ha]
  rfl

theorem length_nestedEntries_of_merge (h : p.merge stored records = .ok s)
    (hcount : ((stored ++ records).map (·.coordinate)).eraseDups.length ≤ maxIndex) {levels : List Level}
    (hlevels : s.checkedLevels p.format = .ok levels) : (s.nestedEntries p.format levels).length ≤ maxIndex := by
  obtain ⟨hc, out, hresolve, hlay⟩ := merge_eq_ok h
  have hout := resolve_eq_ok (check_eq_ok hc).1 hresolve
  have hfits := hout.fitsEntries hc hlay hcount
  rw [checkedLevels_of_lay hc hout.laysOut hlay hfits] at hlevels
  cases hlevels
  rw [nestedEntries_of_lay hc hout.laysOut hlay hfits, List.length_map, ← nodes_order]
  exact FitsEntries.length_nodes_le hfits (Nat.le_refl _)

end Packer

/-! ## Tensors -/

namespace Tensor

variable {t : Tensor} {s : Storage} {es : List Entry} {c : Coordinate}

theorem entries_of_checkedLevels {levels : List Level} (hs : t.storage? = some s)
    (hlevels : s.checkedLevels t.format = .ok levels) : t.entries = .ok (s.nestedEntries t.format levels) := by
  obtain ⟨-, hn, hv⟩ := Storage.levelsNested_of_checkedLevels hlevels
  have hi := iterator_eq_ok_iff.2 ⟨s, levels, hs, hlevels, rfl⟩
  have hlen : TensorIterator.length t ⟨.new levels.length, t.generation⟩ = s.index.size := by
    simp only [TensorIterator.length, hs, if_true]
    rfl
  obtain ⟨j, hj, -⟩ := takeItems_of_step (TensorIterator.stepsThrough hs hlevels) (s.index.size + 1)
    ⟨.new levels.length, t.generation⟩ (s.nestedEntries t.format levels)
    ⟨rfl, _, Cursor.ahead_new levels, (s.map_some_nestedEntries t.format hn hv).symm⟩
    (by rw [s.length_nestedEntries t.format hn hv]; exact Nat.lt_succ_self _)
  simp only [entries, hi, Outcome.liftM_checked, Outcome.ofChecked_ok, ok_bind, hlen, hj]
  rfl

/-- **An iterator lists what a traversal lists**, or fails as it does. -/
theorem entries_eq (hs : t.storage? = some s) : t.entries = s.entries t.format := by
  cases hlevels : s.checkedLevels t.format with
  | ok levels => rw [entries_of_checkedLevels hs hlevels, Storage.entries_of_checkedLevels hlevels]
  | error e =>
    have hi : t.iterator = .error e := by
      simp only [iterator, storage, hs, ok_bind, hlevels]
      rfl
    have ht : Traversal.start 0 s t.format = .error e := by
      rw [Traversal.start, hlevels]
      rfl
    simp only [entries, Storage.entries, hi, ht, Outcome.liftM_checked, Outcome.ofChecked_error, error_bind]

/-- The value at a coordinate: the stored one, or zero where nothing is stored. -/
def valueAt (t : Tensor) (c : Coordinate) : Value :=
  match t.storedEntries with
  | .ok es => valueIn t.dtype es c
  | .error _ => .zero t.dtype

/-- **A tensor that stores these entries**, of different coordinates and within its dimensions.  One that was never
packed stores none. -/
structure Stores (t : Tensor) (es : List Entry) : Prop where
  entries : t.storedEntries = .ok es
  nodup : (es.map (·.coordinate)).Nodup
  length : ∀ e ∈ es, e.coordinate.length = t.dimensions.length
  inBounds : ∀ e ∈ es, e.coordinate.inBounds t.dimensions = true

namespace Stores

theorem valueAt_eq (h : t.Stores es) (c : Coordinate) : t.valueAt c = valueIn t.dtype es c := by
  rw [valueAt, h.entries]

theorem valueAt_of_mem (h : t.Stores es) {e : Entry} (he : e ∈ es) : t.valueAt e.coordinate = e.value := by
  rw [h.valueAt_eq, valueIn_of_mem h.nodup he]

theorem valueAt_of_not_mem (h : t.Stores es) (hc : ∀ e ∈ es, e.coordinate ≠ c) : t.valueAt c = .zero t.dtype := by
  rw [h.valueAt_eq, valueIn_of_not_mem hc]

theorem isNaN_valueAt (h : t.Stores es) (hnumber : ∀ e ∈ es, e.value.isNaN = false) (c : Coordinate) :
    (t.valueAt c).isNaN = false := by
  by_cases hc : ∃ e ∈ es, e.coordinate = c
  · obtain ⟨e, he, rfl⟩ := hc
    rw [h.valueAt_of_mem he]
    exact hnumber e he
  · rw [h.valueAt_of_not_mem fun e he hec => hc ⟨e, he, hec⟩]
    exact Value.isNaN_zero t.dtype

end Stores

theorem storedEntries_eq (hs : t.storage? = some s) : t.storedEntries = t.entries := by
  rw [entries_eq hs, storedEntries, hs]

/-- **A tensor after its first pack**: the engine's own storage lists the records that waited. -/
structure PackedFrom (u t : Tensor) (p : Packer) (records es : List Entry) : Prop where
  waits : u.Waits p []
  name : u.name = t.name
  options : u.options = t.options
  owned : ∃ s, u.storage? = some s ∧ s.isOwned = true
  stores : u.Stores es
  lists : p.Lists [] records es
  count : es.length ≤ maxIndex

theorem packedFrom_of_pack {p : Packer} {records : List Entry} {u : Tensor} (h : t.Waits p records)
    (hnone : t.storage? = none) (hcount : (records.map (·.coordinate)).eraseDups.length ≤ maxIndex)
    (hpack : t.pack = .ok u) : ∃ es, u.PackedFrom t p records es := by
  rcases pack_eq_ok hpack with ⟨hsettled, -⟩ | ⟨-, stored, s, hstored, hmerge, rfl⟩
  · rw [h.isSettled_iff, isPacked, hnone] at hsettled
    cases hsettled.2
  · rw [storedEntries, hnone] at hstored
    cases hstored
    rw [h.packer, h.records] at hmerge
    have hnil : (([] : List Entry).map (·.coordinate)).Nodup := .nil
    obtain ⟨levels, hlevels, hlists⟩ := Packer.lists_of_merge hnil hmerge hcount
    have hdimensions : t.dimensions = p.dimensions := congrArg Packer.dimensions h.packer
    have hmem := fun (e : Entry) he => (hlists.mem_iff e.coordinate).1 (List.mem_map_of_mem (f := Entry.coordinate) he)
    have hentries : s.entries t.format = .ok (s.nestedEntries p.format levels) := by
      rw [h.format]
      exact Storage.entries_of_checkedLevels hlevels
    exact ⟨_, h.of_pack s, rfl, rfl, ⟨s, rfl, Packer.isOwned_of_merge hmerge⟩,
      ⟨hentries, hlists.nodup, fun e he => hdimensions ▸ (hmem e he).1, fun e he => hdimensions ▸ (hmem e he).2.1⟩,
      hlists, Packer.length_nestedEntries_of_merge hmerge hcount hlevels⟩

end Tensor

end TensorStorage
