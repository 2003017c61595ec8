import TensorStorage.Proofs.Pack.RoundTrip
import TensorStorage.Proofs.Tensor.Pack
/-!
# Content — a tensor as waiting records and a map

A `Content` keeps no arrays: it is the list of the records that wait and, after the first pack, the value at each
coordinate.  `Content.after` says what a request makes of it.  Here are the two requests that reach the stored entries:
packing and zeroing list the new map as they listed the old one (`Packer.Lists.listing`, `Packer.Listing.zeroed`).
-/
namespace TensorStorage

/-- The records that wait, and the values that are stored, if anything was. -/
structure Content where
  pending : List Entry
  values? : Option (Coordinate → Option Value)

def Entry.zeroed (e : Entry) : Entry := { e with value := .zero e.value.dtype }

namespace Content

def empty : Content := ⟨[], none⟩

def value? (c : Content) : Coordinate → Option Value := c.values?.getD fun _ => none

/-- **The map after packing.**  Beside the coordinates that it had, it has those in bounds that agree with a waiting
record up to the last compressed level. -/
def packedValues (p : Packer) (old : Coordinate → Option Value) (pending : List Entry) (x : Coordinate) :
    Option Value :=
  if (old x).isSome ∨ x.length = p.dimensions.length ∧ x.inBounds p.dimensions = true ∧ p.Agrees pending x then
    p.policy.packed? p.dtype (old x) (valuesAt pending x)
  else none

def packed (p : Packer) (c : Content) : Content :=
  if c.pending = [] ∧ c.values?.isSome then c else ⟨[], some (packedValues p c.value? c.pending)⟩

def zeroed (c : Content) : Content :=
  { c with values? := c.values?.map fun values x => (values x).map fun v => .zero v.dtype }

/-- **The content after a request.**  Only of a pack it has to be told whether the request was granted. -/
def after (p : Packer) (c : Content) : Request × Bool → Content
  | (.insert e, _) => { c with pending := if p.Takes e then c.pending ++ [e] else c.pending }
  | (.reserve _, _) | (.rename _, _) => c
  | (.zero, _) => c.zeroed
  | (.pack, granted) => if granted then c.packed p else c

def afterRun (p : Packer) (c : Content) (served : List (Request × Bool)) : Content := served.foldl (after p) c

end Content

namespace Packer

variable {p : Packer} {es stored records : List Entry} {values : Coordinate → Option Value} {c : Coordinate}

/-- **Entries in level order that list a map**, with every coordinate that agrees with one of theirs. -/
structure Listing (p : Packer) (es : List Entry) (values : Coordinate → Option Value) : Prop where
  inOrder : (es.map fun e => p.format.keyOf e.coordinate).Pairwise Coordinate.Before
  nodup : (es.map (·.coordinate)).Nodup
  value_iff : ∀ c v, values c = some v ↔ ⟨c, v⟩ ∈ es
  inBounds : ∀ e ∈ es, e.coordinate.length = p.dimensions.length ∧ e.coordinate.inBounds p.dimensions = true
  closed : ∀ e ∈ es, ∀ c : Coordinate, c.length = p.dimensions.length → c.inBounds p.dimensions = true →
    (p.format.keyOf e.coordinate).take p.pinned = (p.format.keyOf c).take p.pinned → (values c).isSome

theorem listing_nil (p : Packer) : p.Listing [] fun _ => none where
  inOrder := .nil
  nodup := .nil
  value_iff _ _ := by simp
  inBounds _ he := by cases he
  closed _ he := by cases he

namespace Listing

theorem isSome_iff (h : p.Listing es values) : (values c).isSome ↔ c ∈ es.map (·.coordinate) := by
  rw [Option.isSome_iff_exists, List.mem_map]
  constructor
  · rintro ⟨v, hv⟩
    exact ⟨⟨c, v⟩, (h.value_iff c v).1 hv, rfl⟩
  · rintro ⟨e, he, rfl⟩
    exact ⟨e.value, (h.value_iff _ _).2 he⟩

theorem head?_valuesAt (h : p.Listing es values) (c : Coordinate) : (valuesAt es c).head? = values c := by
  cases hc : values c with
  | some v =>
    rw [valuesAt_of_nodup h.nodup ((h.value_iff c v).1 hc)]
    rfl
  | none =>
    have hnil : valuesAt es c = [] := valuesAt_eq_nil_iff.2 fun e he hec => by
      have hsome := (h.value_iff e.coordinate e.value).2 he
      rw [hec, hc] at hsome
      cases hsome
    rw [hnil]
    rfl

/-- **The coordinates that packing over a listing takes in**: those of the listing, and those that agree with a
record. -/
theorem agrees_append_iff (h : p.Listing stored values) :
    c.length = p.dimensions.length ∧ c.inBounds p.dimensions = true ∧ p.Agrees (stored ++ records) c ↔
      (values c).isSome ∨ c.length = p.dimensions.length ∧ c.inBounds p.dimensions = true ∧ p.Agrees records c := by
  constructor
  · rintro ⟨hlen, hin, h0 | ⟨e, he, hagree⟩⟩
    · exact .inr ⟨hlen, hin, .inl h0⟩
    · rcases List.mem_append.1 he with he | he
      · exact .inl (h.closed e he c hlen hin hagree)
      · exact .inr ⟨hlen, hin, .inr ⟨e, he, hagree⟩⟩
  · rintro (hsome | ⟨hlen, hin, hagrees⟩)
    · obtain ⟨e, he, rfl⟩ := List.mem_map.1 (h.isSome_iff.1 hsome)
      obtain ⟨hlen, hin⟩ := h.inBounds e he
      exact ⟨hlen, hin, .inr ⟨e, List.mem_append_left _ he, rfl⟩⟩
    · refine ⟨hlen, hin, hagrees.imp_right ?_⟩
      rintro ⟨e, he, hagree⟩
      exact ⟨e, List.mem_append_right _ he, hagree⟩

theorem zeroed (h : p.Listing es values) :
    p.Listing (es.map Entry.zeroed) fun x => (values x).map fun v => .zero v.dtype where
  inOrder := by
    rw [List.map_map]
    exact h.inOrder
  nodup := by
    rw [List.map_map]
    exact h.nodup
  value_iff c v := by
    rw [Option.map_eq_some_iff, List.mem_map]
    constructor
    · rintro ⟨w, hw, rfl⟩
      exact ⟨⟨c, w⟩, (h.value_iff c w).1 hw, rfl⟩
    · rintro ⟨e, he, hz⟩
      obtain ⟨rfl, rfl⟩ := Entry.mk.inj hz
      exact ⟨e.value, (h.value_iff _ _).2 he, rfl⟩
  inBounds e he := by
    obtain ⟨g, hg, rfl⟩ := List.mem_map.1 he
    exact h.inBounds g hg
  closed e he c hlen hin hagree := by
    obtain ⟨g, hg, rfl⟩ := List.mem_map.1 he
    rw [Option.isSome_map]
    exact h.closed g hg c hlen hin hagree

end Listing

/-- **What packing lists is the map after packing.** -/
theorem Lists.listing (h : p.Lists stored records es) (hstored : p.Listing stored values) :
    p.Listing es (Content.packedValues p values records) := by
  have hmem : ∀ c, c ∈ es.map (·.coordinate) ↔ (values c).isSome ∨
      c.length = p.dimensions.length ∧ c.inBounds p.dimensions = true ∧ p.Agrees records c := fun c => by
    rw [h.mem_iff, hstored.agrees_append_iff]
  have hvalue : ∀ e ∈ es, Content.packedValues p values records e.coordinate = some e.value := fun e he => by
    unfold Content.packedValues
    rw [if_pos ((hmem _).1 (List.mem_map_of_mem he)), ← hstored.head?_valuesAt]
    exact h.value e he
  have hiff : ∀ c v, Content.packedValues p values records c = some v ↔ ⟨c, v⟩ ∈ es := fun c v => by
    refine ⟨fun hc => ?_, fun he => hvalue ⟨c, v⟩ he⟩
    by_cases hin : c ∈ es.map (·.coordinate)
    · obtain ⟨e, he, rfl⟩ := List.mem_map.1 hin
      rw [hvalue e he] at hc
      cases hc
      exact he
    · unfold Content.packedValues at hc
      rw [if_neg fun hdom => hin ((hmem c).2 hdom)] at hc
      cases hc
  refine ⟨h.inOrder, h.nodup, hiff, fun e he => ?_, fun e he c hlen hin hagree => ?_⟩
  · obtain ⟨hlen, hin, -⟩ := (h.mem_iff e.coordinate).1 (List.mem_map_of_mem he)
    exact ⟨hlen, hin⟩
  · obtain ⟨-, -, hagrees⟩ := (h.mem_iff e.coordinate).1 (List.mem_map_of_mem he)
    have hc : c ∈ es.map (·.coordinate) := (h.mem_iff c).2 ⟨hlen, hin, by
      refine hagrees.imp_right ?_
      rintro ⟨e', he', hagree'⟩
      exact ⟨e', he', hagree'.trans hagree⟩⟩
    obtain ⟨g, hg, rfl⟩ := List.mem_map.1 hc
    rw [hvalue g hg]
    rfl

end Packer

/-! ## Zeroing a storage -/

namespace Storage

variable {s : Storage} {f : Format} {levels : List Level}

theorem checkedLevels_zero (s : Storage) (f : Format) : s.zero.checkedLevels f = s.checkedLevels f := by
  unfold checkedLevels checkNested zero
  rw [ValueArray.size_fillZero]
  rfl

theorem valueAt?_zero (s : Storage) (position : Nat) :
    s.zero.valueAt? position = (s.valueAt? position).map fun v => .zero v.dtype := by
  unfold valueAt? zero ValueArray.get? ValueArray.fillZero
  by_cases hlt : position < s.values.size
  · have hlt' : position < s.values.cells.data.size := hlt
    simp [hlt, Array.getElem?_eq_getElem hlt', Value.zero]
  · have hle : s.values.cells.data.size ≤ position := Nat.le_of_not_lt hlt
    simp [hlt, Array.getElem?_eq_none hle]

theorem nestedEntries_zero (s : Storage) (f : Format) (levels : List Level) :
    s.zero.nestedEntries f levels = (s.nestedEntries f levels).map Entry.zeroed := by
  unfold nestedEntries
  rw [List.map_filterMap]
  refine filterMap_congr_left fun leaf _ => ?_
  rw [valueAt?_zero, Option.map_map, Option.map_map]
  rfl

end Storage

end TensorStorage
