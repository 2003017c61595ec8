import Mathlib.Data.List.DropRight
import TensorStorage.CoordinateBuffer
import TensorStorage.Proofs.Lists
import TensorStorage.Proofs.Outcome
/-!
# CoordinateBuffer — the records of a flat buffer

In a buffer whose arrays fit each other (`CoordinateBuffer.Flat`) appending adds one record behind the others and
changes none of them.  So after any calls a buffer keeps the records pushed since the last clearing that it accepted
(`CoordinateBuffer.keeps_after`).
-/
namespace TensorStorage

namespace CoordinateBuffer

variable {b : CoordinateBuffer} {e : Entry}

/-- **The coordinate array has the numbers of every record**, and no others. -/
def Flat (b : CoordinateBuffer) : Prop := b.coordinates.size = b.length * b.order

theorem flat_new (order : Nat) (dtype : DataType) : (new order dtype).Flat := by
  simp [Flat, new, length]

theorem flat_clear (b : CoordinateBuffer) : b.clear.Flat := by
  simp [Flat, clear, length]

theorem records_clear (b : CoordinateBuffer) : b.clear.records = [] := rfl

theorem check_eq_ok : b.check e = .ok () ↔ e.coordinate.length = b.order ∧ e.value.dtype = b.dtype := by
  simp only [check, guard_eq_ok, ne_eq, Decidable.not_not, and_true]

theorem check_eq_error {cause : StorageError} : b.check e = .error cause ↔
    e.coordinate.length ≠ b.order ∧ cause = .dimensionMismatch b.order e.coordinate.length ∨
      e.coordinate.length = b.order ∧ e.value.dtype ≠ b.dtype ∧ cause = .typeMismatch b.dtype e.value.dtype := by
  simp only [check, guard_eq_error, ne_eq, Decidable.not_not, reduceCtorEq, and_false, or_false]

theorem push_eq_error {cause : StorageError} : b.push e = .error cause ↔ b.check e = .error cause :=
  bind_pure_eq_error

theorem push_eq_ok {b' : CoordinateBuffer} : b.push e = .ok b' ↔
    (e.coordinate.length = b.order ∧ e.value.dtype = b.dtype) ∧ b' = b.append e := by
  simp only [push, bind_eq_ok, ← check_eq_ok]
  constructor
  · rintro ⟨⟨⟩, hcheck, h⟩
    cases h
    exact ⟨hcheck, rfl⟩
  · rintro ⟨hcheck, rfl⟩
    exact ⟨(), hcheck, rfl⟩

@[simp] theorem order_append (b : CoordinateBuffer) (e : Entry) : (b.append e).order = b.order := rfl

@[simp] theorem coordinates_append (b : CoordinateBuffer) (e : Entry) :
    (b.append e).coordinates = b.coordinates ++ e.coordinate.toArray := rfl

@[simp] theorem values_append (b : CoordinateBuffer) (e : Entry) : (b.append e).values = b.values.push e.value := rfl

@[simp] theorem length_append (b : CoordinateBuffer) (e : Entry) : (b.append e).length = b.length + 1 := by
  simp [length]

theorem flat_append (h : b.Flat) (he : e.coordinate.length = b.order) : (b.append e).Flat := by
  simp only [Flat] at h
  simp [Flat, h, he, Nat.succ_mul]

theorem record?_append_of_lt (h : b.Flat) {r : Nat} (hr : r < b.length) : (b.append e).record? r = b.record? r := by
  have hle : (r + 1) * b.order ≤ b.coordinates.size := by
    rw [h]
    exact Nat.mul_le_mul_right _ hr
  have hcoordinate : (b.append e).coordinate? r = b.coordinate? r := by
    simp only [coordinate?, coordinates_append, order_append, Array.size_append]
    rw [if_pos hle, if_pos (Nat.le_trans hle (Nat.le_add_right _ _)), Array.extract_append,
      Nat.sub_eq_zero_of_le hle]
    simp
  simp only [record?, hcoordinate, values_append, Array.getElem?_push_lt (show r < b.values.size from hr),
    Array.getElem?_eq_getElem (show r < b.values.size from hr)]

theorem record?_append_length (h : b.Flat) (he : e.coordinate.length = b.order) :
    (b.append e).record? b.length = some e := by
  have hcoordinate : (b.append e).coordinate? b.length = some e.coordinate := by
    simp only [Flat] at h
    simp only [coordinate?, coordinates_append, order_append, Array.size_append, h, List.size_toArray, he,
      Nat.succ_mul, Nat.le_refl, if_true]
    have hsize : b.coordinates.toList.length ≤ b.length * b.order := Nat.le_of_eq (Array.length_toList.trans h)
    have hnone := List.drop_eq_nil_of_le hsize
    simp [Array.extract_append, h, hnone, he ▸ List.take_length]
  have hvalue : (b.append e).values[b.length]? = some e.value := by simp [length]
  unfold record?
  rw [hcoordinate, hvalue]
  rfl

/-- **Appending adds a record behind the others.** -/
theorem records_append (h : b.Flat) (he : e.coordinate.length = b.order) :
    (b.append e).records = b.records ++ [e] := by
  rw [records, length_append, List.range_succ, List.filterMap_append]
  congr 1
  · refine filterMap_congr_left fun r hr => ?_
    exact record?_append_of_lt h (List.mem_range.1 hr)
  · rw [List.filterMap_cons_some (record?_append_length h he)]
    rfl

/-- Every place of a flat buffer holds a record. -/
theorem isSome_record? (h : b.Flat) {r : Nat} (hr : r < b.length) : (b.record? r).isSome := by
  have hle : (r + 1) * b.order ≤ b.coordinates.size := by
    rw [h]
    exact Nat.mul_le_mul_right _ hr
  unfold record? coordinate?
  rw [if_pos hle, Array.getElem?_eq_getElem (show r < b.values.size from hr)]
  rfl

/-- The list of the records has them at their places. -/
theorem getElem?_records (h : b.Flat) {r : Nat} (hr : r < b.length) : b.records[r]? = b.record? r := by
  have hsome := congrArg (·[r]?) (map_some_filterMap fun r hr => isSome_record? h (List.mem_range.1 hr))
  simp only [List.getElem?_map, List.getElem?_range hr, Option.map_some, Option.map_eq_some_iff] at hsome
  obtain ⟨e, he, hat⟩ := hsome
  exact he.trans hat

theorem record?_eq_some {r : Nat} : b.record? r = some e ↔
    b.coordinate? r = some e.coordinate ∧ b.values[r]? = some e.value := by
  simp only [record?, Option.bind_eq_bind, Option.bind_eq_some_iff, Option.pure_def, Option.some.injEq]
  constructor
  · rintro ⟨coordinate, hcoordinate, value, hvalue, rfl⟩
    exact ⟨hcoordinate, hvalue⟩
  · rintro ⟨hcoordinate, hvalue⟩
    exact ⟨_, hcoordinate, _, hvalue, rfl⟩

theorem length_records (h : b.Flat) : b.records.length = b.length := by
  have hsome := congrArg List.length (map_some_filterMap fun r hr => isSome_record? h (List.mem_range.1 hr))
  rwa [List.length_map, List.length_map, List.length_range] at hsome

theorem isEmpty_iff (h : b.Flat) : b.isEmpty = true ↔ b.records = [] := by
  rw [← List.length_eq_zero_iff, length_records h]
  exact beq_iff_eq

/-- More room is all that a reservation changes. -/
theorem reserve?_eq_some {b' : CoordinateBuffer} {n : Nat} (h : b.reserve? n = some b') :
    ∃ room, b' = { b with room } := by
  unfold reserve? at h
  split at h
  · cases h
    exact ⟨_, rfl⟩
  · cases h

/-! ## Runs of calls -/

/-- What a caller asks of a buffer. -/
inductive Call where
  | push (e : Entry)
  | reserve (records : Nat)
  | clear
deriving DecidableEq

def perform (b : CoordinateBuffer) : Call → Outcome CoordinateBuffer
  | .push e => b.push e
  | .reserve records => b.reserve? records
  | .clear => .ok b.clear

theorem perform_push (b : CoordinateBuffer) (e : Entry) : b.perform (.push e) = Outcome.ofChecked (b.push e) := rfl

/-- The answer to a call, and the buffer after it. -/
def serve (b : CoordinateBuffer) (c : Call) : Outcome Unit × CoordinateBuffer :=
  match b.perform c with
  | .ok b' => (.ok (), b')
  | .error e => (.error e, b)

def after (b : CoordinateBuffer) (calls : List Call) : CoordinateBuffer := calls.foldl (fun b c => (b.serve c).2) b

/-- The record that a call brings to a buffer of this order and kind. -/
def Call.brings? (order : Nat) (dtype : DataType) : Call → Option Entry
  | .push e => if e.coordinate.length = order ∧ e.value.dtype = dtype then some e else none
  | .reserve _ | .clear => none

/-- The records that calls brought since the last clearing. -/
def broughtBy (order : Nat) (dtype : DataType) (calls : List Call) : List Entry :=
  (calls.rtakeWhile (· ≠ .clear)).filterMap (Call.brings? order dtype)

theorem broughtBy_clear (order : Nat) (dtype : DataType) (calls : List Call) :
    broughtBy order dtype (calls ++ [.clear]) = [] := by
  rw [broughtBy, List.rtakeWhile_concat_neg _ _ _ (by simp)]
  rfl

theorem broughtBy_concat {order : Nat} {dtype : DataType} {c : Call} (calls : List Call) (hc : c ≠ .clear) :
    broughtBy order dtype (calls ++ [c]) = broughtBy order dtype calls ++ (c.brings? order dtype).toList := by
  rw [broughtBy, List.rtakeWhile_concat_pos _ _ _ (by simpa using hc), List.filterMap_append, broughtBy]
  cases h : c.brings? order dtype <;> simp [h]

/-- **A buffer of this order and kind that keeps these records.** -/
structure Keeps (b : CoordinateBuffer) (order : Nat) (dtype : DataType) (records : List Entry) : Prop where
  order_eq : b.order = order
  dtype_eq : b.dtype = dtype
  flat : b.Flat
  records_eq : b.records = records

variable {order : Nat} {dtype : DataType} {records : List Entry} {calls : List Call}

theorem keeps_new (order : Nat) (dtype : DataType) : (new order dtype).Keeps order dtype [] :=
  ⟨rfl, rfl, flat_new order dtype, rfl⟩

theorem serve_of_error {c : Call} {e : Failure} (h : b.perform c = .error e) : b.serve c = (.error e, b) := by
  unfold serve
  rw [h]

theorem serve_of_ok {c : Call} {b' : CoordinateBuffer} (h : b.perform c = .ok b') : b.serve c = (.ok (), b') := by
  unfold serve
  rw [h]

/-- **A call brings its record**, and a clearing drops those that were brought before. -/
theorem Keeps.serve (h : b.Keeps order dtype (broughtBy order dtype calls)) (c : Call) :
    (b.serve c).2.Keeps order dtype (broughtBy order dtype (calls ++ [c])) := by
  obtain ⟨rfl, rfl, hflat, hrecords⟩ := h
  cases c with
  | push e =>
    rw [broughtBy_concat calls (by simp), ← hrecords]
    by_cases hfits : e.coordinate.length = b.order ∧ e.value.dtype = b.dtype
    · have hpush : b.perform (.push e) = .ok (b.append e) := Outcome.ofChecked_eq_ok.2 (push_eq_ok.2 ⟨hfits, rfl⟩)
      rw [serve_of_ok hpush, Call.brings?, if_pos hfits]
      exact ⟨rfl, rfl, flat_append hflat hfits.1, records_append hflat hfits.1⟩
    · rw [Call.brings?, if_neg hfits, Option.toList_none, List.append_nil]
      cases hpush : b.perform (.push e) with
      | error cause =>
        rw [serve_of_error hpush]
        exact ⟨rfl, rfl, hflat, rfl⟩
      | ok b' => exact absurd (push_eq_ok.1 (Outcome.ofChecked_eq_ok.1 hpush)).1 hfits
  | reserve n =>
    have hnone : (Call.reserve n).brings? b.order b.dtype = none := rfl
    rw [broughtBy_concat calls (by simp), ← hrecords, hnone, Option.toList_none, List.append_nil]
    cases hreserve : b.perform (.reserve n) with
    | error e =>
      rw [serve_of_error hreserve]
      exact ⟨rfl, rfl, hflat, rfl⟩
    | ok b' =>
      obtain ⟨room, rfl⟩ := reserve?_eq_some (Outcome.ofOption_eq_ok.1 hreserve)
      rw [serve_of_ok hreserve]
      exact ⟨rfl, rfl, hflat, rfl⟩
  | clear =>
    rw [broughtBy_clear]
    exact ⟨rfl, rfl, flat_clear b, records_clear b⟩

/-- **After any calls a buffer keeps what they brought.** -/
theorem Keeps.after : ∀ (more : List Call) {b : CoordinateBuffer} {calls : List Call},
    b.Keeps order dtype (broughtBy order dtype calls) →
      (b.after more).Keeps order dtype (broughtBy order dtype (calls ++ more))
  | [], b, calls, h => by rwa [List.append_nil]
  | c :: more, b, calls, h => by
    have ih := Keeps.after more (h.serve c)
    rwa [List.append_assoc] at ih

theorem serve_fst_eq_error {c : Call} {e : Failure} : (b.serve c).1 = .error e ↔ b.perform c = .error e := by
  cases hc : b.perform c with
  | error e' => rw [serve_of_error hc, Except.error.injEq, Except.error.injEq]
  | ok b' =>
    rw [serve_of_ok hc]
    exact iff_of_false nofun nofun

/-- A call that fails leaves the buffer as it was. -/
theorem serve_snd_of_error {c : Call} {e : Failure} (h : (b.serve c).1 = .error e) : (b.serve c).2 = b := by
  rw [serve_of_error (serve_fst_eq_error.1 h)]

/-- A push is refused for its number of coordinates, or else for its kind. -/
theorem serve_push_eq_error {failure : Failure} : (b.serve (.push e)).1 = .error failure ↔
    e.coordinate.length ≠ b.order ∧ failure = .refused (.dimensionMismatch b.order e.coordinate.length) ∨
      e.coordinate.length = b.order ∧ e.value.dtype ≠ b.dtype ∧
        failure = .refused (.typeMismatch b.dtype e.value.dtype) := by
  simp only [serve_fst_eq_error, perform_push, Outcome.ofChecked_eq_error, push_eq_error, check_eq_error]
  constructor
  · rintro ⟨cause, ⟨hlength, rfl⟩ | ⟨hlength, hdtype, rfl⟩, rfl⟩
    · exact .inl ⟨hlength, rfl⟩
    · exact .inr ⟨hlength, hdtype, rfl⟩
  · rintro (⟨hlength, rfl⟩ | ⟨hlength, hdtype, rfl⟩)
    · exact ⟨_, .inl ⟨hlength, rfl⟩, rfl⟩
    · exact ⟨_, .inr ⟨hlength, hdtype, rfl⟩, rfl⟩

theorem serve_push_eq_ok : (b.serve (.push e)).1 = .ok () ↔
    e.coordinate.length = b.order ∧ e.value.dtype = b.dtype := by
  rw [← check_eq_ok]
  cases hcheck : b.check e with
  | ok u =>
    have hpush : b.perform (.push e) = .ok (b.append e) :=
      Outcome.ofChecked_eq_ok.2 (push_eq_ok.2 ⟨check_eq_ok.1 hcheck, rfl⟩)
    rw [serve_of_ok hpush]
    exact iff_of_true rfl rfl
  | error cause =>
    have hpush : b.perform (.push e) = .error (.refused cause) :=
      Outcome.ofChecked_eq_error.2 ⟨cause, push_eq_error.2 hcheck, rfl⟩
    rw [serve_of_error hpush]
    exact iff_of_false nofun nofun

/-- **A flat buffer is a list of records.**  After any calls the records of a buffer are those that were pushed since the
last clearing and accepted, in their order; record `r` is the `r`-th of them, and the coordinate array has the numbers of
all of them and no others.  A push is accepted if its record has as many numbers as the order and is of the buffer's
kind; otherwise it is refused, for the number of them or else for the kind, and changes nothing. -/
theorem keeps_after (order : Nat) (dtype : DataType) (calls : List Call) :
    let b := (new order dtype).after calls
    let brought := broughtBy order dtype calls
    b.records = brought ∧ b.length = brought.length ∧ b.coordinates.size = order * b.length ∧
    (∀ r < b.length, ∃ e, brought[r]? = some e ∧ b.coordinate? r = some e.coordinate ∧ b.values[r]? = some e.value) ∧
    ∀ e, ((b.serve (.push e)).1 = .ok () ↔ e.coordinate.length = order ∧ e.value.dtype = dtype) ∧
      ∀ failure, (b.serve (.push e)).1 = .error failure → (b.serve (.push e)).2 = b ∧
        (e.coordinate.length ≠ order ∧ failure = .refused (.dimensionMismatch order e.coordinate.length) ∨
          e.coordinate.length = order ∧ e.value.dtype ≠ dtype ∧
            failure = .refused (.typeMismatch dtype e.value.dtype)) := by
  intro b brought
  have hnew : (new order dtype).Keeps order dtype (broughtBy order dtype []) := keeps_new order dtype
  obtain ⟨horder, hdtype, hflat, hrecords⟩ : b.Keeps order dtype brought := hnew.after calls
  refine ⟨hrecords, ?_, ?_, fun r hr => ?_, fun e => ⟨?_, fun failure h => ⟨serve_snd_of_error h, ?_⟩⟩⟩
  · rw [← hrecords, length_records hflat]
  · rw [hflat, horder, Nat.mul_comm]
  · obtain ⟨e, he⟩ := Option.isSome_iff_exists.1 (isSome_record? hflat hr)
    refine ⟨e, ?_, record?_eq_some.1 he⟩
    rw [← hrecords, getElem?_records hflat hr, he]
  · rw [serve_push_eq_ok, horder, hdtype]
  · rwa [serve_push_eq_error, horder, hdtype] at h

/-- Without coordinates every record has its own place too. -/
example : ((new 0 .int32).after [.push ⟨[], ⟨.int32, (1 : Int32)⟩⟩, .clear, .push ⟨[], ⟨.int32, (4 : Int32)⟩⟩,
    .push ⟨[7], ⟨.int32, (2 : Int32)⟩⟩, .push ⟨[], ⟨.int32, (5 : Int32)⟩⟩]).records =
      [⟨[], ⟨.int32, (4 : Int32)⟩⟩, ⟨[], ⟨.int32, (5 : Int32)⟩⟩] := by decide

end CoordinateBuffer

end TensorStorage
