import Mathlib
import TensorStorage.Proofs.Pack.Fill
import TensorStorage.Proofs.Walk.Nesting
/-!
# Segments — position arrays made of counts

The position array of some counts lists their running totals, as long as these fit the entries
(`entryAt_positionArray`), and passes the check of a walk (`checkSegments_positionArray`).  Lists laid end to end are
found again by the totals of their lengths (`zipIdx_flatten`).
-/
namespace TensorStorage

theorem sum_take_le : ∀ (counts : List Nat) {i j : Nat}, i ≤ j → (counts.take i).sum ≤ (counts.take j).sum
  | [], _, _, _ => by simp
  | _ :: _, 0, _, _ => by simp
  | n :: counts, i + 1, j + 1, h => by
    rw [List.take_succ_cons, List.take_succ_cons, List.sum_cons, List.sum_cons]
    exact Nat.add_le_add_left (sum_take_le counts (Nat.le_of_succ_le_succ h)) n

theorem sum_take_le_sum (counts : List Nat) (i : Nat) : (counts.take i).sum ≤ counts.sum := by
  have h := sum_take_le counts (Nat.le_max_left i counts.length)
  rwa [List.take_of_length_le (Nat.le_max_right i counts.length)] at h

theorem foldl_totals : ∀ (counts : List Nat) (totals : Array Int32) (before : Nat),
    (counts.foldl (fun (totals, before) n => (totals.push (Int32.ofNat (before + n)), before + n)) (totals, before)).1 =
      totals ++ ((List.range counts.length).map fun i => Int32.ofNat (before + (counts.take (i + 1)).sum)).toArray
  | [], totals, _ => by simp
  | n :: counts, totals, before => by
    rw [List.foldl_cons, foldl_totals counts, List.length_cons, List.range_succ_eq_map, List.map_cons, List.map_map]
    simp [Function.comp_def, Nat.add_assoc]

/-- **The entries of a position array**: the total of the counts before each place. -/
theorem positionArray_eq (counts : List Nat) : Layout.positionArray counts.toArray =
    ((List.range (counts.length + 1)).map fun i => Int32.ofNat (counts.take i).sum).toArray := by
  rw [Layout.positionArray, List.foldl_toArray, foldl_totals, List.range_succ_eq_map, List.map_cons, List.map_map]
  simp [Function.comp_def]

theorem size_positionArray (counts : List Nat) : (Layout.positionArray counts.toArray).size = counts.length + 1 := by
  rw [positionArray_eq]
  simp

theorem toInt_ofNat {n : Nat} (h : n ≤ maxIndex) : (Int32.ofNat n).toInt = n :=
  Int32.toInt_ofNat_of_lt (by simp only [maxIndex] at h; omega)

theorem entryAt_positionArray {counts : List Nat} (h : counts.sum ≤ maxIndex) {i : Nat} (hi : i ≤ counts.length) :
    Level.entryAt (Layout.positionArray counts.toArray) i = (counts.take i).sum := by
  have hle := Nat.le_trans (sum_take_le_sum counts i) h
  rw [Level.entryAt_eq (by rw [size_positionArray]; omega)]
  simp only [positionArray_eq, List.getElem_toArray, List.getElem_map, List.getElem_range, toInt_ofNat hle,
    Int.toNat_natCast]

/-- The children of a position below a position array: as many as were counted, after those that were counted before. -/
theorem children_positionArray {counts : List Nat} (h : counts.sum ≤ maxIndex) (coordinates : Array Int32) {i n : Nat}
    (hn : counts[i]? = some n) : (Level.compressed (Layout.positionArray counts.toArray) coordinates).children i =
      (List.range' (counts.take i).sum n).map fun position => (position, Level.entryAt coordinates position) := by
  obtain ⟨hlt, rfl⟩ := List.getElem?_eq_some_iff.1 hn
  have hnext : (counts.take (i + 1)).sum = (counts.take i).sum + counts[i] := by
    rw [List.take_succ_eq_append_getElem hlt, List.sum_append, List.sum_singleton]
  rw [Level.children, entryAt_positionArray h (Nat.le_of_lt hlt), entryAt_positionArray h hlt, hnext,
    Nat.add_sub_cancel_left]

theorem firstDecrease?_eq_none : ∀ (place : Nat) {entries : List Int}, entries.Pairwise (· ≤ ·) →
    firstDecrease? place entries = none
  | _, [], _ => rfl
  | _, [_], _ => rfl
  | place, x :: y :: rest, h => by
    have hxy : x ≤ y := List.rel_of_pairwise_cons h List.mem_cons_self
    rw [firstDecrease?, if_neg (by omega)]
    exact firstDecrease?_eq_none (place + 1) h.of_cons

/-- **A position array of counts that fit passes the check.** -/
theorem checkSegments_positionArray {counts : List Nat} (h : counts.sum ≤ maxIndex) :
    checkSegments (Layout.positionArray counts.toArray) counts.sum = .ok () := by
  have hentry : ∀ i, (Int32.ofNat (counts.take i).sum).toInt = (counts.take i).sum := fun i =>
    toInt_ofNat (Nat.le_trans (sum_take_le_sum counts i) h)
  have hfirst : (Layout.positionArray counts.toArray)[0]? = some (Int32.ofNat 0) := by simp [positionArray_eq]
  have hlast : (Layout.positionArray counts.toArray).back? = some (Int32.ofNat counts.sum) := by
    simp [positionArray_eq, List.range_succ]
  have hsorted : firstDecrease? 0 ((Layout.positionArray counts.toArray).toList.map (·.toInt)) = none := by
    refine firstDecrease?_eq_none 0 ?_
    rw [positionArray_eq, List.map_map, List.pairwise_map]
    refine List.pairwise_lt_range.imp fun {i j} hij => ?_
    simp only [Function.comp_apply, hentry]
    exact Int.ofNat_le.2 (sum_take_le counts (Nat.le_of_lt hij))
  simp only [checkSegments, hfirst, hlast, hsorted]
  rw [if_neg (by decide), if_neg (by rw [toInt_ofNat h]; simp)]

theorem le_of_checkSegments {positions : Array Int32} {n : Nat} (h : checkSegments positions n = .ok ()) :
    n ≤ maxIndex := by
  obtain ⟨hpos, -, hlast, -⟩ := Level.checkSegments_eq_ok h
  have := Int32.toInt_lt positions[positions.size - 1]
  simp only [maxIndex]
  omega

theorem countBelow_compressed (number : Nat) (counts : List Nat) (coordinates : Array Int32)
    (hlen : counts.length ≤ maxIndex) (hsum : counts.sum = coordinates.size) (hsize : coordinates.size ≤ maxIndex)
    (hnonneg : ∀ c ∈ coordinates, 0 ≤ c.toInt) :
    (Level.compressed (Layout.positionArray counts.toArray) coordinates).countBelow number counts.length =
      .ok coordinates.size := by
  have hwanted : (counts.length + 1) % wordLimit = counts.length + 1 := by
    simp only [maxIndex] at hlen
    simp only [wordLimit]
    omega
  have hsegments := checkSegments_positionArray (hsum ▸ hsize)
  have hnone : firstNegative? coordinates = none := Array.find?_eq_none.2 fun c hc => by
    have := hnonneg c hc
    simp only [decide_eq_true_eq]
    omega
  rw [hsum] at hsegments
  simp only [Level.countBelow, size_positionArray, hwanted, ne_eq, not_true_eq_false, if_false, hsegments, hnone,
    ok_bind, pure_eq_ok]

/-! ## Lists laid end to end -/

theorem zipIdx_flatten {α : Type} : ∀ (lists : List (List α)) (n : Nat), lists.flatten.zipIdx n =
    lists.zipIdx.flatMap fun l => l.1.zipIdx (n + ((lists.map List.length).take l.2).sum)
  | [], _ => rfl
  | l :: lists, n => by
    rw [List.flatten_cons, List.zipIdx_append, zipIdx_flatten lists, List.zipIdx_cons', List.flatMap_cons,
      List.flatMap_map]
    simp [Nat.add_assoc]

theorem getElem?_flatten_total {α : Type} : ∀ (lists : List (List α)) {i j : Nat} {l : List α} {x : α},
    lists[i]? = some l → l[j]? = some x → lists.flatten[((lists.map List.length).take i).sum + j]? = some x
  | [], _, _, _, _, hl, _ => by cases hl
  | l :: lists, 0, j, _, x, hl, hx => by
    cases hl
    rw [List.flatten_cons, List.take_zero, List.sum_nil, Nat.zero_add, List.getElem?_append_left, hx]
    exact (List.getElem?_eq_some_iff.1 hx).1
  | l :: lists, i + 1, j, _, x, hl, hx => by
    rw [List.flatten_cons, List.map_cons, List.take_succ_cons, List.sum_cons, Nat.add_assoc,
      List.getElem?_append_right (Nat.le_add_right _ _), Nat.add_sub_cancel_left]
    exact getElem?_flatten_total lists hl hx

end TensorStorage
