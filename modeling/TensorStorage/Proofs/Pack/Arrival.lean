import TensorStorage.Proofs.Pack.Batches
import TensorStorage.Proofs.Pack.Verdict
/-!
# Arrival — the order in which new entries come

Packing depends on the new entries by what the values of each coordinate come to (`Packer.merge_congr`).  So their order
makes no difference beyond that of the entries of one coordinate; it makes none at all where integers are summed, and
none where repetitions are refused (`Packer.merge_perm`).
-/
namespace TensorStorage

/-! ## Values in another order -/

theorem add_comm_of_isIntegral {d : DataType} (h : d.isIntegral = true) (x y : d.Scalar) : d.add x y = d.add y x := by
  cases d with
  | int32 => exact Int32.add_comm x y
  | int64 => exact Int64.add_comm x y
  | _ => cases h

/-- **A sum of integers does not depend on their order.** -/
theorem sumOf_perm {d : DataType} (h : d.isIntegral = true) {values values' : List Value}
    (hperm : values.Perm values') : sumOf d values = sumOf d values' := by
  have hcomm : RightCommutative d.add := ⟨fun x y z => by
    rw [add_assoc_of_isIntegral h, add_assoc_of_isIntegral h, add_comm_of_isIntegral h y z]⟩
  have hscalars : (scalarsOf d values).Perm (scalarsOf d values') := hperm.filterMap _
  rw [sumOf, sumOf, hscalars.foldl_eq]

theorem resolve?_sum_perm {d : DataType} (h : d.isIntegral = true) {values values' : List Value}
    (hd : ∀ v ∈ values, v.dtype = d) (hperm : values.Perm values') :
    DuplicatePolicy.sum.resolve? values = DuplicatePolicy.sum.resolve? values' := by
  have hnil : values = [] ↔ values' = [] := by
    rw [← List.length_eq_zero_iff, ← List.length_eq_zero_iff, hperm.length_eq]
  rw [DuplicatePolicy.resolve?_sum h hd, DuplicatePolicy.resolve?_sum h fun v hv => hd v (hperm.mem_iff.2 hv),
    sumOf_perm h hperm]
  simp only [hnil]

namespace Packer

variable {p : Packer} {stored records records' : List Entry}

theorem valuesAt_perm (hperm : records.Perm records') (c : Coordinate) :
    (valuesAt records c).Perm (valuesAt records' c) := (hperm.filter _).map _

theorem valuesAt_eq_of_perm (hdistinct : (records.map (·.coordinate)).Nodup) (hperm : records.Perm records')
    (c : Coordinate) : valuesAt records c = valuesAt records' c := by
  by_cases hc : ∃ e ∈ records, e.coordinate = c
  · obtain ⟨e, he, rfl⟩ := hc
    rw [valuesAt_of_nodup hdistinct he,
      valuesAt_of_nodup ((hperm.map _).nodup_iff.1 hdistinct) (hperm.mem_iff.1 he)]
  · have hvalues := valuesAt_perm hperm c
    rw [valuesAt_eq_nil_iff.2 fun e he hec => hc ⟨e, he, hec⟩] at hvalues ⊢
    exact hvalues.nil_eq

theorem FirstRepeated.perm {c : Coordinate} (h : p.FirstRepeated records c) (hperm : records.Perm records') :
    p.FirstRepeated records' c := by
  have hcount := fun c => (hperm.map (·.coordinate)).count_eq c
  exact ⟨hcount c ▸ h.repeated, fun c' hc' => h.first c' (hcount c' ▸ hc')⟩

/-- Where repetitions are refused, the order of arrival makes no difference. -/
theorem merge_perm_of_reject (hpolicy : p.policy = .reject) (hadmits : ∀ e ∈ stored ++ records, p.Admits e)
    (hperm : records.Perm records') : p.merge stored records = p.merge stored records' := by
  have hadmits' : ∀ e ∈ stored ++ records', p.Admits e := fun e he => hadmits e ((hperm.append_left stored).mem_iff.2 he)
  by_cases hdistinct : (records.map (·.coordinate)).Nodup
  · have hdistinct' : (records'.map (·.coordinate)).Nodup := (hperm.map _).nodup_iff.1 hdistinct
    refine merge_congr hadmits hadmits' (fun _ => hdistinct) (fun _ => hdistinct') fun c => ?_
    rw [valuesAt_eq_of_perm hdistinct hperm]
  · cases hc : p.check with
    | error e => rw [merge_of_check_eq_error hc, merge_of_check_eq_error hc]
    | ok u =>
      have horder := (check_eq_ok hc).1
      obtain ⟨c, hfirst⟩ := exists_firstRepeated (p := p)
        (fun e he => (hadmits e (List.mem_append_right _ he)).length.trans horder.symm) hdistinct
      have hshape := check_eq_ok_iff.1 hc
      rw [(merge_eq_duplicate_iff hshape hadmits).2 ⟨hpolicy, hfirst⟩,
        (merge_eq_duplicate_iff hshape hadmits').2 ⟨hpolicy, hfirst.perm hperm⟩]

/-- **The order of arrival.**  New entries in another order pack to the same storage, or fail for the same reason, over
the same stored entries or over none: if those of each coordinate stay in their order; and in every order, if integers
are summed or repetitions are refused. -/
theorem merge_perm (hadmits : ∀ e ∈ stored ++ records, p.Admits e) (hperm : records.Perm records') :
    (p.policy = .lastWins ∨ p.policy = .sum →
      (∀ c, records.filter (·.coordinate = c) = records'.filter (·.coordinate = c)) →
      p.merge stored records = p.merge stored records') ∧
    (p.policy = .sum → p.dtype.isIntegral = true → p.merge stored records = p.merge stored records') ∧
    (p.policy = .reject → p.merge stored records = p.merge stored records') := by
  have hadmits' : ∀ e ∈ stored ++ records', p.Admits e := fun e he => hadmits e ((hperm.append_left stored).mem_iff.2 he)
  refine ⟨fun hpolicy hsame => ?_, fun hpolicy hintegral => ?_, fun hpolicy => ?_⟩
  · have hne : p.policy ≠ .reject := by rcases hpolicy with h | h <;> rw [h] <;> decide
    refine merge_congr hadmits hadmits' (fun h => absurd h hne) (fun h => absurd h hne) fun c => ?_
    have hvalues : valuesAt records c = valuesAt records' c := by rw [valuesAt, hsame, valuesAt]
    rw [hvalues]
  · have hne : p.policy ≠ .reject := by rw [hpolicy]; decide
    refine merge_congr hadmits hadmits' (fun h => absurd h hne) (fun h => absurd h hne) fun c => ?_
    have hdtype : ∀ v ∈ valuesAt records c, v.dtype = p.dtype := fun v hv => by
      obtain ⟨e, he, -, rfl⟩ := mem_of_mem_valuesAt hv
      exact (hadmits e (List.mem_append_right _ he)).dtype
    rw [hpolicy, DuplicatePolicy.settle?, DuplicatePolicy.settle?,
      resolve?_sum_perm hintegral hdtype (valuesAt_perm hperm c)]
  · exact merge_perm_of_reject hpolicy hadmits hperm

/-- Rows in use over dense columns, and three records in other orders: with those of each coordinate in their order, or
in reverse. -/
theorem merge_perm_rows :
    let f : Format := ⟨[.compressed, .dense], [0, 1], rfl, by decide⟩
    let one : Entry := ⟨[2, 0], ⟨.int32, (2147483647 : Int32)⟩⟩
    let two : Entry := ⟨[2, 0], ⟨.int32, (2 : Int32)⟩⟩
    let other : Entry := ⟨[0, 1], ⟨.int32, (7 : Int32)⟩⟩
    Packer.pack ⟨[3, 2], f, .int32, .lastWins⟩ [one, two, other] =
        Packer.pack ⟨[3, 2], f, .int32, .lastWins⟩ [other, one, two] ∧
      Packer.pack ⟨[3, 2], f, .int32, .sum⟩ [one, two, other] =
        Packer.pack ⟨[3, 2], f, .int32, .sum⟩ [other, two, one] ∧
      Packer.pack ⟨[3, 2], f, .int32, .reject⟩ [one, two, other] =
        Packer.pack ⟨[3, 2], f, .int32, .reject⟩ [other, two, one] := by
  intro f one two other
  have hadmits : ∀ policy, ∀ e ∈ [] ++ [one, two, other], Packer.Admits ⟨[3, 2], f, .int32, policy⟩ e := fun policy =>
    List.forall_mem_cons.2 ⟨⟨rfl, rfl, rfl⟩, List.forall_mem_cons.2 ⟨⟨rfl, rfl, rfl⟩,
      List.forall_mem_singleton.2 ⟨rfl, rfl, rfl⟩⟩⟩
  have hreverse : [one, two, other].Perm [other, two, one] := by decide
  refine ⟨(merge_perm (hadmits _) (by decide)).1 (.inl rfl) fun c => ?_, (merge_perm (hadmits _) hreverse).2.1 rfl rfl,
    (merge_perm (hadmits _) hreverse).2.2 rfl⟩
  by_cases hc : [2, 0] = c
  · subst hc
    rfl
  · simp [one, two, other, List.filter_cons, hc]

end Packer

end TensorStorage
