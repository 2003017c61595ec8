import TensorStorage.Proofs.CoordinateBuffer
import TensorStorage.Proofs.Tensor.Requests
/-!
# Pack — the waiting records of a tensor

What each request does to the records that wait (`Tensor.Waits`) and to the storage: an insert adds to the records, a
pack that is granted turns them into storage (`Tensor.pack_eq_ok`), and the others leave them alone.
-/
namespace TensorStorage

/-- A record that is let wait: of the tensor's order and kind. -/
def Packer.Takes (p : Packer) (e : Entry) : Prop := e.coordinate.length = p.dimensions.length ∧ e.value.dtype = p.dtype

instance (p : Packer) (e : Entry) : Decidable (p.Takes e) := inferInstanceAs (Decidable (_ ∧ _))

namespace Tensor

variable {p : Packer} {pending : List Entry} {t u : Tensor}

/-- **A tensor that packs in this way, with these records waiting.** -/
structure Waits (t : Tensor) (p : Packer) (pending : List Entry) : Prop where
  packer : t.packer = p
  flat : t.buffer.Flat
  order : t.buffer.order = p.dimensions.length
  dtype : t.buffer.dtype = p.dtype
  records : t.buffer.records = pending

theorem Waits.pending_eq (h : t.Waits p pending) : t.pending = pending.length := by
  rw [← h.records, CoordinateBuffer.length_records h.flat]
  rfl

theorem Waits.isEmpty_iff (h : t.Waits p pending) : t.buffer.isEmpty = true ↔ pending = [] := by
  rw [CoordinateBuffer.isEmpty_iff h.flat, h.records]

theorem Waits.isSettled_iff (h : t.Waits p pending) : t.isSettled = true ↔ pending = [] ∧ t.isPacked = true := by
  unfold isSettled
  rw [Bool.and_eq_true, h.isEmpty_iff]

theorem Waits.format (h : t.Waits p pending) : t.format = p.format := congrArg Packer.format h.packer

theorem waits_of_new {name : String} {dtype : DataType} {dimensions : List Nat} {format : Format} {options : Options}
    (h : new name dtype dimensions format options = .ok t) :
    t.Waits ⟨dimensions, format, dtype, options.policy⟩ [] ∧ t.storage? = none := by
  unfold new at h
  simp only [bind_eq_ok, Outcome.liftM_option, Outcome.ofOption_eq_ok] at h
  obtain ⟨-, -, buffer, hbuffer, h⟩ := h
  cases h
  obtain ⟨room, rfl⟩ := CoordinateBuffer.reserve?_eq_some hbuffer
  exact ⟨⟨rfl, CoordinateBuffer.flat_new dimensions.length dtype, rfl, rfl, rfl⟩, rfl⟩

/-! ## Requests one by one -/

/-- **An insert is granted to a record that the tensor takes**, which waits behind the others then. -/
theorem Waits.serve_insert (h : t.Waits p pending) (e : Entry) : (t.serve (.insert e)).1 = decide (p.Takes e) ∧
    (t.serve (.insert e)).2.Waits p (if p.Takes e then pending ++ [e] else pending) ∧
    (t.serve (.insert e)).2.storage? = t.storage? := by
  by_cases he : p.Takes e
  · have hpush : t.buffer.push e = .ok (t.buffer.append e) :=
      CoordinateBuffer.push_eq_ok.2 ⟨⟨he.1.trans h.order.symm, he.2.trans h.dtype.symm⟩, rfl⟩
    have hserve : t.perform (.insert e) = .ok { t with buffer := t.buffer.append e } := by
      simp only [perform, insert, hpush, ok_bind]
      rfl
    rw [serve_of_ok hserve, if_pos he]
    refine ⟨(decide_eq_true he).symm, ⟨h.packer, ?_, h.order, h.dtype, ?_⟩, rfl⟩
    · exact CoordinateBuffer.flat_append h.flat (he.1.trans h.order.symm)
    · rw [← h.records]
      exact CoordinateBuffer.records_append h.flat (he.1.trans h.order.symm)
  · cases hinsert : t.perform (.insert e) with
    | error e =>
      rw [serve_of_error hinsert, if_neg he]
      exact ⟨(decide_eq_false he).symm, h, rfl⟩
    | ok u =>
      simp only [perform, insert, Outcome.liftM_checked, Outcome.ofChecked_eq_ok, bind_eq_ok] at hinsert
      obtain ⟨b, hpush, -⟩ := hinsert
      obtain ⟨⟨horder, hdtype⟩, -⟩ := CoordinateBuffer.push_eq_ok.1 hpush
      exact absurd ⟨horder.trans h.order, hdtype.trans h.dtype⟩ he

theorem Waits.serve_reserve (h : t.Waits p pending) (n : Nat) : (t.serve (.reserve n)).2.Waits p pending ∧
    (t.serve (.reserve n)).2.storage? = t.storage? := by
  cases hreserve : t.perform (.reserve n) with
  | error e =>
    rw [serve_of_error hreserve]
    exact ⟨h, rfl⟩
  | ok u =>
    rw [serve_of_ok hreserve]
    simp only [perform, Outcome.liftM_option, Outcome.ofOption_eq_ok, reserve?, Option.map_eq_some_iff] at hreserve
    obtain ⟨b, hb, hu⟩ := hreserve
    obtain ⟨room, rfl⟩ := CoordinateBuffer.reserve?_eq_some hb
    rw [← hu]
    exact ⟨⟨h.packer, h.flat, h.order, h.dtype, h.records⟩, rfl⟩

theorem Waits.serve_rename (h : t.Waits p pending) (name : String) : (t.serve (.rename name)).2.Waits p pending ∧
    (t.serve (.rename name)).2.storage? = t.storage? :=
  ⟨⟨h.packer, h.flat, h.order, h.dtype, h.records⟩, rfl⟩

theorem Waits.serve_zero (h : t.Waits p pending) : (t.serve .zero).2.Waits p pending ∧
    (t.serve .zero).2.storage? = t.storage?.map (·.zero) :=
  ⟨⟨h.packer, h.flat, h.order, h.dtype, h.records⟩, rfl⟩

/-- **A pack that is granted** has nothing to do, or merges the records over what is stored. -/
theorem pack_eq_ok (h : t.pack = .ok u) : t.isSettled = true ∧ u = t ∨
    t.isSettled = false ∧ ∃ stored s, t.storedEntries = .ok stored ∧ t.packer.merge stored t.buffer.records = .ok s ∧
      u = { t.withStorage s with buffer := t.buffer.clear } := by
  unfold pack at h
  by_cases hsettled : t.isSettled = true
  · rw [if_pos hsettled] at h
    cases h
    exact .inl ⟨hsettled, rfl⟩
  · rw [if_neg hsettled] at h
    simp only [bind_eq_ok] at h
    obtain ⟨stored, hstored, s, hs, h⟩ := h
    cases h
    exact .inr ⟨Bool.eq_false_iff.2 hsettled, stored, s, hstored, hs, rfl⟩

/-- **What a granted request does to the storage**: nothing, or it fills it with zeros, or it merges the waiting records
over what is stored. -/
theorem perform_eq_ok {r : Request} (h : t.perform r = .ok u) :
    ¬ (r = .pack ∧ t.isSettled = false) ∧ u.format = t.format ∧ u.generation = t.generation ∧ u.storage? = t.storage? ∨
      r = .zero ∧ u = t.zero ∨
      (r = .pack ∧ t.isSettled = false) ∧ ∃ stored s, t.storedEntries = .ok stored ∧
        t.packer.merge stored t.buffer.records = .ok s ∧ u = { t.withStorage s with buffer := t.buffer.clear } := by
  cases r with
  | insert e =>
    simp only [perform, insert, Outcome.liftM_checked, Outcome.ofChecked_eq_ok, bind_eq_ok] at h
    obtain ⟨buffer, -, hu⟩ := h
    cases hu
    exact .inl ⟨fun h => (nomatch h.1), rfl, rfl, rfl⟩
  | reserve n =>
    simp only [perform, reserve?, Outcome.liftM_option, Outcome.ofOption_eq_ok, Option.map_eq_some_iff] at h
    obtain ⟨buffer, -, hu⟩ := h
    cases hu
    exact .inl ⟨fun h => (nomatch h.1), rfl, rfl, rfl⟩
  | rename name =>
    cases h
    exact .inl ⟨fun h => (nomatch h.1), rfl, rfl, rfl⟩
  | zero =>
    cases h
    exact .inr (.inl ⟨rfl, rfl⟩)
  | pack =>
    rcases pack_eq_ok h with ⟨hsettled, rfl⟩ | ⟨hsettled, hmerged⟩
    · exact .inl ⟨fun h => Bool.eq_false_iff.1 h.2 hsettled, rfl, rfl, rfl⟩
    · exact .inr (.inr ⟨⟨rfl, hsettled⟩, hmerged⟩)

theorem Waits.of_pack (h : t.Waits p pending) (s : Storage) :
    Waits { t.withStorage s with buffer := t.buffer.clear } p [] :=
  ⟨h.packer, CoordinateBuffer.flat_clear _, h.order, h.dtype, CoordinateBuffer.records_clear _⟩

theorem serve_pack_granted (h : (t.serve .pack).1 = true) : t.pack = .ok (t.serve .pack).2 := by
  cases hpack : t.perform .pack with
  | error e =>
    rw [serve_of_error hpack] at h
    cases h
  | ok u =>
    rw [serve_of_ok hpack]
    exact hpack

theorem serve_pack_refused (h : (t.serve .pack).1 = false) : (t.serve .pack).2 = t := by
  cases hpack : t.perform .pack with
  | error e => rw [serve_of_error hpack]
  | ok u =>
    rw [serve_of_ok hpack] at h
    cases h

end Tensor

end TensorStorage
