import TensorStorage.Proofs.Pack.Fill
import TensorStorage.Proofs.Pack.Resolve
/-!
# Merge — what stored and new entries come to

The entries that packing takes are those that fit the tensor (`Packer.Admits`), and resolving them leaves one record for
each coordinate that occurs, with the value that the stored and the new values at the coordinate come to
(`Packer.resolve_eq_ok`).
-/
namespace TensorStorage

/-- The values of the entries at a coordinate, in their order. -/
def valuesAt (entries : List Entry) (c : Coordinate) : List Value :=
  (entries.filter (·.coordinate = c)).map (·.value)

theorem valuesAt_append (l m : List Entry) (c : Coordinate) : valuesAt (l ++ m) c = valuesAt l c ++ valuesAt m c := by
  rw [valuesAt, List.filter_append, List.map_append]
  rfl

theorem valuesAt_eq_nil_iff {entries : List Entry} {c : Coordinate} :
    valuesAt entries c = [] ↔ ∀ e ∈ entries, e.coordinate ≠ c := by
  simp [valuesAt]

theorem mem_of_mem_valuesAt {entries : List Entry} {c : Coordinate} {v : Value} (h : v ∈ valuesAt entries c) :
    ∃ e ∈ entries, e.coordinate = c ∧ e.value = v := by
  obtain ⟨e, he, rfl⟩ := List.mem_map.1 h
  obtain ⟨he, hc⟩ := List.mem_filter.1 he
  exact ⟨e, he, of_decide_eq_true hc, rfl⟩

theorem valuesAt_of_nodup : ∀ {entries : List Entry}, (entries.map (·.coordinate)).Nodup → ∀ {e : Entry}, e ∈ entries →
    valuesAt entries e.coordinate = [e.value]
  | [], _, _, he => by cases he
  | a :: entries, h, e, he => by
    rw [List.map_cons, List.nodup_cons] at h
    have ha : ∀ b ∈ entries, b.coordinate ≠ a.coordinate := fun b hb he => h.1 (he ▸ List.mem_map_of_mem hb)
    rcases List.mem_cons.1 he with rfl | he
    · have hnil := valuesAt_eq_nil_iff.2 ha
      simp only [valuesAt, List.map_eq_nil_iff] at hnil
      simp [valuesAt, hnil]
    · have ih := valuesAt_of_nodup h.2 he
      have hne : a.coordinate ≠ e.coordinate := (ha e he).symm
      simpa [valuesAt, hne] using ih

/-- The value that stored and new values at one coordinate come to. -/
def DuplicatePolicy.settle? (policy : DuplicatePolicy) (stored incoming : List Value) : Option Value :=
  policy.overStored.resolve? (stored ++ (policy.resolve? incoming).toList)

namespace Packer

variable {p : Packer} {stored records entries : List Entry}

/-- **An entry that packing takes.** -/
structure Admits (p : Packer) (e : Entry) : Prop where
  length : e.coordinate.length = p.dimensions.length
  dtype : e.value.dtype = p.dtype
  inBounds : e.coordinate.inBounds p.dimensions = true

def keyed (p : Packer) (e : Entry) : Record := ⟨p.format.keyOf e.coordinate, e.value⟩

theorem record_eq_ok (horder : p.format.order = p.dimensions.length) {e : Entry} {r : Record} :
    p.record e = .ok r ↔ p.Admits e ∧ r = p.keyed e := by
  simp only [record, error_bind, guard_eq_ok]
  constructor
  · rintro ⟨hlen, hdtype, hbounds, h⟩
    simp only [ne_eq, Decidable.not_not, Bool.not_eq_true', Bool.not_eq_false] at hlen hdtype hbounds
    rw [Format.toLevels?_eq (by omega)] at h
    cases h
    exact ⟨⟨hlen, hdtype, hbounds⟩, rfl⟩
  · rintro ⟨⟨hlen, hdtype, hbounds⟩, rfl⟩
    rw [Format.toLevels?_eq (by omega)]
    simp [hlen, hdtype, hbounds, keyed]

theorem collect_eq_ok (horder : p.format.order = p.dimensions.length) : ∀ {entries : List Entry} {out : List Record},
    p.collect entries = .ok out ↔ (∀ e ∈ entries, p.Admits e) ∧ out = entries.map p.keyed
  | [], out => by simp [collect, eq_comm]
  | e :: entries, out => by
    have ih := @collect_eq_ok horder entries
    simp only [collect] at ih
    simp only [collect, List.mapM_cons, bind_eq_ok, record_eq_ok horder, ih, pure_eq_ok, Except.ok.injEq]
    constructor
    · rintro ⟨r, ⟨he, rfl⟩, out', ⟨hall, rfl⟩, rfl⟩
      exact ⟨fun e' he' => (List.mem_cons.1 he').elim (fun h => h ▸ he) (hall e'), rfl⟩
    · rintro ⟨hall, rfl⟩
      exact ⟨_, ⟨hall e List.mem_cons_self, rfl⟩, _, ⟨fun e' he' => hall e' (List.mem_cons_of_mem _ he'), rfl⟩, rfl⟩

theorem collect_append (l m : List Entry) :
    p.collect (l ++ m) = (do return (← p.collect l) ++ (← p.collect m)) := by
  rw [collect, List.mapM_append]
  rfl

theorem valuesOf_keyed (hlen : ∀ e ∈ entries, e.coordinate.length = p.format.order) {k : Coordinate}
    (hk : k.length = p.format.order) :
    valuesOf (entries.map p.keyed) k = valuesAt entries (p.format.fromLevels k) := by
  rw [valuesOf, valuesAt, List.filter_map, List.map_map]
  have hsame : entries.filter ((fun r : Record => decide (r.key = k)) ∘ p.keyed) =
      entries.filter (·.coordinate = p.format.fromLevels k) := by
    refine List.filter_congr fun e he => ?_
    have hiff : p.format.keyOf e.coordinate = k ↔ e.coordinate = p.format.fromLevels k := by
      constructor
      · rintro rfl
        exact (Format.fromLevels_keyOf (hlen e he)).symm
      · intro h
        rw [h, Format.keyOf_fromLevels hk]
    simp [keyed, hiff]
  rw [hsame]
  rfl

/-- **The records that stored and new entries resolve to**: one for each coordinate that occurs, with the value that the
values at the coordinate come to. -/
structure Resolved (p : Packer) (stored records : List Entry) (out : List Record) : Prop where
  laysOut : p.LaysOut out
  admits : ∀ e ∈ stored ++ records, p.Admits e
  incoming : ∀ e ∈ records, (p.policy.resolve? (valuesAt records e.coordinate)).isSome
  occurs : ∀ e ∈ stored ++ records, ∃ r ∈ out, r.key = p.format.keyOf e.coordinate
  mem_iff : ∀ r : Record, r ∈ out ↔ r.key.length = p.format.order ∧
    p.policy.settle? (valuesAt stored (p.format.fromLevels r.key)) (valuesAt records (p.format.fromLevels r.key)) =
      some r.value

theorem valuesOf_incoming {incoming : List Record} (hin : InOrder incoming) {policy : DuplicatePolicy} {l : List Record}
    (hmem : ∀ r, r ∈ incoming ↔ policy.resolve? (valuesOf l r.key) = some r.value) (k : Coordinate) :
    valuesOf incoming k = (policy.resolve? (valuesOf l k)).toList := by
  cases hk : policy.resolve? (valuesOf l k) with
  | some v =>
    have hr : (⟨k, v⟩ : Record) ∈ incoming := (hmem ⟨k, v⟩).2 hk
    exact hin.valuesOf_eq hr
  | none =>
    rw [Option.toList_none, valuesOf_eq_nil_iff]
    rintro r hr rfl
    rw [(hmem r).1 hr] at hk
    cases hk

theorem exists_admitted {k : Coordinate} {v : Value} (h : v ∈ valuesOf (entries.map p.keyed) k) :
    ∃ e ∈ entries, k = p.format.keyOf e.coordinate ∧ v = e.value := by
  obtain ⟨r, hr, rfl⟩ := List.mem_map.1 h
  obtain ⟨hr, hk⟩ := List.mem_filter.1 hr
  obtain ⟨e, he, rfl⟩ := List.mem_map.1 hr
  exact ⟨e, he, (of_decide_eq_true hk).symm, rfl⟩

/-- What is resolved over the stored entries: their values, and at most one new value at each key. -/
theorem valuesOf_over {incoming : List Record}
    (h : resolveDuplicates p.format p.policy (records.map p.keyed) = .ok incoming) (k : Coordinate) :
    valuesOf (stored.map p.keyed ++ incoming) k =
      valuesOf (stored.map p.keyed) k ++ (p.policy.resolve? (valuesOf (records.map p.keyed) k)).toList := by
  obtain ⟨hin, hmem⟩ := resolveDuplicates_eq_ok h
  rw [valuesOf_append, valuesOf_incoming hin hmem]

theorem exists_mem_of_settle? {k : Coordinate} {v : Value}
    (h : p.policy.settle? (valuesOf (stored.map p.keyed) k) (valuesOf (records.map p.keyed) k) = some v) :
    ∃ e ∈ stored ++ records, k = p.format.keyOf e.coordinate := by
  by_cases hnil : valuesOf (stored.map p.keyed) k = []
  · have hne : valuesOf (records.map p.keyed) k ≠ [] := fun hnil' => by
      rw [hnil, hnil'] at h
      cases hp : p.policy <;> rw [hp] at h <;> cases h
    obtain ⟨w, hw⟩ := List.exists_mem_of_ne_nil _ hne
    obtain ⟨e, he, hk, -⟩ := exists_admitted hw
    exact ⟨e, List.mem_append_right _ he, hk⟩
  · obtain ⟨w, hw⟩ := List.exists_mem_of_ne_nil _ hnil
    obtain ⟨e, he, hk, -⟩ := exists_admitted hw
    exact ⟨e, List.mem_append_left _ he, hk⟩

theorem dtype_of_mem_over (hadmits : ∀ e ∈ stored ++ records, p.Admits e) {k : Coordinate} {v : Value}
    (h : v ∈ valuesOf (stored.map p.keyed) k ++ (p.policy.resolve? (valuesOf (records.map p.keyed) k)).toList) :
    v.dtype = p.dtype := by
  rcases List.mem_append.1 h with h | h
  · obtain ⟨e, he, -, rfl⟩ := exists_admitted h
    exact (hadmits e (List.mem_append_left _ he)).dtype
  · refine DuplicatePolicy.resolve?_dtype (fun u hu => ?_) (Option.mem_toList.1 h)
    obtain ⟨e, he, -, rfl⟩ := exists_admitted hu
    exact (hadmits e (List.mem_append_right _ he)).dtype

theorem resolve_eq_ok (horder : p.format.order = p.dimensions.length) {out : List Record}
    (h : p.resolve stored records = .ok out) : p.Resolved stored records out := by
  simp only [resolve, bind_eq_ok, collect_eq_ok horder, Outcome.liftM_checked, Outcome.ofChecked_eq_ok] at h
  obtain ⟨held, ⟨hstored, rfl⟩, keyed, ⟨hrecords, rfl⟩, incoming, hincoming, h⟩ := h
  obtain ⟨-, hmem⟩ := resolveDuplicates_eq_ok hincoming
  obtain ⟨hout, hmemOut⟩ := resolveDuplicates_eq_ok h
  have hadmits : ∀ e ∈ stored ++ records, p.Admits e := fun e he => (List.mem_append.1 he).elim (hstored e) (hrecords e)
  have hlen : ∀ e ∈ stored ++ records, e.coordinate.length = p.format.order := fun e he =>
    (hadmits e he).length.trans horder.symm
  have hlenStored : ∀ e ∈ stored, e.coordinate.length = p.format.order := fun e he =>
    hlen e (List.mem_append_left _ he)
  have hlenRecords : ∀ e ∈ records, e.coordinate.length = p.format.order := fun e he =>
    hlen e (List.mem_append_right _ he)
  have hsettle : ∀ r, r ∈ out ↔ p.policy.settle? (valuesOf (stored.map p.keyed) r.key)
      (valuesOf (records.map p.keyed) r.key) = some r.value := fun r => by
    rw [hmemOut, valuesOf_over hincoming, DuplicatePolicy.settle?]
  have hkey : ∀ r ∈ out, ∃ e ∈ stored ++ records, r.key = p.format.keyOf e.coordinate := fun r hr =>
    exists_mem_of_settle? ((hsettle r).1 hr)
  have hkeyLen : ∀ r ∈ out, r.key.length = p.format.order := fun r hr => by
    obtain ⟨e, -, hk⟩ := hkey r hr
    rw [hk]
    exact Format.length_keyOf ..
  refine ⟨⟨hout, hkeyLen, fun r hr => ?_, fun r hr => ?_⟩, hadmits, fun e he => ?_, fun e he => ?_, fun r => ?_⟩
  · obtain ⟨e, he, hk⟩ := hkey r hr
    rw [hk, Format.inBounds_keyOf (hlen e he) horder.symm]
    exact (hadmits e he).inBounds
  · exact DuplicatePolicy.resolve?_dtype (fun w hw => dtype_of_mem_over hadmits hw) ((hsettle r).1 hr)
  · obtain ⟨r, hr, hk⟩ := exists_mem_of_resolveDuplicates hincoming (List.mem_map_of_mem (f := p.keyed) he)
    have hsome := (hmem r).1 hr
    rw [hk, Packer.keyed, valuesOf_keyed hlenRecords (Format.length_keyOf ..),
      Format.fromLevels_keyOf (hlenRecords e he)] at hsome
    rw [hsome]
    rfl
  · rcases List.mem_append.1 he with he | he
    · exact exists_mem_of_resolveDuplicates h (List.mem_append_left _ (List.mem_map_of_mem (f := p.keyed) he))
    · obtain ⟨r, hr, hk⟩ := exists_mem_of_resolveDuplicates hincoming (List.mem_map_of_mem (f := p.keyed) he)
      obtain ⟨s, hs, hk'⟩ := exists_mem_of_resolveDuplicates h (List.mem_append_right (stored.map p.keyed) hr)
      exact ⟨s, hs, hk'.trans hk⟩
  · rw [hsettle]
    constructor
    · intro hr
      have hk := hkeyLen r ((hsettle r).2 hr)
      rw [valuesOf_keyed hlenStored hk, valuesOf_keyed hlenRecords hk] at hr
      exact ⟨hk, hr⟩
    · rintro ⟨hk, hr⟩
      rwa [valuesOf_keyed hlenStored hk, valuesOf_keyed hlenRecords hk]

/-- The value of a coordinate is what its values come to, and zero if it has none. -/
theorem Resolved.valueOf_settle {out : List Record} (h : p.Resolved stored records out) {x : Coordinate}
    (hx : x.length = p.format.order) : p.valueOf out x = (p.policy.settle? (valuesAt stored (p.format.fromLevels x))
      (valuesAt records (p.format.fromLevels x))).getD (.zero p.dtype) := by
  have hmem := fun v => h.mem_iff ⟨x, v⟩
  simp only [hx, true_and] at hmem
  cases hsettle : p.policy.settle? (valuesAt stored (p.format.fromLevels x))
      (valuesAt records (p.format.fromLevels x)) with
  | some v => exact h.laysOut.valueOf_key ((hmem v).2 hsettle)
  | none =>
    refine valueOf_eq_zero ?_
    rintro ⟨k, v⟩ hr rfl
    rw [hsettle] at hmem
    exact absurd ((hmem v).1 hr) (by simp)

theorem Resolved.exists_entry {out : List Record} (h : p.Resolved stored records out) {r : Record} (hr : r ∈ out) :
    ∃ e ∈ stored ++ records, r.key = p.format.keyOf e.coordinate := by
  obtain ⟨hlen, hsome⟩ := (h.mem_iff r).1 hr
  have hfrom : ∀ e ∈ stored ++ records, e.coordinate = p.format.fromLevels r.key →
      r.key = p.format.keyOf e.coordinate := fun e _ he => by rw [he, Format.keyOf_fromLevels hlen]
  by_cases hnil : valuesAt (stored ++ records) (p.format.fromLevels r.key) = []
  · rw [valuesAt_append, List.append_eq_nil_iff] at hnil
    rw [hnil.1, hnil.2] at hsome
    cases h : p.policy <;> rw [h] at hsome <;> cases hsome
  · obtain ⟨v, hv⟩ := List.exists_mem_of_ne_nil _ hnil
    obtain ⟨e, he, hc, -⟩ := mem_of_mem_valuesAt hv
    exact ⟨e, he, hfrom e he hc⟩

/-- Records that were resolved among themselves resolve over the stored entries. -/
theorem resolveDuplicates_over_isOk (hadmits : ∀ e ∈ stored ++ records, p.Admits e) {incoming : List Record}
    (h : resolveDuplicates p.format p.policy (records.map p.keyed) = .ok incoming) :
    ∃ out, resolveDuplicates p.format p.policy.overStored (stored.map p.keyed ++ incoming) = .ok out := by
  refine resolveDuplicates_isOk fun r hr => ?_
  refine DuplicatePolicy.isSome_resolve? p.policy.overStored_ne_reject (d := p.dtype) ?_ fun v hv => ?_
  · rw [ne_eq, valuesOf_eq_nil_iff]
    exact fun h => h r hr rfl
  · rw [valuesOf_over h] at hv
    exact dtype_of_mem_over hadmits hv

/-- **Admitted entries resolve**, unless a policy that refuses repetitions meets one. -/
theorem resolve_isOk (horder : p.format.order = p.dimensions.length) (hadmits : ∀ e ∈ stored ++ records, p.Admits e)
    (hreject : p.policy = .reject → (records.map (·.coordinate)).Nodup) :
    ∃ out, p.resolve stored records = .ok out := by
  have hstored : p.collect stored = .ok (stored.map p.keyed) :=
    (collect_eq_ok horder).2 ⟨fun e he => hadmits e (List.mem_append_left _ he), rfl⟩
  have hrecords : p.collect records = .ok (records.map p.keyed) :=
    (collect_eq_ok horder).2 ⟨fun e he => hadmits e (List.mem_append_right _ he), rfl⟩
  obtain ⟨incoming, hincoming⟩ : ∃ incoming,
      resolveDuplicates p.format p.policy (records.map p.keyed) = .ok incoming := by
    refine resolveDuplicates_isOk fun r hr => ?_
    obtain ⟨e, he, rfl⟩ := List.mem_map.1 hr
    have hlen : ∀ e ∈ records, e.coordinate.length = p.format.order := fun e he =>
      (hadmits e (List.mem_append_right _ he)).length.trans horder.symm
    rw [keyed, valuesOf_keyed hlen (Format.length_keyOf ..), Format.fromLevels_keyOf (hlen e he)]
    by_cases hp : p.policy = .reject
    · rw [valuesAt_of_nodup (hreject hp) he]
      rfl
    · refine DuplicatePolicy.isSome_resolve? hp (d := p.dtype) ?_ fun v hv => ?_
      · rw [ne_eq, valuesAt_eq_nil_iff]
        exact fun h => h e he rfl
      · obtain ⟨e', he', -, rfl⟩ := mem_of_mem_valuesAt hv
        exact (hadmits e' (List.mem_append_right _ he')).dtype
  obtain ⟨out, hout⟩ := resolveDuplicates_over_isOk hadmits hincoming
  exact ⟨out, by simp only [resolve, hstored, hrecords, hincoming, hout, ok_bind, Outcome.liftM_checked,
    Outcome.ofChecked_ok]⟩

/-- The first record that is not admitted decides the failure. -/
theorem resolve_eq_error (horder : p.format.order = p.dimensions.length) {before : List Entry} {e : Failure}
    (hstored : ∀ e ∈ stored, p.Admits e) (hbefore : ∀ e ∈ before, p.Admits e) (h : p.collect records = .error e) :
    p.resolve stored (before ++ records) = .error e := by
  have hheld := (collect_eq_ok horder).2 ⟨hstored, rfl⟩
  have hcollect := (collect_eq_ok horder).2 ⟨hbefore, rfl⟩
  unfold resolve
  simp only [collect_append, hheld, hcollect, h, ok_bind, error_bind]

/-! ## Packing -/

variable {stored' records' : List Entry} {out : List Record} {s : Storage}

theorem merge_eq_ok (h : p.merge stored records = .ok s) :
    p.check = .ok () ∧ ∃ out, p.resolve stored records = .ok out ∧ p.lay out = .ok s := by
  simp only [merge, bind_eq_ok, Outcome.liftM_checked, Outcome.ofChecked_eq_ok] at h
  obtain ⟨⟨⟩, hc, h⟩ := h
  exact ⟨hc, h⟩

theorem merge_eq_lay (hc : p.check = .ok ()) (hresolve : p.resolve stored records = .ok out) :
    p.merge stored records = p.lay out := by
  rw [merge, hc, Outcome.liftM_checked, Outcome.ofChecked_ok, ok_bind, hresolve, ok_bind]

/-- A shape that is refused is refused before the entries are looked at. -/
theorem merge_of_check_eq_error {e : StorageError} (hc : p.check = .error e) (stored records : List Entry) :
    p.merge stored records = .error (.refused e) := by
  rw [merge, hc, Outcome.liftM_checked, Outcome.ofChecked_error, error_bind]

/-- **Packing depends on the entries by what the values of each coordinate come to.** -/
theorem merge_congr (hadmits : ∀ e ∈ stored ++ records, p.Admits e) (hadmits' : ∀ e ∈ stored' ++ records', p.Admits e)
    (hdistinct : p.policy = .reject → (records.map (·.coordinate)).Nodup)
    (hdistinct' : p.policy = .reject → (records'.map (·.coordinate)).Nodup)
    (hvalues : ∀ c, p.policy.settle? (valuesAt stored c) (valuesAt records c) =
      p.policy.settle? (valuesAt stored' c) (valuesAt records' c)) :
    p.merge stored records = p.merge stored' records' := by
  cases hc : p.check with
  | error e => rw [merge_of_check_eq_error hc, merge_of_check_eq_error hc]
  | ok u =>
    have horder := (check_eq_ok hc).1
    obtain ⟨out, hresolve⟩ := resolve_isOk horder hadmits hdistinct
    obtain ⟨out', hresolve'⟩ := resolve_isOk horder hadmits' hdistinct'
    have hout := resolve_eq_ok horder hresolve
    have hout' := resolve_eq_ok horder hresolve'
    have heq : out = out' := hout.laysOut.inOrder.eq_of_mem_iff hout'.laysOut.inOrder fun r => by
      rw [hout.mem_iff, hout'.mem_iff, hvalues]
    rw [merge_eq_lay hc hresolve, merge_eq_lay hc hresolve', heq]

end Packer

end TensorStorage
