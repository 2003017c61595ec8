import TensorStorage.Proofs.Pack.Merge
import TensorStorage.Proofs.Pack.ReadBack
/-!
# RoundTrip — what goes in is what a traversal yields

A traversal of a packed storage yields one entry for each coordinate in bounds that agrees with an entry that went in up
to the last compressed level, with the value that the stored and the new values there come to
(`Packer.calls?_start_merge`).
-/
namespace TensorStorage

namespace DuplicatePolicy

/-- What new values at one coordinate come to: their sum in the order of arrival, or the last. -/
def incoming? (policy : DuplicatePolicy) (values : List Value) : Option Value :=
  match policy, values with
  | .sum, [] => none
  | .sum, v :: values => values.foldlM Value.add? v
  | .lastWins, values | .reject, values => values.getLast?

/-- What is stored at a coordinate after packing, from what was stored there and the new values: without any, zero of
the tensor's kind. -/
def packed? (policy : DuplicatePolicy) (d : DataType) (stored : Option Value) (incoming : List Value) : Option Value :=
  match stored, incoming with
  | none, [] => some (.zero d)
  | some old, [] => some old
  | none, v :: values => policy.incoming? (v :: values)
  | some old, v :: values => do
    let new ← policy.incoming? (v :: values)
    match policy with
    | .sum => old.add? new
    | .lastWins | .reject => some new

theorem incoming?_eq {policy : DuplicatePolicy} {values : List Value} (h : (policy.resolve? values).isSome) :
    policy.incoming? values = policy.resolve? values := by
  cases policy with
  | lastWins => exact (resolve?_lastWins values).symm
  | sum => cases values <;> rfl
  | reject =>
    obtain ⟨u, hu⟩ := Option.isSome_iff_exists.1 h
    rw [hu, resolve?_reject hu]
    rfl

theorem packed?_eq_some {policy : DuplicatePolicy} (d : DataType) {stored : Option Value} {incoming : List Value}
    {v : Value} (hnew : incoming ≠ [] → (policy.resolve? incoming).isSome)
    (h : policy.settle? stored.toList incoming = some v) : policy.packed? d stored incoming = some v := by
  cases incoming with
  | nil =>
    cases stored with
    | none => cases h
    | some old => exact h
  | cons w more =>
    obtain ⟨u, hu⟩ := Option.isSome_iff_exists.1 (hnew (by simp))
    have hincoming : policy.incoming? (w :: more) = some u := by rw [incoming?_eq (hnew (by simp)), hu]
    rw [settle?, hu] at h
    cases stored with
    | none =>
      rw [packed?, hincoming]
      exact h
    | some old =>
      have hcombine : policy.overStored.combine? old u = some v := by simpa [resolve?] using h
      rw [packed?, hincoming, Option.bind_eq_bind, Option.bind_some]
      cases policy with
      | lastWins => exact hcombine
      | sum => exact hcombine
      | reject => exact hcombine

end DuplicatePolicy

namespace Packer

variable {p : Packer} {stored records : List Entry} {out : List Record} {s : Storage}

/-! ## Which coordinates -/

/-- Up to the last compressed level, a coordinate agrees with an entry that occurs. -/
def Agrees (p : Packer) (entries : List Entry) (c : Coordinate) : Prop :=
  p.pinned = 0 ∨ ∃ e ∈ entries, (p.format.keyOf e.coordinate).take p.pinned = (p.format.keyOf c).take p.pinned

instance (p : Packer) (entries : List Entry) (c : Coordinate) : Decidable (p.Agrees entries c) :=
  inferInstanceAs (Decidable (_ ∨ _))

/-- **The coordinates of the leaves.** -/
theorem Resolved.fromLevels_mem_iff (h : p.Resolved stored records out) (horder : p.format.order = p.dimensions.length)
    {c : Coordinate} : c ∈ (p.leaves out).map p.format.fromLevels ↔
      c.length = p.dimensions.length ∧ c.inBounds p.dimensions = true ∧ p.Agrees (stored ++ records) c := by
  have hagrees : ∀ x : Coordinate, (p.pinned = 0 ∨ ∃ r ∈ out, r.key.take p.pinned = x.take p.pinned) ↔
      (p.pinned = 0 ∨ ∃ e ∈ stored ++ records, (p.format.keyOf e.coordinate).take p.pinned = x.take p.pinned) := by
    refine fun x => or_congr_right ⟨?_, ?_⟩
    · rintro ⟨r, hr, hx⟩
      obtain ⟨e, he, hk⟩ := h.exists_entry hr
      exact ⟨e, he, hk ▸ hx⟩
    · rintro ⟨e, he, hx⟩
      obtain ⟨r, hr, hk⟩ := h.occurs e he
      exact ⟨r, hr, hk ▸ hx⟩
  constructor
  · intro hc
    obtain ⟨x, hx, rfl⟩ := List.mem_map.1 hc
    obtain ⟨hlen, hin, hpin⟩ := h.laysOut.mem_leaves.1 hx
    have hclen : (p.format.fromLevels x).length = p.format.order := Format.length_fromLevels ..
    refine ⟨hclen.trans horder, ?_, ?_⟩
    · rw [← Format.inBounds_keyOf hclen horder.symm, Format.keyOf_fromLevels hlen]
      exact hin
    · rw [Agrees, Format.keyOf_fromLevels hlen]
      exact (hagrees x).1 hpin
  · rintro ⟨hlen, hin, hpin⟩
    have hclen : c.length = p.format.order := hlen.trans horder.symm
    refine List.mem_map.2 ⟨p.format.keyOf c, h.laysOut.mem_leaves.2 ⟨Format.length_keyOf .., ?_, (hagrees _).2 hpin⟩,
      Format.fromLevels_keyOf hclen⟩
    rwa [Format.inBounds_keyOf hclen horder.symm]

/-! ## Which values -/

theorem head?_valuesAt (hstored : (stored.map (·.coordinate)).Nodup) (c : Coordinate) :
    valuesAt stored c = (valuesAt stored c).head?.toList := by
  cases h : valuesAt stored c with
  | nil => rfl
  | cons v values =>
    obtain ⟨e, he, rfl, rfl⟩ := mem_of_mem_valuesAt (h ▸ List.mem_cons_self)
    rw [valuesAt_of_nodup hstored he] at h
    cases h
    rfl

/-- **The values of the leaves.** -/
theorem Resolved.valueOf_eq (h : p.Resolved stored records out) (hstored : (stored.map (·.coordinate)).Nodup)
    {x : Coordinate} (hx : x.length = p.format.order) :
    p.policy.packed? p.dtype (valuesAt stored (p.format.fromLevels x)).head?
      (valuesAt records (p.format.fromLevels x)) = some (p.valueOf out x) := by
  have hvalue := h.valueOf_settle hx
  have hnew : valuesAt records (p.format.fromLevels x) ≠ [] →
      (p.policy.resolve? (valuesAt records (p.format.fromLevels x))).isSome := fun hne => by
    obtain ⟨v, hv⟩ := List.exists_mem_of_ne_nil _ hne
    obtain ⟨e, he, hc, -⟩ := mem_of_mem_valuesAt hv
    rw [← hc]
    exact h.incoming e he
  rw [head?_valuesAt hstored] at hvalue
  cases hsettle : p.policy.settle? (valuesAt stored (p.format.fromLevels x)).head?.toList
      (valuesAt records (p.format.fromLevels x)) with
  | some v =>
    rw [hvalue, hsettle]
    exact DuplicatePolicy.packed?_eq_some p.dtype hnew hsettle
  | none =>
    have hnil : valuesAt (stored ++ records) (p.format.fromLevels x) = [] := valuesAt_eq_nil_iff.2 fun e he hc => by
      obtain ⟨r, hr, hk⟩ := h.occurs e he
      rw [hc, Format.keyOf_fromLevels hx] at hk
      have hsome := ((h.mem_iff r).1 hr).2
      rw [hk, head?_valuesAt hstored, hsettle] at hsome
      cases hsome
    rw [valuesAt_append, List.append_eq_nil_iff] at hnil
    rw [hvalue, hsettle, hnil.1, hnil.2]
    rfl

/-! ## The round trip -/

theorem Resolved.length_le (h : p.Resolved stored records out)
    (hcount : ((stored ++ records).map (·.coordinate)).eraseDups.length ≤ maxIndex) : out.length ≤ maxIndex := by
  have hsub : out.map (·.key) ⊆ ((stored ++ records).map (·.coordinate)).eraseDups.map p.format.keyOf := by
    intro k hk
    obtain ⟨r, hr, rfl⟩ := List.mem_map.1 hk
    obtain ⟨e, he, hkey⟩ := h.exists_entry hr
    rw [hkey]
    exact List.mem_map_of_mem (List.mem_eraseDups.2 (List.mem_map_of_mem he))
  have hle := h.laysOut.inOrder.nodup_keys.length_le_of_subset hsub
  rw [List.length_map, List.length_map] at hle
  exact Nat.le_trans hle hcount

theorem Resolved.fitsEntries (h : p.Resolved stored records out) (hc : p.check = .ok ()) (hlay : p.lay out = .ok s)
    (hcount : ((stored ++ records).map (·.coordinate)).eraseDups.length ≤ maxIndex) : p.FitsEntries out := by
  obtain ⟨modes, hmodes, -⟩ := lay_eq_ok hc h.laysOut hlay
  refine fits_of_modesFrom ?_ (by decide) hmodes
  rw [List.length_map]
  exact h.length_le hcount

theorem LaysOut.map_keyOf_entryAt (h : p.LaysOut out) :
    ((p.leaves out).map (p.entryAt out)).map (fun e => p.format.keyOf e.coordinate) = p.leaves out := by
  rw [List.map_map]
  refine (List.map_congr_left fun x hx => ?_).trans (List.map_id' _)
  exact Format.keyOf_fromLevels (h.nodesAt_leaves.length x hx)

theorem LaysOut.nodup_entryAt (h : p.LaysOut out) :
    (((p.leaves out).map (p.entryAt out)).map (·.coordinate)).Nodup := by
  have hnodup := h.nodesAt_leaves.nodup
  rw [← h.map_keyOf_entryAt, List.nodup_iff_pairwise_ne, List.pairwise_map] at hnodup
  rw [List.nodup_iff_pairwise_ne, List.pairwise_map]
  exact hnodup.imp fun hne he => hne (by rw [he])

/-- **What a packed storage lists**: in level order, each coordinate in bounds once that agrees with an entry that
occurs up to the last compressed level, with the value that the stored and the new values at the coordinate come to. -/
structure Lists (p : Packer) (stored records es : List Entry) : Prop where
  inOrder : (es.map fun e => p.format.keyOf e.coordinate).Pairwise Coordinate.Before
  nodup : (es.map (·.coordinate)).Nodup
  mem_iff : ∀ c, c ∈ es.map (·.coordinate) ↔
    c.length = p.dimensions.length ∧ c.inBounds p.dimensions = true ∧ p.Agrees (stored ++ records) c
  value : ∀ e ∈ es,
    p.policy.packed? p.dtype (valuesAt stored e.coordinate).head? (valuesAt records e.coordinate) = some e.value

/-- **A packed storage passes the checks of a walk**, and the walk lists what was packed. -/
theorem lists_of_merge (hstored : (stored.map (·.coordinate)).Nodup) (h : p.merge stored records = .ok s)
    (hcount : ((stored ++ records).map (·.coordinate)).eraseDups.length ≤ maxIndex) :
    ∃ levels, s.checkedLevels p.format = .ok levels ∧ p.Lists stored records (s.nestedEntries p.format levels) := by
  obtain ⟨hc, out, hresolve, hlay⟩ := merge_eq_ok h
  have horder := (check_eq_ok hc).1
  have hout := resolve_eq_ok horder hresolve
  have hfits := hout.fitsEntries hc hlay hcount
  refine ⟨_, checkedLevels_of_lay hc hout.laysOut hlay hfits, ?_⟩
  rw [nestedEntries_of_lay hc hout.laysOut hlay hfits]
  refine ⟨?_, hout.laysOut.nodup_entryAt, fun c => ?_, fun e he => ?_⟩
  · rw [hout.laysOut.map_keyOf_entryAt]
    exact hout.laysOut.nodesAt_leaves.inOrder
  · rw [← hout.fromLevels_mem_iff horder, List.map_map]
    rfl
  · obtain ⟨x, hx, rfl⟩ := List.mem_map.1 he
    exact hout.valueOf_eq hstored (hout.laysOut.nodesAt_leaves.length x hx)

/-- **Packing and walking.**  If at most as many different coordinates as the largest index occur, a traversal of the
storage starts, and its calls answer entries in level order and then nothing.  A coordinate in bounds is among them once
if it agrees with an entry that occurs up to the last compressed level, and not otherwise; its value is what the stored
value and the new values at the coordinate come to. -/
theorem calls?_start_merge (source : Nat) (hstored : (stored.map (·.coordinate)).Nodup)
    (h : p.merge stored records = .ok s)
    (hcount : ((stored ++ records).map (·.coordinate)).eraseDups.length ≤ maxIndex) :
    ∃ t, Traversal.start source s p.format = .ok t ∧ ∃ es : List Entry,
      (∀ n, ∃ u, calls? Traversal.next? n t = some ((es.take n).map some ++ List.replicate (n - es.length) none, u)) ∧
      (es.map fun e => p.format.keyOf e.coordinate).Pairwise Coordinate.Before ∧ (es.map (·.coordinate)).Nodup ∧
      (∀ c, c ∈ es.map (·.coordinate) ↔
        c.length = p.dimensions.length ∧ c.inBounds p.dimensions = true ∧ p.Agrees (stored ++ records) c) ∧
      ∀ e ∈ es, p.policy.packed? p.dtype (valuesAt stored e.coordinate).head? (valuesAt records e.coordinate) =
        some e.value := by
  obtain ⟨levels, hlevels, hlists⟩ := lists_of_merge hstored h hcount
  have hstart : Traversal.start source s p.format = .ok ⟨source, s, p.format, levels, .new levels.length⟩ := by
    rw [Traversal.start, hlevels]
    rfl
  refine ⟨_, hstart, s.nestedEntries p.format levels, fun n => ?_, hlists.inOrder, hlists.nodup, hlists.mem_iff,
    hlists.value⟩
  obtain ⟨-, hn, -⟩ := Storage.levelsNested_of_checkedLevels hlevels
  obtain ⟨u, hu, -⟩ := calls?_of_step (Traversal.stepsThrough hn) n _ _ (Traversal.entriesAhead_start hstart)
  exact ⟨u, hu⟩

/-- Compressed rows over dense columns: a row that no entry is in is left out, and the others are filled up. -/
theorem calls?_start_merge_rows :
    let p : Packer := ⟨[3, 2], ⟨[.compressed, .dense], [0, 1], rfl, by decide⟩, .int32, .sum⟩
    let stored : List Entry := [⟨[2, 0], ⟨.int32, (5 : Int32)⟩⟩]
    let records : List Entry :=
      [⟨[0, 1], ⟨.int32, (7 : Int32)⟩⟩, ⟨[2, 0], ⟨.int32, (1 : Int32)⟩⟩, ⟨[0, 1], ⟨.int32, (3 : Int32)⟩⟩]
    let s : Storage := ⟨⟨[.compressed { data := #[0, 2] } { data := #[0, 2] }, .dense 2], 4⟩,
      .ofArray .int32 #[0, 10, 6, 0]⟩
    p.merge stored records = .ok s ∧ ∃ t, Traversal.start 0 s p.format = .ok t ∧ ∃ es : List Entry,
      (∀ n, ∃ u, calls? Traversal.next? n t = some ((es.take n).map some ++ List.replicate (n - es.length) none, u)) ∧
      [2, 1] ∈ es.map (·.coordinate) ∧ [1, 0] ∉ es.map (·.coordinate) := by
  intro p stored records s
  have hmerge : p.merge stored records = .ok s := by cbv
  obtain ⟨t, ht, es, hcalls, -, -, hmem, -⟩ := calls?_start_merge 0 (by decide) hmerge (by decide)
  exact ⟨hmerge, t, ht, es, hcalls, (hmem [2, 1]).2 (by decide), fun h => absurd ((hmem [1, 0]).1 h) (by decide)⟩

end Packer

end TensorStorage
