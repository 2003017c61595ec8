import TensorStorage.Proofs.Pack.Distinct
import TensorStorage.Proofs.Pack.RoundTrip
/-!
# Repetitions — the coordinate that a refusal names

A policy that refuses repetitions meets them in storage order, so the one it names is the first of all of them there,
whatever the order of arrival (`resolveDuplicates_reject_eq_error_iff`).  Stored entries are no part of it: where the
records are admitted, resolving fails for a repetition among the new ones and for nothing else
(`Packer.resolve_eq_error_iff`).  New entries that pass replace the stored ones that they meet
(`Packer.merge_eq_pack_untouched`).
-/
namespace TensorStorage

/-! ## Keys -/

/-- **The first in storage order of the keys that are repeated.** -/
structure FirstRepeated (keys : List Coordinate) (k : Coordinate) : Prop where
  repeated : 2 ≤ keys.count k
  first : ∀ k', 2 ≤ keys.count k' → k.le k' = true

section Keys

variable {keys : List Coordinate} {k k' : Coordinate} {records : List Record} {held next : Record} {f : Format}

theorem FirstRepeated.unique (h : FirstRepeated keys k) (h' : FirstRepeated keys k') : k = k' :=
  Coordinate.le_antisymm (h.first k' h'.repeated) (h'.first k h.repeated)

theorem length_valuesOf (records : List Record) (k : Coordinate) :
    (valuesOf records k).length = (records.map (·.key)).count k := by
  rw [valuesOf, List.length_map]
  exact length_filter_eq_count (·.key) records k

/-- A key before all others is not repeated, so the first repeated one is theirs. -/
theorem FirstRepeated.cons (hbefore : ∀ x ∈ keys, k.Before x) (h : FirstRepeated keys k') :
    FirstRepeated (k :: keys) k' := by
  have hnone : keys.count k = 0 := List.count_eq_zero.2 fun hk => Coordinate.Before.irrefl k (hbefore k hk)
  refine ⟨Nat.le_trans h.repeated (List.count_le_count_cons), fun x hx => h.first x ?_⟩
  by_cases hkx : k = x
  · rw [← hkx, List.count_cons_self, hnone] at hx
    omega
  · rwa [List.count_cons_of_ne hkx] at hx

/-- The first key of a sorted list, if the next is the same. -/
theorem firstRepeated_of_eq {rest : List Record} (hs : (held :: next :: rest).Pairwise fun r s => r.key.le s.key = true)
    (hkey : next.key = held.key) : FirstRepeated ((held :: next :: rest).map (·.key)) held.key := by
  refine ⟨?_, fun x hx => ?_⟩
  · rw [List.map_cons, List.map_cons, hkey, List.count_cons_self, List.count_cons_self]
    exact Nat.le_add_left 2 _
  · obtain ⟨r, hr, rfl⟩ := List.mem_map.1 (List.count_pos_iff.1 (Nat.lt_of_lt_of_le Nat.two_pos hx))
    rcases List.mem_cons.1 hr with rfl | hr
    · exact Coordinate.le_refl _
    · exact List.rel_of_pairwise_cons hs hr

/-- **Collapsing sorted records fails at the first repeated key.** -/
theorem collapseFrom_reject_eq_error : ∀ {rest : List Record} {held : Record} {e : StorageError},
    (held :: rest).Pairwise (fun r s => r.key.le s.key = true) → collapseFrom f .reject held rest = .error e →
      ∃ k, FirstRepeated ((held :: rest).map (·.key)) k ∧ e = .duplicateCoordinate (f.fromLevels k)
  | [], _, _, _, h => by cases h
  | next :: rest, held, e, hs, h => by
    rw [collapseFrom] at h
    by_cases hkey : next.key = held.key
    · rw [if_pos hkey] at h
      cases h
      exact ⟨held.key, firstRepeated_of_eq hs hkey, by rw [hkey]⟩
    · rw [if_neg hkey, bind_pure_eq_error] at h
      obtain ⟨k, hk, he⟩ := collapseFrom_reject_eq_error hs.of_cons h
      refine ⟨k, hk.cons fun x hx => ?_, he⟩
      obtain ⟨r, hr, rfl⟩ := List.mem_map.1 hx
      exact before_of_mem hs hkey r hr

theorem firstRepeated_perm {keys' : List Coordinate} (h : keys.Perm keys') :
    FirstRepeated keys k ↔ FirstRepeated keys' k := by
  have hcount := fun x => h.count_eq x
  constructor
  · rintro ⟨hk, hfirst⟩
    exact ⟨hcount k ▸ hk, fun x hx => hfirst x (hcount x ▸ hx)⟩
  · rintro ⟨hk, hfirst⟩
    exact ⟨hcount k ▸ hk, fun x hx => hfirst x (hcount x ▸ hx)⟩

/-- A policy that refuses repetitions lets pass records of different keys only. -/
theorem nodup_keys_of_reject {out : List Record} (h : resolveDuplicates f .reject records = .ok out) :
    (records.map (·.key)).Nodup := by
  refine List.nodup_iff_count.2 fun k => ?_
  rw [← length_valuesOf]
  by_cases hk : valuesOf records k = []
  · rw [hk]
    exact Nat.zero_le 1
  · rw [valuesOf_eq_nil_iff] at hk
    simp only [ne_eq, Classical.not_forall, Classical.not_not, exists_prop] at hk
    obtain ⟨r, hr, rfl⟩ := hk
    obtain ⟨s, hs, hkey⟩ := exists_mem_of_resolveDuplicates h hr
    have hvalue := ((resolveDuplicates_eq_ok h).2 s).1 hs
    rw [hkey] at hvalue
    rw [DuplicatePolicy.resolve?_reject hvalue]
    exact Nat.le_refl 1

/-- **A policy that refuses repetitions names the first of them in storage order.** -/
theorem resolveDuplicates_reject_eq_error_iff {e : StorageError} : resolveDuplicates f .reject records = .error e ↔
    ∃ k, FirstRepeated (records.map (·.key)) k ∧ e = .duplicateCoordinate (f.fromLevels k) := by
  have hnamed : ∀ {e : StorageError}, resolveDuplicates f .reject records = .error e →
      ∃ k, FirstRepeated (records.map (·.key)) k ∧ e = .duplicateCoordinate (f.fromLevels k) := fun {e} h => by
    have hs := pairwise_sortRecords records
    have hperm : ((sortRecords records).map (·.key)).Perm (records.map (·.key)) := (List.mergeSort_perm records _).map _
    rw [resolveDuplicates] at h
    cases hsorted : sortRecords records with
    | nil =>
      rw [hsorted] at h
      cases h
    | cons first rest =>
      rw [hsorted] at h hs hperm
      obtain ⟨k, hk, he⟩ := collapseFrom_reject_eq_error hs h
      exact ⟨k, (firstRepeated_perm hperm).1 hk, he⟩
  refine ⟨hnamed, ?_⟩
  rintro ⟨k, hk, rfl⟩
  cases hresolve : resolveDuplicates f .reject records with
  | ok out =>
    have hcount := List.nodup_iff_count.1 (nodup_keys_of_reject hresolve) k
    exact absurd hk.repeated (Nat.not_le_of_lt (Nat.lt_succ_of_le hcount))
  | error e =>
    obtain ⟨k', hk', rfl⟩ := hnamed hresolve
    rw [hk.unique hk']

end Keys

/-! ## Entries -/

namespace Packer

variable {p : Packer} {stored records : List Entry} {c c' : Coordinate}

/-- **The first in level order of the coordinates that are repeated.** -/
structure FirstRepeated (p : Packer) (records : List Entry) (c : Coordinate) : Prop where
  repeated : 2 ≤ (records.map (·.coordinate)).count c
  first : ∀ c', 2 ≤ (records.map (·.coordinate)).count c' → (p.format.keyOf c).le (p.format.keyOf c') = true

theorem length_valuesAt (entries : List Entry) (c : Coordinate) :
    (valuesAt entries c).length = (entries.map (·.coordinate)).count c := by
  rw [valuesAt, List.length_map]
  exact length_filter_eq_count (·.coordinate) entries c

theorem count_keyed (hlen : ∀ e ∈ records, e.coordinate.length = p.format.order) {k : Coordinate}
    (hk : k.length = p.format.order) : ((records.map p.keyed).map (·.key)).count k =
      (records.map (·.coordinate)).count (p.format.fromLevels k) := by
  rw [← length_valuesOf, valuesOf_keyed hlen hk, length_valuesAt]

theorem exists_of_repeated (h : 2 ≤ (records.map (·.coordinate)).count c) : ∃ e ∈ records, e.coordinate = c :=
  List.mem_map.1 (List.count_pos_iff.1 (Nat.lt_of_lt_of_le Nat.two_pos h))

/-- The first repeated key is that of the first repeated coordinate. -/
theorem firstRepeated_keyed_iff (hlen : ∀ e ∈ records, e.coordinate.length = p.format.order) {k : Coordinate} :
    TensorStorage.FirstRepeated ((records.map p.keyed).map (·.key)) k ↔
      ∃ c, p.FirstRepeated records c ∧ k = p.format.keyOf c := by
  have hkey : ∀ {k}, 2 ≤ ((records.map p.keyed).map (·.key)).count k → k.length = p.format.order := fun hk => by
    obtain ⟨r, hr, rfl⟩ := List.mem_map.1 (List.count_pos_iff.1 (Nat.lt_of_lt_of_le Nat.two_pos hk))
    obtain ⟨e, -, rfl⟩ := List.mem_map.1 hr
    exact Format.length_keyOf ..
  have hcount : ∀ {c}, 2 ≤ (records.map (·.coordinate)).count c →
      ((records.map p.keyed).map (·.key)).count (p.format.keyOf c) = (records.map (·.coordinate)).count c := by
    intro c hc
    obtain ⟨e, he, rfl⟩ := exists_of_repeated hc
    rw [count_keyed hlen (Format.length_keyOf ..), Format.fromLevels_keyOf (hlen e he)]
  constructor
  · intro h
    have hk := hkey h.repeated
    have hrepeated := h.repeated
    rw [count_keyed hlen hk] at hrepeated
    refine ⟨p.format.fromLevels k, ⟨hrepeated, fun c hc => ?_⟩, (Format.keyOf_fromLevels hk).symm⟩
    rw [Format.keyOf_fromLevels hk]
    exact h.first _ (by rwa [hcount hc])
  · rintro ⟨c, hc, rfl⟩
    refine ⟨by rw [hcount hc.repeated]; exact hc.repeated, fun k hk => ?_⟩
    have hlenk := hkey hk
    rw [count_keyed hlen hlenk] at hk
    have hle := hc.first _ hk
    rwa [Format.keyOf_fromLevels hlenk] at hle

theorem FirstRepeated.unique (hlen : ∀ e ∈ records, e.coordinate.length = p.format.order)
    (h : p.FirstRepeated records c) (h' : p.FirstRepeated records c') : c = c' := by
  obtain ⟨e, he, rfl⟩ := exists_of_repeated h.repeated
  obtain ⟨e', he', rfl⟩ := exists_of_repeated h'.repeated
  exact Format.keyOf_inj (hlen e he) (hlen e' he')
    (Coordinate.le_antisymm (h.first _ h'.repeated) (h'.first _ h.repeated))

/-- **Admitted entries resolve unless the policy refuses a repetition**, and then the first of them is named.  What is
stored is never a repetition. -/
theorem resolve_eq_error_iff (horder : p.format.order = p.dimensions.length)
    (hadmits : ∀ e ∈ stored ++ records, p.Admits e) {e : Failure} : p.resolve stored records = .error e ↔
      p.policy = .reject ∧ ∃ c, p.FirstRepeated records c ∧ e = .refused (.duplicateCoordinate c) := by
  have hlen : ∀ e ∈ records, e.coordinate.length = p.format.order := fun e he =>
    (hadmits e (List.mem_append_right _ he)).length.trans horder.symm
  by_cases hpolicy : p.policy = .reject
  · have hheld := (collect_eq_ok horder).2 ⟨fun e he => hadmits e (List.mem_append_left records he), rfl⟩
    have hkeyed := (collect_eq_ok horder).2 ⟨fun e he => hadmits e (List.mem_append_right stored he), rfl⟩
    have hnamed := @resolveDuplicates_reject_eq_error_iff (records.map p.keyed) p.format
    simp only [firstRepeated_keyed_iff hlen] at hnamed
    simp only [resolve, hheld, hkeyed, ok_bind, Outcome.liftM_checked, hpolicy, true_and]
    cases hincoming : resolveDuplicates p.format .reject (records.map p.keyed) with
    | ok incoming =>
      obtain ⟨out, hout⟩ := resolveDuplicates_over_isOk hadmits (hpolicy ▸ hincoming)
      rw [hpolicy] at hout
      rw [Outcome.ofChecked_ok, ok_bind, hout, Outcome.ofChecked_ok]
      refine ⟨by rintro ⟨⟩, ?_⟩
      rintro ⟨c, hc, -⟩
      have herror := hnamed.2 ⟨_, ⟨c, hc, rfl⟩, rfl⟩
      rw [hincoming] at herror
      cases herror
    | error cause =>
      obtain ⟨-, ⟨c, hc, rfl⟩, rfl⟩ := hnamed.1 hincoming
      obtain ⟨r, hr, rfl⟩ := exists_of_repeated hc.repeated
      rw [Format.fromLevels_keyOf (hlen r hr)]
      constructor
      · intro h
        cases h
        exact ⟨_, hc, rfl⟩
      · rintro ⟨c, hc', rfl⟩
        rw [hc'.unique hlen hc]
        rfl
  · obtain ⟨out, hout⟩ := resolve_isOk horder hadmits fun h => absurd h hpolicy
    rw [hout]
    exact ⟨by rintro ⟨⟩, fun h => absurd h.1 hpolicy⟩

/-- Where coordinates are repeated, one of them is the first. -/
theorem exists_firstRepeated (hlen : ∀ e ∈ records, e.coordinate.length = p.format.order)
    (h : ¬ (records.map (·.coordinate)).Nodup) : ∃ c, p.FirstRepeated records c := by
  cases hresolve : resolveDuplicates p.format .reject (records.map p.keyed) with
  | ok out =>
    refine absurd (List.nodup_iff_count.2 fun c => ?_) h
    by_cases hc : 2 ≤ (records.map (·.coordinate)).count c
    · obtain ⟨e, he, rfl⟩ := exists_of_repeated hc
      have hcount := List.nodup_iff_count.1 (nodup_keys_of_reject hresolve) (p.format.keyOf e.coordinate)
      rwa [count_keyed hlen (Format.length_keyOf ..), Format.fromLevels_keyOf (hlen e he)] at hcount
    · omega
  | error e =>
    obtain ⟨k, hk, -⟩ := resolveDuplicates_reject_eq_error_iff.1 hresolve
    obtain ⟨c, hc, -⟩ := (firstRepeated_keyed_iff hlen).1 hk
    exact ⟨c, hc⟩

theorem exists_firstRepeated_iff (hlen : ∀ e ∈ records, e.coordinate.length = p.format.order) :
    (∃ c, p.FirstRepeated records c) ↔ ∃ c, 2 ≤ (records.map (·.coordinate)).count c := by
  constructor
  · rintro ⟨c, hc⟩
    exact ⟨c, hc.repeated⟩
  · rintro ⟨c, hc⟩
    refine exists_firstRepeated hlen fun hnodup => ?_
    exact Nat.not_succ_le_self 1 (Nat.le_trans hc (List.nodup_iff_count.1 hnodup c))

/-- New entries that were resolved under a policy that refuses repetitions have none. -/
theorem nodup_of_resolve (horder : p.format.order = p.dimensions.length) {out : List Record}
    (h : p.resolve stored records = .ok out) (hpolicy : p.policy = .reject) :
    (records.map (·.coordinate)).Nodup := by
  have hadmits := (resolve_eq_ok horder h).admits
  refine Decidable.byContradiction fun hrepeated => ?_
  obtain ⟨c, hc⟩ := exists_firstRepeated (p := p)
    (fun e he => (hadmits e (List.mem_append_right _ he)).length.trans horder.symm) hrepeated
  rw [(resolve_eq_error_iff horder hadmits).2 ⟨hpolicy, c, hc, rfl⟩] at h
  cases h

/-! ## Over stored entries -/

/-- The stored entries that no new one has the coordinate of. -/
def untouched (stored records : List Entry) : List Entry :=
  stored.filter fun e => e.coordinate ∉ records.map (·.coordinate)

theorem valuesAt_untouched (stored records : List Entry) (c : Coordinate) :
    valuesAt (untouched stored records) c = if c ∈ records.map (·.coordinate) then [] else valuesAt stored c := by
  by_cases hc : c ∈ records.map (·.coordinate)
  · rw [if_pos hc, valuesAt_eq_nil_iff]
    rintro e he rfl
    exact of_decide_eq_true (List.mem_filter.1 he).2 hc
  · rw [if_neg hc, valuesAt, untouched, List.filter_filter, valuesAt]
    refine congrArg _ (List.filter_congr fun e _ => ?_)
    by_cases he : e.coordinate = c
    · rw [decide_eq_true he, decide_eq_true (he ▸ hc)]
      rfl
    · rw [decide_eq_false he]
      rfl

/-- Under a policy that refuses repetitions, a new value replaces the stored one. -/
theorem settle?_untouched (hstored : (stored.map (·.coordinate)).Nodup) (hrecords : (records.map (·.coordinate)).Nodup)
    (c : Coordinate) : DuplicatePolicy.reject.settle? [] (valuesAt (untouched stored records ++ records) c) =
      DuplicatePolicy.reject.settle? (valuesAt stored c) (valuesAt records c) := by
  rw [valuesAt_append, valuesAt_untouched]
  by_cases hc : c ∈ records.map (·.coordinate)
  · obtain ⟨e, he, rfl⟩ := List.mem_map.1 hc
    have hlast : ∀ old : List Value, DuplicatePolicy.reject.settle? old [e.value] = some e.value := fun old => by
      show DuplicatePolicy.lastWins.resolve? (old ++ [e.value]) = _
      rw [DuplicatePolicy.resolve?_lastWins, List.getLast?_concat]
    rw [if_pos hc, List.nil_append, valuesAt_of_nodup hrecords he, hlast, hlast]
  · have hnil : valuesAt records c = [] := valuesAt_eq_nil_iff.2 fun e he he' => hc (he' ▸ List.mem_map_of_mem he)
    rw [if_neg hc, hnil, List.append_nil, head?_valuesAt hstored]
    cases (valuesAt stored c).head? <;> rfl

/-- **Under a policy that refuses repetitions, new entries of different coordinates replace the stored ones that they
meet.** -/
theorem merge_eq_pack_untouched (hpolicy : p.policy = .reject) (hstored : (stored.map (·.coordinate)).Nodup)
    (hrecords : (records.map (·.coordinate)).Nodup) (hadmits : ∀ e ∈ stored ++ records, p.Admits e) :
    p.merge stored records = p.pack (untouched stored records ++ records) := by
  have hadmits' : ∀ e ∈ [] ++ (untouched stored records ++ records), p.Admits e := fun e he =>
    hadmits e ((List.filter_sublist.append_right records).subset he)
  have hnodup : ((untouched stored records ++ records).map (·.coordinate)).Nodup := by
    rw [List.map_append]
    refine List.nodup_append.2 ⟨hstored.sublist (List.filter_sublist.map _), hrecords, ?_⟩
    rintro c hc c' hc' rfl
    obtain ⟨e, he, rfl⟩ := List.mem_map.1 hc
    exact of_decide_eq_true (List.mem_filter.1 he).2 hc'
  refine merge_congr hadmits hadmits' (fun _ => hrecords) (fun _ => hnodup) fun c => ?_
  rw [hpolicy, ← settle?_untouched hstored hrecords]
  rfl

end Packer

end TensorStorage
