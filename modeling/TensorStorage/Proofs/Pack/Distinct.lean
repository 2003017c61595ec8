import TensorStorage.Proofs.Pack.Merge
/-!
# Distinct — packing entries of different coordinates

Where no coordinate comes twice there is nothing to resolve: the records are sorted and laid out as they are
(`Packer.resolve_of_nodup`).  So the duplicate policy makes no difference (`Packer.pack_policy`).
-/
namespace TensorStorage

section Collapse

variable {f : Format} {policy : DuplicatePolicy} {records : List Record}

theorem collapseFrom_of_inOrder : ∀ {rest : List Record} {held : Record}, InOrder (held :: rest) →
    collapseFrom f policy held rest = .ok (held :: rest)
  | [], _, _ => rfl
  | next :: rest, held, h => by
    have hne : next.key ≠ held.key := (List.rel_of_pairwise_cons h List.mem_cons_self).2.symm
    rw [collapseFrom, if_neg hne, collapseFrom_of_inOrder h.of_cons]
    rfl

theorem sortRecords_of_inOrder (h : InOrder records) : sortRecords records = records :=
  List.mergeSort_of_pairwise (h.imp fun hab => hab.1)

theorem inOrder_sortRecords (h : (records.map (·.key)).Nodup) : InOrder (sortRecords records) := by
  have hne : (sortRecords records).Pairwise fun r s => r.key ≠ s.key := by
    rw [← List.pairwise_map (f := Record.key)]
    exact ((List.mergeSort_perm records _).map _).nodup_iff.2 h
  exact (pairwise_sortRecords records).and hne

theorem sortRecords_perm {records' : List Record} (h : (records.map (·.key)).Nodup) (hperm : records.Perm records') :
    sortRecords records = sortRecords records' := by
  have h' : (records'.map (·.key)).Nodup := (hperm.map _).nodup_iff.1 h
  refine (inOrder_sortRecords h).eq_of_mem_iff (inOrder_sortRecords h') fun r => ?_
  rw [mem_sortRecords, mem_sortRecords, hperm.mem_iff]

theorem resolveDuplicates_of_nodup (h : (records.map (·.key)).Nodup) :
    resolveDuplicates f policy records = .ok (sortRecords records) := by
  have hsorted := inOrder_sortRecords h
  unfold resolveDuplicates
  cases hrecords : sortRecords records with
  | nil => rfl
  | cons first rest =>
    rw [hrecords] at hsorted
    exact collapseFrom_of_inOrder hsorted

end Collapse

theorem Format.keyOf_inj {f : Format} {c c' : Coordinate} (hc : c.length = f.order) (hc' : c'.length = f.order)
    (h : f.keyOf c = f.keyOf c') : c = c' := by
  rw [← fromLevels_keyOf hc, h, fromLevels_keyOf hc']

theorem Format.nodup_map_keyOf {f : Format} {entries : List Entry} (hlen : ∀ e ∈ entries, e.coordinate.length = f.order)
    (h : (entries.map (·.coordinate)).Nodup) : (entries.map fun e => f.keyOf e.coordinate).Nodup := by
  refine List.pairwise_map.2 ((List.pairwise_map.1 h).imp_of_mem fun {a b} ha hb hne he => hne ?_)
  exact keyOf_inj (hlen a ha) (hlen b hb) he

namespace Packer

variable {p : Packer} {stored records entries : List Entry}

theorem nodup_keys_keyed (horder : p.format.order = p.dimensions.length) (hadmits : ∀ e ∈ entries, p.Admits e)
    (h : (entries.map (·.coordinate)).Nodup) : ((entries.map p.keyed).map (·.key)).Nodup := by
  rw [List.map_map]
  exact Format.nodup_map_keyOf (fun e he => (hadmits e he).length.trans horder.symm) h

/-- **Entries of different coordinates resolve to themselves**, under every policy. -/
theorem resolve_of_nodup (horder : p.format.order = p.dimensions.length) (hadmits : ∀ e ∈ entries, p.Admits e)
    (h : (entries.map (·.coordinate)).Nodup) : p.resolve [] entries = .ok (sortRecords (entries.map p.keyed)) := by
  have hkeys := nodup_keys_keyed horder hadmits h
  have hsorted := inOrder_sortRecords hkeys
  have hnil : p.collect [] = .ok [] := rfl
  unfold resolve
  simp only [hnil, (collect_eq_ok horder).2 ⟨hadmits, rfl⟩, ok_bind, resolveDuplicates_of_nodup hkeys, List.nil_append,
    resolveDuplicates_of_nodup hsorted.nodup_keys, Outcome.liftM_checked, Outcome.ofChecked_ok,
    sortRecords_of_inOrder hsorted]

/-- The policy is read where entries are resolved, and nowhere else. -/
theorem merge_policy_of_resolve {policy : DuplicatePolicy}
    (h : p.check = .ok () → { p with policy }.resolve stored records = p.resolve stored records) :
    { p with policy }.merge stored records = p.merge stored records := by
  have hcheck : { p with policy }.check = p.check := rfl
  cases hc : p.check with
  | error e => rw [merge_of_check_eq_error (hcheck.trans hc), merge_of_check_eq_error hc]
  | ok u =>
    simp only [merge, hcheck, h hc]
    rfl

/-- **The policy makes no difference** to entries of different coordinates, be they packed or refused. -/
theorem pack_policy (h : (entries.map (·.coordinate)).Nodup) (policy : DuplicatePolicy) :
    { p with policy }.pack entries = p.pack entries := by
  have hcollect : ∀ entries, { p with policy }.collect entries = p.collect entries := fun _ => rfl
  refine merge_policy_of_resolve fun hc => ?_
  have horder := (check_eq_ok hc).1
  cases hentries : p.collect entries with
  | error e =>
    have hnil : p.collect [] = .ok [] := rfl
    simp only [resolve, hcollect, hnil, hentries, ok_bind, error_bind]
  | ok out =>
    obtain ⟨hadmits, -⟩ := (collect_eq_ok horder).1 hentries
    rw [resolve_of_nodup horder hadmits h, resolve_of_nodup (p := { p with policy }) horder
      (fun e he => ⟨(hadmits e he).length, (hadmits e he).dtype, (hadmits e he).inBounds⟩) h]
    rfl

/-- Over stored entries, policies that meet these alike make no difference to new entries of different coordinates. -/
theorem merge_policy (h : (records.map (·.coordinate)).Nodup) {policy : DuplicatePolicy}
    (hover : policy.overStored = p.policy.overStored) :
    { p with policy }.merge stored records = p.merge stored records := by
  have hcollect : ∀ entries, { p with policy }.collect entries = p.collect entries := fun _ => rfl
  refine merge_policy_of_resolve fun hc => ?_
  have horder := (check_eq_ok hc).1
  cases hrecords : p.collect records with
  | error e => simp only [resolve, hcollect, hrecords, error_bind]
  | ok keyed =>
    obtain ⟨hadmits, rfl⟩ := (collect_eq_ok horder).1 hrecords
    simp only [resolve, hcollect, hrecords, ok_bind, resolveDuplicates_of_nodup (nodup_keys_keyed horder hadmits h),
      hover]

end Packer

end TensorStorage
