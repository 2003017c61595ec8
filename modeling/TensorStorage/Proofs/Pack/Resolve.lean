import TensorStorage.Proofs.Outcome
import TensorStorage.Proofs.Pack.Order
/-!
# Resolve — one record for each key

Resolving duplicates leaves records in storage order, and the record of a key has the value that the policy makes of the
values at the key, in the order of arrival (`resolveDuplicates_eq_ok`).  It succeeds when the policy makes a value of
the values of every key (`resolveDuplicates_isOk`).
-/
namespace TensorStorage

namespace DuplicatePolicy

/-- The value that stands for two of one key. -/
def combine? (policy : DuplicatePolicy) (v w : Value) : Option Value :=
  match policy with
  | .lastWins => some w
  | .sum => v.add? w
  | .reject => none

/-- The value that stands for the values of one key. -/
def resolve? (policy : DuplicatePolicy) : List Value → Option Value
  | [] => none
  | v :: values => values.foldlM policy.combine? v

theorem combine_eq_ok {policy : DuplicatePolicy} {f : Format} {held next r : Record} :
    policy.combine f held next = .ok r ↔ policy.combine? held.value next.value = some r.value ∧ r.key = held.key := by
  obtain ⟨key, value⟩ := r
  cases policy with
  | lastWins => simp [combine, combine?, eq_comm, and_comm]
  | sum =>
    simp only [combine, combine?]
    cases held.value.add? next.value with
    | none => simp
    | some v => simp [eq_comm, and_comm]
  | reject => simp [combine, combine?]

theorem combine?_dtype {policy : DuplicatePolicy} {v w u : Value} (hw : w.dtype = v.dtype)
    (h : policy.combine? v w = some u) : u.dtype = v.dtype := by
  cases policy with
  | lastWins =>
    cases h
    exact hw
  | sum => exact Value.dtype_add? h
  | reject => cases h

theorem foldlM_combine?_dtype {policy : DuplicatePolicy} {d : DataType} : ∀ {values : List Value} {v u : Value},
    v.dtype = d → (∀ w ∈ values, w.dtype = d) → values.foldlM policy.combine? v = some u → u.dtype = d
  | [], v, u, hv, _, h => by
    cases h
    exact hv
  | w :: values, v, u, hv, hd, h => by
    rw [List.foldlM_cons, Option.bind_eq_bind, Option.bind_eq_some_iff] at h
    obtain ⟨x, hx, h⟩ := h
    have hw : w.dtype = v.dtype := by rw [hd w List.mem_cons_self, hv]
    exact foldlM_combine?_dtype ((combine?_dtype hw hx).trans hv) (fun w hw => hd w (List.mem_cons_of_mem _ hw)) h

theorem resolve?_dtype {policy : DuplicatePolicy} {d : DataType} {values : List Value} {u : Value}
    (hd : ∀ w ∈ values, w.dtype = d) (h : policy.resolve? values = some u) : u.dtype = d := by
  cases values with
  | nil => cases h
  | cons v values =>
    exact foldlM_combine?_dtype (hd v List.mem_cons_self) (fun w hw => hd w (List.mem_cons_of_mem _ hw)) h

theorem isSome_foldlM_combine? {policy : DuplicatePolicy} (hp : policy ≠ reject) {d : DataType} :
    ∀ {values : List Value} {v : Value}, v.dtype = d → (∀ w ∈ values, w.dtype = d) →
      (values.foldlM policy.combine? v).isSome
  | [], _, _, _ => rfl
  | w :: values, v, hv, hd => by
    have hw : w.dtype = v.dtype := by rw [hd w List.mem_cons_self, hv]
    obtain ⟨u, hu⟩ : ∃ u, policy.combine? v w = some u := by
      cases policy with
      | lastWins => exact ⟨w, rfl⟩
      | sum =>
        obtain ⟨y, hy⟩ := Option.ne_none_iff_exists'.1 fun h => (w.as?_eq_none_iff v.dtype).1 h hw
        exact ⟨_, by rw [combine?, Value.add?, hy]; rfl⟩
      | reject => exact absurd rfl hp
    rw [List.foldlM_cons, hu, Option.bind_eq_bind, Option.bind_some]
    exact isSome_foldlM_combine? hp ((combine?_dtype hw hu).trans hv) fun w hw => hd w (List.mem_cons_of_mem _ hw)

theorem isSome_resolve? {policy : DuplicatePolicy} (hp : policy ≠ reject) {d : DataType} {values : List Value}
    (hne : values ≠ []) (hd : ∀ w ∈ values, w.dtype = d) : (policy.resolve? values).isSome := by
  cases values with
  | nil => exact absurd rfl hne
  | cons v values =>
    exact isSome_foldlM_combine? hp (hd v List.mem_cons_self) fun w hw => hd w (List.mem_cons_of_mem _ hw)

theorem overStored_ne_reject (policy : DuplicatePolicy) : policy.overStored ≠ reject := by
  cases policy <;> simp [overStored]

theorem foldlM_lastWins : ∀ (values : List Value) (v : Value),
    values.foldlM lastWins.combine? v = (v :: values).getLast?
  | [], _ => rfl
  | w :: values, v => by
    rw [List.foldlM_cons, List.getLast?_cons_cons, ← foldlM_lastWins values w]
    rfl

theorem resolve?_lastWins (values : List Value) : lastWins.resolve? values = values.getLast? := by
  cases values with
  | nil => rfl
  | cons v values => exact foldlM_lastWins values v

/-- Only a single value passes a policy that refuses repetitions. -/
theorem resolve?_reject {values : List Value} {u : Value} (h : reject.resolve? values = some u) : values = [u] := by
  match values, h with
  | [v], h =>
    cases h
    rfl
  | _ :: _ :: _, h => cases h

theorem resolve?_cons_cons {policy : DuplicatePolicy} {v w u : Value} {values : List Value}
    (h : policy.combine? v w = some u) : policy.resolve? (v :: w :: values) = policy.resolve? (u :: values) := by
  simp [resolve?, h]

end DuplicatePolicy

/-- The values of the records of one key, in their order. -/
def valuesOf (records : List Record) (k : Coordinate) : List Value := (records.filter (·.key = k)).map (·.value)

theorem valuesOf_append (l m : List Record) (k : Coordinate) : valuesOf (l ++ m) k = valuesOf l k ++ valuesOf m k := by
  rw [valuesOf, List.filter_append, List.map_append]; rfl

theorem valuesOf_cons_self (r : Record) (records : List Record) :
    valuesOf (r :: records) r.key = r.value :: valuesOf records r.key := by
  simp [valuesOf]

theorem valuesOf_cons_of_ne {r : Record} {k : Coordinate} (h : r.key ≠ k) (records : List Record) :
    valuesOf (r :: records) k = valuesOf records k := by
  simp [valuesOf, h]

theorem valuesOf_sortRecords (records : List Record) (k : Coordinate) :
    valuesOf (sortRecords records) k = valuesOf records k := by
  rw [valuesOf, filter_sortRecords]; rfl

theorem valuesOf_eq_nil_iff {records : List Record} {k : Coordinate} :
    valuesOf records k = [] ↔ ∀ r ∈ records, r.key ≠ k := by
  simp [valuesOf]

theorem InOrder.valuesOf_eq : ∀ {records : List Record}, InOrder records → ∀ {r : Record}, r ∈ records →
    valuesOf records r.key = [r.value]
  | [], _, _, hr => by cases hr
  | a :: records, h, r, hr => by
    have ha : ∀ b ∈ records, a.key.Before b.key := fun b hb => List.rel_of_pairwise_cons h hb
    rcases List.mem_cons.1 hr with rfl | hr
    · rw [valuesOf_cons_self, valuesOf_eq_nil_iff.2 fun b hb => (ha b hb).2.symm]
    · rw [valuesOf_cons_of_ne (ha r hr).2, InOrder.valuesOf_eq h.of_cons hr]

section Collapse

variable {f : Format} {policy : DuplicatePolicy}

theorem before_of_mem {held next : Record} {rest : List Record}
    (hs : (held :: next :: rest).Pairwise fun r s => r.key.le s.key = true) (hkey : next.key ≠ held.key) :
    ∀ r ∈ next :: rest, held.key.Before r.key := by
  intro r hr
  have hnext : held.key.Before next.key := ⟨List.rel_of_pairwise_cons hs List.mem_cons_self, Ne.symm hkey⟩
  rcases List.mem_cons.1 hr with rfl | hr
  · exact hnext
  · exact hnext.trans_le (List.rel_of_pairwise_cons hs.of_cons hr)

theorem exists_key_of_resolve? {records : List Record} {k : Coordinate} {v : Value}
    (h : policy.resolve? (valuesOf records k) = some v) : ∃ s ∈ records, s.key = k := by
  have hne : valuesOf records k ≠ [] := fun hnil => by
    rw [hnil] at h
    cases h
  rw [ne_eq, valuesOf_eq_nil_iff] at hne
  simpa only [ne_eq, Classical.not_forall, Classical.not_not, exists_prop] using hne

/-- A record whose key comes nowhere else stands for itself. -/
theorem resolve?_valuesOf_cons_iff {held r : Record} {rest : List Record} (hnone : valuesOf rest held.key = []) :
    policy.resolve? (valuesOf (held :: rest) r.key) = some r.value ↔
      r = held ∨ policy.resolve? (valuesOf rest r.key) = some r.value := by
  by_cases hr : held.key = r.key
  · rw [← hr, valuesOf_cons_self, hnone]
    obtain ⟨key, value⟩ := r
    obtain ⟨hkey, hvalue⟩ := held
    obtain rfl : hkey = key := hr
    simp [DuplicatePolicy.resolve?, eq_comm]
  · have hne : r ≠ held := fun heq => hr (by rw [heq])
    rw [valuesOf_cons_of_ne hr, or_iff_right hne]

/-- Two records of one key come to what the record that stands for them comes to. -/
theorem resolve?_valuesOf_combine {held next held' : Record} (hcombine : policy.combine f held next = .ok held')
    (hkey : next.key = held.key) (rest : List Record) (k : Coordinate) :
    policy.resolve? (valuesOf (held' :: rest) k) = policy.resolve? (valuesOf (held :: next :: rest) k) := by
  obtain ⟨hvalue, hkey'⟩ := DuplicatePolicy.combine_eq_ok.1 hcombine
  by_cases hk : held.key = k
  · have hheld := valuesOf_cons_self held' rest
    have hnext := valuesOf_cons_self next rest
    rw [hkey'] at hheld
    rw [hkey] at hnext
    rw [← hk, hheld, valuesOf_cons_self, hnext, DuplicatePolicy.resolve?_cons_cons hvalue]
  · rw [valuesOf_cons_of_ne (hkey' ▸ hk), valuesOf_cons_of_ne hk, valuesOf_cons_of_ne (hkey ▸ hk)]

/-- **What collapsing sorted records gives**: records in order, each with the value of its key. -/
theorem collapseFrom_eq_ok : ∀ {rest : List Record} {held : Record} {out : List Record},
    (held :: rest).Pairwise (fun r s => r.key.le s.key = true) → collapseFrom f policy held rest = .ok out →
      InOrder out ∧ ∀ r, r ∈ out ↔ policy.resolve? (valuesOf (held :: rest) r.key) = some r.value
  | [], held, out, _, h => by
    cases h
    refine ⟨List.pairwise_singleton _ _, fun r => ?_⟩
    rw [resolve?_valuesOf_cons_iff rfl]
    simp [valuesOf, DuplicatePolicy.resolve?]
  | next :: rest, held, out, hs, h => by
    rw [collapseFrom] at h
    by_cases hkey : next.key = held.key
    · rw [if_pos hkey, bind_eq_ok] at h
      obtain ⟨held', hcombine, h⟩ := h
      have hkey' := (DuplicatePolicy.combine_eq_ok.1 hcombine).2
      have hs' : (held' :: rest).Pairwise fun r s => r.key.le s.key = true := by
        refine List.pairwise_cons.2 ⟨fun r hr => ?_, hs.of_cons.of_cons⟩
        exact hkey' ▸ List.rel_of_pairwise_cons hs (List.mem_cons_of_mem _ hr)
      obtain ⟨hin, hmem⟩ := collapseFrom_eq_ok hs' h
      exact ⟨hin, fun r => by rw [hmem, resolve?_valuesOf_combine hcombine hkey]⟩
    · rw [if_neg hkey, bind_eq_ok] at h
      obtain ⟨resolved, hresolved, h⟩ := h
      cases h
      have hbefore := before_of_mem hs hkey
      obtain ⟨hin, hmem⟩ := collapseFrom_eq_ok hs.of_cons hresolved
      refine ⟨List.pairwise_cons.2 ⟨fun r hr => ?_, hin⟩, fun r => ?_⟩
      · -- a record that is left has the key of one that came in
        obtain ⟨s, hs, hkey⟩ := exists_key_of_resolve? ((hmem r).1 hr)
        exact hkey ▸ hbefore s hs
      · have hnone := valuesOf_eq_nil_iff.2 fun r hr => (hbefore r hr).2.symm
        rw [List.mem_cons, hmem]
        exact (resolve?_valuesOf_cons_iff hnone).symm

/-- Collapsing loses no key. -/
theorem exists_mem_of_collapseFrom : ∀ {rest : List Record} {held : Record} {out : List Record},
    collapseFrom f policy held rest = .ok out → ∀ r ∈ held :: rest, ∃ s ∈ out, s.key = r.key
  | [], held, out, h, r, hr => by
    cases h
    exact ⟨r, hr, rfl⟩
  | next :: rest, held, out, h, r, hr => by
    rw [collapseFrom] at h
    split at h
    · rename_i hkey
      rw [bind_eq_ok] at h
      obtain ⟨held', hcombine, h⟩ := h
      obtain ⟨-, hkey'⟩ := DuplicatePolicy.combine_eq_ok.1 hcombine
      have ih := exists_mem_of_collapseFrom h
      rcases List.mem_cons.1 hr with rfl | hr
      · rw [← hkey']
        exact ih held' List.mem_cons_self
      · rcases List.mem_cons.1 hr with rfl | hr
        · rw [hkey, ← hkey']
          exact ih held' List.mem_cons_self
        · exact ih r (List.mem_cons_of_mem _ hr)
    · simp only [bind_eq_ok] at h
      obtain ⟨resolved, hresolved, h⟩ := h
      cases h
      rcases List.mem_cons.1 hr with rfl | hr
      · exact ⟨r, List.mem_cons_self, rfl⟩
      · obtain ⟨s, hs, hkey⟩ := exists_mem_of_collapseFrom hresolved r hr
        exact ⟨s, List.mem_cons_of_mem _ hs, hkey⟩

theorem exists_mem_of_resolveDuplicates {records out : List Record} (h : resolveDuplicates f policy records = .ok out)
    {r : Record} (hr : r ∈ records) : ∃ s ∈ out, s.key = r.key := by
  rw [← mem_sortRecords] at hr
  rw [resolveDuplicates] at h
  cases hsorted : sortRecords records with
  | nil =>
    rw [hsorted] at hr
    cases hr
  | cons first rest =>
    rw [hsorted] at h hr
    exact exists_mem_of_collapseFrom h r hr

theorem resolveDuplicates_eq_ok {records out : List Record} (h : resolveDuplicates f policy records = .ok out) :
    InOrder out ∧ ∀ r, r ∈ out ↔ policy.resolve? (valuesOf records r.key) = some r.value := by
  have hs := pairwise_sortRecords records
  have hvalues := valuesOf_sortRecords records
  rw [resolveDuplicates] at h
  cases hsorted : sortRecords records with
  | nil =>
    rw [hsorted] at h hvalues
    cases h
    refine ⟨List.Pairwise.nil, fun r => ?_⟩
    rw [← hvalues]
    simp [valuesOf, DuplicatePolicy.resolve?]
  | cons first rest =>
    rw [hsorted] at h hs hvalues
    obtain ⟨hin, hmem⟩ := collapseFrom_eq_ok hs h
    exact ⟨hin, fun r => by rw [hmem, hvalues]⟩

theorem collapseFrom_isOk : ∀ {rest : List Record} {held : Record},
    (held :: rest).Pairwise (fun r s => r.key.le s.key = true) →
      (∀ r ∈ held :: rest, (policy.resolve? (valuesOf (held :: rest) r.key)).isSome) →
      ∃ out, collapseFrom f policy held rest = .ok out
  | [], held, _, _ => ⟨[held], rfl⟩
  | next :: rest, held, hsorted, h => by
    rw [collapseFrom]
    by_cases hkey : next.key = held.key
    · obtain ⟨u, hcombine⟩ : ∃ u, policy.combine? held.value next.value = some u := by
        have hheld := h held List.mem_cons_self
        have hnext := valuesOf_cons_self next rest
        rw [hkey] at hnext
        rw [valuesOf_cons_self, hnext] at hheld
        cases hcombine : policy.combine? held.value next.value with
        | none => simp [DuplicatePolicy.resolve?, hcombine] at hheld
        | some u => exact ⟨u, rfl⟩
      have hheld' : policy.combine f held next = .ok ⟨held.key, u⟩ :=
        DuplicatePolicy.combine_eq_ok.2 ⟨hcombine, rfl⟩
      rw [if_pos hkey, hheld', ok_bind]
      refine collapseFrom_isOk (List.pairwise_cons.2 ⟨fun r hr => ?_, hsorted.of_cons.of_cons⟩) fun r hr => ?_
      · exact List.rel_of_pairwise_cons hsorted (List.mem_cons_of_mem _ hr)
      · rw [resolve?_valuesOf_combine hheld' hkey]
        rcases List.mem_cons.1 hr with rfl | hr
        · exact h held List.mem_cons_self
        · exact h r (List.mem_cons_of_mem _ (List.mem_cons_of_mem _ hr))
    · obtain ⟨out, hout⟩ : ∃ out, collapseFrom f policy next rest = .ok out := by
        refine collapseFrom_isOk hsorted.of_cons fun r hr => ?_
        rw [← valuesOf_cons_of_ne (before_of_mem hsorted hkey r hr).2]
        exact h r (List.mem_cons_of_mem _ hr)
      rw [if_neg hkey, hout]
      exact ⟨held :: out, rfl⟩

theorem resolveDuplicates_isOk {records : List Record}
    (h : ∀ r ∈ records, (policy.resolve? (valuesOf records r.key)).isSome) :
    ∃ out, resolveDuplicates f policy records = .ok out := by
  have hs := pairwise_sortRecords records
  have hvalues := valuesOf_sortRecords records
  have hmem : ∀ r, r ∈ sortRecords records ↔ r ∈ records := fun _ => mem_sortRecords
  rw [resolveDuplicates]
  cases hsorted : sortRecords records with
  | nil => exact ⟨[], rfl⟩
  | cons first rest =>
    rw [hsorted] at hs hvalues hmem
    exact collapseFrom_isOk hs fun r hr => by rw [hvalues]; exact h r ((hmem r).1 hr)

end Collapse

end TensorStorage
