import TensorStorage.Pack.Duplicates
/-!
# Order — storage order and stable sorting

Keys stand in storage order when each is before the next (`Coordinate.Before`).  Such a list is determined by its
members (`eq_of_mem_iff`).  Sorting records keeps the order of those of one key (`filter_sortRecords`).
-/
namespace TensorStorage

namespace Coordinate

/-- The first comes before the second and is not the second. -/
def Before (a b : Coordinate) : Prop := a.le b = true ∧ a ≠ b

theorem le_refl : ∀ a : Coordinate, le a a = true
  | [] => rfl
  | a :: as => (le_cons_iff a a as as).2 (.inr ⟨rfl, le_refl as⟩)

namespace Before

variable {a b c : Coordinate}

theorem irrefl (a : Coordinate) : ¬ Before a a := fun h => h.2 rfl

theorem asymm (h : Before a b) : ¬ Before b a := fun h' => h.2 (le_antisymm h.1 h'.1)

theorem trans_le (h : Before a b) (h' : le b c = true) : Before a c := by
  refine ⟨le_trans a b c h.1 h', ?_⟩
  rintro rfl
  exact h.2 (le_antisymm h.1 h')

theorem trans (h : Before a b) (h' : Before b c) : Before a c := h.trans_le h'.1

theorem cons_iff {x y : Nat} {as bs : Coordinate} : Before (x :: as) (y :: bs) ↔ x < y ∨ x = y ∧ Before as bs := by
  simp only [Before, le_cons_iff, ne_eq, List.cons.injEq, not_and]
  constructor
  · rintro ⟨h | ⟨rfl, h⟩, hne⟩
    · exact .inl h
    · exact .inr ⟨rfl, h, hne rfl⟩
  · rintro (h | ⟨rfl, h, hne⟩)
    · exact ⟨.inl h, fun he => absurd he (Nat.ne_of_lt h)⟩
    · exact ⟨.inr ⟨rfl, h⟩, fun _ => hne⟩

theorem append_left (h : Before a b) : ∀ c : Coordinate, Before (c ++ a) (c ++ b)
  | [] => h
  | _ :: c => cons_iff.2 (.inr ⟨rfl, append_left h c⟩)

theorem append : ∀ {a b : Coordinate}, a.length = b.length → Before a b → ∀ x y : Coordinate, Before (a ++ x) (b ++ y)
  | [], [], _, h, _, _ => absurd h (irrefl [])
  | a :: as, b :: bs, hlen, h, x, y => by
    rw [cons_iff] at h
    rw [List.cons_append, List.cons_append, cons_iff]
    refine h.imp_right fun ⟨he, hs⟩ => ⟨he, append (by simpa using hlen) hs x y⟩
  | [], _ :: _, hlen, _, _, _ => by cases hlen
  | _ :: _, [], hlen, _, _, _ => by cases hlen

end Before

theorem take_le_take : ∀ (n : Nat) {a b : Coordinate}, le a b = true → le (a.take n) (b.take n) = true
  | 0, _, _, _ => by simp [le]
  | n + 1, [], _, _ => by simp [le]
  | n + 1, _ :: _, [], h => by simp [le] at h
  | n + 1, a :: as, b :: bs, h => by
    rw [le_cons_iff] at h
    rw [List.take_succ_cons, List.take_succ_cons, le_cons_iff]
    rcases h with hlt | ⟨he, hs⟩
    · exact .inl hlt
    · exact .inr ⟨he, take_le_take n hs⟩

end Coordinate

/-! ## Lists in order -/

/-- **A list in a strict order is determined by its members.** -/
theorem eq_of_mem_iff {α : Type} {R : α → α → Prop} (hirrefl : ∀ a, ¬ R a a) (hasymm : ∀ a b, R a b → ¬ R b a)
    {l l' : List α} (hl : l.Pairwise R) (hl' : l'.Pairwise R) (h : ∀ a, a ∈ l ↔ a ∈ l') : l = l' := by
  have hnodup : ∀ {l : List α}, l.Pairwise R → l.Nodup := fun hl => hl.imp fun {a b} hab => by
    rintro rfl
    exact hirrefl a hab
  refine List.Perm.eq_of_pairwise (fun a b _ _ hab hba => absurd hba (hasymm a b hab)) hl hl' ?_
  exact (List.perm_ext_iff_of_nodup (hnodup hl) (hnodup hl')).2 h

theorem Coordinate.eq_of_mem_iff {l l' : List Coordinate} (hl : l.Pairwise Before) (hl' : l'.Pairwise Before)
    (h : ∀ a, a ∈ l ↔ a ∈ l') : l = l' :=
  TensorStorage.eq_of_mem_iff Before.irrefl (fun _ _ => Before.asymm) hl hl' h

/-- **Records in storage order, one for each key.** -/
def InOrder (records : List Record) : Prop := records.Pairwise fun r s => r.key.Before s.key

namespace InOrder

theorem eq_of_mem_iff {l l' : List Record} (hl : InOrder l) (hl' : InOrder l') (h : ∀ r, r ∈ l ↔ r ∈ l') : l = l' :=
  TensorStorage.eq_of_mem_iff (R := fun r s : Record => r.key.Before s.key) (fun r => Coordinate.Before.irrefl r.key)
    (fun _ _ => Coordinate.Before.asymm) hl hl' h

theorem eq_of_key_eq : ∀ {records : List Record}, InOrder records → ∀ {r s : Record}, r ∈ records → s ∈ records →
    r.key = s.key → r = s
  | [], _, _, _, hr, _, _ => by cases hr
  | a :: records, h, r, s, hr, hs, hkey => by
    have ha : ∀ b ∈ records, a.key.Before b.key := fun b hb => List.rel_of_pairwise_cons h hb
    rcases List.mem_cons.1 hr with hra | hr' <;> rcases List.mem_cons.1 hs with hsa | hs'
    · rw [hra, hsa]
    · exact absurd hkey (hra ▸ ha s hs').2
    · exact absurd hkey.symm (hsa ▸ ha r hr').2
    · exact eq_of_key_eq h.of_cons hr' hs' hkey

theorem nodup_keys {records : List Record} (h : InOrder records) : (records.map (·.key)).Nodup :=
  List.pairwise_map.2 (h.imp fun hab => hab.2)

end InOrder

/-! ## Sorting -/

theorem pairwise_sortRecords (records : List Record) :
    (sortRecords records).Pairwise fun r s => r.key.le s.key = true :=
  List.pairwise_mergeSort (fun r s t => Coordinate.le_trans r.key s.key t.key)
    (fun r s => Coordinate.le_total r.key s.key) records

theorem mem_sortRecords {records : List Record} {r : Record} : r ∈ sortRecords records ↔ r ∈ records :=
  List.mem_mergeSort

/-- **Sorting is stable**: the records of one key stay in the order of arrival. -/
theorem filter_sortRecords (records : List Record) (k : Coordinate) :
    (sortRecords records).filter (·.key = k) = records.filter (·.key = k) := by
  have hsorted : (records.filter (·.key = k)).Pairwise fun r s => r.key.le s.key = true := by
    refine List.pairwise_of_forall_mem_list fun r hr s hs => ?_
    have hr := (List.mem_filter.1 hr).2
    have hs := (List.mem_filter.1 hs).2
    simp only [decide_eq_true_eq] at hr hs
    rw [hr, hs]
    exact Coordinate.le_refl k
  have hsub : (records.filter (·.key = k)).Sublist (sortRecords records) :=
    List.sublist_mergeSort (fun r s t => Coordinate.le_trans r.key s.key t.key)
      (fun r s => Coordinate.le_total r.key s.key) hsorted List.filter_sublist
  have hsub' := hsub.filter (·.key = k)
  rw [List.filter_filter] at hsub'
  simp only [Bool.and_self] at hsub'
  have hlen : (records.filter (·.key = k)).length = ((sortRecords records).filter (·.key = k)).length :=
    ((List.mergeSort_perm records _).filter _).length_eq.symm
  exact (hsub'.eq_of_length hlen).symm

end TensorStorage
