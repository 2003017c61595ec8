/-!
# Lists — elements that are mapped alike, and different elements

A list is mapped the same way by functions that agree on its elements.  A list has no more different elements than any
list that has them all.
-/
namespace TensorStorage

variable {α β : Type}

theorem flatMap_congr_left {l : List α} {g g' : α → List β} (h : ∀ a ∈ l, g a = g' a) : l.flatMap g = l.flatMap g' := by
  rw [List.flatMap_def, List.flatMap_def, List.map_congr_left h]

theorem filterMap_congr_left {g g' : α → Option β} : ∀ {l : List α}, (∀ a ∈ l, g a = g' a) →
    l.filterMap g = l.filterMap g'
  | [], _ => rfl
  | a :: l, h => by
    have ih := filterMap_congr_left fun a ha => h a (List.mem_cons_of_mem _ ha)
    rw [List.filterMap_cons, List.filterMap_cons, h a List.mem_cons_self, ih]

theorem filterMap_eq_map_of_some {g : α → Option β} {g' : α → β} {l : List α} (h : ∀ a ∈ l, g a = some (g' a)) :
    l.filterMap g = l.map g' := by
  rw [← List.filterMap_eq_map]
  exact filterMap_congr_left h

theorem map_some_filterMap {g : α → Option β} : ∀ {l : List α}, (∀ a ∈ l, (g a).isSome) →
    (l.filterMap g).map some = l.map g
  | [], _ => rfl
  | a :: l, h => by
    obtain ⟨b, hb⟩ := Option.isSome_iff_exists.1 (h a List.mem_cons_self)
    rw [List.filterMap_cons_some hb, List.map_cons, List.map_cons, hb,
      map_some_filterMap fun a ha => h a (List.mem_cons_of_mem _ ha)]

/-- A computation that succeeds on every element lists the results. -/
theorem mapM_eq_pure {m : Type → Type} [Monad m] [LawfulMonad m] {g : α → m β} {g' : α → β} : ∀ {l : List α},
    (∀ a ∈ l, g a = pure (g' a)) → l.mapM g = pure (l.map g')
  | [], _ => List.mapM_nil
  | a :: l, h => by
    rw [List.mapM_cons, h a List.mem_cons_self, mapM_eq_pure fun a ha => h a (List.mem_cons_of_mem _ ha)]
    simp

theorem length_filter_eq_count [BEq β] [LawfulBEq β] [DecidableEq β] (g : α → β) (l : List α) (b : β) :
    (l.filter (g · = b)).length = (l.map g).count b := by
  rw [List.count, List.countP_map, List.countP_eq_length_filter]
  exact congrArg List.length (List.filter_congr fun a _ => (Bool.beq_eq_decide_eq (g a) b).symm)

theorem nodup_eraseDups [BEq α] [LawfulBEq α] : ∀ l : List α, l.eraseDups.Nodup
  | [] => List.nodup_nil
  | a :: l => by
    rw [List.eraseDups_cons, List.nodup_cons]
    exact ⟨by simp, nodup_eraseDups _⟩
termination_by l => l.length
decreasing_by exact Nat.lt_succ_of_le (List.length_filter_le _ _)

theorem length_eraseDups_le [BEq α] [LawfulBEq α] {l m : List α} (h : ∀ a ∈ l, a ∈ m) :
    l.eraseDups.length ≤ m.length :=
  (nodup_eraseDups l).length_le_of_subset fun a ha => h a (List.mem_eraseDups.1 ha)

end TensorStorage
