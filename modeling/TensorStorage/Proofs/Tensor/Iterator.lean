import TensorStorage.Proofs.Walk.Iteration
import TensorStorage.Tensor.Iterator
/-!
# Iterator — iterating over a tensor yields what its storage lists

While a tensor keeps its generation and its storage passes the checks, the calls of an iterator answer the entries of
the nested recursion and then nothing (`Tensor.yields_of_checkedLevels`).
-/
namespace TensorStorage

variable {t : Tensor} {s : Storage} {levels : List Level}

namespace TensorIterator

/-- **An iterator with these entries ahead of it.** -/
def EntriesAhead (t : Tensor) (s : Storage) (levels : List Level) (i : TensorIterator) (items : List Entry) : Prop :=
  t.generation = i.generation ∧
    ∃ ahead, i.cursor.Ahead levels ahead ∧ ahead.map (s.atLeaf? t.format) = items.map some

/-- **A call in the tensor's generation answers the first leaf ahead**, with the value that it has now. -/
theorem next?_of_ahead {i : TensorIterator} {ahead : List (Coordinate × Nat)} (hs : t.storage? = some s)
    (hlevels : s.checkedLevels t.format = .ok levels) (hgeneration : t.generation = i.generation)
    (hc : i.cursor.Ahead levels ahead) :
    ∃ c', i.next? t = some (ahead.head?.bind (s.atLeaf? t.format), { i with cursor := c' }) ∧
      c'.Ahead levels ahead.tail ∧ c'.produced + ahead.tail.length = i.produced + ahead.length := by
  obtain ⟨hl, hn, -⟩ := Storage.levelsNested_of_checkedLevels hlevels
  obtain ⟨c', hadvance, hahead, hcoord, hproduced⟩ := Cursor.advance?_ahead hn hc
  have hread : i.levels? t = some (s, levels) := by
    unfold levels?
    rw [if_neg (fun h => h hgeneration), hs]
    show (s.levels t.format).toOption.map (s, ·) = some (s, levels)
    rw [hl]
    rfl
  refine ⟨c', ?_, hahead, hproduced⟩
  unfold next?
  rw [hread]
  simp only [hadvance, Option.bind_eq_bind, Option.bind_some, Option.pure_def]
  cases ahead with
  | nil => rfl
  | cons leaf more =>
    have hleaf : c'.levelCoordinate = leaf.1 := hcoord leaf rfl
    simp only [List.head?_cons, Option.map_some, Option.bind_some, Storage.atLeaf?, Cursor.coordinate, hleaf]

/-- **A call in another generation answers nothing.** -/
theorem next?_of_ne {i : TensorIterator} (h : t.generation ≠ i.generation) : i.next? t = some (none, i) := by
  unfold next? levels?
  rw [if_pos h]

theorem length_of_ne {i : TensorIterator} (h : t.generation ≠ i.generation) : i.length t = 0 := by
  unfold length
  cases t.storage? with
  | none => rfl
  | some s => exact if_neg h

theorem stepsThrough (hs : t.storage? = some s) (hlevels : s.checkedLevels t.format = .ok levels) :
    StepsThrough (next? t) (EntriesAhead t s levels) := by
  rintro i items ⟨hgeneration, ahead, hc, hitems⟩
  obtain ⟨c', hnext, hahead, -⟩ := next?_of_ahead hs hlevels hgeneration hc
  refine ⟨{ i with cursor := c' }, ?_, hgeneration, ahead.tail, hahead, ?_⟩
  · rw [hnext]
    cases ahead with
    | nil => cases items with
      | nil => rfl
      | cons e items => cases hitems
    | cons leaf more => cases items with
      | nil => cases hitems
      | cons e items => rw [List.head?_cons, Option.bind_some, (List.cons.inj hitems).1, List.head?_cons]
  · rw [List.map_tail, List.map_tail, hitems]

end TensorIterator

namespace Tensor

/-- **An iterator over the tensor answers these entries**, and nothing after them. -/
def Yields (t : Tensor) (es : List Entry) : Prop :=
  ∃ i, t.iterator = .ok i ∧ ∀ n, ∃ j, calls? (TensorIterator.next? t) n i =
    some ((es.take n).map some ++ List.replicate (n - es.length) none, j)

/-- **An iterator is made over a storage that passes the checks**, before the first of its leaves. -/
theorem iterator_eq_ok_iff {i : TensorIterator} : t.iterator = .ok i ↔ ∃ s levels, t.storage? = some s ∧
    s.checkedLevels t.format = .ok levels ∧ i = ⟨.new levels.length, t.generation⟩ := by
  constructor
  · intro h
    cases hs : t.storage? with
    | none =>
      unfold iterator storage at h
      rw [hs] at h
      cases h
    | some s =>
      simp only [iterator, storage, hs, ok_bind, bind_eq_ok] at h
      obtain ⟨levels, hlevels, h⟩ := h
      cases h
      exact ⟨s, levels, rfl, hlevels, rfl⟩
  · rintro ⟨s, levels, hs, hlevels, rfl⟩
    simp only [iterator, storage, hs, ok_bind, hlevels]
    rfl

theorem yields_of_checkedLevels (hs : t.storage? = some s) (hlevels : s.checkedLevels t.format = .ok levels) :
    t.Yields (s.nestedEntries t.format levels) := by
  obtain ⟨-, hn, hv⟩ := Storage.levelsNested_of_checkedLevels hlevels
  refine ⟨_, iterator_eq_ok_iff.2 ⟨s, levels, hs, hlevels, rfl⟩, fun n => ?_⟩
  obtain ⟨j, hj, -⟩ := calls?_of_step (TensorIterator.stepsThrough hs hlevels) n ⟨.new levels.length, t.generation⟩
    (s.nestedEntries t.format levels) ⟨rfl, _, Cursor.ahead_new levels, (s.map_some_nestedEntries t.format hn hv).symm⟩
  exact ⟨j, hj⟩

end Tensor

end TensorStorage
