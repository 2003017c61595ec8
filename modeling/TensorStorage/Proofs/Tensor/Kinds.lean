import TensorStorage.Proofs.Tensor.Commands
import TensorStorage.Proofs.Tensor.Stored
/-!
# Kinds — iterating at a kind

A call at a kind unwraps the answer of the call without it (`TensorIterator.nextAs?_eq`), so the two agree call by call.
All entries of a tensor are of the kind of its storage.  The kind that an iterator is asked for is compared with the
tensor's own, though, and the two can differ once the values of an open storage were replaced: where they do, the
iterator counts down entries and answers none of them (`Tensor.iteratorAs_unwraps`).
-/
namespace TensorStorage

/-! ## Calls -/

section Calls

variable {σ α β : Type} {next? : σ → Option (Option α × σ)} {next'? : σ → Option (Option β × σ)}

/-- Calls that make something of the answers of other calls. -/
theorem calls?_map {g : Option α → Option β} (h : ∀ s, next'? s = (next? s).map fun r => (g r.1, r.2)) :
    ∀ (n : Nat) (s : σ), calls? next'? n s = (calls? next? n s).map fun r => (r.1.map g, r.2)
  | 0, _ => rfl
  | n + 1, s => by
    rw [calls?, calls?, h]
    cases next? s with
    | none => rfl
    | some r =>
      have ih := calls?_map h n r.2
      simp only [Option.map_some, Option.bind_eq_bind, Option.bind_some, ih]
      cases calls? next? n r.2 <;> rfl

/-- The items that are taken are the answers before the first nothing. -/
theorem takeItems_of_calls? : ∀ (n : Nat) (s s' : σ) (items : List α) (more : List (Option α)),
    calls? next? n s = some (items.map some ++ none :: more, s') → ∃ s'', takeItems next? n s = some (items, s'')
  | 0, _, _, items, _, h => by
    rw [calls?, Option.some.injEq, Prod.mk.injEq] at h
    exact absurd h.1.symm (by simp)
  | n + 1, s, s', items, more, h => by
    simp only [calls?, Option.bind_eq_bind, Option.bind_eq_some_iff, Option.pure_def, Option.some.injEq,
      Prod.mk.injEq] at h
    obtain ⟨⟨answer, s₁⟩, hs₁, ⟨answers, s₂⟩, hs₂, hanswers, rfl⟩ := h
    cases items with
    | nil =>
      obtain ⟨rfl, -⟩ := List.cons.inj hanswers
      exact ⟨s₁, by rw [takeItems, hs₁]; rfl⟩
    | cons item items =>
      obtain ⟨rfl, rfl⟩ := List.cons.inj hanswers
      obtain ⟨s'', htake⟩ := takeItems_of_calls? n s₁ s₂ items more hs₂
      exact ⟨s'', by simp only [takeItems, hs₁, htake, Option.bind_eq_bind, Option.bind_some]⟩

end Calls

/-! ## Entries -/

namespace Entry

variable {d : DataType} {e : Entry} {es : List Entry}

/-- A scalar at a coordinate, as an entry of its kind. -/
def wrap (p : Coordinate × d.Scalar) : Entry := ⟨p.1, ⟨d, p.2⟩⟩

/-- The entry with its value unwrapped, if it is of kind `d`. -/
def as? (e : Entry) (d : DataType) : Option (Coordinate × d.Scalar) := (e.value.as? d).map (e.coordinate, ·)

theorem wrap_of_as? {p : Coordinate × d.Scalar} (h : e.as? d = some p) : wrap p = e := by
  obtain ⟨x, hx, rfl⟩ := Option.map_eq_some_iff.1 h
  rw [wrap, ← Value.eq_of_as? hx]

theorem as?_eq_none_iff : e.as? d = none ↔ e.value.dtype ≠ d := by
  rw [as?, Option.map_eq_none_iff, Value.as?_eq_none_iff]

theorem isSome_as?_iff : (e.as? d).isSome ↔ e.value.dtype = d := by
  rw [Option.isSome_iff_ne_none, ne_eq, as?_eq_none_iff, Decidable.not_not]

/-- **Entries of kind `d` are wrapped scalars**, those that unwrapping gives. -/
theorem map_wrap_filterMap (h : ∀ e ∈ es, e.value.dtype = d) : (es.filterMap (·.as? d)).map wrap = es := by
  rw [List.map_filterMap, filterMap_eq_map_of_some, List.map_id]
  intro e he
  obtain ⟨p, hp⟩ := Option.isSome_iff_exists.1 (isSome_as?_iff.2 (h e he))
  rw [hp, Option.map_some, wrap_of_as? hp]
  rfl

theorem filterMap_eq_nil (h : ∀ e ∈ es, e.value.dtype ≠ d) : es.filterMap (·.as? d) = [] :=
  List.filterMap_eq_nil_iff.2 fun e he => as?_eq_none_iff.2 (h e he)

end Entry

theorem Storage.dtype_of_mem_nestedEntries {s : Storage} {f : Format} {levels : List Level} {e : Entry}
    (h : e ∈ s.nestedEntries f levels) : e.value.dtype = s.dtype := by
  obtain ⟨leaf, -, hat⟩ := List.mem_filterMap.1 h
  obtain ⟨v, hv, rfl⟩ := Option.map_eq_some_iff.1 hat
  obtain ⟨x, -, rfl⟩ := Option.map_eq_some_iff.1 hv
  rfl

/-! ## Iterators -/

namespace TensorIterator

variable {t : Tensor} {s : Storage} {levels : List Level} {i : TensorIterator} {d : DataType}

/-- **A call at a kind unwraps the answer of the call without it.** -/
theorem nextAs?_eq (d : DataType) (t : Tensor) (i : TensorIterator) :
    i.nextAs? d t = (i.next? t).map fun r => (r.1.bind (·.as? d), r.2) := by
  rw [nextAs?]
  cases i.next? t <;> rfl

/-- An iterator with these entries ahead of it, and with a count of those that it has produced. -/
def Counts (t : Tensor) (s : Storage) (levels : List Level) (i : TensorIterator) (items : List Entry) : Prop :=
  i.EntriesAhead t s levels items ∧ i.produced + items.length = s.index.size

theorem stepsThrough_counts (hs : t.storage? = some s) (hlevels : s.checkedLevels t.format = .ok levels) :
    StepsThrough (next? t) (Counts t s levels) := by
  rintro i items ⟨hahead, hcount⟩
  obtain ⟨j, hnext, hahead'⟩ := stepsThrough hs hlevels i items hahead
  refine ⟨j, hnext, hahead', ?_⟩
  obtain ⟨hgeneration, ahead, hc, hitems⟩ := hahead
  obtain ⟨c, hmove, -, hproduced⟩ := next?_of_ahead hs hlevels hgeneration hc
  obtain rfl : j = { i with cursor := c } := (Prod.mk.inj (Option.some.inj (hnext.symm.trans hmove))).2
  have hlength : ahead.length = items.length := by simpa using congrArg List.length hitems
  simp only [produced, List.length_tail] at *
  omega

theorem length_of_counts {items : List Entry} (hs : t.storage? = some s) (h : i.Counts t s levels items) :
    i.length t = items.length := by
  simp only [length, hs, h.1.1, if_true]
  exact Nat.sub_eq_of_eq_add' h.2.symm

/-- **An iterator that counts down through these items**: after any number of calls it has answered the first of them,
and nothing once they were through, and its length is the number of those that are left. -/
def CountsDown {α : Type} (t : Tensor) (next? : TensorIterator → Option (Option α × TensorIterator))
    (i : TensorIterator) (items : List α) : Prop :=
  ∀ n, ∃ j, calls? next? n i = some ((items.take n).map some ++ List.replicate (n - items.length) none, j) ∧
    j.length t = items.length - n

theorem Counts.countsDown {items : List Entry} (h : i.Counts t s levels items) (hs : t.storage? = some s)
    (hlevels : s.checkedLevels t.format = .ok levels) : i.CountsDown t (next? t) items := fun n => by
  obtain ⟨j, hcalls, hj⟩ := calls?_of_step (stepsThrough_counts hs hlevels) n i items h
  exact ⟨j, hcalls, (length_of_counts hs hj).trans List.length_drop⟩

theorem CountsDown.length_eq {α : Type} {next? : TensorIterator → Option (Option α × TensorIterator)} {items : List α}
    (h : i.CountsDown t next? items) : i.length t = items.length := by
  obtain ⟨j, hj, hlength⟩ := h 0
  rw [calls?, Option.some.injEq, Prod.mk.injEq] at hj
  exact hj.2 ▸ hlength

/-- **The answers at a kind are the answers without it, unwrapped.** -/
theorem CountsDown.calls?_nextAs? {es : List Entry} (h : i.CountsDown t (next? t) es) (d : DataType) (n : Nat) :
    ∃ j, calls? (nextAs? d t) n i = some ((es.take n).map (·.as? d) ++ List.replicate (n - es.length) none, j) ∧
      j.length t = es.length - n := by
  obtain ⟨j, hcalls, hlength⟩ := h n
  refine ⟨j, ?_, hlength⟩
  rw [calls?_map (g := (·.bind (Entry.as? · d))) (nextAs?_eq d t), hcalls, Option.map_some, List.map_append,
    List.map_replicate, List.map_map]
  rfl

/-- **An iterator at the kind of all entries** counts down through them, unwrapped. -/
theorem CountsDown.unwrap {es : List Entry} (h : i.CountsDown t (next? t) es) (hkind : ∀ e ∈ es, e.value.dtype = d) :
    i.CountsDown t (nextAs? d t) (es.filterMap (·.as? d)) := fun n => by
  obtain ⟨j, hcalls, hlength⟩ := h.calls?_nextAs? d n
  have hitems : (es.filterMap (·.as? d)).map some = es.map (·.as? d) :=
    map_some_filterMap fun e he => Entry.isSome_as?_iff.2 (hkind e he)
  have hsame : (es.filterMap (·.as? d)).length = es.length := by
    rw [← List.length_map (f := some), hitems, List.length_map]
  rw [hsame]
  refine ⟨j, ?_, hlength⟩
  rw [hcalls, List.map_take, List.map_take, hitems]

/-- **An iterator at another kind answers nothing**, however many entries it counts. -/
theorem CountsDown.answers_none {es : List Entry} (h : i.CountsDown t (next? t) es)
    (hkind : ∀ e ∈ es, e.value.dtype ≠ d) (n : Nat) :
    ∃ j, calls? (nextAs? d t) n i = some (List.replicate n none, j) ∧ j.length t = es.length - n := by
  obtain ⟨j, hcalls, hlength⟩ := h.calls?_nextAs? d n
  refine ⟨j, ?_, hlength⟩
  have hnone : (es.take n).map (·.as? d) = List.replicate (es.take n).length none :=
    List.map_eq_replicate_iff.2 fun e he => Entry.as?_eq_none_iff.2 (hkind e (List.mem_of_mem_take he))
  rw [hcalls, hnone, List.replicate_append_replicate, List.length_take]
  congr 3
  omega

end TensorIterator

/-! ## Tensors -/

namespace Tensor

variable {t : Tensor} {s : Storage} {levels : List Level} {i : TensorIterator} {d : DataType}

theorem countsDown_of_checkedLevels (hs : t.storage? = some s) (hlevels : s.checkedLevels t.format = .ok levels) :
    TensorIterator.CountsDown t (TensorIterator.next? t) ⟨.new levels.length, t.generation⟩
      (s.nestedEntries t.format levels) := by
  obtain ⟨-, hn, hv⟩ := Storage.levelsNested_of_checkedLevels hlevels
  have hcounts : TensorIterator.Counts t s levels ⟨.new levels.length, t.generation⟩
      (s.nestedEntries t.format levels) := by
    refine ⟨⟨rfl, _, Cursor.ahead_new levels, (s.map_some_nestedEntries t.format hn hv).symm⟩, ?_⟩
    rw [s.length_nestedEntries t.format hn hv]
    exact Nat.zero_add _
  exact hcounts.countsDown hs hlevels

theorem iteratorAs_of_ne (h : t.dtype ≠ d) : t.iteratorAs d = .error (.typeMismatch t.dtype d) := if_pos h

theorem iteratorAs_of_eq (h : t.dtype = d) : t.iteratorAs d = t.iterator := if_neg (not_not_intro h)

/-- **The entries at a kind are those of the kind**: all of them, or none. -/
theorem entriesAs_of_checkedLevels (hd : t.dtype = d) (hs : t.storage? = some s)
    (hlevels : s.checkedLevels t.format = .ok levels) :
    t.entriesAs d = .ok ((s.nestedEntries t.format levels).filterMap (·.as? d)) := by
  let i : TensorIterator := ⟨.new levels.length, t.generation⟩
  let es := s.nestedEntries t.format levels
  have hi : t.iterator = .ok i := iterator_eq_ok_iff.2 ⟨s, levels, hs, hlevels, rfl⟩
  have hdown : i.CountsDown t (TensorIterator.next? t) es := countsDown_of_checkedLevels hs hlevels
  have htake : ∃ j, takeItems (TensorIterator.nextAs? d t) (es.length + 1) i = some (es.filterMap (·.as? d), j) := by
    by_cases hkind : s.dtype = d
    · have hitems := hdown.unwrap fun e he => (Storage.dtype_of_mem_nestedEntries he).trans hkind
      obtain ⟨j, hj, -⟩ := hitems (es.length + 1)
      rw [← hdown.length_eq, hitems.length_eq, List.take_of_length_le (Nat.le_succ _), Nat.add_sub_cancel_left] at hj
      rw [← hdown.length_eq, hitems.length_eq]
      exact takeItems_of_calls? _ i j _ [] hj
    · have hother : ∀ e ∈ es, e.value.dtype ≠ d := fun e he =>
        ne_of_eq_of_ne (Storage.dtype_of_mem_nestedEntries he) hkind
      obtain ⟨j, hj, -⟩ := hdown.answers_none hother (es.length + 1)
      rw [Entry.filterMap_eq_nil hother]
      exact takeItems_of_calls? _ i j [] _ hj
  obtain ⟨j, hj⟩ := htake
  simp only [entriesAs, iteratorAs_of_eq hd, hi, Outcome.liftM_checked, Outcome.ofChecked_ok, ok_bind,
    hdown.length_eq, Outcome.liftM_option, hj, Outcome.ofOption_some]
  rfl

/-- **Iterating at a kind is iterating, unwrapped, where the storage holds the tensor's kind.**  Another kind than the
tensor's is refused.  At the tensor's kind an iterator is made where one without a kind is, the same one, and it counts
down through the entries.  If they are of the kind, it answers them unwrapped, one by one, and counts down through them
as well.  If the storage holds another kind, it answers none of them but counts them all the same. -/
theorem iteratorAs_unwraps (t : Tensor) (d : DataType) :
    (t.dtype ≠ d → t.iteratorAs d = .error (.typeMismatch t.dtype d)) ∧
      (t.dtype = d → t.iteratorAs d = t.iterator) ∧
      ∀ i, t.iteratorAs d = .ok i → ∃ s es, t.storage? = some s ∧ t.entries = .ok es ∧
        i.CountsDown t (TensorIterator.next? t) es ∧
        (s.dtype = d → ∃ items : List (Coordinate × d.Scalar), items.map .wrap = es ∧
          i.CountsDown t (TensorIterator.nextAs? d t) items) ∧
        (s.dtype ≠ d → ∀ n, ∃ j, calls? (TensorIterator.nextAs? d t) n i = some (List.replicate n none, j) ∧
          j.length t = es.length - n) := by
  refine ⟨iteratorAs_of_ne, iteratorAs_of_eq, fun i hi => ?_⟩
  rw [iteratorAs, guard_eq_ok] at hi
  obtain ⟨s, levels, hs, hlevels, rfl⟩ := iterator_eq_ok_iff.1 hi.2
  have hdown := countsDown_of_checkedLevels hs hlevels
  refine ⟨s, s.nestedEntries t.format levels, hs, entries_of_checkedLevels hs hlevels, hdown, fun hkind => ?_,
    fun hkind => ?_⟩
  · have hof : ∀ e ∈ s.nestedEntries t.format levels, e.value.dtype = d := fun e he =>
      (Storage.dtype_of_mem_nestedEntries he).trans hkind
    exact ⟨_, Entry.map_wrap_filterMap hof, hdown.unwrap hof⟩
  · exact hdown.answers_none fun e he => ne_of_eq_of_ne (Storage.dtype_of_mem_nestedEntries he) hkind

/-- Two entries of the tensor's kind. -/
theorem iteratorAs_unwraps_rows :
    let s : Storage := ⟨⟨[.dense 3, .compressed { data := #[0, 1, 1, 2] } { data := #[1, 0] }], 2⟩,
      .ofArray .int32 #[7, 5]⟩
    let t : Tensor := ⟨"t", [3, 2], .int32, .csr, ⟨.sum, 0⟩, .new 2 .int32, some s, 1⟩
    t.iteratorAs .int64 = .error (.typeMismatch .int32 .int64) ∧
      ∃ i, t.iteratorAs .int32 = .ok i ∧ ∃ items : List (Coordinate × DataType.int32.Scalar),
        items.map Entry.wrap = [⟨[0, 1], ⟨.int32, (7 : Int32)⟩⟩, ⟨[2, 0], ⟨.int32, (5 : Int32)⟩⟩] ∧
          i.CountsDown t (TensorIterator.nextAs? .int32 t) items := by
  intro s t
  have hentries : t.entries = .ok [⟨[0, 1], ⟨.int32, (7 : Int32)⟩⟩, ⟨[2, 0], ⟨.int32, (5 : Int32)⟩⟩] := rfl
  have hi : t.iteratorAs .int32 = .ok ⟨.new 2, 1⟩ := rfl
  obtain ⟨-, -, hmade⟩ := iteratorAs_unwraps t .int32
  obtain ⟨s', es, hs, hes, -, hof, -⟩ := hmade _ hi
  cases hs
  cases hentries.symm.trans hes
  exact ⟨(iteratorAs_unwraps t .int64).1 nofun, _, hi, hof rfl⟩

/-- The values of an open storage are replaced by two of another kind.  The tensor still has its own kind, at which an
iterator counts two entries and answers none. -/
theorem iteratorAs_of_replaced_values :
    let commands : List Command := [.new "t" .int32 [2] (.dense 1) ⟨.lastWins, 0⟩, .ask ⟨0⟩ .pack,
      .edit ⟨0⟩ fun s => .ok ((), { s with values := .ofArray .int64 #[5, 6] })]
    ∃ t i, (Workspace.obeyAll .empty commands).tensor? ⟨0⟩ = some t ∧ t.iteratorAs .int32 = .ok i ∧ i.length t = 2 ∧
      t.entries = .ok [⟨[0], ⟨.int64, (5 : Int64)⟩⟩, ⟨[1], ⟨.int64, (6 : Int64)⟩⟩] ∧
      (i.nextAs? .int32 t).map Prod.fst = some none := by
  intro commands
  have hcomputed : ((Workspace.obeyAll .empty commands).tensor? ⟨0⟩).map (fun t => (t.iteratorAs .int32,
      TensorIterator.length t ⟨.new 1, 2⟩, t.entries, (TensorIterator.nextAs? .int32 t ⟨.new 1, 2⟩).map Prod.fst)) =
      some (.ok ⟨.new 1, 2⟩, 2, .ok [⟨[0], ⟨.int64, (5 : Int64)⟩⟩, ⟨[1], ⟨.int64, (6 : Int64)⟩⟩], some none) := by
    cbv
  obtain ⟨t, ht, hcomputed⟩ := Option.map_eq_some_iff.1 hcomputed
  simp only [Prod.mk.injEq] at hcomputed
  exact ⟨t, _, ht, hcomputed⟩

end Tensor

end TensorStorage
