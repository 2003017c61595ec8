import TensorStorage.Proofs.Walk.Iteration
/-!
# Positions — a traversal visits the slots of the values one after the other

The leaves come out as 0, 1, 2, … (`map_snd_leavesBelow`), so the traversal that has been moved `k` times stands before
leaf `k` (`Traversal.StandsAt`).  Its next move answers `k` while there are leaves, and yields what slot `k` of the
values holds; a typed traversal that is taken from it there goes on at the same place.
-/
namespace TensorStorage

/-! ## Calls -/

/-- **Calls that are answered by their number**: the state counts them, and call `k` has answer `k`. -/
theorem calls?_of_count {σ α : Type} {next? : σ → Option (Option α × σ)} {P : σ → Nat → Prop} {answer : Nat → Option α}
    (hstep : ∀ s k, P s k → ∃ s', next? s = some (answer k, s') ∧ P s' (k + 1)) : ∀ (m : Nat) (s : σ) (k : Nat), P s k →
      ∃ s', calls? next? m s = some ((List.range' k m).map answer, s') ∧ P s' (k + m)
  | 0, s, _, h => ⟨s, rfl, h⟩
  | m + 1, s, k, h => by
    obtain ⟨s₁, h₁, hP₁⟩ := hstep s k h
    obtain ⟨s₂, h₂, hP₂⟩ := calls?_of_count hstep m s₁ (k + 1) hP₁
    refine ⟨s₂, ?_, by rwa [Nat.add_right_comm, Nat.add_assoc] at hP₂⟩
    rw [List.range'_succ, List.map_cons]
    simp only [calls?, h₁, h₂, Option.bind_eq_bind, Option.bind_some]
    rfl

theorem map_snd_calls?_succ {σ α : Type} (next? : σ → Option (Option α × σ)) (m : Nat) (s : σ) :
    (calls? next? (m + 1) s).map Prod.snd =
      ((next? s).map Prod.snd).bind fun s' => (calls? next? m s').map Prod.snd := by
  rw [calls?]
  cases next? s with
  | none => rfl
  | some r =>
    obtain ⟨item, s'⟩ := r
    simp only [Option.bind_eq_bind, Option.bind_some, Option.map_some]
    cases calls? next? m s' <;> rfl

/-- Calls that change the state alike leave the same state. -/
theorem map_snd_calls?_congr {σ α β : Type} {next? : σ → Option (Option α × σ)} {next'? : σ → Option (Option β × σ)}
    (h : ∀ s, (next? s).map Prod.snd = (next'? s).map Prod.snd) : ∀ (m : Nat) (s : σ),
      (calls? next? m s).map Prod.snd = (calls? next'? m s).map Prod.snd
  | 0, _ => rfl
  | m + 1, s => by
    rw [map_snd_calls?_succ, map_snd_calls?_succ, h s]
    exact congrArg _ (funext (map_snd_calls?_congr h m))

/-! ## Leaves by their number -/

theorem getElem?_map_snd_leavesBelow {levels : List Level} {leaves : Nat} (hn : LevelsNested levels 1 leaves)
    (k : Nat) : (leavesBelow levels 0)[k]?.map Prod.snd = if k < leaves then some k else none := by
  rw [← List.getElem?_map, map_snd_leavesBelow hn]
  split
  · rename_i hlt
    exact List.getElem?_range hlt
  · rename_i hge
    exact List.getElem?_eq_none (by rw [List.length_range]; omega)

namespace Storage

variable {s : Storage} {f : Format} {levels : List Level}

/-- The coordinate and the scalar of every leaf, in the order of the leaves. -/
def typedEntries (s : Storage) (f : Format) (levels : List Level) : List (Coordinate × s.values.dtype.Scalar) :=
  ((leavesBelow levels 0).map fun leaf => f.fromLevels leaf.1).zip s.values.cells.data.toList

theorem length_typedEntries (hn : LevelsNested levels 1 s.index.size) (hv : s.values.size = s.index.size) :
    (s.typedEntries f levels).length = s.index.size := by
  have hcells : s.values.cells.data.toList.length = s.index.size := hv
  rw [typedEntries, List.length_zip, List.length_map, length_leavesBelow hn, hcells, Nat.min_self]

theorem map_snd_typedEntries (hn : LevelsNested levels 1 s.index.size) (hv : s.values.size = s.index.size) :
    (s.typedEntries f levels).map Prod.snd = s.values.cells.data.toList := by
  have hcells : s.values.cells.data.toList.length = s.index.size := hv
  refine List.map_snd_zip (Nat.le_of_eq ?_)
  rw [List.length_map, length_leavesBelow hn, hcells]

/-- **Entry `k` has the scalar of slot `k`**, at the coordinate of leaf `k`. -/
theorem getElem?_typedEntries (hn : LevelsNested levels 1 s.index.size) (hv : s.values.size = s.index.size) (k : Nat)
    {c : Coordinate} (hc : ∀ leaf ∈ (leavesBelow levels 0)[k]?, c = f.fromLevels leaf.1) :
    (s.typedEntries f levels)[k]? = s.values.cells.data[k]?.map fun x => (c, x) := by
  have hcells : s.values.cells.data.size = s.index.size := hv
  rcases Nat.lt_or_ge k s.index.size with hlt | hge
  · have hleaf : k < (leavesBelow levels 0).length := by rwa [length_leavesBelow hn]
    have hslot : k < s.values.cells.data.toList.length := by rwa [Array.length_toList, hcells]
    rw [hc _ (List.getElem?_eq_getElem hleaf), Array.getElem?_eq_getElem (hcells.symm ▸ hlt), Option.map_some,
      typedEntries, List.getElem?_zip_eq_some, List.getElem?_map, List.getElem?_eq_getElem hleaf,
      List.getElem?_eq_getElem hslot, Array.getElem_toList]
    exact ⟨rfl, rfl⟩
  · rw [Array.getElem?_eq_none (hcells.symm ▸ hge), List.getElem?_eq_none (by rwa [length_typedEntries hn hv])]
    rfl

end Storage

theorem getElem?_of_move {α : Type} {cells : Array α} {n : Nat} (hsize : cells.size = n) (k : Nat) :
    ((if k < n then some k else none).bind fun q => cells[q]?) = cells[k]? := by
  split
  · rfl
  · rename_i hge
    exact (Array.getElem?_eq_none (by omega)).symm

/-! ## Traversals -/

namespace Traversal

variable {source : Nat} {s : Storage} {f : Format} {levels : List Level} {t : Traversal} {k : Nat}

/-- **A traversal that has been moved `k` times**: leaf `k` and those after it are ahead. -/
structure StandsAt (s : Storage) (f : Format) (levels : List Level) (t : Traversal) (k : Nat) : Prop where
  ahead : t.cursor.Ahead levels ((leavesBelow levels 0).drop k)
  storage : t.storage = s
  format : t.format = f
  levels : t.levels = levels
  produced : t.produced = min k s.index.size

theorem standsAt_start (h : start source s f = .ok t) : StandsAt s f t.levels t 0 := by
  obtain ⟨-, ht⟩ := start_eq_ok h
  rw [ht]
  exact ⟨Cursor.ahead_new _, rfl, rfl, rfl, (Nat.zero_min _).symm⟩

theorem StandsAt.length_eq (h : StandsAt s f levels t k) : t.length = s.index.size - min k s.index.size := by
  rw [Traversal.length, h.storage, h.produced]

/-- **One move answers the number of the leaf ahead**, and comes to stand after it. -/
theorem StandsAt.move (hn : LevelsNested levels 1 s.index.size) (h : StandsAt s f levels t k) :
    ∃ t', t.advance? = some (if k < s.index.size then some k else none, t') ∧ StandsAt s f levels t' (k + 1) ∧
      ∀ leaf ∈ (leavesBelow levels 0)[k]?, t'.coordinate = f.fromLevels leaf.1 := by
  obtain ⟨c', hadvance, hahead, hcoord, hproduced⟩ := Cursor.advance?_ahead hn h.ahead
  rw [List.head?_drop, getElem?_map_snd_leavesBelow hn] at hadvance
  rw [List.head?_drop] at hcoord
  rw [List.tail_drop] at hahead hproduced
  rw [List.length_drop, List.length_drop, length_leavesBelow hn] at hproduced
  have hk : t.cursor.produced = min k s.index.size := h.produced
  refine ⟨{ t with cursor := c' }, ?_, ⟨hahead, h.storage, h.format, h.levels, ?_⟩, fun leaf hleaf => ?_⟩
  · simp only [advance?, h.levels, hadvance, Option.bind_eq_bind, Option.bind_some]
    rfl
  · show c'.produced = _
    omega
  · rw [coordinate, Cursor.coordinate, hcoord leaf hleaf, h.format]

/-- **The next entry is that of the leaf ahead.** -/
theorem StandsAt.yield (hn : LevelsNested levels 1 s.index.size) (hv : s.values.size = s.index.size)
    (h : StandsAt s f levels t k) :
    ∃ t', t.next? = some ((s.typedEntries f levels)[k]?.map fun e => ⟨e.1, ⟨s.values.dtype, e.2⟩⟩, t') ∧
      StandsAt s f levels t' (k + 1) := by
  obtain ⟨t', hadvance, h', hcoord⟩ := h.move hn
  refine ⟨t', ?_, h'⟩
  have hvalue : (if k < s.index.size then some k else none).bind s.valueAt? =
      s.values.cells.data[k]?.map (⟨s.values.dtype, ·⟩) := by
    rw [← getElem?_of_move hv k, Option.map_bind]
    rfl
  rw [Storage.getElem?_typedEntries hn hv k hcoord, Option.map_map]
  simp only [next?, hadvance, Option.bind_eq_bind, Option.bind_some, h'.storage, hvalue, Option.map_map]
  rfl

theorem map_snd_next? (t : Traversal) : t.next?.map Prod.snd = t.advance?.map Prod.snd := by
  unfold next?
  cases t.advance? <;> rfl

/-- **A typed traversal goes on where the traversal stands.** -/
theorem StandsAt.typed_eq (h : StandsAt s f levels t k) :
    t.typed s.values.dtype = .ok ⟨t, s.values.cells.data⟩ := by
  unfold typed ValueArray.slice
  rw [h.storage, dif_pos rfl]
  rfl

theorem StandsAt.typedYield (hn : LevelsNested levels 1 s.index.size) (hv : s.values.size = s.index.size)
    {u : TypedTraversal s.values.dtype} (hvalues : u.values = s.values.cells.data) (h : StandsAt s f levels u.inner k) :
    ∃ u', u.next? = some ((s.typedEntries f levels)[k]?, u') ∧ u'.values = s.values.cells.data ∧
      StandsAt s f levels u'.inner (k + 1) := by
  obtain ⟨t', hadvance, h', hcoord⟩ := h.move hn
  refine ⟨{ u with inner := t' }, ?_, hvalues, h'⟩
  rw [Storage.getElem?_typedEntries hn hv k hcoord]
  simp only [TypedTraversal.next?, hadvance, Option.bind_eq_bind, Option.bind_some, hvalues, getElem?_of_move hv k]
  rfl

/-- **The slots of the values are visited one after the other.**  Call `k` answers position `k` while there are
positions and nothing from then on, and what it yields is the scalar of slot `k`; the counts follow the calls.  Wherever
a typed traversal is taken, it goes on from there in the same way. -/
theorem calls?_start_counted (h : start source s f = .ok t) :
    ∃ es : List (Coordinate × s.values.dtype.Scalar),
      es.length = s.index.size ∧ es.map Prod.snd = s.values.cells.data.toList ∧
      ∀ j, ∃ u, calls? advance? j t = some ((List.range j).map fun k => if k < s.index.size then some k else none, u) ∧
        calls? next? j t = some ((List.range j).map fun k => es[k]?.map fun e => ⟨e.1, ⟨s.values.dtype, e.2⟩⟩, u) ∧
        u.produced = min j s.index.size ∧ u.length = s.index.size - min j s.index.size ∧
        ∃ v, u.typed s.values.dtype = .ok v ∧ v.length = s.index.size - min j s.index.size ∧
          ∀ m, ∃ w, calls? TypedTraversal.next? m v = some ((List.range' j m).map fun k => es[k]?, w) ∧
            w.inner.produced = min (j + m) s.index.size ∧
            w.length = s.index.size - min (j + m) s.index.size := by
  obtain ⟨-, hn, hv⟩ := Storage.levelsNested_of_checkedLevels (start_eq_ok h).1
  refine ⟨s.typedEntries f t.levels, Storage.length_typedEntries hn hv, Storage.map_snd_typedEntries hn hv, fun j => ?_⟩
  obtain ⟨u, hmoves, hu⟩ := calls?_of_count (fun t k (h : StandsAt s f _ t k) =>
    (h.move hn).imp fun _ h => ⟨h.1, h.2.1⟩) j t 0 (standsAt_start h)
  obtain ⟨u', hyields, -⟩ :=
    calls?_of_count (fun t k (h : StandsAt s f _ t k) => h.yield hn hv) j t 0 (standsAt_start h)
  obtain rfl : u' = u := by
    have hsame := map_snd_calls?_congr map_snd_next? j t
    rw [hmoves, hyields] at hsame
    exact Option.some.inj hsame
  rw [Nat.zero_add] at hu
  rw [← List.range_eq_range'] at hmoves hyields
  refine ⟨u', hmoves, hyields, hu.produced, hu.length_eq, ⟨u', _⟩, hu.typed_eq, hu.length_eq, fun m => ?_⟩
  obtain ⟨w, htyped, -, hw⟩ := calls?_of_count (P := fun (w : TypedTraversal s.values.dtype) k =>
    w.values = s.values.cells.data ∧ StandsAt s f t.levels w.inner k)
    (fun w k h => h.2.typedYield hn hv h.1) m ⟨u', s.values.cells.data⟩ j ⟨rfl, hu⟩
  exact ⟨w, htyped, hw.produced, hw.length_eq⟩

/-- Columns of which one is empty, and a row level below them that lists a row twice; the typed traversal is taken
after two calls. -/
theorem calls?_start_counted_columns :
    let s : Storage := ⟨⟨[.dense 3, .compressed { data := #[0, 2, 2, 3] } { data := #[1, 1, 0] }], 3⟩,
      .ofArray .int32 #[5, 6, 7]⟩
    ∃ t, start 0 s .csc = .ok t ∧ ∃ u, calls? advance? 2 t = some ([some 0, some 1], u) ∧ u.length = 1 ∧
      ∃ v, u.typed .int32 = .ok v ∧ ∃ w c, calls? TypedTraversal.next? 2 v = some ([some (c, (7 : Int32)), none], w) ∧
        w.length = 0 := by
  intro s
  obtain ⟨t, ht⟩ : ∃ t, start 0 s .csc = .ok t := ⟨_, rfl⟩
  obtain ⟨es, hlength, hslots, hcalls⟩ := calls?_start_counted ht
  obtain ⟨u, hmoves, -, -, hu, v, hv, -, htyped⟩ := hcalls 2
  obtain ⟨w, hw, -, hlen⟩ := htyped 2
  refine ⟨t, ht, u, hmoves, hu, v, hv, w, ?_⟩
  match es, hlength, hslots with
  | [e₀, e₁, e₂], _, hslots =>
    have h₂ : e₂.2 = (7 : Int32) := Option.some.inj (congrArg (·[2]?) hslots)
    exact ⟨e₂.1, by rw [← h₂]; exact hw, hlen⟩

end Traversal

end TensorStorage
