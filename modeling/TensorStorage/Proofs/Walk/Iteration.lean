import TensorStorage.Proofs.Lists
import TensorStorage.Proofs.Walk.Loop
/-!
# Iteration — a traversal yields the entries of the nested recursion

A cursor with some leaves ahead of it (`Cursor.Ahead`) moves to the first of them and has the others ahead
(`Cursor.advance?_ahead`).  From this one step, `calls?_of_step` and `takeItems_of_step` give what any number of calls
answers: `Traversal.calls?_start` is the walk of a checked storage, call by call.
-/
namespace TensorStorage

/-! ## Calls -/

section Calls

variable {σ α : Type} {next? : σ → Option (Option α × σ)}

/-- The answers to this many calls, and the state after them. -/
def calls? (next? : σ → Option (Option α × σ)) : Nat → σ → Option (List (Option α) × σ)
  | 0, s => some ([], s)
  | n + 1, s => do
    let (item, s) ← next? s
    let (items, s) ← calls? next? n s
    return (item :: items, s)

/-- **A state from which these items come**, step by step: each call answers the first of the items that are left. -/
def StepsThrough (next? : σ → Option (Option α × σ)) (P : σ → List α → Prop) : Prop :=
  ∀ s items, P s items → ∃ s', next? s = some (items.head?, s') ∧ P s' items.tail

theorem calls?_of_step {P : σ → List α → Prop} (hstep : StepsThrough next? P) : ∀ (n : Nat) (s : σ) (items : List α),
    P s items → ∃ s', calls? next? n s = some ((items.take n).map some ++ List.replicate (n - items.length) none, s') ∧
      P s' (items.drop n)
  | 0, s, items, h => ⟨s, by simp [calls?], h⟩
  | n + 1, s, items, h => by
    obtain ⟨s₁, h₁, hP₁⟩ := hstep s items h
    obtain ⟨s₂, h₂, hP₂⟩ := calls?_of_step hstep n s₁ items.tail hP₁
    refine ⟨s₂, ?_, by simpa using hP₂⟩
    simp only [calls?, h₁, h₂, Option.bind_eq_bind, Option.bind_some]
    cases items with
    | nil => simp [List.replicate_succ]
    | cons a items => simp

theorem takeItems_of_step {P : σ → List α → Prop} (hstep : StepsThrough next? P) : ∀ (n : Nat) (s : σ) (items : List α),
    P s items → items.length < n → ∃ s', takeItems next? n s = some (items, s') ∧ P s' []
  | 0, _, _, _, hlt => absurd hlt (Nat.not_lt_zero _)
  | n + 1, s, [], h, _ => by
    obtain ⟨s₁, h₁, hP₁⟩ := hstep s [] h
    exact ⟨s₁, by simp [takeItems, h₁], hP₁⟩
  | n + 1, s, a :: items, h, hlt => by
    obtain ⟨s₁, h₁, hP₁⟩ := hstep s (a :: items) h
    obtain ⟨s₂, h₂, hP₂⟩ := takeItems_of_step hstep n s₁ items hP₁ (by simpa using hlt)
    exact ⟨s₂, by simp [takeItems, h₁, h₂], hP₂⟩

end Calls

/-! ## Cursors -/

namespace Cursor

variable {levels : List Level} {leaves : Nat} {c : Cursor} {ahead : List (Coordinate × Nat)}

/-- **A cursor with these leaves ahead of it.** -/
def Ahead (levels : List Level) (c : Cursor) (ahead : List (Coordinate × Nat)) : Prop :=
  match c.progress with
  | .start => c.frames.length = levels.length ∧ ahead = leavesBelow levels 0
  | .positioned => levels ≠ [] ∧ Standing levels 1 c.frames ∧ ahead = leavesAhead levels c.frames
  | .exhausted => ahead = []

theorem ahead_new (levels : List Level) : (new levels.length).Ahead levels (leavesBelow levels 0) := by
  simp [Ahead, new]

theorem landed_ahead {found : Found} (h : Finds levels 1 ahead found) :
    ∃ c', c.landed found = (ahead.head?.map Prod.snd, c') ∧ c'.Ahead levels ahead.tail ∧
      (∀ leaf ∈ ahead.head?, c'.levelCoordinate = leaf.1) ∧
      c'.produced + ahead.tail.length = c.produced + ahead.length := by
  obtain ⟨leaf?, frames⟩ := found
  obtain ⟨hlen, h⟩ := h
  cases ahead with
  | nil =>
    obtain rfl : leaf? = none := h
    exact ⟨_, rfl, rfl, by simp, rfl⟩
  | cons leaf more =>
    obtain ⟨rfl, hcoord, hstand, hmore⟩ := h
    refine ⟨_, rfl, ?_, by simpa [levelCoordinate] using hcoord, by simp only [List.tail_cons, List.length_cons]; omega⟩
    cases frames with
    | nil =>
      obtain rfl : levels = [] := List.eq_nil_of_length_eq_zero hlen.symm
      exact hmore.symm
    | cons frame inner =>
      refine ⟨?_, hstand, hmore.symm⟩
      rintro rfl
      cases hlen

/-- **A move goes to the first leaf ahead**, and is what the loop does. -/
theorem advance?_ahead (hn : LevelsNested levels 1 leaves) (h : c.Ahead levels ahead) :
    ∃ c', c.advance? levels = some (ahead.head?.map Prod.snd, c') ∧ c'.Ahead levels ahead.tail ∧
      (∀ leaf ∈ ahead.head?, c'.levelCoordinate = leaf.1) ∧
      c'.produced + ahead.tail.length = c.produced + ahead.length := by
  cases hp : c.progress with
  | start =>
    simp only [Ahead, hp] at h
    obtain ⟨hlen, rfl⟩ := h
    obtain ⟨found, hfound, hf⟩ := seekLeaf_finds hn 0 Nat.one_pos c.frames hlen
    obtain ⟨c', hc', h'⟩ := landed_ahead (c := c) hf
    exact ⟨c', by simp [advance?, hp, hfound, hc'], h'⟩
  | positioned =>
    simp only [Ahead, hp] at h
    obtain ⟨-, hstand, rfl⟩ := h
    obtain ⟨found, hfound, hf⟩ := resumeSearch_finds hn hstand
    obtain ⟨c', hc', h'⟩ := landed_ahead (c := c) hf
    exact ⟨c', by simp [advance?, hp, hfound, hc'], h'⟩
  | exhausted =>
    simp only [Ahead, hp] at h
    subst h
    exact ⟨c, by simp [advance?, hp], by simp [Ahead, hp], by simp, rfl⟩

theorem moves_of_start {level : Level} {rest : List Level} {found : Found}
    (hn : LevelsNested (level :: rest) 1 leaves) (hp : c.progress = .start)
    (hlen : c.frames.length = (level :: rest).length) (hfound : seekLeaf (level :: rest) 0 c.frames = some found) :
    c.Moves (level :: rest) (c.landed found) := by
  cases hframes : c.frames with
  | nil =>
    rw [hframes] at hlen
    cases hlen
  | cons frame inner =>
    obtain ⟨below, hl, hrest⟩ := id hn
    obtain rfl := hl.first_last
    rw [hframes] at hlen
    have hlen' : inner.length = rest.length := Nat.succ.inj hlen
    rw [hframes, seekLeaf_cons hl hrest Nat.one_pos frame inner hlen'] at hfound
    let entered : Frame :=
      { frame with first := level.firstChild 0, position := level.firstChild 0, stop := level.firstChild 1 }
    have henter : Loop.enter? (level :: rest) 0 c.frames = some (entered :: inner) := by
      simp only [Loop.enter?, hframes, if_true, List.getElem?_cons_zero, hl.segment 0 Nat.one_pos, List.set_cons_zero,
        Option.bind_eq_bind, Option.bind_some]
      rfl
    refine .start hp (by simp) henter ?_
    refine Loop.scan_loop rest [] level [] hn Nat.one_pos rfl _ entered inner hlen' rfl rfl (Nat.le_refl _) rfl hfound
      (Loop.onward_root _ fun hnone => ?_)
    obtain ⟨leaf?, frames⟩ := found
    obtain rfl : leaf? = none := hnone
    exact Loop.scanSiblings_through _ entered inner frames rfl hfound

theorem moves_of_positioned {level : Level} {rest : List Level} {found : Found}
    (hn : LevelsNested (level :: rest) 1 leaves) (hp : c.progress = .positioned)
    (hstand : Standing (level :: rest) 1 c.frames) (hfound : resumeSearch (level :: rest) c.frames = some found) :
    c.Moves (level :: rest) (c.landed found) := by
  have honward : Loop.Onward (level :: rest) [] found found := Loop.onward_root _ fun hnone => by
    obtain ⟨leaf?, frames⟩ := found
    obtain rfl : leaf? = none := hnone
    exact Loop.resumeSearch_through hfound
  obtain ⟨frames, hframes, hends⟩ := Loop.resume_loop rest [] level [] c.frames found hn hstand rfl hfound honward
  simp only [List.length_nil, Nat.zero_add, List.nil_append] at hframes hends
  exact .positioned hp hframes hends

/-- **The loop takes the moves of the cursor.** -/
theorem moves_of_advance? (hn : LevelsNested levels 1 leaves) (h : c.Ahead levels ahead) {r : Option Nat × Cursor}
    (hr : c.advance? levels = some r) : c.Moves levels r := by
  cases hp : c.progress with
  | start =>
    simp only [Ahead, hp] at h
    simp only [advance?, hp, Option.map_eq_some_iff] at hr
    obtain ⟨found, hfound, rfl⟩ := hr
    cases levels with
    | nil =>
      obtain hnil : c.frames = [] := List.eq_nil_of_length_eq_zero h.1
      rw [hnil] at hfound
      cases hfound
      exact .scalar hp rfl
    | cons level rest => exact moves_of_start hn hp h.1 hfound
  | positioned =>
    simp only [Ahead, hp] at h
    simp only [advance?, hp, Option.map_eq_some_iff] at hr
    obtain ⟨found, hfound, rfl⟩ := hr
    cases levels with
    | nil => exact absurd rfl h.1
    | cons level rest => exact moves_of_positioned hn hp h.2.1 hfound
  | exhausted =>
    simp only [advance?, hp, Option.some.injEq] at hr
    subst hr
    exact .through hp

end Cursor

/-! ## Entries -/

def Storage.atLeaf? (s : Storage) (f : Format) (leaf : Coordinate × Nat) : Option Entry :=
  (s.valueAt? leaf.2).map fun value => ⟨f.fromLevels leaf.1, value⟩

theorem Storage.isSome_valueAt? {s : Storage} {position : Nat} (h : position < s.values.size) :
    (s.valueAt? position).isSome := by
  rw [Option.isSome_iff_ne_none, ne_eq, valueAt?, ValueArray.get?_eq_none_iff]
  omega

theorem Storage.isSome_atLeaf? {s : Storage} {f : Format} {leaf : Coordinate × Nat} (h : leaf.2 < s.values.size) :
    (s.atLeaf? f leaf).isSome := by
  rw [atLeaf?, Option.isSome_map]
  exact isSome_valueAt? h

theorem lt_of_mem_leavesBelow {levels : List Level} {leaves : Nat} (hn : LevelsNested levels 1 leaves)
    {leaf : Coordinate × Nat} (h : leaf ∈ leavesBelow levels 0) : leaf.2 < leaves := by
  have := List.mem_map_of_mem (f := Prod.snd) h
  rwa [map_snd_leavesBelow hn, List.mem_range] at this

/-- **Every leaf has a value**, so the nested recursion leaves none out. -/
theorem Storage.map_some_nestedEntries {s : Storage} {levels : List Level} (f : Format)
    (hn : LevelsNested levels 1 s.index.size) (hv : s.values.size = s.index.size) :
    (s.nestedEntries f levels).map some = (leavesBelow levels 0).map (s.atLeaf? f) :=
  map_some_filterMap fun _ hleaf => isSome_atLeaf? (hv ▸ lt_of_mem_leavesBelow hn hleaf)

theorem Storage.length_nestedEntries {s : Storage} {levels : List Level} (f : Format)
    (hn : LevelsNested levels 1 s.index.size) (hv : s.values.size = s.index.size) :
    (s.nestedEntries f levels).length = s.index.size := by
  have h := congrArg List.length (s.map_some_nestedEntries f hn hv)
  rwa [List.length_map, List.length_map, length_leavesBelow hn] at h

/-- **Entry `k` of the nested recursion is that of leaf `k`**, whose value is in slot `k`. -/
theorem Storage.exists_leaf_of_getElem? {s : Storage} {f : Format} {levels : List Level} {k : Nat} {e : Entry}
    (hn : LevelsNested levels 1 s.index.size) (hv : s.values.size = s.index.size)
    (h : (s.nestedEntries f levels)[k]? = some e) :
    ∃ coordinate, (leavesBelow levels 0)[k]? = some (coordinate, k) ∧ e.coordinate = f.fromLevels coordinate ∧
      s.valueAt? k = some e.value := by
  have hentry := congrArg (·[k]?) (s.map_some_nestedEntries f hn hv)
  have hposition := congrArg (·[k]?) (map_snd_leavesBelow hn)
  simp only [List.getElem?_map, h, Option.map_some] at hentry hposition
  obtain ⟨⟨coordinate, position⟩, hleaf, hat⟩ := Option.map_eq_some_iff.1 hentry.symm
  rw [hleaf, Option.map_some] at hposition
  obtain ⟨_, hk⟩ := List.getElem?_eq_some_iff.1 hposition.symm
  obtain rfl : k = position := (List.getElem_range _).symm.trans hk
  obtain ⟨v, hvalue, rfl⟩ := Option.map_eq_some_iff.1 hat
  exact ⟨coordinate, hleaf, rfl, hvalue⟩

theorem Cursor.entry_eq {s : Storage} {f : Format} {c : Cursor} {ahead : List (Coordinate × Nat)} {items : List Entry}
    (h : ahead.map (s.atLeaf? f) = items.map some) (hcoord : ∀ leaf ∈ ahead.head?, c.levelCoordinate = leaf.1) :
    (((ahead.head?.map Prod.snd).bind s.valueAt?).map fun v => (⟨c.coordinate f, v⟩ : Entry)) = items.head? := by
  cases ahead with
  | nil => cases items with
    | nil => rfl
    | cons e items => cases h
  | cons leaf more => cases items with
    | nil => cases h
    | cons e items =>
      simp only [List.map_cons, List.cons.injEq] at h
      have hc : c.levelCoordinate = leaf.1 := hcoord leaf rfl
      simp only [List.head?_cons, Option.map_some, Option.bind_some, ← h.1, Storage.atLeaf?, Cursor.coordinate, hc]

/-! ## Traversals -/

namespace Traversal

variable {source : Nat} {s : Storage} {f : Format} {t : Traversal}

theorem start_eq_ok (h : start source s f = .ok t) :
    s.checkedLevels f = .ok t.levels ∧ t = ⟨source, s, f, t.levels, .new t.levels.length⟩ := by
  simp only [start, bind_eq_ok] at h
  obtain ⟨levels, hl, h⟩ := h
  cases h
  exact ⟨hl, rfl⟩

/-- **A traversal with these entries ahead of it**, `size` in all. -/
def EntriesAhead (source : Nat) (s : Storage) (f : Format) (levels : List Level) (t : Traversal) (items : List Entry) :
    Prop :=
  t = ⟨source, s, f, levels, t.cursor⟩ ∧ t.produced + items.length = s.index.size ∧
    ∃ ahead, t.cursor.Ahead levels ahead ∧ ahead.map (s.atLeaf? f) = items.map some

theorem stepsThrough {levels : List Level} (hn : LevelsNested levels 1 s.index.size) :
    StepsThrough next? (EntriesAhead source s f levels) := by
  rintro t items ⟨ht, hsize, ahead, hc, hitems⟩
  obtain ⟨c', hadvance, hahead, hcoord, hproduced⟩ := Cursor.advance?_ahead hn hc
  have hlen : ahead.length = items.length := by simpa using congrArg List.length hitems
  refine ⟨⟨source, s, f, levels, c'⟩, ?_, rfl, ?_, ahead.tail, hahead, ?_⟩
  · rw [ht]
    simp only [next?, advance?, hadvance, Option.bind_eq_bind, Option.bind_some, Option.pure_def]
    rw [← Cursor.entry_eq hitems hcoord]
    rfl
  · simp only [produced, List.length_tail] at *
    omega
  · rw [List.map_tail, List.map_tail, hitems]

theorem entriesAhead_start (h : start source s f = .ok t) :
    EntriesAhead source s f t.levels t (s.nestedEntries f t.levels) := by
  obtain ⟨hl, ht⟩ := start_eq_ok h
  obtain ⟨-, hn, hv⟩ := Storage.levelsNested_of_checkedLevels hl
  have hc : t.cursor = .new t.levels.length := by rw [ht]
  refine ⟨by rw [hc]; exact ht, ?_, _, by rw [hc]; exact Cursor.ahead_new _, (s.map_some_nestedEntries f hn hv).symm⟩
  rw [produced, hc, s.length_nestedEntries f hn hv]
  exact Nat.zero_add _

theorem rest_start (h : start source s f = .ok t) : ∃ u, t.rest = .ok (s.nestedEntries f t.levels, u) := by
  obtain ⟨hl, ht⟩ := start_eq_ok h
  obtain ⟨-, hn, hv⟩ := Storage.levelsNested_of_checkedLevels hl
  have hlen : t.length = s.index.size := by rw [ht]; rfl
  obtain ⟨u, hu, -⟩ := takeItems_of_step (stepsThrough hn) (t.length + 1) t _ (entriesAhead_start h)
    (by rw [hlen, s.length_nestedEntries f hn hv]; exact Nat.lt_succ_self _)
  exact ⟨u, by rw [rest, hu]; rfl⟩

/-- **The walk of a checked storage, call by call.**  Every leaf of the nested recursion has a value, and there are no
more leaves than words.  After any number of calls the traversal has answered the entries of the nested recursion in
their order, and nothing once they were through, and has counted the entries only; and the move of the next call is one
that the loop ends with, after finitely many rounds, without reading outside the frames and the arrays and without
leaving the words. -/
theorem calls?_start (h : start source s f = .ok t) :
    s.levels f = .ok t.levels ∧ (∀ leaf ∈ leavesBelow t.levels 0, (s.valueAt? leaf.2).isSome) ∧
      (leavesBelow t.levels 0).length < wordLimit ∧
      ∀ n, ∃ u, calls? next? n t = some (((s.nestedEntries f t.levels).take n).map some ++
          List.replicate (n - (s.nestedEntries f t.levels).length) none, u) ∧
        u.produced = min n (s.nestedEntries f t.levels).length ∧
        ∃ move, u.cursor.advance? t.levels = some move ∧ u.cursor.Moves t.levels move := by
  obtain ⟨hl, ht⟩ := start_eq_ok h
  obtain ⟨hlevels, hn, hv⟩ := Storage.levelsNested_of_checkedLevels hl
  refine ⟨hlevels, fun leaf hleaf => ?_, ?_, fun n => ?_⟩
  · have := s.isSome_atLeaf? (f := f) (hv ▸ lt_of_mem_leavesBelow hn hleaf)
    rwa [Storage.atLeaf?, Option.isSome_map] at this
  · have hlen := congrArg List.length (map_snd_leavesBelow hn)
    rw [List.length_map, List.length_range] at hlen
    rw [hlen]
    exact leaves_lt_of_levelsNested (by decide) hn
  · obtain ⟨u, hcalls, hu, hsize, ahead, hahead, -⟩ := calls?_of_step (stepsThrough hn) n t _ (entriesAhead_start h)
    obtain ⟨c', hadvance, -⟩ := Cursor.advance?_ahead hn hahead
    have hlen := s.length_nestedEntries f hn hv
    refine ⟨u, hcalls, ?_, _, hadvance, Cursor.moves_of_advance? hn hahead hadvance⟩
    rw [List.length_drop] at hsize
    omega

/-- Columns of which one is empty and one lists a row twice, walked by five calls. -/
theorem calls?_start_columns :
    let s : Storage := ⟨⟨[.dense 3, .compressed { data := #[0, 2, 2, 3] } { data := #[1, 1, 0] }], 3⟩,
      .ofArray .int32 #[5, 6, 7]⟩
    ∃ t, start 0 s .csc = .ok t ∧ ∃ u, calls? next? 5 t = some ([some ⟨[1, 0], ⟨.int32, (5 : Int32)⟩⟩,
      some ⟨[1, 0], ⟨.int32, (6 : Int32)⟩⟩, some ⟨[0, 2], ⟨.int32, (7 : Int32)⟩⟩, none, none], u) ∧ u.produced = 3 := by
  intro s
  obtain ⟨t, ht⟩ : ∃ t, start 0 s .csc = .ok t := ⟨_, rfl⟩
  obtain ⟨-, -, -, hcalls⟩ := calls?_start ht
  obtain ⟨u, hu, hproduced, -⟩ := hcalls 5
  cases ht
  exact ⟨_, rfl, u, hu, hproduced⟩

end Traversal

/-- **The entries of a storage that passes the checks** are those of the nested recursion. -/
theorem Storage.entries_of_checkedLevels {s : Storage} {f : Format} {levels : List Level}
    (h : s.checkedLevels f = .ok levels) : s.entries f = .ok (s.nestedEntries f levels) := by
  have ht : Traversal.start 0 s f = .ok ⟨0, s, f, levels, .new levels.length⟩ := by
    rw [Traversal.start, h]
    rfl
  obtain ⟨u, hu⟩ := Traversal.rest_start ht
  simp only [entries, ht, Outcome.liftM_checked, Outcome.ofChecked_ok, ok_bind, hu, pure_eq_ok]

theorem Storage.checkedLevels_of_entries {s : Storage} {f : Format} {es : List Entry} (h : s.entries f = .ok es) :
    ∃ levels, s.checkedLevels f = .ok levels := by
  simp only [entries, bind_eq_ok, Outcome.liftM_checked, Outcome.ofChecked_eq_ok] at h
  obtain ⟨t, ht, -⟩ := h
  exact ⟨t.levels, (Traversal.start_eq_ok ht).1⟩

end TensorStorage
