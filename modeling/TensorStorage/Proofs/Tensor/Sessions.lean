import TensorStorage.Proofs.Tensor.Generations
import TensorStorage.Proofs.Tensor.Iterator
/-!
# Sessions — any number of iterators under any interleaving

A session is a workspace and the iterators over its tensors, each with what is remembered of it: the tensor that it was
made over, how often it was called, and whether a command has disturbed it since.  What is remembered changes nothing.
An action of a session keeps every iterator following its tensor (`Session.Sound.act`), and so does any run; and what
follows its tensor answers the entries of its origin until it is disturbed, and nothing from then on
(`Session.answers_actAll`).
-/
namespace TensorStorage

/-- An iterator, the tensor as it was when the iterator was made, the number of calls until now, those of the iterator
that it was cloned from among them, and whether the arrays may be others by now. -/
structure Tracked where
  held : HeldIterator
  origin : Tensor
  calls : Nat
  disturbed : Prop

/-- What a caller does who also iterates. -/
inductive Action where
  | command (c : Command)
  | iterate (h : Handle)
  | clone (place : Nat)
  | next (place : Nat)
  /-- Gives up a handle.  The tensor stays for the other handles and for the iterators. -/
  | drop (h : Handle)

structure Session where
  workspace : Workspace
  iterators : List Tracked

namespace Tracked

/-- An iterator over the tensor behind a handle. -/
def made (w : Workspace) (h : Handle) : Outcome Tracked := do
  let t ← w.tensor? h
  return ⟨← w.iterator h none, t, 0, False⟩

/-- The iterator after a command in a workspace. -/
def after (x : Tracked) (w : Workspace) (c : Command) : Tracked :=
  { x with disturbed := x.disturbed ∨ ∃ t, w.tensor? x.held.handle = some t ∧ c.Disturbs x.held.handle t }

/-- The iterator after a call. -/
def next (w : Workspace) (x : Tracked) : Tracked :=
  match w.next x.held with
  | .ok (_, held) => { x with held, calls := x.calls + 1 }
  | .error _ => x

end Tracked

namespace Session

def start (w : Workspace) : Session := ⟨w, []⟩

def act (σ : Session) : Action → Session
  | .command c => ⟨σ.workspace.obey c, σ.iterators.map (·.after σ.workspace c)⟩
  | .iterate h => { σ with iterators := σ.iterators ++ (Tracked.made σ.workspace h).toOption.toList }
  | .clone place => { σ with iterators := σ.iterators ++ σ.iterators[place]?.toList }
  | .next place => { σ with iterators := σ.iterators.modify place (·.next σ.workspace) }
  | .drop _ => σ

def actAll (σ : Session) (actions : List Action) : Session := actions.foldl act σ

end Session

/-- The next call on an iterator answers this. -/
def Workspace.Answers (w : Workspace) (i : HeldIterator) (item : Option Entry) : Prop := ∃ j, w.next i = .ok (item, j)

/-! ## Iterators and their tensors -/

theorem Workspace.next_of_some {w : Workspace} {i : HeldIterator} {t : Tensor} {item : Option Entry}
    {j : TensorIterator} (ht : w.tensor? i.handle = some t) (h : i.iterator.next? t = some (item, j)) :
    w.next i = .ok (item, { i with iterator := j }) := by
  simp only [next, ht, h, Outcome.liftM_option, Outcome.ofOption_some, ok_bind, pure_eq_ok]

theorem Workspace.remaining_of_some {w : Workspace} {i : HeldIterator} {t : Tensor} (ht : w.tensor? i.handle = some t) :
    w.remaining i = i.iterator.length t := by
  unfold remaining
  rw [ht]

namespace Tracked

variable {x : Tracked} {w : Workspace} {t : Tensor} {s : Storage} {levels : List Level}

/-- **An iterator that follows its tensor**, made over a storage with these levels.  Until it is disturbed, its tensor
is kept as it was and the leaves after those of its calls are ahead of its cursor; then the tensor is of a later
generation. -/
structure Follows (x : Tracked) (t : Tensor) (s : Storage) (levels : List Level) : Prop where
  stored : x.origin.storage? = some s
  checked : s.checkedLevels x.origin.format = .ok levels
  generation : x.held.iterator.generation = x.origin.generation
  packed : t.isPacked = true
  keeps : ¬ x.disturbed → x.origin.Keeps t
  ahead : ¬ x.disturbed → x.held.iterator.cursor.Ahead levels ((leavesBelow levels 0).drop x.calls)
  produced : ¬ x.disturbed →
    x.held.iterator.produced + ((leavesBelow levels 0).drop x.calls).length = (leavesBelow levels 0).length
  later : x.disturbed → x.origin.generation < t.generation

/-- **An iterator follows its tensor from the start.** -/
theorem follows_of_made {h : Handle} (hx : made w h = .ok x) :
    ∃ t s levels, w.tensor? x.held.handle = some t ∧ x.Follows t s levels := by
  simp only [made, Workspace.iterator, Outcome.liftM_option, Outcome.liftM_checked, bind_eq_ok, Outcome.ofOption_eq_ok,
    Outcome.ofChecked_eq_ok] at hx
  obtain ⟨t, ht, held, ⟨t', ht', i, hi, hheld⟩, hx⟩ := hx
  cases hheld
  cases hx
  cases ht.symm.trans ht'
  obtain ⟨s, levels, hs, hlevels, rfl⟩ := Tensor.iterator_eq_ok_iff.1 hi
  exact ⟨t, s, levels, ht, hs, hlevels, rfl, Tensor.isPacked_iff.2 ⟨s, hs⟩, fun _ => .refl t,
    fun _ => Cursor.ahead_new levels, fun _ => Nat.zero_add _, False.elim⟩

namespace Follows

/-- **A command keeps an iterator following its tensor.** -/
theorem after (hx : x.Follows t s levels) (ht : w.tensor? x.held.handle = some t) (c : Command) :
    (x.after w c).Follows (c.reach x.held.handle t) s levels := by
  obtain ⟨hle, hpacked⟩ := Command.generation_le_reach (h := x.held.handle) hx.packed c
  refine ⟨hx.stored, hx.checked, hx.generation, hpacked, fun hd => ?_, fun hd => hx.ahead fun h => hd (.inl h),
    fun hd => hx.produced fun h => hd (.inl h), fun hd => ?_⟩
  · have hkept : ¬ c.Disturbs x.held.handle t := fun h => hd (.inr ⟨t, ht, h⟩)
    exact (hx.keeps fun h => hd (.inl h)).trans (Command.keeps_reach hx.packed hkept)
  · by_cases hbefore : x.disturbed
    · exact Nat.lt_of_lt_of_le (hx.later hbefore) hle
    · rcases hd with hd | ⟨t', ht', hdisturbs⟩
      · exact absurd hd hbefore
      · cases ht.symm.trans ht'
        obtain ⟨hgeneration, -⟩ := Command.reach_of_disturbs hx.packed hdisturbs
        rw [hgeneration, (hx.keeps hbefore).generation]
        exact Nat.lt_succ_self _

/-- The arrays of an iterator that was not disturbed, as they are now. -/
theorem exists_storage (hx : x.Follows t s levels) (hd : ¬ x.disturbed) :
    ∃ s', t.storage? = some s' ∧ s'.checkedLevels t.format = .ok levels ∧ s'.values.size = s.values.size ∧
      s'.index.size = s.index.size := by
  have hkeeps := hx.keeps hd
  obtain ⟨s', hs', hindex, hsize⟩ := hkeeps.storage s hx.stored
  refine ⟨s', hs', ?_, hsize, congrArg TensorIndex.size hindex⟩
  rw [Storage.checkedLevels_of_sameShape hindex hsize, hkeeps.format]
  exact hx.checked

theorem generation_ne (hx : x.Follows t s levels) (hd : x.disturbed) :
    t.generation ≠ x.held.iterator.generation := by
  rw [hx.generation]
  exact Nat.ne_of_gt (hx.later hd)

/-- **A call on a disturbed iterator answers nothing.** -/
theorem next_of_disturbed (hx : x.Follows t s levels) (ht : w.tensor? x.held.handle = some t) (hd : x.disturbed) :
    w.next x.held = .ok (none, x.held) :=
  Workspace.next_of_some ht (TensorIterator.next?_of_ne (hx.generation_ne hd))

/-- **A call on an iterator that was not disturbed answers the leaf after those of its calls**, with the value that is
there now. -/
theorem next_of_kept {s' : Storage} (hx : x.Follows t s levels) (ht : w.tensor? x.held.handle = some t)
    (hd : ¬ x.disturbed) (hs' : t.storage? = some s') :
    ∃ c', w.next x.held = .ok ((leavesBelow levels 0)[x.calls]?.bind (s'.atLeaf? t.format),
        { x.held with iterator := { x.held.iterator with cursor := c' } }) ∧
      c'.Ahead levels ((leavesBelow levels 0).drop (x.calls + 1)) ∧
      c'.produced + ((leavesBelow levels 0).drop (x.calls + 1)).length = (leavesBelow levels 0).length := by
  obtain ⟨s'', hs'', hlevels, -⟩ := hx.exists_storage hd
  cases hs'.symm.trans hs''
  have hgeneration : t.generation = x.held.iterator.generation := (hx.keeps hd).generation.trans hx.generation.symm
  obtain ⟨c', hnext, hahead, hproduced⟩ := TensorIterator.next?_of_ahead hs' hlevels hgeneration (hx.ahead hd)
  rw [List.tail_drop] at hahead hproduced
  rw [List.head?_drop] at hnext
  exact ⟨c', Workspace.next_of_some ht hnext, hahead, hproduced.trans (hx.produced hd)⟩

/-- **A call keeps an iterator following its tensor.** -/
theorem next (hx : x.Follows t s levels) (ht : w.tensor? x.held.handle = some t) :
    (x.next w).held.handle = x.held.handle ∧ (x.next w).Follows t s levels := by
  unfold Tracked.next
  by_cases hd : x.disturbed
  · rw [hx.next_of_disturbed ht hd]
    exact ⟨rfl, hx.stored, hx.checked, hx.generation, hx.packed, hx.keeps, fun h => absurd hd h, fun h => absurd hd h,
      hx.later⟩
  · obtain ⟨s', hs', -⟩ := hx.exists_storage hd
    obtain ⟨c', hnext, hahead, hproduced⟩ := hx.next_of_kept ht hd hs'
    rw [hnext]
    exact ⟨rfl, hx.stored, hx.checked, hx.generation, hx.packed, hx.keeps, fun _ => hahead, fun _ => hproduced,
      hx.later⟩

theorem remaining_of_disturbed (hx : x.Follows t s levels) (ht : w.tensor? x.held.handle = some t)
    (hd : x.disturbed) : w.remaining x.held = 0 := by
  rw [Workspace.remaining_of_some ht]
  exact TensorIterator.length_of_ne (hx.generation_ne hd)

/-- **An iterator that was not disturbed counts the entries after those of its calls.** -/
theorem remaining_of_kept (hx : x.Follows t s levels) (ht : w.tensor? x.held.handle = some t) (hd : ¬ x.disturbed) :
    w.remaining x.held = (s.nestedEntries x.origin.format levels).length - x.calls := by
  obtain ⟨-, hn, hv⟩ := Storage.levelsNested_of_checkedLevels hx.checked
  obtain ⟨s', hs', -, -, hsize⟩ := hx.exists_storage hd
  have hproduced := hx.produced hd
  rw [List.length_drop, length_leavesBelow hn] at hproduced
  rw [Workspace.remaining_of_some ht, s.length_nestedEntries x.origin.format hn hv]
  unfold TensorIterator.length
  rw [hs']
  simp only [(hx.keeps hd).generation, hx.generation, if_true]
  omega

/-- **The entry that comes next is answered with its coordinate and the value that is in its slot now.** -/
theorem answers_entry (hx : x.Follows t s levels) (ht : w.tensor? x.held.handle = some t) (hd : ¬ x.disturbed)
    {e : Entry} (he : (s.nestedEntries x.origin.format levels)[x.calls]? = some e) :
    ∃ s' v, t.storage? = some s' ∧ s'.valueAt? x.calls = some v ∧ w.Answers x.held (some ⟨e.coordinate, v⟩) := by
  obtain ⟨-, hn, hv⟩ := Storage.levelsNested_of_checkedLevels hx.checked
  obtain ⟨coordinate, hleaf, hcoordinate, -⟩ := Storage.exists_leaf_of_getElem? hn hv he
  obtain ⟨s', hs', -, hsize, -⟩ := hx.exists_storage hd
  have hlt : x.calls < s'.values.size := by
    rw [hsize, hv, ← s.length_nestedEntries x.origin.format hn hv]
    exact (List.getElem?_eq_some_iff.1 he).1
  obtain ⟨v, hvalue⟩ := Option.isSome_iff_exists.1 (s'.isSome_valueAt? hlt)
  obtain ⟨c', hnext, -⟩ := hx.next_of_kept ht hd hs'
  rw [hleaf, Option.bind_some, Storage.atLeaf?, hvalue, Option.map_some, (hx.keeps hd).format, ← hcoordinate] at hnext
  exact ⟨s', v, hs', hvalue, _, hnext⟩

/-- After the last entry nothing is answered. -/
theorem answers_none (hx : x.Follows t s levels) (ht : w.tensor? x.held.handle = some t) (hd : ¬ x.disturbed)
    (he : (s.nestedEntries x.origin.format levels)[x.calls]? = none) : w.Answers x.held none := by
  obtain ⟨-, hn, hv⟩ := Storage.levelsNested_of_checkedLevels hx.checked
  obtain ⟨s', hs', -⟩ := hx.exists_storage hd
  obtain ⟨c', hnext, -⟩ := hx.next_of_kept ht hd hs'
  have hthrough : (leavesBelow levels 0).length ≤ x.calls := by
    rw [length_leavesBelow hn, ← s.length_nestedEntries x.origin.format hn hv]
    exact List.getElem?_eq_none_iff.1 he
  rw [List.getElem?_eq_none hthrough] at hnext
  exact ⟨_, hnext⟩

end Follows

end Tracked

/-! ## Runs -/

namespace Session

variable {σ : Session}

/-- **A session whose iterators follow their tensors.** -/
def Sound (σ : Session) : Prop :=
  ∀ x ∈ σ.iterators, ∃ t s levels, σ.workspace.tensor? x.held.handle = some t ∧ x.Follows t s levels

/-- **An action keeps the iterators following their tensors.** -/
theorem Sound.act (hσ : σ.Sound) (a : Action) : (σ.act a).Sound := by
  cases a with
  | command c =>
    refine List.forall_mem_map.2 fun x hx => ?_
    obtain ⟨t, s, levels, ht, hx⟩ := hσ x hx
    exact ⟨_, s, levels, Workspace.tensor?_obey_of_some c ht, hx.after ht c⟩
  | iterate h =>
    refine List.forall_mem_append.2 ⟨hσ, fun x hx => ?_⟩
    cases hmade : Tracked.made σ.workspace h with
    | error e =>
      rw [hmade] at hx
      cases hx
    | ok y =>
      rw [hmade] at hx
      obtain rfl := List.mem_singleton.1 hx
      exact Tracked.follows_of_made hmade
  | clone place =>
    exact List.forall_mem_append.2 ⟨hσ, fun x hx => hσ x (List.mem_of_getElem? (Option.mem_toList.1 hx))⟩
  | next place =>
    intro x hx
    obtain ⟨other, hother⟩ := List.mem_iff_getElem?.1 hx
    unfold Session.act at hother
    by_cases he : place = other
    · rw [he, List.getElem?_modify_eq] at hother
      obtain ⟨y, hy, rfl⟩ := Option.map_eq_some_iff.1 hother
      obtain ⟨t, s, levels, ht, hfollows⟩ := hσ y (List.mem_of_getElem? hy)
      obtain ⟨hhandle, hnext⟩ := hfollows.next ht
      exact ⟨t, s, levels, by rwa [hhandle], hnext⟩
    · rw [List.getElem?_modify_ne _ _ he] at hother
      exact hσ x (List.mem_of_getElem? hother)
  | drop h => exact hσ

/-- **A run keeps the iterators following their tensors.** -/
theorem Sound.actAll : ∀ (actions : List Action) {σ : Session}, σ.Sound → (σ.actAll actions).Sound
  | [], _, hσ => hσ
  | a :: actions, _, hσ => actAll actions (hσ.act a)

/-- **Iterators under any interleaving.**  After any run of a session, an iterator that no command has disturbed is
about to answer the entry of its origin that comes after as many as it was called for, with that entry's coordinate and
the value that is in its slot now, or nothing after the last; and it counts the entries from there on.  A disturbed one
answers and counts none.  A call changes neither the workspace nor another iterator. -/
theorem answers_actAll (w : Workspace) (actions : List Action) (place : Nat) (x : Tracked)
    (hx : ((start w).actAll actions).iterators[place]? = some x) :
    let σ := (start w).actAll actions
    ∃ s es t, x.origin.storage? = some s ∧ s.entries x.origin.format = .ok es ∧
      (∀ (k : Nat) (e : Entry), es[k]? = some e → s.valueAt? k = some e.value) ∧
      σ.workspace.tensor? x.held.handle = some t ∧
      (¬ x.disturbed →
        (∀ e, es[x.calls]? = some e → ∃ s' v, t.storage? = some s' ∧ s'.valueAt? x.calls = some v ∧
          σ.workspace.Answers x.held (some ⟨e.coordinate, v⟩)) ∧
        (es[x.calls]? = none → σ.workspace.Answers x.held none) ∧
        σ.workspace.remaining x.held = es.length - x.calls) ∧
      (x.disturbed → σ.workspace.Answers x.held none ∧ σ.workspace.remaining x.held = 0) ∧
      (σ.act (.next place)).workspace = σ.workspace ∧
      ∀ other, place ≠ other → (σ.act (.next place)).iterators[other]? = σ.iterators[other]? := by
  intro σ
  have hσ : σ.Sound := Sound.actAll actions fun x hx => absurd hx List.not_mem_nil
  obtain ⟨t, s, levels, ht, hfollows⟩ := hσ x (List.mem_of_getElem? hx)
  obtain ⟨-, hn, hv⟩ := Storage.levelsNested_of_checkedLevels hfollows.checked
  refine ⟨s, s.nestedEntries x.origin.format levels, t, hfollows.stored,
    Storage.entries_of_checkedLevels hfollows.checked, fun k e he => ?_, ht, fun hd => ?_, fun hd => ?_, rfl,
    fun other hother => List.getElem?_modify_ne _ _ hother⟩
  · obtain ⟨-, -, -, hvalue⟩ := Storage.exists_leaf_of_getElem? hn hv he
    exact hvalue
  · exact ⟨fun e => hfollows.answers_entry ht hd, hfollows.answers_none ht hd, hfollows.remaining_of_kept ht hd⟩
  · exact ⟨⟨_, hfollows.next_of_disturbed ht hd⟩, hfollows.remaining_of_disturbed ht hd⟩

/-- Three iterators over two rows: the first was made before the storage was opened, the third is a clone of the second,
and the values are zeroed then. -/
theorem answers_actAll_rows :
    let s : Storage := ⟨⟨[.dense 3, .compressed { data := #[0, 1, 1, 2] } { data := #[1, 0] }], 2⟩,
      .ofArray .int32 #[7, 5]⟩
    let t : Tensor := ⟨"t", [3, 2], .int32, .csr, ⟨.sum, 0⟩, .new 2 .int32, some s, 1⟩
    let actions : List Action := [.iterate ⟨0⟩, .next 0, .command (.edit ⟨0⟩ fun s => .ok ((), s)), .iterate ⟨0⟩,
      .next 1, .clone 1, .command (.ask ⟨0⟩ .zero)]
    let σ := (start ⟨#[t], 0, .empty⟩).actAll actions
    ∃ x y, σ.iterators[0]? = some x ∧ σ.iterators[2]? = some y ∧ σ.workspace.Answers x.held none ∧
      σ.workspace.Answers y.held (some ⟨[2, 0], ⟨.int32, (0 : Int32)⟩⟩) ∧ σ.workspace.remaining y.held = 1 := by
  intro s t actions σ
  have hentries : s.entries .csr = .ok [⟨[0, 1], ⟨.int32, (7 : Int32)⟩⟩, ⟨[2, 0], ⟨.int32, (5 : Int32)⟩⟩] := rfl
  have hzero : (σ.workspace.tensor? ⟨0⟩).bind (·.storage?) = some s.zero := rfl
  obtain ⟨x, hx, hopened⟩ : ∃ x, σ.iterators[0]? = some x ∧ x.disturbed :=
    ⟨_, rfl, .inl (.inr ⟨t, rfl, rfl, rfl⟩)⟩
  obtain ⟨y, hy, hkept, hhandle, hcalls, horigin⟩ : ∃ y, σ.iterators[2]? = some y ∧ ¬ y.disturbed ∧
      y.held.handle = ⟨0⟩ ∧ y.calls = 1 ∧ y.origin = { t with generation := 2 } :=
    ⟨_, rfl, fun h => h.elim id fun h => h.elim fun _ h => h.2, rfl, rfl, rfl⟩
  obtain ⟨-, -, -, -, -, -, -, -, hx', -⟩ := answers_actAll _ actions 0 x hx
  obtain ⟨s', es, u, hs', hes, -, hu, hy', -⟩ := answers_actAll _ actions 2 y hy
  rw [horigin] at hs' hes
  cases hs'
  cases hentries.symm.trans hes
  obtain ⟨hsome, -, hremaining⟩ := hy' hkept
  rw [hcalls] at hsome hremaining
  obtain ⟨s', v, hs', hv, hanswers⟩ := hsome _ rfl
  rw [hhandle] at hu
  have hzeroed : u.storage? = some s.zero := by
    rw [← hzero, show σ.workspace.tensor? ⟨0⟩ = some u from hu]
    rfl
  cases hzeroed.symm.trans hs'
  cases hv
  exact ⟨x, y, hx, hy, (hx' hopened).1, hanswers, hremaining⟩

end Session

end TensorStorage
