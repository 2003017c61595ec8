import TensorStorage.Proofs.Walk.Nesting
import TensorStorage.Tensor.Iterator
import TensorStorage.Tensor.Pack
/-!
# Words — the numbers that the checks of a storage reckon with

The check of a level reckons one product or one sum from the number of positions above it (`Level.reckoned`).  A
product past the words is refused as an overflow.  A sum is past them only where `wordLimit - 1` positions are above a
compressed level, and there it comes round to 0: the level is refused too, for its position array
(`Level.countBelow_of_past`).  What the checks refuse is refused wherever a storage is walked (`Storage.Refused`).
-/
namespace TensorStorage

/-! ## Levels -/

/-- The place that is named for a decrease, and the one behind it, are places of the array. -/
theorem firstDecrease?_lt : ∀ {entries : List Int} {first place : Nat} {entry next : Int},
    firstDecrease? first entries = some (place, entry, next) → place + 1 < first + entries.length
  | [], _, _, _, _, h => by cases h
  | [_], _, _, _, _, h => by cases h
  | x :: y :: rest, first, place, entry, next, h => by
    rw [firstDecrease?] at h
    split at h
    · cases h
      simp only [List.length_cons]
      omega
    · have ih := firstDecrease?_lt h
      simp only [List.length_cons] at ih ⊢
      omega

/-- Why a position array is refused whose length should come round to 0. -/
def roundFault (number : Nat) (positions : Array Int32) : IndexFault :=
  if positions.size = 0 then .emptyPositions else .positionsLength number positions.size 0

namespace Level

/-- What the check of a level reckons from the number of positions above it: the number of positions of a dense level,
the length that the position array of a compressed level should have. -/
def reckoned (above : Nat) : Level → Nat
  | dense extent => above * extent
  | compressed _ _ => above + 1

/-- **A level that reckons past the words is refused**, and a sum goes past them by one at most. -/
theorem countBelow_of_past {level : Level} {above : Nat} (number : Nat) (habove : above < wordLimit)
    (hpast : wordLimit ≤ level.reckoned above) :
    (∃ extent, level = dense extent ∧ level.countBelow number above = .error (.indexOverflow (wordLimit - 1))) ∨
      ∃ positions coordinates, level = compressed positions coordinates ∧ level.reckoned above = wordLimit ∧
        level.countBelow number above = .error (.invalidIndex (roundFault number positions)) := by
  cases level with
  | dense extent =>
    have hproduct : wordLimit ≤ above * extent := hpast
    have hsaturated : saturated (above * extent) = wordLimit - 1 :=
      Nat.min_eq_right (Nat.le_trans (Nat.sub_le _ _) hproduct)
    refine .inl ⟨extent, rfl, ?_⟩
    rw [countBelow, if_neg (Nat.not_lt_of_le hproduct), hsaturated]
  | compressed positions coordinates =>
    have hsum : above + 1 = wordLimit := Nat.le_antisymm habove hpast
    refine .inr ⟨positions, coordinates, rfl, hsum, ?_⟩
    by_cases hempty : positions.size = 0
    · obtain rfl : positions = #[] := Array.eq_empty_of_size_eq_zero hempty
      simp only [countBelow, hsum, Nat.mod_self, roundFault, Array.size_empty, ne_eq, not_true_eq_false, if_false,
        if_true]
      rfl
    · simp only [countBelow, hsum, Nat.mod_self, roundFault, ne_eq, hempty, not_false_eq_true, if_true, if_false,
        error_bind]

theorem countBelow_dense {extent above : Nat} (number : Nat) (h : (dense extent).reckoned above < wordLimit) :
    (dense extent).countBelow number above = .ok ((dense extent).reckoned above) :=
  if_pos h

/-- A position array of another length than the level wants is refused before it is looked at. -/
theorem countBelow_of_misfit {positions coordinates : Array Int32} {above : Nat} (number : Nat)
    (h : (compressed positions coordinates).reckoned above < wordLimit)
    (hsize : positions.size ≠ (compressed positions coordinates).reckoned above) :
    (compressed positions coordinates).countBelow number above =
      .error (.invalidIndex (.positionsLength number positions.size
        ((compressed positions coordinates).reckoned above))) := by
  simp only [reckoned] at h hsize ⊢
  simp only [countBelow, Nat.mod_eq_of_lt h, ne_eq, hsize, not_false_eq_true, if_true, error_bind]

end Level

theorem countLeaves_take_succ : ∀ {levels : List Level} {number above l reached below : Nat} {level : Level},
    countLeaves number above (levels.take l) = .ok reached → levels[l]? = some level →
      level.countBelow (number + l) reached = .ok below → countLeaves number above (levels.take (l + 1)) = .ok below
  | [], _, _, _, _, _, _, _, hl, _ => by cases hl
  | level :: rest, number, above, 0, reached, below, _, hreached, hl, hbelow => by
    cases hreached
    cases hl
    rw [List.take_succ_cons, countLeaves, show level.countBelow number above = .ok below from hbelow]
    rfl
  | level :: rest, number, above, l + 1, reached, below, level', hreached, hl, hbelow => by
    rw [List.take_succ_cons, countLeaves, bind_eq_ok] at hreached
    obtain ⟨next, hnext, hreached⟩ := hreached
    rw [List.take_succ_cons, countLeaves, hnext, ok_bind]
    exact countLeaves_take_succ hreached hl (by rwa [Nat.add_right_comm, Nat.add_assoc])

/-- **The first level that is refused decides**, whatever is below it. -/
theorem countLeaves_of_refused : ∀ {levels : List Level} {number above l reached : Nat} {level : Level}
    {e : StorageError}, countLeaves number above (levels.take l) = .ok reached → levels[l]? = some level →
      level.countBelow (number + l) reached = .error e → countLeaves number above levels = .error e
  | [], _, _, _, _, _, _, _, hl, _ => by cases hl
  | level :: rest, number, above, 0, reached, _, e, hreached, hl, he => by
    cases hreached
    cases hl
    rw [countLeaves, show level.countBelow number above = .error e from he, error_bind]
  | level :: rest, number, above, l + 1, reached, level', e, hreached, hl, he => by
    rw [List.take_succ_cons, countLeaves, bind_eq_ok] at hreached
    obtain ⟨below, hbelow, hreached⟩ := hreached
    rw [countLeaves, hbelow, ok_bind]
    exact countLeaves_of_refused hreached hl (by rwa [Nat.add_right_comm, Nat.add_assoc])

/-! ## Storages -/

namespace Storage

variable {s : Storage} {f : Format} {e : StorageError}

/-- **A storage that is refused for this cause wherever it is walked**: by a traversal, by iterating over a tensor that
holds it, by packing such a tensor with records that wait, and when a tensor of its kind is to install it. -/
structure Refused (s : Storage) (f : Format) (e : StorageError) : Prop where
  start : ∀ source, Traversal.start source s f = .error e
  iterator : ∀ t : Tensor, t.storage? = some s → t.format = f → t.iterator = .error e
  pack : ∀ t : Tensor, t.storage? = some s → t.format = f → t.isSettled = false → t.pack = .error (.refused e)
  setStorage : ∀ t : Tensor, t.dtype = s.dtype → t.format = f → t.setStorage s = .error (.refused e)

theorem refused_of_checkedLevels (h : s.checkedLevels f = .error e) : s.Refused f e where
  start source := by rw [Traversal.start, h, error_bind]
  iterator t hs hf := by
    subst hf
    simp only [Tensor.iterator, Tensor.storage, hs, ok_bind, h, error_bind]
  pack t hs hf hsettled := by
    subst hf
    have hentries : s.entries t.format = .error (.refused e) := by
      simp only [entries, Traversal.start, h, error_bind, Outcome.liftM_checked, Outcome.ofChecked_error]
    simp only [Tensor.pack, hsettled, Tensor.storedEntries, hs, hentries, error_bind]
    rfl
  setStorage t hd hf := by
    subst hf
    simp only [Tensor.setStorage, hd, checkFits, h, ne_eq, not_true_eq_false, if_false, Outcome.liftM_checked,
      Outcome.ofChecked_error, error_bind]

theorem checkedLevels_of_refused {levels : List Level} {l above : Nat} {level : Level}
    (hlevels : s.levels f = .ok levels) (hl : levels[l]? = some level)
    (habove : countLeaves 0 1 (levels.take l) = .ok above) (he : level.countBelow l above = .error e) :
    s.checkedLevels f = .error e := by
  have hcount : countLeaves 0 1 levels = .error e := countLeaves_of_refused habove hl (by rwa [Nat.zero_add])
  simp only [checkedLevels, checkNested, hlevels, hcount, ok_bind, error_bind]

/-- **What becomes of the number `n` that level `l` reckons**: as a word it is the number of positions of a dense level
and the length of the position array of a compressed level, or the storage is refused. -/
inductive Reckons (s : Storage) (f : Format) (levels : List Level) (l n : Nat) : Level → Prop
  | counted {extent : Nat} : n < wordLimit → countLeaves 0 1 (levels.take (l + 1)) = .ok n →
      Reckons s f levels l n (.dense extent)
  | overflow {extent : Nat} : wordLimit ≤ n → s.Refused f (.indexOverflow (wordLimit - 1)) →
      Reckons s f levels l n (.dense extent)
  /-- The places of the array that are compared are below its length. -/
  | fitting {positions coordinates : Array Int32} : n < wordLimit → positions.size = n →
      (∀ place entry next, firstDecrease? 0 (positions.toList.map (·.toInt)) = some (place, entry, next) →
        place + 1 < n) → Reckons s f levels l n (.compressed positions coordinates)
  | misfit {positions coordinates : Array Int32} : n < wordLimit → positions.size ≠ n →
      s.Refused f (.invalidIndex (.positionsLength l positions.size n)) →
      Reckons s f levels l n (.compressed positions coordinates)
  /-- The length comes round to 0. -/
  | round {positions coordinates : Array Int32} : n = wordLimit →
      s.Refused f (.invalidIndex (roundFault l positions)) → Reckons s f levels l n (.compressed positions coordinates)

/-- **The checks of a storage keep within the words**, and refuse it where they cannot.  A storage passes them, or is
refused for the same cause wherever it is walked.  At every level that they come to, there are fewer positions above
than words, and the number that is reckoned from them is a word, or the storage is refused: as an overflow for a
product, but for its position array for a sum, which is past the words by one. -/
theorem checks_within_words (s : Storage) (f : Format) :
    ((∃ levels, s.checkedLevels f = .ok levels) ∨ ∃ e, s.Refused f e) ∧
      ∀ levels, s.levels f = .ok levels → ∀ l level above, levels[l]? = some level →
        countLeaves 0 1 (levels.take l) = .ok above →
          above < wordLimit ∧ s.Reckons f levels l (level.reckoned above) level := by
  refine ⟨?_, fun levels hlevels l level above hl habove => ?_⟩
  · cases h : s.checkedLevels f with
    | ok levels => exact .inl ⟨levels, rfl⟩
    | error e => exact .inr ⟨e, refused_of_checkedLevels h⟩
  · have hword : above < wordLimit :=
      leaves_lt_of_levelsNested (by decide) (levelsNested_of_countLeaves _ 0 1 (by decide) habove)
    have hrefused := fun e (he : level.countBelow l above = .error e) =>
      refused_of_checkedLevels (checkedLevels_of_refused hlevels hl habove he)
    refine ⟨hword, ?_⟩
    rcases Nat.lt_or_ge (level.reckoned above) wordLimit with hlt | hpast
    · cases level with
      | dense extent =>
        exact .counted hlt (countLeaves_take_succ habove hl (Level.countBelow_dense _ hlt))
      | compressed positions coordinates =>
        by_cases hsize : positions.size = (Level.compressed positions coordinates).reckoned above
        · refine .fitting hlt hsize fun place entry next hdecrease => ?_
          rw [← hsize]
          simpa using firstDecrease?_lt hdecrease
        · exact .misfit hlt hsize (hrefused _ (Level.countBelow_of_misfit l hlt hsize))
    · rcases level.countBelow_of_past l hword hpast with
        ⟨extent, rfl, he⟩ | ⟨positions, coordinates, rfl, hsum, he⟩
      · exact .overflow hpast (hrefused _ he)
      · exact .round hsum (hrefused _ he)

/-- A cube of the largest extents: the third product is past the words. -/
theorem checks_within_words_cube :
    let s : Storage := ⟨⟨[.dense 2147483647, .dense 2147483647, .dense 2147483647], 0⟩, .ofArray .int32 #[]⟩
    s.Refused (.dense 3) (.indexOverflow (wordLimit - 1)) := by
  intro s
  obtain ⟨-, hlevels⟩ := checks_within_words s (.dense 3)
  obtain ⟨-, hreckons⟩ :=
    hlevels (List.replicate 3 (.dense 2147483647)) rfl 2 (.dense 2147483647) (2147483647 * 2147483647) rfl rfl
  cases hreckons with
  | counted hlt => exact absurd hlt (by decide)
  | overflow _ hrefused => exact hrefused

/-- Four dense levels have as many positions as the largest word says.  The length that is wanted of the position array
below them is past the words, and no overflow is reported. -/
theorem sum_past_words :
    let s : Storage := ⟨⟨[.dense 65535, .dense 65537, .dense 641, .dense 6700417,
      .compressed { data := #[] } { data := #[] }], 0⟩, .ofArray .int32 #[]⟩
    let f : Format := ⟨[.dense, .dense, .dense, .dense, .compressed], [0, 1, 2, 3, 4], rfl, by decide⟩
    ∃ levels level above, s.levels f = .ok levels ∧ levels[4]? = some level ∧
      countLeaves 0 1 (levels.take 4) = .ok above ∧ level.reckoned above = wordLimit ∧
      ∀ source count, Traversal.start source s f ≠ .error (.indexOverflow count) := by
  intro s f
  have hempty : s.checkedLevels f = .error (.invalidIndex .emptyPositions) := rfl
  refine ⟨[.dense 65535, .dense 65537, .dense 641, .dense 6700417, .compressed #[] #[]], .compressed #[] #[],
    wordLimit - 1, rfl, rfl, rfl, rfl, fun source count => ?_⟩
  rw [(refused_of_checkedLevels hempty).start source]
  nofun

end Storage

end TensorStorage
