import TensorStorage.Proofs.Walk.Nesting
/-!
# Search — what a cursor finds

A search below a position finds the first of the leaves below it, and a search that resumes finds the first of the
leaves that are left (`leavesAhead`), with the frames standing at it (`Standing`).  Where the levels nest, no search
reads outside the arrays.
-/
namespace TensorStorage

/-- The leaves below the siblings from `position` up to `stop`, which begin at `first`. -/
def leavesFrom (level : Level) (rest : List Level) (first position stop : Nat) : List (Coordinate × Nat) :=
  (List.range' position (stop - position)).flatMap fun q =>
    (leavesBelow rest q).map fun leaf => (level.coordinateFrom first q :: leaf.1, leaf.2)

/-- The leaves after the one at which the frames stand. -/
def leavesAhead : List Level → List Frame → List (Coordinate × Nat)
  | level :: rest, frame :: inner =>
    ((leavesAhead rest inner).map fun leaf => (frame.coordinate :: leaf.1, leaf.2)) ++
      leavesFrom level rest frame.first (frame.position + 1) frame.stop
  | _, _ => []

/-- **Frames that stand at a leaf**: at every level the position in hand is in the segment of a position above. -/
def Standing : List Level → Nat → List Frame → Prop
  | [], _, frames => frames = []
  | level :: rest, above, frame :: inner =>
    (∃ p < above, frame.first = level.firstChild p ∧ frame.stop = level.firstChild (p + 1)) ∧
      frame.first ≤ frame.position ∧ frame.position < frame.stop ∧ Standing rest (level.firstChild above) inner
  | _ :: _, _, [] => False

/-- **What a search among `ahead` is to find**: the first leaf, with the frames standing at it and the others ahead;
nothing if there is no leaf. -/
def Finds (levels : List Level) (above : Nat) (ahead : List (Coordinate × Nat)) (found : Found) : Prop :=
  found.2.length = levels.length ∧
    match ahead with
    | [] => found.1 = none
    | leaf :: more => found.1 = some leaf.2 ∧ found.2.map (·.coordinate) = leaf.1 ∧ Standing levels above found.2 ∧
        leavesAhead levels found.2 = more

theorem leavesBelow_cons (level : Level) (rest : List Level) (p : Nat) :
    leavesBelow (level :: rest) p =
      leavesFrom level rest (level.firstChild p) (level.firstChild p) (level.firstChild (p + 1)) := by
  rw [leavesBelow, Level.children_eq, List.flatMap_map]
  rfl

theorem leavesFrom_of_le {level : Level} {rest : List Level} {first position stop : Nat} (h : stop ≤ position) :
    leavesFrom level rest first position stop = [] := by
  rw [leavesFrom, Nat.sub_eq_zero_of_le h]; rfl

theorem leavesFrom_of_lt {level : Level} {rest : List Level} {first position stop : Nat} (h : position < stop) :
    leavesFrom level rest first position stop =
      ((leavesBelow rest position).map fun leaf => (level.coordinateFrom first position :: leaf.1, leaf.2)) ++
        leavesFrom level rest first (position + 1) stop := by
  rw [leavesFrom, show stop - position = (stop - (position + 1)) + 1 by omega, List.range'_succ, List.flatMap_cons]
  rfl

theorem leavesBelow_of_isBarren : ∀ (levels : List Level), isBarren levels = true → ∀ p, leavesBelow levels p = []
  | .dense 0 :: rest, _, p => by simp [leavesBelow, Level.children]
  | .dense (n + 1) :: rest, h, p => by
    rw [isBarren] at h
    · simp [leavesBelow, leavesBelow_of_isBarren rest h]
    · simp
  | [], h, _ => by cases h
  | .compressed _ _ :: _, h, _ => by cases h

theorem length_of_standing : ∀ {levels : List Level} {above : Nat} {frames : List Frame},
    Standing levels above frames → frames.length = levels.length
  | [], _, _, h => by rw [h]; rfl
  | _ :: rest, _, _ :: inner, h => by rw [List.length_cons, List.length_cons, length_of_standing h.2.2.2]
  | _ :: _, _, [], h => h.elim

/-- **Scanning siblings finds the first leaf below them**, if a search below each of them does. -/
theorem scanSiblings_finds {level : Level} {rest : List Level} {above p : Nat}
    (hn : level.Nested above (level.firstChild above)) (hp : p < above)
    (hseek : ∀ q < level.firstChild above, ∀ inner : List Frame, inner.length = rest.length →
      ∃ found, seekLeaf rest q inner = some found ∧ Finds rest (level.firstChild above) (leavesBelow rest q) found) :
    ∀ (left : Nat) (frame : Frame) (inner : List Frame), inner.length = rest.length →
      frame.first = level.firstChild p → frame.stop = level.firstChild (p + 1) → frame.first ≤ frame.position →
      left = frame.stop - frame.position →
      ∃ found, scanSiblings level (seekLeaf rest) left frame inner = some found ∧
        Finds (level :: rest) above (leavesFrom level rest frame.first frame.position frame.stop) found
  | 0, frame, inner, hlen, _, _, _, hleft => by
    refine ⟨_, rfl, by simp [hlen], ?_⟩
    rw [leavesFrom_of_le (by omega)]
  | left + 1, frame, inner, hlen, hfirst, hstop, hle, hleft => by
    have hlt : frame.position < frame.stop := by omega
    have hbelow : frame.position < level.firstChild above := by
      have := hn.firstChild_le (p := p + 1) hp
      omega
    have hcoordinate : level.coordinate? frame.first frame.position =
        some (level.coordinateFrom frame.first frame.position) := by
      rw [hfirst]
      exact hn.coordinate p hp _ (by omega) (by omega)
    obtain ⟨⟨leaf?, inner'⟩, hfound, hlen', hf⟩ := hseek frame.position hbelow inner hlen
    rw [scanSiblings, hcoordinate, leavesFrom_of_lt hlt]
    simp only [Option.bind_eq_bind, Option.bind_some, hfound]
    cases hb : leavesBelow rest frame.position with
    | nil =>
      rw [hb] at hf
      obtain rfl : leaf? = none := hf
      exact scanSiblings_finds hn hp hseek left
        { frame with coordinate := level.coordinateFrom frame.first frame.position, position := frame.position + 1 }
        inner' hlen' hfirst hstop (Nat.le_succ_of_le hle) (by simp; omega)
    | cons leaf more =>
      rw [hb] at hf
      obtain ⟨rfl, hcoord, hstand, hahead⟩ := hf
      refine ⟨_, rfl, by simpa using hlen', ?_⟩
      simp only [List.map_cons, List.cons_append, Standing, leavesAhead]
      exact ⟨trivial, by rw [hcoord], ⟨⟨p, hp, hfirst, hstop⟩, hle, hlt, hstand⟩, by rw [hahead]⟩

/-- **A search below a position finds the first leaf below it.** -/
theorem seekLeaf_finds : ∀ {levels : List Level} {above leaves : Nat}, LevelsNested levels above leaves →
    ∀ p < above, ∀ frames : List Frame, frames.length = levels.length →
      ∃ found, seekLeaf levels p frames = some found ∧ Finds levels above (leavesBelow levels p) found
  | [], above, leaves, _, p, _, frames, hlen => by
    obtain rfl : frames = [] := List.eq_nil_of_length_eq_zero hlen
    exact ⟨_, rfl, rfl, rfl, rfl, rfl, rfl⟩
  | level :: rest, above, leaves, ⟨below, hn, hrest⟩, p, hp, frame :: inner, hlen => by
    obtain rfl := hn.first_last
    have hseek := fun q hq inner hi => seekLeaf_finds hrest q hq inner hi
    have hlen' : inner.length = rest.length := by simpa using hlen
    rw [seekLeaf, hn.segment p hp, leavesBelow_cons]
    simp only [Option.bind_eq_bind, Option.bind_some]
    by_cases hb : isBarren rest = true
    · -- no sibling has a leaf below it, so it does not matter from where they are scanned
      have hnone : ∀ position, leavesFrom level rest (level.firstChild p) position (level.firstChild (p + 1)) = [] :=
        fun position => by simp [leavesFrom, leavesBelow_of_isBarren rest hb]
      obtain ⟨found, hfound, hf⟩ := scanSiblings_finds hn hp hseek _
        { frame with first := level.firstChild p, stop := level.firstChild (p + 1),
                     position := max (level.firstChild p) (level.firstChild (p + 1) - 1) }
        inner hlen' rfl rfl (Nat.le_max_left _ _) rfl
      rw [hnone] at hf
      rw [if_pos hb, hnone]
      exact ⟨found, hfound, hf⟩
    · rw [if_neg hb]
      exact scanSiblings_finds hn hp hseek _
        { frame with first := level.firstChild p, stop := level.firstChild (p + 1), position := level.firstChild p }
        inner hlen' rfl rfl (Nat.le_refl _) rfl
  | _ :: _, _, _, _, _, _, [], hlen => by cases hlen

/-- **A search that resumes finds the first of the leaves ahead.** -/
theorem resumeSearch_finds : ∀ {levels : List Level} {above leaves : Nat}, LevelsNested levels above leaves →
    ∀ {frames : List Frame}, Standing levels above frames →
      ∃ found, resumeSearch levels frames = some found ∧ Finds levels above (leavesAhead levels frames) found
  | [], _, _, _, _, hs => by
    obtain rfl := hs
    exact ⟨_, rfl, rfl, rfl⟩
  | level :: rest, above, leaves, ⟨below, hn, hrest⟩, frame :: inner, ⟨⟨p, hp, hfirst, hstop⟩, hle, hlt, hs⟩ => by
    obtain rfl := hn.first_last
    have hseek := fun q hq inner hi => seekLeaf_finds hrest q hq inner hi
    obtain ⟨⟨leaf?, inner'⟩, hfound, hlen, hf⟩ := resumeSearch_finds hrest hs
    rw [resumeSearch, hfound, leavesAhead]
    simp only [Option.bind_eq_bind, Option.bind_some]
    cases ha : leavesAhead rest inner with
    | nil =>
      rw [ha] at hf
      obtain rfl : leaf? = none := hf
      exact scanSiblings_finds hn hp hseek _ { frame with position := frame.position + 1 } inner' hlen hfirst hstop
        (Nat.le_succ_of_le hle) rfl
    | cons leaf more =>
      rw [ha] at hf
      obtain ⟨rfl, hcoord, hstand, hahead⟩ := hf
      refine ⟨_, rfl, by simpa using hlen, ?_⟩
      simp only [List.map_cons, List.cons_append, Standing, leavesAhead]
      exact ⟨trivial, by rw [hcoord], ⟨⟨p, hp, hfirst, hstop⟩, hle, hlt, hstand⟩, by rw [hahead]⟩
  | _ :: _, _, _, _, [], hs => hs.elim

end TensorStorage
