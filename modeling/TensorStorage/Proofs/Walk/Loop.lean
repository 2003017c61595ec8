import TensorStorage.Proofs.Walk.Search
import TensorStorage.Walk.Loop
/-!
# Loop — the loop takes the moves of the cursor

The loop at some level, with the frames of the levels outside of it set aside (`outer`), does what a scan of the
siblings there does: it ends where the scan finds a leaf, and comes to stand through with the level where the scan
finds none (`scan_loop`).  The cursor skips siblings without leaves below them; the loop does not, and leaves the same
frames (`seekLeaf_cons`).
-/
namespace TensorStorage

/-! ## Skipped siblings -/

theorem seekLeaf_eq {level : Level} {rest : List Level} {above below p : Nat} (hn : level.Nested above below)
    (hp : p < above) (frame : Frame) (inner : List Frame) :
    seekLeaf (level :: rest) p (frame :: inner) =
      (let first := level.firstChild p
       let stop := level.firstChild (p + 1)
       let position := if isBarren rest then max first (stop - 1) else first
       scanSiblings level (seekLeaf rest) (stop - position) { frame with first, position, stop } inner) := by
  rw [seekLeaf, hn.segment p hp]
  rfl

theorem seekLeaf_of_isBarren {levels : List Level} {above leaves p : Nat} (h : LevelsNested levels above leaves)
    (hb : isBarren levels = true) (hp : p < above) {frames : List Frame} (hlen : frames.length = levels.length) :
    ∃ inner, seekLeaf levels p frames = some (none, inner) ∧ inner.length = levels.length := by
  obtain ⟨⟨leaf?, inner⟩, hfound, hinner, hf⟩ := seekLeaf_finds h p hp frames hlen
  rw [leavesBelow_of_isBarren levels hb] at hf
  obtain rfl : leaf? = none := hf
  exact ⟨inner, hfound, hinner⟩

/-- Where no leaf can be found below a dense level, a search visits one sibling there, the last one. -/
theorem seekLeaf_dense_of_isBarren {n above below leaves p : Nat} {rest : List Level}
    (hn : (Level.dense (n + 1)).Nested above below) (hrest : LevelsNested rest below leaves)
    (hb : isBarren rest = true) (hp : p < above) (frame : Frame) {tail : List Frame}
    (htail : tail.length = rest.length) :
    p * (n + 1) + n < below ∧ ∃ inner, seekLeaf rest (p * (n + 1) + n) tail = some (none, inner) ∧
      inner.length = rest.length ∧ seekLeaf (.dense (n + 1) :: rest) p (frame :: tail) =
        some (none, ⟨p * (n + 1), p * (n + 1) + n + 1, p * (n + 1) + n + 1, n⟩ :: inner) := by
  have hbelow : p * (n + 1) + n < below := by
    have := hn.firstChild_le (p := p + 1) hp
    simp only [Level.firstChild, Nat.succ_mul] at this
    omega
  obtain ⟨inner, hinner, hlen⟩ := seekLeaf_of_isBarren hrest hb hbelow htail
  refine ⟨hbelow, inner, hinner, hlen, ?_⟩
  have hmax : max (p * (n + 1)) (p * (n + 1) + (n + 1) - 1) = p * (n + 1) + n := by omega
  have hone : p * (n + 1) + (n + 1) - (p * (n + 1) + n) = 1 := by omega
  have hlast : p * (n + 1) + n - p * (n + 1) = n := by omega
  rw [seekLeaf_eq hn hp]
  simp only [Level.firstChild, Nat.succ_mul p (n + 1), if_pos hb, hmax, hone, scanSiblings, Level.coordinate?, hlast,
    Option.bind_eq_bind, Option.bind_some, hinner, Nat.add_assoc]

/-- **A search where no leaf can be found overwrites what an earlier one left.** -/
theorem seekLeaf_seekLeaf : ∀ {levels : List Level} {above leaves : Nat}, LevelsNested levels above leaves →
    isBarren levels = true → ∀ p < above, ∀ q < above, ∀ frames inner : List Frame, frames.length = levels.length →
      seekLeaf levels p frames = some (none, inner) → seekLeaf levels q inner = seekLeaf levels q frames
  | .dense 0 :: rest, above, leaves, ⟨below, hn, hrest⟩, hb, p, hp, q, hq, frame :: tail, inner, hlen, h => by
    rw [seekLeaf_eq hn hp] at h
    simp only [Level.firstChild, Nat.mul_zero, Nat.zero_sub, Nat.max_self, ite_self, Nat.sub_self, scanSiblings,
      Option.some.injEq, Prod.mk.injEq, true_and] at h
    rw [← h, seekLeaf_eq hn hq, seekLeaf_eq hn hq]
  | .dense (n + 1) :: rest, above, leaves, ⟨below, hn, hrest⟩, hb, p, hp, q, hq, frame :: tail, inner, hlen, h => by
    have hbr : isBarren rest = true := by
      rw [isBarren] at hb
      · exact hb
      · simp
    have htail : tail.length = rest.length := by simpa using hlen
    obtain ⟨hpb, inner₁, h₁, hlen₁, hp₁⟩ := seekLeaf_dense_of_isBarren hn hrest hbr hp frame htail
    obtain ⟨hqb, inner₂, h₂, -, hq₂⟩ := seekLeaf_dense_of_isBarren hn hrest hbr hq frame htail
    rw [hp₁] at h
    cases h
    -- the search at `q` starts from the frames that the search at `p` left, and both leave the same
    obtain ⟨-, inner₃, h₃, -, hq₃⟩ := seekLeaf_dense_of_isBarren hn hrest hbr hq
      ⟨p * (n + 1), p * (n + 1) + n + 1, p * (n + 1) + n + 1, n⟩ hlen₁
    rw [seekLeaf_seekLeaf hrest hbr _ hpb _ hqb tail inner₁ htail h₁, h₂] at h₃
    cases h₃
    rw [hq₃, hq₂]
  | [], _, _, _, hb, _, _, _, _, _, _, _, _ => by cases hb
  | .compressed _ _ :: _, _, _, _, hb, _, _, _, _, _, _, _, _ => by cases hb
  | .dense _ :: _, _, _, _, _, _, _, _, _, [], _, hlen, _ => by cases hlen

section Scan

variable {level : Level} {rest : List Level} {above leaves p : Nat}
  (hn : level.Nested above (level.firstChild above)) (hrest : LevelsNested rest (level.firstChild above) leaves)
  (hp : p < above)

include hn hrest hp

/-- Where no sibling has a leaf below it, a sibling before the last may be skipped. -/
theorem scanSiblings_skip (hb : isBarren rest = true) (left : Nat) (frame : Frame) (inner : List Frame)
    (hlen : inner.length = rest.length) (hfirst : frame.first = level.firstChild p)
    (hle : frame.first ≤ frame.position) (hstop : frame.position + (left + 2) = level.firstChild (p + 1)) :
    scanSiblings level (seekLeaf rest) (left + 2) frame inner =
      scanSiblings level (seekLeaf rest) (left + 1) { frame with position := frame.position + 1 } inner := by
  have hlast := hn.firstChild_le (p := p + 1) hp
  have hc : ∀ q, frame.first ≤ q → q < frame.position + (left + 2) →
      level.coordinate? frame.first q = some (level.coordinateFrom frame.first q) := fun q h1 h2 => by
    rw [hfirst] at h1 ⊢
    exact hn.coordinate p hp q h1 (by omega)
  obtain ⟨inner', hinner, hlen'⟩ := seekLeaf_of_isBarren hrest hb
    (show frame.position < level.firstChild above by omega) hlen
  rw [scanSiblings, hc _ hle (by omega)]
  simp only [Option.bind_eq_bind, Option.bind_some, hinner]
  rw [scanSiblings, scanSiblings]
  simp only [hc (frame.position + 1) (by omega) (by omega), Option.bind_eq_bind, Option.bind_some]
  rw [seekLeaf_seekLeaf hrest hb frame.position (by omega) (frame.position + 1) (by omega) inner inner' hlen hinner]

theorem scanSiblings_last (hb : isBarren rest = true) : ∀ (left : Nat) (frame : Frame) (inner : List Frame),
    inner.length = rest.length → frame.first = level.firstChild p → frame.first ≤ frame.position →
    frame.position + (left + 1) = level.firstChild (p + 1) →
    scanSiblings level (seekLeaf rest) (left + 1) frame inner =
      scanSiblings level (seekLeaf rest) 1 { frame with position := frame.position + left } inner
  | 0, _, _, _, _, _, _ => rfl
  | left + 1, frame, inner, hlen, hfirst, hle, hstop => by
    rw [scanSiblings_skip hn hrest hp hb left frame inner hlen hfirst hle hstop,
      scanSiblings_last hb left { frame with position := frame.position + 1 } inner hlen hfirst
        (Nat.le_succ_of_le hle) (by simp only; omega)]
    simp only [Nat.add_assoc, Nat.add_comm 1 left]

/-- **A search below a position scans all siblings there.** -/
theorem seekLeaf_cons (frame : Frame) (inner : List Frame) (hlen : inner.length = rest.length) :
    seekLeaf (level :: rest) p (frame :: inner) =
      (let first := level.firstChild p
       let stop := level.firstChild (p + 1)
       scanSiblings level (seekLeaf rest) (stop - first) { frame with first, position := first, stop } inner) := by
  rw [seekLeaf_eq hn hp]
  by_cases hb : isBarren rest = true
  · simp only [if_pos hb]
    rcases Nat.lt_or_ge (level.firstChild p) (level.firstChild (p + 1)) with hlt | hge
    · obtain ⟨left, hleft⟩ : ∃ left, level.firstChild (p + 1) = level.firstChild p + (left + 1) :=
        ⟨level.firstChild (p + 1) - level.firstChild p - 1, by omega⟩
      have hpos : max (level.firstChild p) (level.firstChild (p + 1) - 1) = level.firstChild p + left := by omega
      have hone : level.firstChild (p + 1) - (level.firstChild p + left) = 1 := by omega
      have hall : level.firstChild (p + 1) - level.firstChild p = left + 1 := by omega
      rw [hpos, hone, hall, scanSiblings_last hn hrest hp hb left _ inner hlen rfl (Nat.le_refl _) hleft.symm]
    · have hpos : max (level.firstChild p) (level.firstChild (p + 1) - 1) = level.firstChild p := by omega
      rw [hpos]
  · simp only [if_neg hb]

end Scan

/-! ## Rounds -/

namespace Loop

/-- **What is left to do after a search among the frames inside `outer`**: nothing if it found a leaf; else the loop
goes on from there, at the level that is through. -/
def Onward (levels : List Level) (outer : List Frame) (result found : Found) : Prop :=
  match result.1 with
  | some leaf => found = (some leaf, outer ++ result.2)
  | none => Ends levels ⟨outer.length, outer ++ result.2⟩ found

variable {levels : List Level} {outer inner : List Frame} {frame : Frame} {found : Found}

theorem getElem?_outer : (outer ++ frame :: inner)[outer.length]? = some frame := by simp

theorem set_outer {frame' : Frame} : (outer ++ frame :: inner).set outer.length frame' = outer ++ frame' :: inner := by
  simp

/-- A level that is through gives way to the sibling after the one in hand above it. -/
theorem ends_of_through {inner' : Frame} (hlt : frame.position + 1 < wordLimit)
    (hthrough : inner'.stop ≤ inner'.position)
    (h : Ends levels ⟨outer.length, outer ++ { frame with position := frame.position + 1 } :: inner' :: inner⟩ found) :
    Ends levels ⟨outer.length + 1, outer ++ frame :: inner' :: inner⟩ found := by
  refine .later ?_ h
  have hget : (outer ++ frame :: inner' :: inner)[outer.length + 1]? = some inner' := by simp
  simp only [round?, stepOn?, hget, Nat.add_sub_cancel, getElem?_outer, set_outer, Option.bind_eq_bind,
    Option.bind_some, if_pos hlt]
  rw [if_neg (by omega), if_neg (by omega)]
  rfl

theorem ends_at_leaf {level : Level} {coordinate : Nat} (hlevel : levels[outer.length]? = some level)
    (hlast : outer.length + 1 = levels.length) (hlt : frame.position < frame.stop)
    (hc : coordinate? level frame = some coordinate) :
    Ends levels ⟨outer.length, outer ++ frame :: inner⟩
      (some frame.position, outer ++ { frame with coordinate } :: inner) := by
  refine .now ?_
  simp only [round?, getElem?_outer, set_outer, hlevel, hc, Option.bind_eq_bind, Option.bind_some, if_pos hlt,
    if_pos hlast]
  rfl

theorem ends_of_entered {level below : Level} {coordinate first stop : Nat} {inner' : Frame}
    (hlevel : levels[outer.length]? = some level) (hbelow : levels[outer.length + 1]? = some below)
    (hlt : frame.position < frame.stop) (hc : coordinate? level frame = some coordinate)
    (hseg : below.segment? frame.position = some (first, stop))
    (h : Ends levels ⟨outer.length + 1, outer ++ { frame with coordinate } ::
      { inner' with first, position := first, stop } :: inner⟩ found) :
    Ends levels ⟨outer.length, outer ++ frame :: inner' :: inner⟩ found := by
  refine .later ?_ h
  have hne : ¬ outer.length + 1 = levels.length := by
    have := (List.getElem?_eq_some_iff.1 hbelow).1
    omega
  have hget : ∀ frame : Frame, (outer ++ frame :: inner' :: inner)[outer.length + 1]? = some inner' := by simp
  have hset : ∀ frame frame' : Frame,
      (outer ++ frame :: inner' :: inner).set (outer.length + 1) frame' = outer ++ frame :: frame' :: inner := by
    simp
  simp only [round?, enter?, getElem?_outer, set_outer, hlevel, hc, hbelow, hseg, hget, hset, Nat.add_sub_cancel,
    Option.bind_eq_bind, Option.bind_some, Option.map_some, if_pos hlt, if_neg hne]
  rfl

/-- A search of all levels that found nothing has left the outermost level through. -/
theorem onward_root (levels : List Level) {result : Found}
    (h : result.1 = none → ∃ last tail, result.2 = last :: tail ∧ last.stop ≤ last.position) :
    Onward levels [] result result := by
  obtain ⟨leaf?, frames⟩ := result
  cases leaf? with
  | some leaf => rfl
  | none =>
    obtain ⟨last, tail, hframes, hthrough⟩ := h rfl
    obtain rfl : frames = last :: tail := hframes
    refine .now ?_
    simp only [round?, List.nil_append, List.length_nil, List.getElem?_cons_zero, Option.bind_eq_bind,
      Option.bind_some]
    rw [if_neg (by omega)]
    rfl

theorem onward_inner_some {frames : List Frame} {leaf : Nat} :
    Onward levels (outer ++ [frame]) (some leaf, frames) (some leaf, outer ++ frame :: frames) := by
  simp [Onward]

/-- When the frames inside a sibling are through, the loop goes on from the next sibling. -/
theorem onward_inner_none {inner' : Frame} (hlt : frame.position + 1 < wordLimit)
    (hthrough : inner'.stop ≤ inner'.position)
    (h : Ends levels ⟨outer.length, outer ++ { frame with position := frame.position + 1 } :: inner' :: inner⟩ found) :
    Onward levels (outer ++ [frame]) (none, inner' :: inner) found := by
  simp only [Onward, List.append_assoc, List.singleton_append, List.length_append, List.length_singleton]
  exact ends_of_through hlt hthrough h

/-! ## Scans -/

theorem scanSiblings_through {level : Level} {below : Nat → List Frame → Option Found} :
    ∀ (left : Nat) (frame : Frame) (inner frames : List Frame), frame.stop - frame.position = left →
      scanSiblings level below left frame inner = some (none, frames) →
        ∃ last tail, frames = last :: tail ∧ last.stop ≤ last.position
  | 0, frame, inner, frames, hleft, h => by
    cases h
    exact ⟨frame, inner, rfl, by omega⟩
  | left + 1, frame, inner, frames, hleft, h => by
    simp only [scanSiblings, Option.bind_eq_bind, Option.bind_eq_some_iff] at h
    obtain ⟨coordinate, -, ⟨leaf?, inner'⟩, -, h⟩ := h
    cases leaf? with
    | some leaf => cases h
    | none => exact scanSiblings_through left _ inner' frames (by simp only; omega) h

theorem resumeSearch_through {level : Level} {rest : List Level} : ∀ {frames frames' : List Frame},
    resumeSearch (level :: rest) frames = some (none, frames') →
      ∃ last tail, frames' = last :: tail ∧ last.stop ≤ last.position
  | [], _, h => by cases h
  | frame :: inner, frames', h => by
    simp only [resumeSearch, Option.bind_eq_bind, Option.bind_eq_some_iff] at h
    obtain ⟨⟨leaf?, inner'⟩, -, h⟩ := h
    cases leaf? with
    | some leaf => cases h
    | none => exact scanSiblings_through _ { frame with position := frame.position + 1 } inner' frames' rfl h

/-- At the innermost level the sibling in hand is a leaf, or there is none left. -/
theorem scan_innermost {pre : List Level} {level : Level} {above leaves p left : Nat} {result : Found}
    (hnested : LevelsNested [level] above leaves) (hp : p < above) (houter : outer.length = pre.length)
    (hfirst : frame.first = level.firstChild p) (hstop : frame.stop = level.firstChild (p + 1))
    (hle : frame.first ≤ frame.position) (hleft : frame.stop - frame.position = left)
    (hscan : scanSiblings level (seekLeaf []) left frame [] = some result)
    (hon : Onward (pre ++ [level]) outer result found) :
    Ends (pre ++ [level]) ⟨outer.length, outer ++ [frame]⟩ found := by
  obtain ⟨below, hn, -⟩ := hnested
  cases left with
  | zero =>
    cases hscan
    exact hon
  | succ left =>
    have hc : level.coordinate? frame.first frame.position =
        some (level.coordinateFrom frame.first frame.position) := by
      rw [hfirst]
      exact hn.coordinate p hp _ (by omega) (by omega)
    simp only [scanSiblings, hc, seekLeaf, Option.bind_eq_bind, Option.bind_some] at hscan
    cases hscan
    obtain rfl : found = _ := hon
    have hread : coordinate? level frame = some (level.coordinateFrom frame.first frame.position) := by
      rw [coordinate?, if_pos hle, hc]
    exact ends_at_leaf (by simp [houter]) (by simp [houter]) (by omega) hread

/-- **The loop scans the siblings of a level.** -/
theorem scan_loop : ∀ (rest pre : List Level) (level : Level) (outer : List Frame) {above leaves p : Nat},
    LevelsNested (level :: rest) above leaves → p < above → outer.length = pre.length →
    ∀ (left : Nat) (frame : Frame) (inner : List Frame) {result found : Found}, inner.length = rest.length →
      frame.first = level.firstChild p → frame.stop = level.firstChild (p + 1) → frame.first ≤ frame.position →
      frame.stop - frame.position = left → scanSiblings level (seekLeaf rest) left frame inner = some result →
      Onward (pre ++ level :: rest) outer result found →
        Ends (pre ++ level :: rest) ⟨outer.length, outer ++ frame :: inner⟩ found := by
  intro rest
  induction rest with
  | nil =>
    intro pre level outer above leaves p hnested hp houter left frame inner result found hlen hfirst hstop hle hleft
      hscan hon
    obtain rfl : inner = [] := List.eq_nil_of_length_eq_zero hlen
    exact scan_innermost hnested hp houter hfirst hstop hle hleft hscan hon
  | cons below rest ih =>
    intro pre level outer above leaves p hnested hp houter left
    obtain ⟨count, hn, hrest⟩ := hnested
    obtain rfl := hn.first_last
    induction left with
    | zero =>
      intro frame inner result found _ _ _ _ _ hscan hon
      cases hscan
      exact hon
    | succ left ihl =>
      intro frame inner result found hlen hfirst hstop hle hleft hscan hon
      have hlast := hn.firstChild_le (p := p + 1) hp
      have hword := hn.below_lt
      have hc : level.coordinate? frame.first frame.position =
          some (level.coordinateFrom frame.first frame.position) := by
        rw [hfirst]; exact hn.coordinate p hp _ (by omega) (by omega)
      cases inner with
      | nil => cases hlen
      | cons next inner =>
        obtain ⟨below', hn', hrest'⟩ := hrest
        obtain rfl := hn'.first_last
        have hq : frame.position < level.firstChild above := by omega
        have hlen' : inner.length = rest.length := by simpa using hlen
        have hrest : LevelsNested (below :: rest) (level.firstChild above) leaves := ⟨_, hn', hrest'⟩
        obtain ⟨⟨leaf?, frames⟩, hseek, hframes, -⟩ := seekLeaf_finds hrest frame.position hq (next :: inner) hlen
        simp only [scanSiblings, hc, hseek, Option.bind_eq_bind, Option.bind_some] at hscan
        rw [seekLeaf_cons hn' hrest' hq next inner hlen'] at hseek
        let entered : Frame :=
          { next with first := below.firstChild frame.position, position := below.firstChild frame.position,
                      stop := below.firstChild (frame.position + 1) }
        have hread : coordinate? level frame = some (level.coordinateFrom frame.first frame.position) := by
          rw [coordinate?, if_pos hle, hc]
        refine ends_of_entered (by simp [houter]) (by simp [houter]) (by omega) hread (hn'.segment _ hq) ?_
        -- inside the entered level, with the sibling in hand set aside
        have key := @ih (pre ++ [level]) below
          (outer ++ [{ frame with coordinate := level.coordinateFrom frame.first frame.position }]) _ _ _ hrest hq
          (by simp [houter]) _ entered inner _ found hlen' rfl rfl (Nat.le_refl _) rfl hseek
        rw [List.append_assoc, List.append_assoc, List.length_append] at key
        refine key ?_
        cases leaf? with
        | some leaf =>
          cases hscan
          obtain rfl : found = _ := hon
          exact onward_inner_some
        | none =>
          obtain ⟨last, tail, rfl, hthrough⟩ := scanSiblings_through _ entered inner frames rfl hseek
          refine onward_inner_none (by simp only; omega) hthrough ?_
          exact ihl _ (last :: tail) hframes hfirst hstop (Nat.le_succ_of_le hle) (by simp only; omega) hscan hon

/-- **The loop resumes a search.** -/
theorem resume_loop : ∀ (rest pre : List Level) (level : Level) (outer frames : List Frame) {above leaves : Nat}
    {result : Found} (found : Found), LevelsNested (level :: rest) above leaves →
    Standing (level :: rest) above frames → outer.length = pre.length →
    resumeSearch (level :: rest) frames = some result →
    Onward (pre ++ level :: rest) outer result found →
      ∃ frames', stepOn? (outer.length + rest.length) (outer ++ frames) = some frames' ∧
        Ends (pre ++ level :: rest) ⟨outer.length + rest.length, frames'⟩ found
  | _, _, _, _, [], _, _, _, _, _, hs, _, _, _ => hs.elim
  | [], pre, level, outer, frame :: inner, above, leaves, result, found, hnest, hs, houter, hresume, hon => by
    obtain ⟨below, hn, -⟩ := id hnest
    obtain ⟨⟨p, hp, hfirst, hstop⟩, hle, hlt, hinner⟩ := hs
    obtain rfl : inner = [] := hinner
    have hlast := hn.firstChild_le (p := p + 1) hp
    have hword := hn.below_lt
    simp only [resumeSearch, Option.bind_eq_bind, Option.bind_some] at hresume
    refine ⟨outer ++ [{ frame with position := frame.position + 1 }], ?_, ?_⟩
    · simp only [stepOn?, List.length_nil, Nat.add_zero, getElem?_outer, set_outer, Option.bind_eq_bind,
        Option.bind_some]
      rw [if_pos (by omega)]
    · exact scan_loop [] pre level outer hnest hp houter _ _ [] rfl hfirst hstop (Nat.le_succ_of_le hle) rfl hresume hon
  | below :: rest, pre, level, outer, frame :: inner, above, leaves, result, found, hnest, hs, houter, hresume,
      hon => by
    obtain ⟨count, hn, hrest⟩ := id hnest
    obtain rfl := hn.first_last
    obtain ⟨⟨p, hp, hfirst, hstop⟩, hle, hlt, hinner⟩ := hs
    have hlast := hn.firstChild_le (p := p + 1) hp
    have hword := hn.below_lt
    obtain ⟨⟨leaf?, frames⟩, hres, hframes, -⟩ := resumeSearch_finds hrest hinner
    rw [resumeSearch] at hresume
    simp only [hres, Option.bind_eq_bind, Option.bind_some] at hresume
    have key := resume_loop rest (pre ++ [level]) below (outer ++ [frame]) inner found hrest hinner (by simp [houter])
      hres
    simp only [List.append_assoc, List.singleton_append, List.length_append, List.length_singleton,
      Nat.add_assoc, Nat.add_comm 1 rest.length] at key
    refine key ?_
    cases leaf? with
    | some leaf =>
      cases hresume
      obtain rfl : found = _ := hon
      exact onward_inner_some
    | none =>
      obtain ⟨last, tail, rfl, hthrough⟩ := resumeSearch_through hres
      refine onward_inner_none (by omega) hthrough ?_
      exact scan_loop (below :: rest) pre level outer hnest hp houter _ _ (last :: tail) hframes hfirst hstop
        (Nat.le_succ_of_le hle) rfl hresume hon

end Loop

end TensorStorage
