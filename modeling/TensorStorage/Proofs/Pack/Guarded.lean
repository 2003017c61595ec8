import TensorStorage.Pack.Guarded
import TensorStorage.Proofs.Pack.Verdict
/-!
# Guarded — the failure points that packing does not reach

Above every level the records are in place (`Layout.InPlace`): in order of their positions, and each position is one of
those that are counted.  A level that is laid out leaves them in place below, and none of its guards stops it
(`InPlace.descend`), so the same holds of all levels (`InPlace.descendAll`).  At the leaves the positions are different,
and the values can be filled in (`InPlace.values`).
-/
namespace TensorStorage

/-! ## Records in place -/

/-- The position of a record and the numbers to come. -/
def PlacedRecord.path (r : PlacedRecord) : Coordinate := r.position :: r.ahead

/-- The record below a dense level. -/
def PlacedRecord.into (extent : Nat) (r : PlacedRecord) : PlacedRecord :=
  ⟨r.position * extent + r.ahead.headD 0, r.ahead.tail, r.value⟩

/-- Records below a level, each of which has its value and what was ahead of it after the number for the level. -/
def KeepsAhead (records placed : List PlacedRecord) : Prop :=
  ∀ r' ∈ placed, ∃ r ∈ records, ∃ c, r.ahead = c :: r'.ahead ∧ r'.value = r.value

theorem KeepsAhead.cons {r : PlacedRecord} {records placed : List PlacedRecord} {c : Nat} {ahead : List Nat}
    (h : KeepsAhead records placed) (hahead : r.ahead = c :: ahead) (position : Nat) :
    KeepsAhead (r :: records) (⟨position, ahead, r.value⟩ :: placed) := by
  refine List.forall_mem_cons.2 ⟨⟨r, List.mem_cons_self, c, hahead, rfl⟩, fun r' hr' => ?_⟩
  obtain ⟨q, hq, hkept⟩ := h r' hr'
  exact ⟨q, List.mem_cons_of_mem _ hq, hkept⟩

/-- **Records in place above some levels**: in storage order, no more of them than the largest index, each at one of the
positions that are counted, with a number below the extent of each level to come. -/
structure Layout.InPlace (d : DataType) (extents : List Nat) (s : Layout) : Prop where
  count : s.count ≤ maxIndex
  few : s.placed.length ≤ maxIndex
  position : ∀ r ∈ s.placed, r.position < s.count
  length : ∀ r ∈ s.placed, r.ahead.length = extents.length
  inBounds : ∀ r ∈ s.placed, Coordinate.inBounds r.ahead extents = true
  dtype : ∀ r ∈ s.placed, r.value.dtype = d
  inOrder : s.placed.Pairwise fun r r' => Coordinate.Before r.path r'.path

namespace Layout.InPlace

variable {d : DataType} {extent : Nat} {extents : List Nat} {s : Layout}

/-- The number of a record for the next level. -/
theorem next (h : s.InPlace d (extent :: extents)) {r : PlacedRecord} (hr : r ∈ s.placed) :
    ∃ c ahead, r.ahead = c :: ahead ∧ c < extent := by
  have hlen := h.length r hr
  have hin := h.inBounds r hr
  cases hahead : r.ahead with
  | nil =>
    rw [hahead] at hlen
    cases hlen
  | cons c ahead =>
    rw [hahead] at hin
    exact ⟨c, ahead, rfl, (Coordinate.inBounds_cons.1 hin).1⟩

/-- Records that keep what is ahead are in place below a level if their positions are. -/
theorem below (h : s.InPlace d (extent :: extents)) {s' : Layout} (hkeeps : KeepsAhead s.placed s'.placed)
    (hlength : s'.placed.length = s.placed.length) (hcount : s'.count ≤ maxIndex)
    (hposition : ∀ r ∈ s'.placed, r.position < s'.count)
    (hinOrder : s'.placed.Pairwise fun r r' => Coordinate.Before r.path r'.path) : s'.InPlace d extents where
  count := hcount
  few := hlength ▸ h.few
  position := hposition
  length r' hr' := by
    obtain ⟨r, hr, c, hahead, -⟩ := hkeeps r' hr'
    have hlen := h.length r hr
    rw [hahead] at hlen
    exact Nat.succ.inj hlen
  inBounds r' hr' := by
    obtain ⟨r, hr, c, hahead, -⟩ := hkeeps r' hr'
    have hin := h.inBounds r hr
    rw [hahead] at hin
    exact (Coordinate.inBounds_cons.1 hin).2
  dtype r' hr' := by
    obtain ⟨r, hr, c, -, hvalue⟩ := hkeeps r' hr'
    rw [hvalue]
    exact h.dtype r hr
  inOrder := hinOrder

/-- Positions never decrease along the records. -/
theorem monotone (h : s.InPlace d extents) : (s.placed.map (·.position)).Pairwise (· ≤ ·) := by
  refine List.pairwise_map.2 (h.inOrder.imp fun hbefore => ?_)
  rcases Coordinate.Before.cons_iff.1 hbefore with hlt | ⟨he, -⟩
  · exact Nat.le_of_lt hlt
  · exact Nat.le_of_eq he

/-- Below all levels every record has a position of its own. -/
theorem nodup (h : s.InPlace d []) : (s.placed.map (·.position)).Nodup := by
  refine List.pairwise_map.2 (h.inOrder.imp_of_mem fun {r r'} hr hr' hbefore => ?_)
  have hnil : ∀ r ∈ s.placed, r.ahead = [] := fun r hr => List.length_eq_zero_iff.1 (h.length r hr)
  rw [PlacedRecord.path, PlacedRecord.path, hnil r hr, hnil r' hr', Coordinate.Before.cons_iff] at hbefore
  exact Nat.ne_of_lt (hbefore.resolve_right fun he => Coordinate.Before.irrefl _ he.2)

/-! ## Dense levels -/

theorem placeDense?_eq (h : s.InPlace d (extent :: extents)) (hextent : extent ≤ maxIndex) {r : PlacedRecord}
    (hr : r ∈ s.placed) :
    Layout.placeDense? extent r = some (r.into extent) ∧ Guarded.placeDense? extent r = some (r.into extent) := by
  obtain ⟨c, ahead, hahead, hc⟩ := h.next hr
  have hnext : (r.position + 1) * extent ≤ maxIndex * maxIndex :=
    Nat.mul_le_mul (Nat.le_trans (h.position r hr) h.count) hextent
  have hlimit : maxIndex * maxIndex < wordLimit := by decide
  rw [Nat.succ_mul] at hnext
  have hword : r.position * extent + c < wordLimit := by omega
  have hstart : r.position * extent < wordLimit := by omega
  constructor
  · simp only [Layout.placeDense?, hahead, Nat.mod_eq_of_lt hword, PlacedRecord.into, List.headD_cons, List.tail_cons]
  · simp only [Guarded.placeDense?, hahead, Guarded.word?, if_pos hstart, if_pos hword, Option.bind_eq_bind,
      Option.bind_some, PlacedRecord.into, List.headD_cons, List.tail_cons]
    rfl

/-- Records are in place below a dense level that has few positions. -/
theorem below_dense (h : s.InPlace d (extent :: extents)) (hcount : s.count * extent ≤ maxIndex) :
    Layout.InPlace d extents ⟨s.count * extent, s.placed.map (·.into extent)⟩ := by
  refine h.below ?_ (List.length_map _) hcount ?_ ?_
  · intro r' hr'
    obtain ⟨r, hr, rfl⟩ := List.mem_map.1 hr'
    obtain ⟨c, ahead, hahead, -⟩ := h.next hr
    exact ⟨r, hr, c, by rw [PlacedRecord.into, hahead, List.tail_cons], rfl⟩
  · intro r' hr'
    obtain ⟨r, hr, rfl⟩ := List.mem_map.1 hr'
    obtain ⟨c, ahead, hahead, hc⟩ := h.next hr
    have hle : (r.position + 1) * extent ≤ s.count * extent := Nat.mul_le_mul_right _ (h.position r hr)
    rw [Nat.succ_mul] at hle
    simp only [PlacedRecord.into, hahead, List.headD_cons]
    omega
  · refine List.pairwise_map.2 (h.inOrder.imp_of_mem fun {r r'} hr hr' hbefore => ?_)
    obtain ⟨c, ahead, hahead, hc⟩ := h.next hr
    obtain ⟨c', ahead', hahead', -⟩ := h.next hr'
    simp only [PlacedRecord.path, PlacedRecord.into, hahead, hahead', List.headD_cons, List.tail_cons,
      Coordinate.Before.cons_iff] at hbefore ⊢
    rcases hbefore with hlt | ⟨he, hlt | ⟨he', hbefore⟩⟩
    -- the places of a position end before those of the next begin
    · have hle : (r.position + 1) * extent ≤ r'.position * extent := Nat.mul_le_mul_right _ hlt
      rw [Nat.succ_mul] at hle
      exact .inl (by omega)
    · exact .inl (by rw [he]; omega)
    · exact .inr ⟨by rw [he, he'], hbefore⟩

theorem descendDense (h : s.InPlace d (extent :: extents)) (hextent : extent ≤ maxIndex) :
    Guarded.descendDense extent s = s.descendDense extent ∧
      ∀ mode s', s.descendDense extent = .ok (mode, s') → s'.InPlace d extents := by
  have hplain : s.placed.mapM (Layout.placeDense? extent) = some (s.placed.map (·.into extent)) :=
    mapM_eq_pure fun r hr => (h.placeDense?_eq hextent hr).1
  have hguarded : s.placed.mapM (Guarded.placeDense? extent) = some (s.placed.map (·.into extent)) :=
    mapM_eq_pure fun r hr => (h.placeDense?_eq hextent hr).2
  rw [Layout.descendDense_eq hplain]
  by_cases hcount : maxIndex < s.count * extent
  · rw [if_pos hcount]
    refine ⟨?_, by rintro mode s' ⟨⟩⟩
    simp only [Guarded.descendDense, hguarded, Outcome.liftM_option, Outcome.ofOption_some, ok_bind, if_pos hcount]
    rfl
  · rw [if_neg hcount]
    constructor
    · simp only [Guarded.descendDense, hguarded, Guarded.entry?, Outcome.liftM_option, Outcome.ofOption_some, ok_bind,
        if_neg hcount, if_pos hextent]
      rfl
    · intro mode s' he
      cases he
      exact h.below_dense (Nat.le_of_not_lt hcount)

end Layout.InPlace

/-! ## Compressed levels -/

/-- **What placing records at a compressed level comes to**, with `count` children so far: each child is opened by a
record, and the records keep what is ahead of the child.  Their positions are those of the last child and of the new
ones. -/
structure Placing (count : Nat) (records : List PlacedRecord) (children : List (Nat × Nat))
    (placed : List PlacedRecord) : Prop where
  opened : ∀ child ∈ children, ∃ r ∈ records, ∃ ahead, r.position = child.1 ∧ r.ahead = child.2 :: ahead
  few : children.length ≤ records.length
  length : placed.length = records.length
  keeps : KeepsAhead records placed
  position : ∀ r' ∈ placed, count ≤ r'.position + 1 ∧ r'.position < count + children.length
  inOrder : placed.Pairwise fun r r' => Coordinate.Before r.path r'.path

namespace Placing

variable {count c : Nat} {ahead : List Nat} {r : PlacedRecord} {rest placed : List PlacedRecord}
  {children : List (Nat × Nat)}

/-- A record at the last child goes before what is placed after it. -/
theorem stay (h : Placing count rest children placed) (hpos : 0 < count) (hahead : r.ahead = c :: ahead)
    (hafter : ∀ r' ∈ placed, Coordinate.Before ((count - 1) :: ahead) r'.path) :
    Placing count (r :: rest) children (⟨count - 1, ahead, r.value⟩ :: placed) where
  opened child hchild := by
    obtain ⟨r', hr', hopened⟩ := h.opened child hchild
    exact ⟨r', List.mem_cons_of_mem _ hr', hopened⟩
  few := Nat.le_succ_of_le h.few
  length := congrArg Nat.succ h.length
  keeps := h.keeps.cons hahead _
  position := by
    refine List.forall_mem_cons.2 ⟨?_, h.position⟩
    show count ≤ count - 1 + 1 ∧ count - 1 < count + children.length
    omega
  inOrder := List.pairwise_cons.2 ⟨hafter, h.inOrder⟩

/-- A record that opens a child goes before what is placed after it. -/
theorem step (h : Placing (count + 1) rest children placed) (hahead : r.ahead = c :: ahead)
    (hafter : ∀ r' ∈ placed, Coordinate.Before (count :: ahead) r'.path) :
    Placing count (r :: rest) ((r.position, c) :: children) (⟨count, ahead, r.value⟩ :: placed) where
  opened := by
    refine List.forall_mem_cons.2 ⟨⟨r, List.mem_cons_self, ahead, rfl, hahead⟩, fun child hchild => ?_⟩
    obtain ⟨r', hr', hopened⟩ := h.opened child hchild
    exact ⟨r', List.mem_cons_of_mem _ hr', hopened⟩
  few := Nat.succ_le_succ h.few
  length := congrArg Nat.succ h.length
  keeps := h.keeps.cons hahead _
  position := by
    rw [List.length_cons]
    refine List.forall_mem_cons.2 ⟨?_, fun r' hr' => ?_⟩
    · show count ≤ count + 1 ∧ count < count + (children.length + 1)
      omega
    · have := h.position r' hr'
      omega
  inOrder := List.pairwise_cons.2 ⟨hafter, h.inOrder⟩

end Placing

/-- Records in order are placed in order.  `tail` is what the record before, which stands at the child `last`, has ahead
of it. -/
theorem exists_placing : ∀ {records : List PlacedRecord} (last : Option (Nat × Nat)) (count : Nat),
    (∀ r ∈ records, r.ahead ≠ []) → records.Pairwise (fun r r' => Coordinate.Before r.path r'.path) →
    (last.isSome → 0 < count) →
    ∃ children placed, Layout.placeCompressed? last count records = some (children, placed) ∧
      Placing count records children placed ∧
      ∀ child tail, last = some child → (∀ r ∈ records, Coordinate.Before (child.1 :: child.2 :: tail) r.path) →
        ∀ r' ∈ placed, Coordinate.Before ((count - 1) :: tail) r'.path
  | [], last, count, _, _, _ => by
    refine ⟨[], [], rfl, ⟨nofun, Nat.le_refl _, rfl, nofun, nofun, List.Pairwise.nil⟩, ?_⟩
    intro child tail _ _ r' hr'
    cases hr'
  | r :: rest, last, count, hne, hin, hlast => by
    obtain ⟨hbefore, hin⟩ := List.pairwise_cons.1 hin
    have hne' : ∀ r ∈ rest, r.ahead ≠ [] := fun r hr => hne r (List.mem_cons_of_mem _ hr)
    obtain ⟨c, ahead, hahead⟩ := List.exists_cons_of_ne_nil (hne r List.mem_cons_self)
    simp only [PlacedRecord.path, hahead] at hbefore
    by_cases hsame : last = some (r.position, c)
    -- the record stands at the child of the record before
    · have hpos : 0 < count := hlast (by rw [hsame]; rfl)
      obtain ⟨children, placed, hplace, hplacing, hafter⟩ := exists_placing last count hne' hin hlast
      refine ⟨_, _, ?_, hplacing.stay hpos hahead (hafter _ ahead hsame hbefore), fun child tail he htail => ?_⟩
      · simp only [Layout.placeCompressed?, hahead, if_pos hsame, hplace, Option.bind_eq_bind, Option.bind_some]
      · cases he.symm.trans hsame
        have hhead := htail r List.mem_cons_self
        simp only [PlacedRecord.path, hahead, Coordinate.Before.cons_iff, Nat.lt_irrefl, false_or, true_and] at hhead
        refine List.forall_mem_cons.2 ⟨Coordinate.Before.cons_iff.2 (.inr ⟨rfl, hhead⟩), ?_⟩
        exact hafter _ tail he fun r hr => htail r (List.mem_cons_of_mem _ hr)
    -- the record opens a child, so it is past all positions so far
    · obtain ⟨children, placed, hplace, hplacing, hafter⟩ :=
        exists_placing (some (r.position, c)) (count + 1) hne' hin fun _ => Nat.succ_pos _
      refine ⟨_, _, ?_, hplacing.step hahead (hafter _ ahead rfl hbefore), fun child tail he _ => ?_⟩
      · simp only [Layout.placeCompressed?, hahead, if_neg hsame, hplace, Option.bind_eq_bind, Option.bind_some]
      · have hpos : 0 < count := hlast (by rw [he]; rfl)
        refine List.forall_mem_cons.2 ⟨Coordinate.Before.cons_iff.2 (.inl ?_), fun r' hr' => ?_⟩
        · exact Nat.sub_lt hpos Nat.one_pos
        · have := (hplacing.position r' hr').1
          exact Coordinate.Before.cons_iff.2 (.inl (by omega))

/-! ## Counting the children -/

/-- How many of the children each parent has. -/
def countsOf (parents : Nat) (children : List (Nat × Nat)) : List Nat :=
  (List.range parents).map fun i => children.countP (·.1 = i)

theorem childCounts?_eq {parents : Nat} {children : List (Nat × Nat)} (h : ∀ child ∈ children, child.1 < parents) :
    Layout.childCounts? parents children = some (countsOf parents children).toArray := by
  have hplace : ∀ child ∈ children, child.1 < (Array.replicate parents 0).size := fun child hchild => by
    rw [Array.size_replicate]
    exact h child hchild
  rw [Layout.childCounts?, foldlM_childCounts _ _ hplace]
  refine congrArg some (Array.ext (by simp [countsOf]) fun i hi _ => ?_)
  simp [countsOf]

/-- The counts up to a parent add up to the children of the parents before. -/
theorem sum_take_countsOf {parents : Nat} (children : List (Nat × Nat)) : ∀ {k : Nat}, k ≤ parents →
    ((countsOf parents children).take k).sum = children.countP (·.1 < k)
  | 0, _ => by simp
  | k + 1, hk => by
    have ih := sum_take_countsOf children (Nat.le_of_succ_le hk)
    have hlt : k < (countsOf parents children).length := by simpa [countsOf] using hk
    have hat : (countsOf parents children)[k] = children.countP (·.1 = k) := by simp [countsOf]
    rw [List.take_succ_eq_append_getElem hlt, List.sum_append, List.sum_singleton, ih, hat]
    clear ih hat hlt
    induction children with
    | nil => rfl
    | cons child children ih =>
      simp only [List.countP_cons, decide_eq_true_eq]
      split <;> split <;> split <;> omega

theorem sum_countsOf_le (parents : Nat) (children : List (Nat × Nat)) :
    (countsOf parents children).sum ≤ children.length := by
  have hall := sum_take_countsOf children (Nat.le_refl parents)
  rw [List.take_of_length_le (by simp [countsOf])] at hall
  rw [hall]
  exact List.countP_le_length

/-! ## Guards -/

namespace Guarded

namespace Filling

/-- The arrays with one more child. -/
def opened (f : Filling) (child : Nat × Nat) : Filling :=
  ⟨f.counts.modify (child.1 + 1) (· + 1), f.coordinates.push (Int32.ofNat child.2), some child⟩

/-- **Room for children**: their parents are counted, their coordinates are entries, and no count grows past the words.
A record that stays at the last child finds it listed. -/
structure Takes (f : Filling) (children : List (Nat × Nat)) : Prop where
  listed : f.last.isSome → 0 < f.coordinates.size
  counted : ∀ child ∈ children, child.1 + 1 < f.counts.size
  entries : ∀ child ∈ children, child.2 ≤ maxIndex
  words : ∀ n ∈ f.counts, n + children.length < wordLimit

namespace Takes

variable {f : Filling} {child : Nat × Nat} {children : List (Nat × Nat)}

theorem openChild?_eq (h : f.Takes (child :: children)) : f.openChild? child = some (f.opened child) := by
  have hparent := h.counted child List.mem_cons_self
  have hentry := h.entries child List.mem_cons_self
  have hword := h.words _ (Array.getElem_mem hparent)
  rw [List.length_cons] at hword
  have hnext : f.counts[child.1 + 1] + 1 < wordLimit := by omega
  have hcounts : f.counts.setIfInBounds (child.1 + 1) (f.counts[child.1 + 1] + 1) =
      f.counts.modify (child.1 + 1) (· + 1) := by
    refine Array.ext (by simp) fun i hi hi' => ?_
    rw [Array.getElem_setIfInBounds, Array.getElem_modify]
    by_cases he : child.1 + 1 = i
    · subst he
      rw [if_pos rfl]
    · rw [if_neg he, if_neg he]
  simp only [openChild?, entry?, word?, if_pos hentry, Array.getElem?_eq_getElem hparent, if_pos hnext,
    Option.bind_eq_bind, Option.bind_some, hcounts]
  rfl

theorem opened (h : f.Takes (child :: children)) : (f.opened child).Takes children where
  listed _ := by
    rw [Filling.opened, Array.size_push]
    exact Nat.succ_pos _
  counted x hx := by
    rw [Filling.opened, Array.size_modify]
    exact h.counted x (List.mem_cons_of_mem _ hx)
  entries x hx := h.entries x (List.mem_cons_of_mem _ hx)
  words n hn := by
    obtain ⟨i, hi, rfl⟩ := Array.mem_iff_getElem.1 hn
    have hword := h.words _ (Array.getElem_mem (by simpa [Filling.opened] using hi))
    rw [List.length_cons] at hword
    simp only [Filling.opened, Array.getElem_modify]
    split <;> omega

end Takes

/-- **Placing records breaks no guard** as long as there is room for the children that they open. -/
theorem placeAll?_eq : ∀ {records : List PlacedRecord} {f : Filling} {children : List (Nat × Nat)}
    {placed : List PlacedRecord},
    Layout.placeCompressed? f.last f.coordinates.size records = some (children, placed) → f.Takes children →
    f.placeAll? records = some (children.foldl opened f, placed)
  | [], f, children, placed, h, _ => by
    cases h
    rfl
  | r :: rest, f, children, placed, h, htakes => by
    unfold Layout.placeCompressed? at h
    cases hahead : r.ahead with
    | nil =>
      rw [hahead] at h
      cases h
    | cons c ahead =>
      simp only [hahead] at h
      by_cases hsame : f.last = some (r.position, c)
      -- the record stands at the child of the record before
      · rw [if_pos hsame] at h
        obtain ⟨⟨children', placed'⟩, hplace, h⟩ := Option.bind_eq_some_iff.1 h
        simp only [Option.some.injEq, Prod.mk.injEq] at h
        obtain ⟨rfl, rfl⟩ := h
        obtain ⟨k, hk⟩ := Nat.exists_eq_succ_of_ne_zero (Nat.ne_of_gt (htakes.listed (by rw [hsame]; rfl)))
        have ih := placeAll?_eq hplace htakes
        simp only [placeAll?, place?, hahead, if_pos hsame, Option.bind_eq_bind, Option.bind_some, hk, ih,
          Option.pure_def]
        rfl
      -- the record opens a child
      · rw [if_neg hsame] at h
        obtain ⟨⟨children', placed'⟩, hplace, h⟩ := Option.bind_eq_some_iff.1 h
        simp only [Option.some.injEq, Prod.mk.injEq] at h
        obtain ⟨rfl, rfl⟩ := h
        have hsize : (f.opened (r.position, c)).coordinates.size = f.coordinates.size + 1 := Array.size_push ..
        have ih := placeAll?_eq (f := f.opened (r.position, c)) (by rw [hsize]; exact hplace) htakes.opened
        simp only [placeAll?, place?, hahead, if_neg hsame, htakes.openChild?_eq, Option.bind_eq_bind,
          Option.bind_some, hsize, ih, Option.pure_def]
        rfl

theorem coordinates_foldl_opened : ∀ (children : List (Nat × Nat)) (f : Filling),
    (children.foldl opened f).coordinates =
      f.coordinates ++ (children.map fun child => Int32.ofNat child.2).toArray
  | [], f => by simp
  | child :: children, f => by
    rw [List.foldl_cons, coordinates_foldl_opened children, List.map_cons]
    simp [opened]

theorem counts_foldl_opened : ∀ (children : List (Nat × Nat)) (f : Filling),
    (children.foldl opened f).counts = f.counts.mapIdx fun i n => n + children.countP (·.1 + 1 = i)
  | [], f => Array.ext (by simp) fun i _ _ => by simp
  | child :: children, f => by
    rw [List.foldl_cons, counts_foldl_opened children]
    refine Array.ext (by simp [opened]) fun i hi hi' => ?_
    simp only [opened, Array.getElem_mapIdx, Array.getElem_modify, List.countP_cons, decide_eq_true_eq]
    split <;> omega

end Filling

/-- **Running totals break no guard** as long as the last of them is a word. -/
theorem totals?_eq : ∀ (rest : List Nat) (done : List Nat) (before : Nat), before + rest.sum < wordLimit →
    totals? rest.length done.length (done ++ before :: rest).toArray =
      some (done ++ (List.range (rest.length + 1)).map fun k => before + (rest.take k).sum).toArray
  | [], done, before, _ => by simp [totals?]
  | n :: rest, done, before, h => by
    rw [List.sum_cons] at h
    have hword : n + before < wordLimit := by omega
    have hhere : (done ++ before :: n :: rest).toArray[done.length]? = some before := by simp
    have hnext : (done ++ before :: n :: rest).toArray[done.length + 1]? = some n := by simp
    have hset : (done ++ before :: n :: rest).toArray.setIfInBounds (done.length + 1) (n + before) =
        ((done ++ [before]) ++ (before + n) :: rest).toArray := by
      simp [Nat.add_comm n before]
    have ih := totals?_eq rest (done ++ [before]) (before + n) (by omega)
    rw [List.length_append, List.length_singleton] at ih
    have hlist : (List.range (rest.length + 1 + 1)).map (fun k => before + ((n :: rest).take k).sum) =
        before :: (List.range (rest.length + 1)).map fun k => before + n + (rest.take k).sum := by
      rw [List.range_succ_eq_map, List.map_cons, List.map_map]
      simp [Function.comp_def, Nat.add_assoc]
    rw [List.length_cons, totals?]
    simp only [hhere, hnext, word?, if_pos hword, Option.bind_eq_bind, Option.bind_some, hset, ih, hlist]
    rw [List.append_assoc, List.singleton_append]

theorem counts_foldl_replicate (parents : Nat) (children : List (Nat × Nat)) :
    (children.foldl Filling.opened ⟨Array.replicate (parents + 1) 0, #[], none⟩).counts =
      (0 :: countsOf parents children).toArray := by
  rw [Filling.counts_foldl_opened]
  refine Array.ext (by simp [countsOf]) fun i hi hi' => ?_
  cases i with
  | zero => simp
  | succ i => simp [countsOf]

/-- **A compressed level breaks no guard** if its records stand at positions that are counted and open few children with
coordinates in range. -/
theorem descendCompressed_eq {s : Layout} {children : List (Nat × Nat)} {placed : List PlacedRecord}
    (hcount : s.count ≤ maxIndex) (hplace : Layout.placeCompressed? none 0 s.placed = some (children, placed))
    (hparent : ∀ child ∈ children, child.1 < s.count) (hcoordinate : ∀ child ∈ children, child.2 ≤ maxIndex)
    (hfew : children.length ≤ maxIndex) :
    descendCompressed s = .ok (.compressed
      { data := Layout.positionArray (countsOf s.count children).toArray }
      { data := (children.map fun child => Int32.ofNat child.2).toArray }, ⟨children.length, placed⟩) := by
  have hlimit : maxIndex + 1 < wordLimit := by decide
  have hsize : word? (s.count + 1) = some (s.count + 1) := if_pos (by omega)
  have htakes : Filling.Takes ⟨Array.replicate (s.count + 1) 0, #[], none⟩ children := by
    refine ⟨nofun, fun child hchild => ?_, hcoordinate, fun n hn => ?_⟩
    · rw [Array.size_replicate]
      exact Nat.succ_lt_succ (hparent child hchild)
    · obtain rfl : n = 0 := (Array.mem_replicate.1 hn).2
      omega
  have hsum : (countsOf s.count children).sum ≤ maxIndex := Nat.le_trans (sum_countsOf_le _ _) hfew
  have hlen : (countsOf s.count children).length = s.count := by simp [countsOf]
  have htotals := totals?_eq (countsOf s.count children) [] 0 (by omega)
  rw [hlen, List.length_nil, List.nil_append, List.nil_append] at htotals
  simp only [Nat.zero_add] at htotals
  have hentries : ((List.range (s.count + 1)).map fun k => ((countsOf s.count children).take k).sum).mapM entry? =
      some (((List.range (s.count + 1)).map fun k => ((countsOf s.count children).take k).sum).map Int32.ofNat) := by
    refine mapM_eq_pure fun n hn => ?_
    obtain ⟨k, -, rfl⟩ := List.mem_map.1 hn
    exact if_pos (Nat.le_trans (sum_take_le_sum _ k) hsum)
  simp only [descendCompressed, hsize, Filling.placeAll?_eq hplace htakes, counts_foldl_replicate, htotals, hentries,
    Filling.coordinates_foldl_opened, positionArray_eq, hlen, Outcome.liftM_option, Outcome.ofOption_some, ok_bind,
    List.map_map]
  simp [Function.comp_def]

end Guarded

namespace Layout.InPlace

variable {d : DataType} {extent : Nat} {extents : List Nat} {s : Layout}

theorem descendCompressed (h : s.InPlace d (extent :: extents)) (hextent : extent ≤ maxIndex) :
    Guarded.descendCompressed s = s.descendCompressed ∧
      ∀ mode s', s.descendCompressed = .ok (mode, s') → s'.InPlace d extents := by
  have hnumber : ∀ r ∈ s.placed, r.ahead ≠ [] := fun r hr => by
    obtain ⟨c, ahead, hahead, -⟩ := h.next hr
    rw [hahead]
    exact List.cons_ne_nil c ahead
  obtain ⟨children, placed, hplace, hplacing, -⟩ := exists_placing none 0 hnumber h.inOrder nofun
  have hfew : children.length ≤ maxIndex := Nat.le_trans hplacing.few h.few
  have hparent : ∀ child ∈ children, child.1 < s.count := fun child hchild => by
    obtain ⟨r, hr, ahead, hposition, -⟩ := hplacing.opened child hchild
    exact hposition ▸ h.position r hr
  have hcoordinate : ∀ child ∈ children, child.2 ≤ maxIndex := fun child hchild => by
    obtain ⟨r, hr, ahead, -, hahead⟩ := hplacing.opened child hchild
    obtain ⟨c, ahead', hnext, hlt⟩ := h.next hr
    cases hahead.symm.trans hnext
    exact Nat.le_of_lt (Nat.lt_of_lt_of_le hlt hextent)
  have hplain : s.descendCompressed = .ok (.compressed
      { data := positionArray (countsOf s.count children).toArray }
      { data := (children.map fun child => Int32.ofNat child.2).toArray }, ⟨children.length, placed⟩) := by
    simp only [Layout.descendCompressed, hplace, childCounts?_eq hparent, Outcome.liftM_option, Outcome.ofOption_some,
      ok_bind, List.map_toArray]
    rfl
  refine ⟨?_, fun mode s' he => ?_⟩
  · rw [hplain, Guarded.descendCompressed_eq h.count hplace hparent hcoordinate hfew]
  · rw [hplain] at he
    cases he
    have hposition : ∀ r ∈ placed, r.position < children.length := fun r hr => by
      have hlt := (hplacing.position r hr).2
      rwa [Nat.zero_add] at hlt
    exact h.below hplacing.keeps hplacing.length hfew hposition hplacing.inOrder

/-! ## All levels -/

/-- **A level leaves the records in place below it**, and no guard stops it. -/
theorem descend (h : s.InPlace d (extent :: extents)) (hextent : extent ≤ maxIndex) (type : ModeType) (number : Nat) :
    Guarded.descend type number extent s = s.descend type number extent ∧
      ∀ mode s', s.descend type number extent = .ok (mode, s') → s'.InPlace d extents := by
  cases type with
  | dense => exact h.descendDense hextent
  | compressed => exact h.descendCompressed hextent
  | singleton => exact ⟨rfl, nofun⟩

/-- **Levels leave the records in place below them**, and no guard stops any of them. -/
theorem descendAll {shapes : List (ModeType × Nat)} (number : Nat) {s : Layout}
    (h : s.InPlace d (shapes.map Prod.snd ++ extents)) (hextents : ∀ shape ∈ shapes, shape.2 ≤ maxIndex) :
    Guarded.descendAll number shapes s = Layout.descendAll number shapes s ∧
      ∀ modes s', Layout.descendAll number shapes s = .ok (modes, s') → s'.InPlace d extents := by
  induction shapes generalizing number s with
  | nil =>
    refine ⟨rfl, fun modes s' he => ?_⟩
    cases he
    exact h
  | cons shape rest ih =>
    obtain ⟨type, extent⟩ := shape
    obtain ⟨hextent, hextents⟩ := List.forall_mem_cons.1 hextents
    obtain ⟨hguarded, hbelow⟩ := h.descend hextent type number
    unfold Guarded.descendAll Layout.descendAll
    rw [hguarded]
    cases hdescend : s.descend type number extent with
    | error e =>
      refine ⟨rfl, fun modes s' he => ?_⟩
      cases he
    | ok made =>
      obtain ⟨mode, below⟩ := made
      obtain ⟨hguarded, hbottom⟩ := ih (number + 1) (hbelow mode below hdescend) hextents
      refine ⟨by simp only [ok_bind, hguarded], fun modes s' he => ?_⟩
      rw [ok_bind, bind_eq_ok] at he
      obtain ⟨⟨modes', s''⟩, hrest, he⟩ := he
      cases he
      exact hbottom modes' s' hrest

/-! ## Values -/

/-- Values of the array's kind go to any places that it has. -/
theorem exists_foldlM_set : ∀ {placed : List PlacedRecord} (array : ValueArray),
    (∀ r ∈ placed, r.position < array.size) → (∀ r ∈ placed, r.value.dtype = array.dtype) →
    ∃ filled, placed.foldlM (fun array r => array.set r.position r.value) array = .ok filled ∧
      filled.size = array.size
  | [], array, _, _ => ⟨array, rfl, rfl⟩
  | r :: placed, array, hposition, hdtype => by
    have hplace : r.position < array.cells.data.size := hposition r List.mem_cons_self
    obtain ⟨x, hx⟩ := Option.ne_none_iff_exists'.1 fun hnone =>
      (r.value.as?_eq_none_iff array.dtype).1 hnone (hdtype r List.mem_cons_self)
    have hset : array.set r.position r.value =
        .ok { array with cells := { array.cells with data := array.cells.data.set r.position x hplace } } := by
      rw [ValueArray.set, dif_pos hplace, hx]
    have hsize : (array.cells.data.set r.position x hplace).size = array.cells.data.size := Array.size_set hplace
    obtain ⟨filled, hfold, hfilled⟩ := exists_foldlM_set
      { array with cells := { array.cells with data := array.cells.data.set r.position x hplace } }
      (fun q hq => Nat.lt_of_lt_of_eq (hposition q (List.mem_cons_of_mem _ hq)) hsize.symm)
      (fun q hq => hdtype q (List.mem_cons_of_mem _ hq))
    refine ⟨filled, ?_, hfilled.trans hsize⟩
    rw [List.foldlM_cons, hset]
    exact hfold

/-- **The values of records in place can be filled in**, and the index takes them. -/
theorem values (h : s.InPlace d extents) (modes : List ModeIndex) :
    ∃ values, s.values d = .ok values ∧ values.size = s.count ∧
      Storage.of ⟨modes, s.count⟩ values = .ok ⟨⟨modes, s.count⟩, values⟩ := by
  obtain ⟨values, hfold, hsize⟩ := exists_foldlM_set (.zeros d s.count)
    (fun r hr => by rw [ValueArray.size_zeros]; exact h.position r hr) h.dtype
  rw [ValueArray.size_zeros] at hsize
  exact ⟨values, hfold, hsize, if_pos hsize⟩

end Layout.InPlace

namespace Packer

variable {p : Packer} {stored records : List Entry} {held incoming out : List Record}

theorem LaysOut.inPlace (h : p.LaysOut out) (hfew : out.length ≤ maxIndex) :
    (Layout.root out).InPlace p.dtype (p.levelShapes.map Prod.snd) := by
  rw [map_snd_levelShapes]
  have hlength : ∀ r ∈ out, r.key.length = (p.format.keyOf p.dimensions).length := fun r hr => by
    rw [Format.length_keyOf, h.length r hr]
  exact {
    count := (by decide : 1 ≤ maxIndex)
    few := (List.length_map _).trans_le hfew
    position := List.forall_mem_map.2 fun _ _ => Nat.one_pos
    length := List.forall_mem_map.2 hlength
    inBounds := List.forall_mem_map.2 h.inBounds
    dtype := List.forall_mem_map.2 h.dtype
    inOrder := List.pairwise_map.2 (h.inOrder.imp fun hbefore => hbefore.append_left [0]) }

/-- The records that reach a level are in place above it. -/
theorem LaysOut.inPlace_above (hc : p.check = .ok ()) (h : p.LaysOut out) (hfew : out.length ≤ maxIndex) {l : Nat}
    {modes : List ModeIndex} {s : Layout}
    (hdescend : Layout.descendAll 0 (p.levelShapes.take l) (.root out) = .ok (modes, s)) :
    s.InPlace p.dtype ((p.levelShapes.drop l).map Prod.snd) := by
  have hroot := h.inPlace hfew
  rw [← List.take_append_drop l p.levelShapes, List.map_append] at hroot
  exact (hroot.descendAll 0 fun shape hshape => extent_le hc shape (List.mem_of_mem_take hshape)).2 modes s hdescend

/-- The records that reach the leaves are in place there. -/
theorem LaysOut.inPlace_leaves (hc : p.check = .ok ()) (h : p.LaysOut out) (hfew : out.length ≤ maxIndex)
    {modes : List ModeIndex} {s : Layout} (hdescend : Layout.descendAll 0 p.levelShapes (.root out) = .ok (modes, s)) :
    s.InPlace p.dtype [] := by
  have hall := @inPlace_above _ _ hc h hfew p.levelShapes.length modes s (by rwa [List.take_length])
  rwa [List.drop_length] at hall

theorem lay_guarded (hc : p.check = .ok ()) (h : p.LaysOut out) (hfew : out.length ≤ maxIndex) :
    p.lay out = Guarded.lay p out := by
  have hroot := h.inPlace hfew
  rw [← List.append_nil (p.levelShapes.map Prod.snd)] at hroot
  rw [lay, Guarded.lay, shapes_eq (check_eq_ok hc).1, ok_bind, ok_bind, (hroot.descendAll 0 (extent_le hc)).1]
  cases hdescend : Layout.descendAll 0 p.levelShapes (.root out) with
  | error e => rfl
  | ok made =>
    obtain ⟨modes, s⟩ := made
    obtain ⟨values, hvalues, -, hof⟩ := (h.inPlace_leaves hc hfew hdescend).values modes
    simp only [ok_bind, hvalues, hof, Outcome.liftM_checked, Outcome.liftM_option, Except.toOption,
      Outcome.ofChecked_ok, Outcome.ofOption_some]

/-- **Packing reaches none of its inner failure points.**  Let the packer pass its check and the entries be collected.
Resolving fails only where the policy refuses a repetition, so values of two kinds never meet.

If at most as many records are left as the largest index, then above every level that is reached each position is one of
those that are counted, and positions never decrease along the records.  So no guard stops the level, and no guard stops
packing.  At the leaves the positions are different, the values can be filled in, and the index takes them.  Packing
fails for a dense level with too many positions and for nothing else. -/
theorem merge_keeps_guards (hc : p.check = .ok ()) (hstored : p.collect stored = .ok held)
    (hrecords : p.collect records = .ok incoming) :
    (∀ e, p.resolve stored records = .error e →
      p.policy = .reject ∧ ∃ c, e = .refused (.duplicateCoordinate c)) ∧
    ∀ out, p.resolve stored records = .ok out → out.length ≤ maxIndex →
      (∀ l modes s, Layout.descendAll 0 (p.levelShapes.take l) (.root out) = .ok (modes, s) →
        s.count ≤ maxIndex ∧ (∀ r ∈ s.placed, r.position < s.count) ∧
          (s.placed.map (·.position)).Pairwise (· ≤ ·) ∧
          ∀ type extent, p.levelShapes[l]? = some (type, extent) →
            Guarded.descend type l extent s = s.descend type l extent) ∧
      (∀ modes s, Layout.descendAll 0 p.levelShapes (.root out) = .ok (modes, s) →
        (s.placed.map (·.position)).Nodup ∧ ∃ values, s.values p.dtype = .ok values ∧ values.size = s.count ∧
          Storage.of ⟨modes, s.count⟩ values = .ok ⟨⟨modes, s.count⟩, values⟩) ∧
      p.merge stored records = Guarded.lay p out ∧
      ∀ e, p.merge stored records = .error e → ∃ n, maxIndex < n ∧ e = .refused (.indexOverflow n) := by
  have hshape := check_eq_ok_iff.1 hc
  have hadmits : ∀ e ∈ stored ++ records, p.Admits e := fun e he => (List.mem_append.1 he).elim
    (((collect_eq_ok hshape.order).1 hstored).1 e) (((collect_eq_ok hshape.order).1 hrecords).1 e)
  refine ⟨fun e he => ?_, fun out hresolve hfew => ?_⟩
  · obtain ⟨hpolicy, c, -, rfl⟩ := (resolve_eq_error_iff hshape.order hadmits).1 he
    exact ⟨hpolicy, c, rfl⟩
  have hout := resolve_eq_ok hshape.order hresolve
  refine ⟨fun l modes s hdescend => ?_, fun modes s hdescend => ?_, ?_, fun e he => ?_⟩
  · have hplace := hout.laysOut.inPlace_above hc hfew hdescend
    refine ⟨hplace.count, hplace.position, hplace.monotone, fun type extent hshape => ?_⟩
    obtain ⟨hlt, hat⟩ := List.getElem?_eq_some_iff.1 hshape
    rw [List.drop_eq_getElem_cons hlt, hat, List.map_cons] at hplace
    exact (hplace.descend (extent_le hc _ (List.mem_of_getElem? hshape)) type l).1
  · have hplace := hout.laysOut.inPlace_leaves hc hfew hdescend
    exact ⟨hplace.nodup, hplace.values modes⟩
  · rw [merge_eq_lay hc hresolve, lay_guarded hc hout.laysOut hfew]
  · rw [merge_eq_lay hc hresolve] at he
    obtain ⟨l, extent, hover, rfl⟩ := (lay_eq_error_iff hshape hout).1 he
    exact ⟨_, maxIndex_lt_saturated hover.past, rfl⟩

/-- Rows in use over dense columns, with a new record over a stored one. -/
theorem merge_keeps_guards_rows :
    let p : Packer := ⟨[3, 2], ⟨[.compressed, .dense], [0, 1], rfl, by decide⟩, .int32, .sum⟩
    let stored : List Entry := [⟨[0, 1], ⟨.int32, (7 : Int32)⟩⟩]
    let records : List Entry := [⟨[2, 0], ⟨.int32, (1 : Int32)⟩⟩, ⟨[0, 1], ⟨.int32, (5 : Int32)⟩⟩]
    let held : List Record := [⟨[0, 1], ⟨.int32, (7 : Int32)⟩⟩]
    let incoming : List Record := [⟨[2, 0], ⟨.int32, (1 : Int32)⟩⟩, ⟨[0, 1], ⟨.int32, (5 : Int32)⟩⟩]
    let out : List Record := [⟨[0, 1], ⟨.int32, (12 : Int32)⟩⟩, ⟨[2, 0], ⟨.int32, (1 : Int32)⟩⟩]
    p.check = .ok () ∧ p.collect stored = .ok held ∧ p.collect records = .ok incoming ∧
      p.resolve stored records = .ok out ∧ out.length ≤ maxIndex ∧
      Guarded.lay p out = .ok ⟨⟨[.compressed { data := #[0, 2] } { data := #[0, 2] }, .dense 2], 4⟩,
        .ofArray .int32 #[0, 12, 1, 0]⟩ := by
  intro p stored records held incoming out
  have hc : p.check = .ok () := by decide
  have hstored : p.collect stored = .ok held := by cbv
  have hrecords : p.collect records = .ok incoming := by cbv
  have hresolve : p.resolve stored records = .ok out := by cbv
  have hmerge : p.merge stored records = .ok ⟨⟨[.compressed { data := #[0, 2] } { data := #[0, 2] }, .dense 2], 4⟩,
      .ofArray .int32 #[0, 12, 1, 0]⟩ := by cbv
  have hfew : out.length ≤ maxIndex := by decide
  have hguarded := ((merge_keeps_guards hc hstored hrecords).2 out hresolve hfew).2.2.1
  exact ⟨hc, hstored, hrecords, hresolve, hfew, hguarded ▸ hmerge⟩

end Packer

end TensorStorage
