import TensorStorage.Walk.Kernel
import TensorStorage.Proofs.Pack.Canonical
import TensorStorage.Proofs.Tensor.Dense
/-!
# Kernel — a kernel finds what a traversal yields

A descriptor has the numbers of the storage, of the format and of the dimensions unchanged, or there is none
(`Descriptor.of_eq_ok_iff`).  Where the descriptor shows levels that nest (`Descriptor.Shows`), the loops of a kernel are
the nested recursion over these levels, and nothing outside the arrays is read (`Descriptor.visit?_eq`).  The levels of
a storage that was packed or taken in as a matrix nest, with no more positions anywhere than the largest index, if it has
at most as many values (`Storage.MadeFor.exists_levels`); then it has a descriptor, unless the levels of its format are
too many to be counted in 32 bits (`Storage.MadeFor.of_eq_ok`, `Storage.MadeFor.of_eq_error`).
-/
namespace TensorStorage

/-! ## Descriptors -/

theorem narrow_eq_ok {n m : Nat} : narrow n = .ok m ↔ n ≤ maxIndex ∧ m = n := by
  rw [narrow, guard_eq_ok, Nat.not_lt, Except.ok.injEq, eq_comm (a := n)]

theorem mapM_narrow_eq_ok : ∀ {l m : List Nat}, l.mapM narrow = .ok m ↔ (∀ n ∈ l, n ≤ maxIndex) ∧ m = l
  | [], m => by
    rw [List.mapM_nil, pure_eq_ok, Except.ok.injEq]
    exact ⟨fun h => ⟨nofun, h.symm⟩, fun h => h.2.symm⟩
  | n :: l, m => by
    simp only [List.mapM_cons, bind_eq_ok, narrow_eq_ok, mapM_narrow_eq_ok, pure_eq_ok, Except.ok.injEq,
      List.forall_mem_cons]
    constructor
    · rintro ⟨_, ⟨hn, rfl⟩, _, ⟨hl, rfl⟩, rfl⟩
      exact ⟨⟨hn, hl⟩, rfl⟩
    · rintro ⟨⟨hn, hl⟩, rfl⟩
      exact ⟨n, ⟨hn, rfl⟩, l, ⟨hl, rfl⟩, rfl⟩

namespace Descriptor

variable {k : Descriptor} {s : Storage} {f : Format} {dimensions : List Nat}

/-- What a descriptor shows of a storage, with every number as it is. -/
def faithful (s : Storage) (f : Format) (dimensions : List Nat) : Descriptor where
  order := f.order
  dimensions
  componentSize := s.dtype.byteSize
  ordering := f.ordering
  types := f.types
  levels := s.index.modes.map ModeIndex.listed
  values := s.values
  valueCount := s.values.size

/-- Every number of a descriptor is a 32-bit integer. -/
structure Narrowed (k : Descriptor) : Prop where
  order : k.order ≤ maxIndex
  dimensions : ∀ d ∈ k.dimensions, d ≤ maxIndex
  componentSize : k.componentSize ≤ maxIndex
  ordering : ∀ d ∈ k.ordering, d ≤ maxIndex
  valueCount : k.valueCount ≤ maxIndex

theorem byteSize_le (d : DataType) : d.byteSize ≤ maxIndex := by
  cases d <;> decide

/-- **There is a descriptor if the orders agree and all sizes are 32-bit integers**, and then it has every number as it
is. -/
theorem of_eq_ok_iff : Descriptor.of s f dimensions = .ok k ↔ s.index.order = f.order ∧ dimensions.length = f.order ∧
    (faithful s f dimensions).Narrowed ∧ k = faithful s f dimensions := by
  have hopened : Descriptor.of s f dimensions = .ok k ↔ ¬ (s.index.order ≠ f.order ∨ dimensions.length ≠ f.order) ∧
      ∃ dimensions', dimensions.mapM narrow = .ok dimensions' ∧ ∃ ordering, f.ordering.mapM narrow = .ok ordering ∧
        ∃ valueCount, narrow s.values.size = .ok valueCount ∧ ∃ order, narrow f.order = .ok order ∧
          ∃ componentSize, narrow s.dtype.byteSize = .ok componentSize ∧
            (⟨order, dimensions', componentSize, ordering, f.types, s.index.modes.map ModeIndex.listed, s.values,
              valueCount⟩ : Descriptor) = k := by
    simp only [Descriptor.of, error_bind, guard_eq_ok, bind_eq_ok, pure_eq_ok, Except.ok.injEq]
    rfl
  rw [hopened, not_or, ne_eq, ne_eq, Decidable.not_not, Decidable.not_not]
  simp only [mapM_narrow_eq_ok, narrow_eq_ok]
  constructor
  · rintro ⟨⟨hindex, hlen⟩, _, ⟨hdimensions, rfl⟩, _, ⟨hordering, rfl⟩, _, ⟨hvalues, rfl⟩, _, ⟨horder, rfl⟩, _,
      ⟨hsize, rfl⟩, rfl⟩
    exact ⟨hindex, hlen, ⟨horder, hdimensions, hsize, hordering, hvalues⟩, rfl⟩
  · rintro ⟨hindex, hlen, h, rfl⟩
    exact ⟨⟨hindex, hlen⟩, _, ⟨h.dimensions, rfl⟩, _, ⟨h.ordering, rfl⟩, _, ⟨h.valueCount, rfl⟩, _, ⟨h.order, rfl⟩, _,
      ⟨h.componentSize, rfl⟩, rfl⟩

/-- **A format of too many levels has no descriptor**: of all sizes, their count is the last that is compared. -/
theorem of_eq_error (hindex : s.index.order = f.order) (hlen : dimensions.length = f.order)
    (hdimensions : ∀ d ∈ dimensions, d ≤ maxIndex) (hordering : ∀ d ∈ f.ordering, d ≤ maxIndex)
    (hvalues : s.values.size ≤ maxIndex) (horder : maxIndex < f.order) :
    Descriptor.of s f dimensions = .error (.indexOverflow f.order) := by
  have hagree : ¬ (s.index.order ≠ f.order ∨ dimensions.length ≠ f.order) := by simp [hindex, hlen]
  have hrefused : narrow f.order = .error (.indexOverflow f.order) := by rw [narrow, if_pos horder]
  simp only [Descriptor.of, if_neg hagree, mapM_narrow_eq_ok.2 ⟨hdimensions, rfl⟩,
    mapM_narrow_eq_ok.2 ⟨hordering, rfl⟩, narrow_eq_ok.2 ⟨hvalues, rfl⟩, hrefused, ok_bind, error_bind]

/-! ## Loops -/

/-- **A descriptor that shows a level** at this number: the mode type, and the extent of a dense level wherever it is
taken from, or the arrays of a compressed level. -/
def Shows (k : Descriptor) (number : Nat) : Level → Prop
  | .dense extent => k.types[number]? = some .dense ∧ ∀ source, k.extent? source number = some extent
  | .compressed positions coordinates => k.types[number]? = some .compressed ∧ k.array? number 0 = some positions ∧
      k.array? number 1 = some coordinates

end Descriptor

/-- **Levels that nest** between `above` positions and `leaves` leaves, with no more positions below any of them than the
largest index. -/
def LevelsFit : List Level → Nat → Nat → Prop
  | [], above, leaves => above = leaves
  | level :: rest, above, leaves => ∃ below, level.Nested above below ∧ below ≤ maxIndex ∧ LevelsFit rest below leaves

namespace Descriptor

variable {k : Descriptor} {level : Level} {above below parent number : Nat}

/-- One loop goes over the children of its level. -/
theorem children?_eq (h : k.Shows number level) (hn : level.Nested above below) (hbelow : below ≤ maxIndex)
    (hp : parent < above) (source : ExtentSource) : k.children? source number parent = some (level.children parent) := by
  cases level with
  | dense extent =>
    obtain ⟨htype, hextent⟩ := h
    have hstop : ¬ maxIndex < parent * extent + extent := by
      have hle : (parent + 1) * extent ≤ below := hn.firstChild_le hp
      rw [Nat.succ_mul] at hle
      exact Nat.not_lt.2 (Nat.le_trans hle hbelow)
    simp only [children?, htype, hextent, Option.bind_eq_bind, Option.bind_some, if_neg hstop]
    rfl
  | compressed positions coordinates =>
    obtain ⟨htype, hpositions, hcoordinates⟩ := h
    have hsegment := hn.segment parent hp
    have hcoordinate := hn.coordinate parent hp
    simp only [Level.segment?, Level.coordinate?, Option.bind_eq_bind, Option.bind_eq_some_iff] at hsegment hcoordinate
    obtain ⟨x, hx, first, hfirst, y, hy, stop, hstop, hsegment⟩ := hsegment
    obtain ⟨rfl, rfl⟩ := Prod.mk.inj (Option.some.inj hsegment)
    simp only [children?, htype, hpositions, hcoordinates, hx, hfirst, hy, hstop, Option.bind_eq_bind, Option.bind_some]
    rw [Level.children_eq]
    refine mapM_eq_pure fun position hposition => ?_
    obtain ⟨hle, hlt⟩ := List.mem_range'_1.1 hposition
    obtain ⟨c, hc, hplace⟩ := hcoordinate position hle (by omega)
    simp only [hc, hplace, Option.bind_some]
    rfl

/-- The entry of a leaf, whose coordinates are written to the dimensions of these levels. -/
def entryAt? (k : Descriptor) (dimensions : List Nat) (coordinate : Coordinate) (leaf : Coordinate × Nat) :
    Option Entry :=
  (k.values.get? leaf.2).map fun value =>
    ⟨(dimensions.zip leaf.1).foldl (fun out p => out.set p.1 p.2) coordinate, value⟩

/-- **The loops of a kernel are the nested recursion** over the levels that the descriptor shows. -/
theorem visit?_eq (hcount : k.valueCount = k.values.size) (source : ExtentSource) : ∀ {levels : List Level}
    {number above leaves parent : Nat} {coordinate : Coordinate}, LevelsFit levels above leaves →
      (∀ i level, levels[i]? = some level → k.Shows (number + i) level) → number + levels.length ≤ k.ordering.length →
      (∀ d ∈ k.ordering, d < coordinate.length) → leaves ≤ k.values.size → parent < above →
      k.visit? source levels.length number parent coordinate =
        some ((leavesBelow levels parent).filterMap (k.entryAt? (k.ordering.drop number) coordinate))
  | [], number, above, leaves, parent, coordinate, hn, _, _, _, hleaves, hp => by
    obtain rfl : above = leaves := hn
    have hparent : parent < k.values.size := Nat.lt_of_lt_of_le hp hleaves
    obtain ⟨value, hvalue⟩ : ∃ value, k.values.get? parent = some value :=
      Option.ne_none_iff_exists'.1 fun h => Nat.not_le_of_lt hparent ((k.values.get?_eq_none_iff parent).1 h)
    simp [visit?, slot?, leavesBelow, entryAt?, hcount, hparent, hvalue]
  | level :: rest, number, above, leaves, parent, coordinate, ⟨below, hlevel, hfit, hrest⟩, hshows, hlen, hin, hleaves,
      hp => by
    rw [List.length_cons] at hlen
    have hnumber : number < k.ordering.length := by omega
    have hhead : k.Shows number level := hshows 0 level rfl
    have hbelow : ∀ child ∈ level.children parent,
        k.visit? source rest.length (number + 1) child.1 (coordinate.set k.ordering[number] child.2) =
          some ((leavesBelow rest child.1).filterMap
            (k.entryAt? (k.ordering.drop (number + 1)) (coordinate.set k.ordering[number] child.2))) := by
      intro child hchild
      refine visit?_eq hcount source hrest (fun i level hi => ?_) (by omega) (fun d hd => ?_) hleaves
        (hlevel.child_lt hp hchild)
      · have := hshows (i + 1) level hi
        rwa [Nat.add_assoc, Nat.add_comm 1]
      · rw [List.length_set]
        exact hin d hd
    have hmapM := mapM_eq_pure hbelow
    have hwrite : ¬ coordinate.length ≤ k.ordering[number] := Nat.not_le.2 (hin _ (List.getElem_mem hnumber))
    rw [List.length_cons, visit?]
    simp only [List.getElem?_eq_getElem hnumber, Option.bind_eq_bind, Option.bind_some, if_neg hwrite,
      children?_eq hhead hlevel hfit hp source]
    rw [hmapM, Option.pure_def, Option.bind_some, ← List.flatMap_def, leavesBelow, List.filterMap_flatMap]
    refine congrArg some (flatMap_congr_left fun child _ => ?_)
    rw [List.filterMap_map, List.drop_eq_getElem_cons hnumber]
    rfl

end Descriptor

/-! ## Levels of a storage -/

theorem getElem?_levelsFrom : ∀ {modes : List (ModeIndex × ModeType)} {number : Nat} {levels : List Level} {i : Nat}
    {level : Level}, levelsFrom number modes = .ok levels → levels[i]? = some level →
      ∃ m type, modes[i]? = some (m, type) ∧ m.level type (number + i) = .ok level
  | [], _, _, _, _, h, hi => by
    cases h
    cases hi
  | (m, type) :: rest, number, _, i, level, h, hi => by
    simp only [levelsFrom, bind_eq_ok] at h
    obtain ⟨level', hlevel, levels, hlevels, h⟩ := h
    cases h
    cases i with
    | zero =>
      cases hi
      exact ⟨m, type, rfl, hlevel⟩
    | succ i =>
      obtain ⟨m', type', hm, hat⟩ := getElem?_levelsFrom hlevels hi
      rw [Nat.add_assoc, Nat.add_comm 1] at hat
      exact ⟨m', type', hm, hat⟩

theorem getElem?_checkExtents : ∀ {levels : List (Level × Nat)} {number i : Nat} {level : Level} {extent : Nat},
    checkExtents number levels = .ok () → levels[i]? = some (level, extent) →
      level.checkExtent (number + i) extent = .ok ()
  | [], _, _, _, _, _, hi => by cases hi
  | (level', extent') :: rest, number, i, level, extent, h, hi => by
    rw [checkExtents, bind_eq_ok] at h
    obtain ⟨⟨⟩, hlevel, hrest⟩ := h
    cases i with
    | zero =>
      cases hi
      exact hlevel
    | succ i =>
      have hat := getElem?_checkExtents hrest hi
      rwa [Nat.add_assoc, Nat.add_comm 1] at hat

namespace Descriptor

variable {s : Storage} {f : Format} {dimensions : List Nat} {levels : List Level}

/-- The dimension that a level stores, as the level's extent. -/
theorem extent?_dimensions (hdimensions : dimensions.length = f.order) {i extent : Nat}
    (hi : (f.keyOf dimensions)[i]? = some extent) :
    (faithful s f dimensions).extent? .dimensions i = some extent := by
  obtain ⟨hlt, hextent⟩ := List.getElem?_eq_some_iff.1 hi
  have hi : i < f.ordering.length := by rwa [f.length_keyOf, ← f.ordering_length] at hlt
  have hd : f.ordering[i] < dimensions.length := by
    rw [hdimensions]
    exact (f.mem_ordering_iff _).1 (List.getElem_mem hi)
  rw [← hextent]
  simp [extent?, faithful, Format.keyOf, hi, hd]

/-- **The descriptor of a storage that fits shows its levels**: the array of a dense level and the dimension that the
level stores give the same extent. -/
theorem shows_faithful (hdimensions : dimensions.length = f.order) (hlevels : s.levels f = .ok levels)
    (hextents : checkExtents 0 (levels.zip (f.keyOf dimensions)) = .ok ()) {i : Nat} {level : Level}
    (hi : levels[i]? = some level) : (faithful s f dimensions).Shows i level := by
  obtain ⟨-, -, hfrom⟩ := Storage.levels_eq_ok.1 hlevels
  obtain ⟨m, type, hmode, hlevel⟩ := getElem?_levelsFrom hfrom hi
  obtain ⟨hm, htype⟩ := List.getElem?_zip_eq_some.1 hmode
  have harray : ∀ n a, m.array n = .ok a → (faithful s f dimensions).array? i n = some a.data := by
    intro n a ha
    rw [ModeIndex.array_eq_ok] at ha
    simp [array?, faithful, hm, ModeIndex.listed, ha]
  obtain ⟨extent, hextent⟩ : ∃ extent, (f.keyOf dimensions)[i]? = some extent := by
    refine ⟨_, List.getElem?_eq_getElem ?_⟩
    rw [f.length_keyOf, ← Storage.length_levels hlevels]
    exact (List.getElem?_eq_some_iff.1 hi).1
  have hcheck := getElem?_checkExtents hextents (List.getElem?_zip_eq_some.2 ⟨hi, hextent⟩)
  cases type with
  | dense =>
    simp only [ModeIndex.level, bind_eq_ok, guard_eq_ok] at hlevel
    obtain ⟨entries, hentries, hnonneg, hlevel⟩ := hlevel
    cases hlevel
    refine ⟨htype, fun source => ?_⟩
    cases source with
    | array =>
      cases hentry : entries.data[0]? with
      | none =>
        rw [hentry] at hnonneg
        exact absurd (by decide) hnonneg
      | some entry =>
        rw [hentry] at hnonneg
        simp only [extent?, harray 0 entries hentries, hentry, Option.bind_eq_bind, Option.bind_some]
        exact if_neg hnonneg
    | dimensions =>
      simp only [Level.checkExtent, guard_eq_ok, Decidable.not_not] at hcheck
      rw [hcheck.1]
      exact extent?_dimensions hdimensions hextent
  | compressed =>
    simp only [ModeIndex.level, bind_eq_ok] at hlevel
    obtain ⟨positions, hpositions, coordinates, hcoordinates, hlevel⟩ := hlevel
    cases hlevel
    exact ⟨htype, harray 0 positions hpositions, harray 1 coordinates hcoordinates⟩
  | singleton => cases hlevel

/-- A dense level has one extent, wherever it is taken from. -/
theorem exists_extent (hdimensions : dimensions.length = f.order) (hlevels : s.levels f = .ok levels)
    (hextents : checkExtents 0 (levels.zip (f.keyOf dimensions)) = .ok ()) {i : Nat} (htype : f.types[i]? = some .dense) :
    ∃ extent, ∀ source, (faithful s f dimensions).extent? source i = some extent := by
  have hi : i < levels.length := by
    rw [Storage.length_levels hlevels]
    exact (List.getElem?_eq_some_iff.1 htype).1
  have hshows := shows_faithful hdimensions hlevels hextents (List.getElem?_eq_getElem hi)
  cases hlevel : levels[i] with
  | dense extent =>
    rw [hlevel] at hshows
    exact ⟨extent, hshows.2⟩
  | compressed positions coordinates =>
    rw [hlevel] at hshows
    cases htype.symm.trans hshows.1

/-- **A kernel over a storage that fits finds its entries**, if there are no more positions anywhere than the largest
index. -/
theorem entries?_faithful (hdimensions : dimensions.length = f.order) (hlevels : s.checkedLevels f = .ok levels)
    (hextents : checkExtents 0 (levels.zip (f.keyOf dimensions)) = .ok ()) (hfit : LevelsFit levels 1 s.index.size)
    (source : ExtentSource) : (faithful s f dimensions).entries? source = some (s.nestedEntries f levels) := by
  obtain ⟨hl, -, hvalues⟩ := Storage.checkedLevels_eq_ok hlevels
  have hlen := Storage.length_levels hl
  have hentry : (faithful s f dimensions).entryAt? (f.ordering.drop 0) (List.replicate f.order 0) =
      fun leaf => (s.valueAt? leaf.2).map fun value => ⟨f.fromLevels leaf.1, value⟩ := by
    funext leaf
    rw [entryAt?, List.drop_zero, Format.fromLevels, f.ordering_length]
    rfl
  have hshows : ∀ i level, levels[i]? = some level → (faithful s f dimensions).Shows (0 + i) level := by
    intro i level hi
    rw [Nat.zero_add]
    exact shows_faithful hdimensions hl hextents hi
  have hvisit : (faithful s f dimensions).visit? source levels.length 0 0 (List.replicate f.order 0) =
      some ((leavesBelow levels 0).filterMap
        ((faithful s f dimensions).entryAt? (f.ordering.drop 0) (List.replicate f.order 0))) := by
    refine visit?_eq rfl source hfit hshows ?_ (fun d hd => ?_) (Nat.le_of_eq hvalues.symm) Nat.one_pos
    · rw [Nat.zero_add, hlen]
      exact Nat.le_of_eq f.ordering_length.symm
    · rw [List.length_replicate]
      exact (f.mem_ordering_iff d).1 hd
  rw [hentry, hlen] at hvisit
  exact hvisit

end Descriptor

/-! ## Storages that were made -/

namespace Packer

variable {p : Packer} {out : List Record} {s : Storage}

/-- Levels that were laid out with counts that fit. -/
theorem levelsFit_levelsBetween {keys : List Coordinate} (hsorted : keys.Pairwise Coordinate.Before) :
    ∀ {shapes : List (ModeType × Nat)} {depth : Nat} {nodes : List Coordinate}, KeysWithin keys depth shapes →
      NodesAt keys depth nodes → (∀ shape ∈ shapes, shape.2 ≤ maxIndex) → Fits keys depth shapes nodes →
      LevelsFit (levelsBetween keys depth shapes nodes) nodes.length (nodesAfter keys depth shapes nodes).length
  | [], _, _, _, _, _, _ => rfl
  | shape :: rest, depth, nodes, hkeys, h, hextent, hfits => by
    have hcount := countBelow_levelBetween hsorted hkeys h (hextent shape List.mem_cons_self) hfits.1 hfits.2.head depth
    have habove : nodes.length < wordLimit := Nat.lt_of_le_of_lt hfits.1 (by decide)
    refine ⟨_, Level.nested_of_countBelow habove hcount, hfits.2.head, ?_⟩
    exact levelsFit_levelsBetween hsorted hkeys.tail (nodesAt_nodesBelow hsorted hkeys h)
      (fun s hs => hextent s (List.mem_cons_of_mem _ hs)) hfits.2

/-- **Counts fit where the values are few**: a record has a slot of its own, and no compressed level lists more
coordinates than there are records. -/
theorem fitsEntries_of_values (hc : p.check = .ok ()) (h : p.LaysOut out) (hlay : p.lay out = .ok s)
    (hvalues : s.values.size ≤ maxIndex) : p.FitsEntries out := by
  obtain ⟨modes, hmodes, rfl⟩ := lay_eq_ok hc h hlay
  have hkeys : (out.map (·.key)).length ≤ (p.leaves out).length :=
    h.inOrder.nodup_keys.length_le_of_subset fun k hk => by
      obtain ⟨r, hr, rfl⟩ := List.mem_map.1 hk
      exact h.key_mem_leaves hr
  have hleaves : (p.leaves out).length ≤ maxIndex := by
    simpa [ValueArray.ofArray, ValueArray.size, Buffer.size] using hvalues
  exact fits_of_modesFrom (Nat.le_trans hkeys hleaves) (by decide) hmodes

end Packer

namespace Storage

variable {dimensions : List Nat} {f : Format} {s : Storage}

theorem MadeFor.dimension_le (h : s.MadeFor dimensions f) : ∀ d ∈ dimensions, d ≤ maxIndex := by
  induction h with
  | packed hdimensions _ hmerge =>
    rw [← hdimensions]
    exact (Packer.check_eq_ok (Packer.merge_eq_ok hmerge).1).2.2
  | matrix hmade _ _ =>
    obtain ⟨⟨rows, columns, rfl, hrows, hcolumns, -⟩, -⟩ := MatrixKind.assemble_eq_ok_iff.1 hmade
    simp [hrows, hcolumns]
  | overwritten _ _ _ ih => exact ih

/-- **A storage that was made nests and fits**, if it has at most as many values as the largest index. -/
theorem MadeFor.exists_levels (h : s.MadeFor dimensions f) (hvalues : s.values.size ≤ maxIndex) :
    ∃ levels, s.checkedLevels f = .ok levels ∧ LevelsFit levels 1 s.index.size := by
  induction h with
  | @packed p stored records s hdimensions hformat hmerge =>
    subst hdimensions hformat
    obtain ⟨hc, out, hresolve, hlay⟩ := Packer.merge_eq_ok hmerge
    have hout := (Packer.resolve_eq_ok (Packer.check_eq_ok hc).1 hresolve).laysOut
    have hfits := Packer.fitsEntries_of_values hc hout hlay hvalues
    refine ⟨p.levels out, Packer.checkedLevels_of_lay hc hout hlay hfits, ?_⟩
    obtain ⟨modes, -, rfl⟩ := Packer.lay_eq_ok hc hout hlay
    exact Packer.levelsFit_levelsBetween hout.sorted hout.keysWithin (nodesAt_root _) (Packer.extent_le hc) hfits
  | @matrix kind name pointers inner values t s hmade hformat hs =>
    obtain ⟨⟨rows, columns, -, hrows, hcolumns, hlists⟩, rfl⟩ := MatrixKind.assemble_eq_ok_iff.1 hmade
    cases hs
    subst hformat
    obtain ⟨-, hsegments, hnonneg, houter⟩ := hlists.passes (kind.outer_le hrows hcolumns)
    have hlevels : (MatrixKind.storageOver pointers inner values).checkedLevels kind.format =
        .ok [.dense (pointers.size - 1), .compressed pointers.data inner.data] :=
      MatrixKind.checkedLevels_storageOver hsegments hnonneg houter hlists.count
    refine ⟨_, hlevels, ?_⟩
    obtain ⟨-, ⟨above, hdense, below, hcompressed, hleaves⟩, hsize⟩ := levelsNested_of_checkedLevels hlevels
    have habove : 1 * (pointers.size - 1) = above := hdense.first_last
    refine ⟨above, hdense, ?_, below, hcompressed, ?_, hleaves⟩
    · rw [← habove, Nat.one_mul]
      exact Nat.not_lt.1 houter
    · rw [show below = _ from hleaves, ← hsize]
      exact hvalues
  | overwritten _ hindex hsize ih =>
    obtain ⟨levels, hlevels, hfit⟩ := ih (hsize ▸ hvalues)
    exact ⟨levels, (checkedLevels_of_sameShape hindex hsize f).trans hlevels, hindex ▸ hfit⟩

theorem MadeFor.order_index (h : s.MadeFor dimensions f) (hvalues : s.values.size ≤ maxIndex) :
    s.index.order = f.order := by
  obtain ⟨levels, hlevels, -⟩ := h.exists_levels hvalues
  obtain ⟨-, hindex, -⟩ := levels_eq_ok.1 (checkedLevels_eq_ok hlevels).1
  exact hindex

/-- **A storage that was made has a descriptor** if it has at most as many values as the largest index, and its format
at most as many levels. -/
theorem MadeFor.of_eq_ok (h : s.MadeFor dimensions f) (hvalues : s.values.size ≤ maxIndex)
    (horder : f.order ≤ maxIndex) : Descriptor.of s f dimensions = .ok (Descriptor.faithful s f dimensions) := by
  have hordering : ∀ d ∈ f.ordering, d ≤ maxIndex := fun d hd =>
    Nat.le_trans (Nat.le_of_lt ((f.mem_ordering_iff d).1 hd)) horder
  exact Descriptor.of_eq_ok_iff.2 ⟨h.order_index hvalues, h.fits.1.symm,
    ⟨horder, h.dimension_le, Descriptor.byteSize_le s.dtype, hordering, hvalues⟩, rfl⟩

/-- With one level more it is refused, and that for the number of the levels. -/
theorem MadeFor.of_eq_error (h : s.MadeFor dimensions f) (hvalues : s.values.size ≤ maxIndex)
    (horder : f.order = maxIndex + 1) : Descriptor.of s f dimensions = .error (.indexOverflow f.order) := by
  have hordering : ∀ d ∈ f.ordering, d ≤ maxIndex := fun d hd =>
    Nat.le_of_lt_succ (Nat.lt_of_lt_of_eq ((f.mem_ordering_iff d).1 hd) horder)
  exact Descriptor.of_eq_error (h.order_index hvalues) h.fits.1.symm h.dimension_le hordering hvalues
    (Nat.lt_of_lt_of_eq (Nat.lt_succ_self maxIndex) horder.symm)

end Storage

/-- **A kernel finds what a traversal yields.**  Of a storage that was made for these dimensions and this format, with at
most as many values as the largest index and no more levels, there is a descriptor.  It has all numbers of the format,
the dimensions and the storage as they are, and the arrays of the storage as they are.

The kernel reads nothing outside the arrays of the descriptor and leaves no 32-bit integer, and finds the same wherever
it takes the extents from, which are one at every dense level.  A traversal of the storage starts and answers the entries
that the kernel finds, one after the other, and then nothing. -/
theorem Descriptor.kernel_finds_entries {s : Storage} {f : Format} {dimensions : List Nat}
    (hmade : s.MadeFor dimensions f) (hvalues : s.values.size ≤ maxIndex) (horder : f.order ≤ maxIndex) :
    ∃ (k : Descriptor) (es : List Entry), Descriptor.of s f dimensions = .ok k ∧ k = faithful s f dimensions ∧
      k.Narrowed ∧
      (∀ level, k.types[level]? = some .dense → ∃ extent, ∀ source, k.extent? source level = some extent) ∧
      (∀ source, k.entries? source = some es) ∧
      ∀ source, ∃ t, Traversal.start source s f = .ok t ∧ ∀ n, ∃ u,
        calls? Traversal.next? n t = some ((es.take n).map some ++ List.replicate (n - es.length) none, u) := by
  obtain ⟨hdimensions, hfits⟩ := hmade.fits
  obtain ⟨levels, hlevels, hfit⟩ := hmade.exists_levels hvalues
  obtain ⟨levels', hlevels', hextents⟩ := (Storage.checkFits_eq_ok hdimensions).1 (hfits levels hlevels)
  cases hlevels.symm.trans hlevels'
  have hof := hmade.of_eq_ok hvalues horder
  obtain ⟨-, -, hnarrowed, -⟩ := Descriptor.of_eq_ok_iff.1 hof
  refine ⟨faithful s f dimensions, s.nestedEntries f levels, hof, rfl, hnarrowed, fun level htype => ?_,
    fun source => ?_, fun source => ?_⟩
  · exact exists_extent hdimensions.symm (Storage.checkedLevels_eq_ok hlevels).1 hextents htype
  · exact Descriptor.entries?_faithful hdimensions.symm hlevels hextents hfit source
  · have hstart : Traversal.start source s f = .ok ⟨source, s, f, levels, .new levels.length⟩ := by
      rw [Traversal.start, hlevels]
      rfl
    obtain ⟨-, -, -, hcalls⟩ := Traversal.calls?_start hstart
    refine ⟨_, hstart, fun n => ?_⟩
    obtain ⟨u, hu, -⟩ := hcalls n
    exact ⟨u, hu⟩

/-- Two entries of a matrix that was packed by its columns. -/
theorem Descriptor.kernel_finds_entries_columns :
    let p : Packer := ⟨[3, 2], .csc, .int32, .reject⟩
    let records : List Entry := [⟨[0, 1], ⟨.int32, (2 : Int32)⟩⟩, ⟨[2, 0], ⟨.int32, (1 : Int32)⟩⟩]
    let s : Storage := ⟨⟨[.dense 2, .compressed { data := #[0, 1, 2] } { data := #[2, 0] }], 2⟩,
      .ofArray .int32 #[1, 2]⟩
    p.merge [] records = .ok s ∧ s.values.size ≤ maxIndex ∧ Format.csc.order ≤ maxIndex ∧
      ∃ k, Descriptor.of s .csc [3, 2] = .ok k ∧
        k.entries? .dimensions = some [⟨[2, 0], ⟨.int32, (1 : Int32)⟩⟩, ⟨[0, 1], ⟨.int32, (2 : Int32)⟩⟩] ∧
        ∃ t, Traversal.start 0 s .csc = .ok t ∧ ∃ u, calls? Traversal.next? 3 t =
          some ([some ⟨[2, 0], ⟨.int32, (1 : Int32)⟩⟩, some ⟨[0, 1], ⟨.int32, (2 : Int32)⟩⟩, none], u) := by
  intro p records s
  have hmerge : p.merge [] records = .ok s := by cbv
  have hfew : s.values.size ≤ maxIndex := by decide
  have horder : Format.csc.order ≤ maxIndex := by decide
  have hmade : s.MadeFor [3, 2] .csc := .packed rfl rfl hmerge
  obtain ⟨k, es, hof, rfl, -, -, hentries, hcalls⟩ := kernel_finds_entries hmade hfew horder
  have hfound : (faithful s .csc [3, 2]).entries? .array =
      some [⟨[2, 0], ⟨.int32, (1 : Int32)⟩⟩, ⟨[0, 1], ⟨.int32, (2 : Int32)⟩⟩] := by cbv
  cases (hentries .array).symm.trans hfound
  obtain ⟨t, ht, hnext⟩ := hcalls 0
  exact ⟨hmerge, hfew, horder, _, hof, hentries .dimensions, t, ht, hnext 3⟩

/-- A packer of tensors with this many dimensions of extent one, and all levels compressed. -/
def Packer.needle (n : Nat) : Packer := ⟨List.replicate n 1, .sparse n, .int32, .lastWins⟩

/-- Nothing is under compressed levels when nothing goes in. -/
theorem Packer.merge_needle (n : Nat) : ∃ s, (needle (n + 1)).merge [] [] = .ok s ∧ s.values.size = 0 := by
  have hcompressed : ∀ type ∈ (needle (n + 1)).format.types, type = .compressed := fun type htype =>
    List.eq_of_mem_replicate htype
  have horder : (needle (n + 1)).format.order = n + 1 := List.length_replicate
  have hsupported : (needle (n + 1)).format.ensureSupported = .ok () :=
    Format.ensureSupported_eq_ok.2 fun type htype => hcompressed type htype ▸ rfl
  have hc : (needle (n + 1)).check = .ok () := by
    refine check_isOk (horder.trans List.length_replicate.symm) hsupported fun d hd => ?_
    rw [List.eq_of_mem_replicate hd]
    decide
  obtain ⟨out, hresolve⟩ : ∃ out, (needle (n + 1)).resolve [] [] = .ok out :=
    resolve_isOk (check_eq_ok hc).1 (by simp) (by simp)
  obtain ⟨s, hmerge, hsize, -⟩ := merge_of_compressed hc hresolve hcompressed
  have hout := resolve_eq_ok (check_eq_ok hc).1 hresolve
  obtain ⟨⟨type, extent⟩, hshape, htype⟩ := exists_levelShape (p := needle (n + 1))
    (Nat.lt_of_lt_of_eq (Nat.lt_succ_self n) horder.symm)
  obtain rfl := hcompressed type htype
  have hleaves : (needle (n + 1)).leaves out = [] := by
    refine List.eq_nil_iff_forall_not_mem.2 fun x hx => ?_
    rw [← nodes_order, horder, hout.mem_nodes_iff hsupported (Nat.le_of_eq horder.symm), IsNode, hshape] at hx
    obtain ⟨e, he, -⟩ := hx
    cases he
  exact ⟨s, hmerge, by rw [hsize, hleaves, List.length_nil]⟩

/-- **A format of one level too many**: what was packed of no entries has no descriptor. -/
theorem Descriptor.no_descriptor_past_range :
    let p := Packer.needle (maxIndex + 1)
    ∃ s, p.merge [] [] = .ok s ∧ s.MadeFor p.dimensions p.format ∧ s.values.size ≤ maxIndex ∧
      Descriptor.of s p.format p.dimensions = .error (.indexOverflow (maxIndex + 1)) := by
  intro p
  obtain ⟨s, hmerge, hsize⟩ := Packer.merge_needle maxIndex
  have hmade : s.MadeFor p.dimensions p.format := .packed rfl rfl hmerge
  have hfew : s.values.size ≤ maxIndex := hsize ▸ Nat.zero_le maxIndex
  have horder : p.format.order = maxIndex + 1 := List.length_replicate
  exact ⟨s, hmerge, hmade, hfew, horder ▸ hmade.of_eq_error hfew horder⟩

end TensorStorage
