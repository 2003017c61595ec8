import TensorStorage.Error
import TensorStorage.Room
/-!
# Format — one mode type per level, and the dimension each level stores

A format lists the mode types of the levels, outermost first, and a mode ordering: `ordering[level]` is the dimension
that the level stores.  The ordering is a permutation, so a coordinate in dimension order and one in level order are two
views of one place; `toLevels?` and `fromLevels` go between them.

`Format.of` makes a format from parts that nobody has checked.  A `FormatRecord` holds such parts unchecked, as
documents do.
-/
namespace TensorStorage

/-- Mode types and a mode ordering that nothing is known of. -/
structure FormatRecord where
  types : List ModeType
  ordering : List Nat
deriving DecidableEq, Repr

/-- The mode types of the levels and the dimensions that the levels store. -/
structure Format where
  types : List ModeType
  ordering : List Nat
  length_eq : types.length = ordering.length
  isPermutation : ordering.Perm (List.range ordering.length)
deriving DecidableEq

namespace Format

/-- True when every number, in ascending order, stands at the place it names. -/
def sortsInPlace (ordering : List Nat) : Bool :=
  (ordering.mergeSort fun a b => a ≤ b).zipIdx.all fun p => p.2 == p.1

/-- An ordering that sorts in place is a permutation of its places: sorted, it is the list of them. -/
theorem perm_of_sortsInPlace {ordering : List Nat} (h : sortsInPlace ordering = true) :
    ordering.Perm (List.range ordering.length) := by
  have hsorted : (ordering.mergeSort fun a b => a ≤ b) = List.range ordering.length := by
    apply List.ext_getElem
    · rw [List.length_mergeSort, List.length_range]
    · intro i hi _
      have hmem := List.mk_mem_zipIdx_iff_getElem?.2 (List.getElem?_eq_getElem hi)
      rw [List.getElem_range]
      exact (eq_of_beq (List.all_eq_true.1 h _ hmem)).symm
  exact hsorted ▸ (List.mergeSort_perm ordering _).symm

/-- A format from its parts.  Lengths are compared first, then the ordering is checked. -/
def of (types : List ModeType) (ordering : List Nat) : Checked Format :=
  if hl : types.length = ordering.length then
    if hp : sortsInPlace ordering then
      .ok ⟨types, ordering, hl, perm_of_sortsInPlace hp⟩
    else .error (.invalidFormat (.notPermutation ordering))
  else .error (.invalidFormat (.lengthsDiffer types.length ordering.length))

/-- The same mode type at every level, which stores the dimension of its own number. -/
def uniform (order : Nat) (type : ModeType) : Format where
  types := List.replicate order type
  ordering := List.range order
  length_eq := by simp
  isPermutation := by simp

/-- The same mode type at every level; none if no array can list that many levels. -/
def uniform? (order : Nat) (type : ModeType) : Option Format :=
  if hasRoom order numberWidth then some (uniform order type) else none

def dense (order : Nat) : Format := uniform order .dense

def sparse (order : Nat) : Format := uniform order .compressed

def csr : Format := ⟨[.dense, .compressed], [0, 1], rfl, by decide⟩

def csc : Format := ⟨[.dense, .compressed], [1, 0], rfl, by decide⟩

def dcsr : Format := sparse 2

def order (f : Format) : Nat := f.types.length

def toRecord (f : Format) : FormatRecord := ⟨f.types, f.ordering⟩

def modeType? (f : Format) (level : Nat) : Option ModeType := f.types[level]?

/-- The outermost level whose mode type is not supported, with its mode type. -/
def unsupported? (f : Format) : Option (ModeType × Nat) :=
  f.types.zipIdx.find? fun p => !p.1.isSupported

/-- Refuses a format with a level that packing and walking do not implement, naming the outermost. -/
def ensureSupported (f : Format) : Checked Unit :=
  match f.unsupported? with
  | some (type, level) => .error (.unsupportedModeType type level)
  | none => .ok ()

/-- A coordinate in level order; none if a level's dimension is past its end.  Numbers past the order are ignored. -/
def toLevels? (f : Format) (coordinate : Coordinate) : Option Coordinate :=
  f.ordering.mapM fun dimension => coordinate[dimension]?

/-- A coordinate in dimension order, from one in level order. -/
def fromLevels (f : Format) (levels : Coordinate) : Coordinate :=
  (f.ordering.zip levels).foldl (fun out p => out.set p.1 p.2) (List.replicate f.ordering.length 0)

/-- Each dimension's extent at the level that stores it; none if a level's dimension is past the end. -/
def extents? (f : Format) (dimensions : List Nat) : Option (List Nat) := f.toLevels? dimensions

/-- The format as messages and texts show it: the mode types, then the ordering. -/
def text (f : Format) : String :=
  "(" ++ ",".intercalate (f.types.map (·.name)) ++ "; " ++ Coordinate.text f.ordering ++ ")"

theorem ordering_length (f : Format) : f.ordering.length = f.order := f.length_eq.symm

theorem mem_ordering_iff (f : Format) (m : Nat) : m ∈ f.ordering ↔ m < f.order := by
  rw [f.isPermutation.mem_iff, List.mem_range, f.ordering_length]

theorem nodup_ordering (f : Format) : f.ordering.Nodup :=
  f.isPermutation.nodup_iff.2 List.nodup_range

end Format

end TensorStorage
