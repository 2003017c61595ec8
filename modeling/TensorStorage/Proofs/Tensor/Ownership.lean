import TensorStorage.Proofs.Tensor.Requests
import TensorStorage.Proofs.Tensor.Transpose
import TensorStorage.Tensor.Dense
/-!
# Ownership — what does not depend on whose the arrays are

`disowned` takes every array of a storage, a tensor or a workspace as the engine's own.  What is read from the arrays
stays the same, and what is done to them comes to the same arrays; so nothing that a tensor answers depends on owners,
and a change of a disowned tensor is the disowned change of the tensor (`Tensor.perform_disowned`).
-/
namespace TensorStorage

variable {α : Type}

/-! ## Arrays and storages -/

def Buffer.disowned (b : Buffer α) : Buffer α := { b with owner := .engine }

def ModeIndex.disowned (m : ModeIndex) : ModeIndex := ⟨m.arrays.map Buffer.disowned⟩

def TensorIndex.disowned (x : TensorIndex) : TensorIndex := { x with modes := x.modes.map ModeIndex.disowned }

def ValueArray.disowned (a : ValueArray) : ValueArray := { a with cells := a.cells.disowned }

/-- The storage with every array taken as the engine's own. -/
def Storage.disowned (s : Storage) : Storage := ⟨s.index.disowned, s.values.disowned⟩

theorem Buffer.disowned_of_isEngine {b : Buffer α} (h : b.owner.isEngine = true) : b.disowned = b := by
  obtain ⟨data, owner⟩ := b
  cases owner with
  | engine => rfl
  | caller loan => cases h

namespace ValueArray

theorem set_disowned (a : ValueArray) (place : Nat) (v : Value) :
    a.disowned.set place v = disowned <$> a.set place v := by
  obtain ⟨d, data, owner⟩ := a
  show set ⟨d, data, .engine⟩ place v = disowned <$> set ⟨d, data, owner⟩ place v
  unfold set
  by_cases h : place < data.size
  · simp only [dif_pos h]
    cases v.as? d <;> rfl
  · simp only [dif_neg h]
    rfl

theorem put_disowned (a : ValueArray) (place : Nat) (v : Value) :
    a.disowned.put place v = disowned <$> a.put place v := by
  obtain ⟨d, data, owner⟩ := a
  show put ⟨d, data, .engine⟩ place v = disowned <$> put ⟨d, data, owner⟩ place v
  unfold put Buffer.set?
  cases v.as? d with
  | none => rfl
  | some x => by_cases h : place < data.size <;> simp only [dif_pos, dif_neg, h, not_false_eq_true] <;> rfl

end ValueArray

namespace ModeIndex

theorem array_disowned (m : ModeIndex) (i : Nat) : m.disowned.array i = Buffer.disowned <$> m.array i := by
  unfold array disowned
  rw [List.getElem?_map, List.length_map]
  cases m.arrays[i]? <;> rfl

theorem level_disowned (m : ModeIndex) (type : ModeType) (number : Nat) :
    m.disowned.level type number = m.level type number := by
  cases type with
  | dense =>
    simp only [level, array_disowned]
    cases m.array 0 <;> rfl
  | compressed =>
    simp only [level, array_disowned]
    cases m.array 0 with
    | error e => rfl
    | ok positions => cases m.array 1 <;> rfl
  | singleton => rfl

end ModeIndex

theorem levelsFrom_disowned : ∀ (number : Nat) (modes : List ModeIndex) (types : List ModeType),
    levelsFrom number ((modes.map ModeIndex.disowned).zip types) = levelsFrom number (modes.zip types)
  | _, [], _ => rfl
  | _, _ :: _, [] => rfl
  | number, m :: modes, type :: types => by
    simp only [List.map_cons, List.zip_cons_cons, levelsFrom, m.level_disowned, levelsFrom_disowned _ modes types]

namespace Storage

theorem modes_disowned (s : Storage) : s.disowned.index.modes = s.index.modes.map ModeIndex.disowned := rfl

@[simp] theorem levels_disowned (s : Storage) (f : Format) : s.disowned.levels f = s.levels f := by
  have horder : s.disowned.index.order = s.index.order := List.length_map ..
  unfold levels
  rw [horder, modes_disowned, levelsFrom_disowned]

@[simp] theorem checkedLevels_disowned (s : Storage) (f : Format) : s.disowned.checkedLevels f = s.checkedLevels f := by
  unfold checkedLevels
  rw [levels_disowned]
  rfl

@[simp] theorem entries_disowned (s : Storage) (f : Format) : s.disowned.entries f = s.entries f := by
  cases hlevels : s.checkedLevels f with
  | error e => simp [entries, Traversal.start, hlevels]
  | ok levels =>
    rw [entries_of_checkedLevels hlevels, entries_of_checkedLevels ((checkedLevels_disowned s f).trans hlevels)]
    rfl

@[simp] theorem innerArray_disowned (s : Storage) (i : Nat) : s.disowned.innerArray i = s.innerArray i := by
  unfold innerArray TensorIndex.mode
  rw [modes_disowned, List.getElem?_map]
  cases s.index.modes[1]? with
  | none => rfl
  | some m =>
    simp only [Option.map_some, ok_bind, ModeIndex.array_disowned]
    cases m.array i <;> rfl

@[simp] theorem valuesAs_disowned (s : Storage) (d : DataType) : s.disowned.valuesAs d = s.valuesAs d := rfl

/-- **A storage of the engine's own arrays** is the same when it is disowned. -/
theorem disowned_of_isOwned {s : Storage} (h : s.isOwned = true) : s.disowned = s := by
  rw [isOwned, Bool.and_eq_true, List.all_eq_true] at h
  obtain ⟨hvalues, hentries⟩ := h
  have hmode : ∀ m ∈ s.index.modes, m.disowned = m := fun m hm => by
    have harrays : m.arrays.map Buffer.disowned = m.arrays :=
      (List.map_congr_left fun a ha => Buffer.disowned_of_isEngine
        (hentries a (List.mem_flatMap.2 ⟨m, hm, ha⟩))).trans (List.map_id _)
    exact congrArg ModeIndex.mk harrays
  have hindex : s.index.disowned = s.index := by
    rw [TensorIndex.disowned, (List.map_congr_left hmode).trans (List.map_id _)]
  have hcells : s.values.disowned = s.values := by
    rw [ValueArray.disowned, Buffer.disowned_of_isEngine hvalues]
  rw [disowned, hindex, hcells]

theorem isOwned_disowned (s : Storage) : s.disowned.isOwned = true := by
  rw [isOwned, Bool.and_eq_true, List.all_eq_true]
  refine ⟨rfl, fun a ha => ?_⟩
  obtain ⟨m, hm, ha⟩ := List.mem_flatMap.1 ha
  obtain ⟨m', -, rfl⟩ := List.mem_map.1 hm
  obtain ⟨a', -, rfl⟩ := List.mem_map.1 ha
  rfl

end Storage

/-! ## Tensors -/

namespace Tensor

variable {t u : Tensor}

/-- The tensor with every array of its storage taken as the engine's own. -/
def disowned (t : Tensor) : Tensor := { t with storage? := t.storage?.map Storage.disowned }

@[simp] theorem storage?_disowned (t : Tensor) : t.disowned.storage? = t.storage?.map Storage.disowned := rfl

theorem storage_disowned (t : Tensor) : t.disowned.storage = Storage.disowned <$> t.storage := by
  unfold storage disowned
  cases t.storage? <;> rfl

@[simp] theorem iterator_disowned (t : Tensor) : t.disowned.iterator = t.iterator := by
  simp only [iterator, storage_disowned]
  cases t.storage with
  | error e => rfl
  | ok s =>
    simp only [Except.map_ok, ok_bind, s.checkedLevels_disowned]
    rfl

@[simp] theorem iteratorAs_disowned (t : Tensor) (d : DataType) : t.disowned.iteratorAs d = t.iteratorAs d := by
  simp only [iteratorAs, iterator_disowned]
  rfl

end Tensor

namespace TensorIterator

theorem levels?_disowned (i : TensorIterator) (t : Tensor) :
    i.levels? t.disowned = (i.levels? t).map fun read => (read.1.disowned, read.2) := by
  unfold levels?
  rw [show t.disowned.generation = t.generation from rfl, show t.disowned.format = t.format from rfl,
    t.storage?_disowned]
  split
  · rfl
  · cases t.storage? with
    | none => rfl
    | some s =>
      simp only [Option.map_some, s.levels_disowned]
      cases (s.levels t.format).toOption <;> rfl

@[simp] theorem next?_disowned (t : Tensor) : next? t.disowned = next? t := by
  funext i
  unfold next?
  rw [levels?_disowned]
  cases i.levels? t <;> rfl

@[simp] theorem nextAs?_disowned (d : DataType) (t : Tensor) : nextAs? d t.disowned = nextAs? d t := by
  funext i
  unfold nextAs?
  rw [next?_disowned]

@[simp] theorem length_disowned (i : TensorIterator) (t : Tensor) : i.length t.disowned = i.length t := by
  unfold length
  rw [t.storage?_disowned]
  cases t.storage? <;> rfl

end TensorIterator

namespace Tensor

variable {t u : Tensor}

@[simp] theorem entries_disowned (t : Tensor) : t.disowned.entries = t.entries := by
  simp [entries]

@[simp] theorem entriesAs_disowned (t : Tensor) (d : DataType) : t.disowned.entriesAs d = t.entriesAs d := by
  simp [entriesAs]

@[simp] theorem isPacked_disowned (t : Tensor) : t.disowned.isPacked = t.isPacked := Option.isSome_map

@[simp] theorem nonzeros_disowned (t : Tensor) : t.disowned.nonzeros = t.nonzeros := by
  simp [nonzeros]

theorem equals_disowned (t u : Tensor) : t.disowned.equals u.disowned = t.equals u := by
  simp only [equals, nonzeros_disowned]
  rfl

theorem toDense_disowned (t : Tensor) (d : DataType) : t.disowned.toDense d = t.toDense d := by
  simp only [toDense, entriesAs_disowned]
  rfl

theorem matrixArrays_disowned (t : Tensor) (kind : MatrixKind) (d : DataType) :
    t.disowned.matrixArrays kind d = t.matrixArrays kind d := by
  simp only [matrixArrays, storage_disowned]
  cases t.storage with
  | error e => rfl
  | ok s =>
    simp only [Except.map_ok, ok_bind, s.innerArray_disowned, s.valuesAs_disowned]
    rfl

theorem storedEntries_disowned (t : Tensor) : t.disowned.storedEntries = t.storedEntries := by
  unfold storedEntries
  rw [t.storage?_disowned]
  cases t.storage? with
  | none => rfl
  | some s => exact s.entries_disowned t.format

/-! ## Changes -/

theorem pack_disowned (t : Tensor) : t.disowned.pack = disowned <$> t.pack := by
  have hsettled : t.disowned.isSettled = t.isSettled := by
    simp only [isSettled, isPacked_disowned]
    rfl
  unfold pack
  rw [hsettled, storedEntries_disowned]
  split
  · rfl
  · cases t.storedEntries with
    | error e => rfl
    | ok stored =>
      simp only [ok_bind]
      rw [show t.disowned.packer = t.packer from rfl, show t.disowned.buffer = t.buffer from rfl]
      cases hs : t.packer.merge stored t.buffer.records with
      | error e => rfl
      | ok s =>
        have hsame := Storage.disowned_of_isOwned (Packer.isOwned_of_merge hs)
        exact congrArg (fun x => Except.ok { t.withStorage x with buffer := t.buffer.clear }) hsame.symm

theorem insert_disowned (t : Tensor) (e : Entry) : t.disowned.insert e = disowned <$> t.insert e := by
  unfold insert
  rw [show t.disowned.buffer = t.buffer from rfl]
  cases t.buffer.push e <;> rfl

theorem reserve?_disowned (t : Tensor) (records : Nat) :
    t.disowned.reserve? records = (t.reserve? records).map disowned := by
  unfold reserve?
  rw [show t.disowned.buffer = t.buffer from rfl]
  cases t.buffer.reserve? records <;> rfl

theorem zero_disowned (t : Tensor) : t.disowned.zero = t.zero.disowned := by
  unfold zero disowned
  cases t.storage? <;> rfl

/-- **A change of a disowned tensor** is the disowned change of the tensor. -/
theorem perform_disowned (t : Tensor) (r : Request) : t.disowned.perform r = disowned <$> t.perform r := by
  cases r with
  | insert e =>
    simp only [perform, insert_disowned]
    cases t.insert e <;> rfl
  | reserve records =>
    simp only [perform, reserve?_disowned]
    cases t.reserve? records <;> rfl
  | rename name => rfl
  | zero => exact congrArg Except.ok t.zero_disowned
  | pack => exact t.pack_disowned

theorem transpose_disowned (t : Tensor) (name : String) (ordering : List Nat) (format : Format) :
    t.disowned.transpose name ordering format = t.transpose name ordering format := by
  simp only [transpose, storage_disowned, entries_disowned]
  cases t.storage <;> rfl

/-- **A transposed tensor has arrays of the engine's own.** -/
theorem isOwned_of_transpose {name : String} {ordering : List Nat} {format : Format}
    (h : t.transpose name ordering format = .ok u) : ∃ s, u.storage? = some s ∧ s.isOwned = true := by
  simp only [transpose, error_bind, guard_eq_ok, bind_eq_ok, Outcome.liftM_checked, Outcome.liftM_option,
    Outcome.ofChecked_eq_ok, Outcome.ofOption_eq_ok] at h
  obtain ⟨-, -, -, dimensions, -, empty, hempty, s, -, roomy, hroomy, es, -, permuted, -, filled, hfilled, hpack⟩ := h
  obtain ⟨-, hnone, -⟩ := waits_of_filled hempty hroomy hfilled
  rcases pack_eq_ok hpack with ⟨hsettled, -⟩ | ⟨-, stored, s, -, hs, rfl⟩
  · rw [isSettled, isPacked, hnone, Bool.and_eq_true] at hsettled
    cases hsettled.2
  · exact ⟨s, rfl, Packer.isOwned_of_merge hs⟩

theorem disowned_of_transpose {name : String} {ordering : List Nat} {format : Format}
    (h : t.transpose name ordering format = .ok u) : u.disowned = u := by
  obtain ⟨s, hs, howned⟩ := isOwned_of_transpose h
  rw [disowned, hs, Option.map_some, Storage.disowned_of_isOwned howned, ← hs]

end Tensor

/-! ## Workspaces -/

namespace Workspace

/-- The workspace with every array taken as the engine's own, and no loans. -/
def disowned (w : Workspace) : Workspace := ⟨w.tensors.map Tensor.disowned, w.drawn, .empty⟩

variable (w : Workspace) (h : Handle)

theorem tensor?_disowned : w.disowned.tensor? h = (w.tensor? h).map Tensor.disowned := Array.getElem?_map

/-- A disowned tensor has nothing to show in the ledger. -/
theorem settle_disowned (t : Tensor) : w.settle t.disowned = w := by
  unfold settle
  rw [t.storage?_disowned]
  cases t.storage? with
  | none => rfl
  | some s =>
    show ({ w with ledger := w.ledger.settle s.disowned } : Workspace) = w
    rw [Ledger.settle_of_isOwned w.ledger s.isOwned_disowned]

theorem disowned_settle (t : Tensor) : (w.settle t).disowned = w.disowned := by
  unfold settle
  cases t.storage? <;> rfl

theorem put_disowned (t : Tensor) : w.disowned.put h t.disowned = (w.put h t).disowned := by
  unfold put
  rw [settle_disowned, disowned_settle]
  simp only [disowned, Array.map_setIfInBounds]

theorem add_disowned (t : Tensor) : w.disowned.add t.disowned = ((w.add t).1, (w.add t).2.disowned) := by
  simp only [add, settle_disowned, disowned_settle]
  simp only [disowned, Array.map_push, Array.size_map]

/-- A tensor that is made from another, with arrays of the engine's own. -/
theorem addMade_disowned {made : Tensor → Outcome Tensor} (hsame : ∀ t, made t.disowned = made t)
    (howned : ∀ t u, made t = .ok u → u.disowned = u) :
    w.disowned.addMade (do made (← w.disowned.tensor? h)) =
      ((w.addMade do made (← w.tensor? h)).1, (w.addMade do made (← w.tensor? h)).2.disowned) := by
  rw [tensor?_disowned]
  cases w.tensor? h with
  | none => rfl
  | some t =>
    simp only [Option.map_some, Outcome.liftM_option, Outcome.ofOption_some, ok_bind, hsame]
    cases hu : made t with
    | error e => rfl
    | ok u =>
      have hadd := w.add_disowned u
      rw [howned t u hu] at hadd
      simp only [addMade, hadd]

theorem update_disowned {change : Tensor → Outcome Tensor}
    (hchange : ∀ t, change t.disowned = Tensor.disowned <$> change t) :
    w.disowned.update h change = disowned <$> w.update h change := by
  unfold update
  rw [tensor?_disowned]
  cases w.tensor? h with
  | none => rfl
  | some t =>
    simp only [Option.map_some, Outcome.liftM_option, Outcome.ofOption_some, ok_bind, hchange]
    cases change t with
    | error e => rfl
    | ok u => exact congrArg Except.ok (w.put_disowned h u)

theorem updateStorage_disowned {change : Storage → Outcome (α × Storage)}
    (hchange : ∀ s, change s.disowned = (fun done => (done.1, done.2.disowned)) <$> change s) :
    w.disowned.updateStorage h change = ((w.updateStorage h change).1, (w.updateStorage h change).2.disowned) := by
  unfold updateStorage
  rw [tensor?_disowned]
  cases w.tensor? h with
  | none => rfl
  | some t =>
    simp only [Option.map_some, Outcome.liftM_option, Outcome.ofOption_some, ok_bind, Outcome.liftM_checked,
      Tensor.openStorage, t.storage_disowned]
    cases t.storage with
    | error e => rfl
    | ok s =>
      simp only [Except.map_ok, ok_bind, pure_eq_ok, Outcome.ofChecked_ok, hchange]
      cases change s with
      | error e => exact congrArg (Prod.mk _) (w.put_disowned h { t with generation := t.generation + 1 })
      | ok done =>
        exact congrArg (Prod.mk _)
          (w.put_disowned h { t with storage? := some done.2, generation := t.generation + 1 })

theorem addTransposed_disowned (name : String) (ordering : List Nat) (format : Format) :
    w.disowned.addTransposed h name ordering format =
      ((w.addTransposed h name ordering format).1, (w.addTransposed h name ordering format).2.disowned) :=
  w.addMade_disowned h (fun t => t.transpose_disowned name ordering format) fun _ _ => Tensor.disowned_of_transpose

theorem addTransposedAlike_disowned (ordering : List Nat) : w.disowned.addTransposedAlike h ordering =
    ((w.addTransposedAlike h ordering).1, (w.addTransposedAlike h ordering).2.disowned) :=
  (w.drawName 'A').2.addMade_disowned h
    (fun t => t.transpose_disowned (w.drawName 'A').1 ordering t.format) fun _ _ => Tensor.disowned_of_transpose

theorem iterator_disowned (d? : Option DataType) : w.disowned.iterator h d? = w.iterator h d? := by
  unfold iterator
  rw [tensor?_disowned]
  cases w.tensor? h with
  | none => rfl
  | some t =>
    simp only [Option.map_some, Outcome.liftM_option, Outcome.ofOption_some, ok_bind, t.iterator_disowned,
      t.iteratorAs_disowned]

theorem next_disowned (i : HeldIterator) : w.disowned.next i = w.next i := by
  unfold next
  rw [tensor?_disowned]
  cases w.tensor? i.handle with
  | none => rfl
  | some t =>
    simp only [Option.map_some, Outcome.liftM_option, Outcome.ofOption_some, ok_bind, TensorIterator.next?_disowned]

theorem nextAs_disowned (d : DataType) (i : HeldIterator) : w.disowned.nextAs d i = w.nextAs d i := by
  unfold nextAs
  rw [tensor?_disowned]
  cases w.tensor? i.handle with
  | none => rfl
  | some t =>
    simp only [Option.map_some, Outcome.liftM_option, Outcome.ofOption_some, ok_bind, TensorIterator.nextAs?_disowned]

theorem remaining_disowned (i : HeldIterator) : w.disowned.remaining i = w.remaining i := by
  unfold remaining
  rw [tensor?_disowned]
  cases w.tensor? i.handle with
  | none => rfl
  | some t => exact i.iterator.length_disowned t

end Workspace

end TensorStorage
