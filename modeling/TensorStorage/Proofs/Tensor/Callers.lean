import TensorStorage.Proofs.Tensor.Ownership
/-!
# Callers — tasks and their answers

A caller has a workspace and iterators over its tensors, and gives one task after the other.  No answer depends on whose
the arrays are: callers whose workspaces differ in owners alone get the same answers (`Caller.carryAll_alike`).
-/
namespace TensorStorage

/-- A write to the values of an open storage. -/
inductive ValueWrite where
  | set (place : Nat) (v : Value)
  | put (place : Nat) (v : Value)
  | fillZero
deriving DecidableEq

def ValueWrite.apply (a : ValueArray) : ValueWrite → Outcome ValueArray
  | set place v => a.set place v
  | put place v => a.put place v
  | fillZero => .ok a.fillZero

/-- The storage with a write to its values. -/
def Storage.overwrite (x : ValueWrite) (s : Storage) : Outcome (Unit × Storage) := do
  let values ← x.apply s.values
  return ((), { s with values })

/-- What a caller may do with a tensor. -/
inductive Task where
  | ask (h : Handle) (r : Request)
  /-- Opens the storage and writes to its values. -/
  | write (h : Handle) (x : ValueWrite)
  | transpose (h : Handle) (name : String) (ordering : List Nat) (format : Format)
  | transposeAlike (h : Handle) (ordering : List Nat)
  /-- Makes an iterator, at kind `d?` if one is given. -/
  | iterate (h : Handle) (d? : Option DataType)
  | clone (place : Nat)
  | next (place : Nat) (d? : Option DataType)
  | remaining (place : Nat)
  | equals (g h : Handle)
  | dense (h : Handle) (d : DataType)
  | arrays (h : Handle) (kind : MatrixKind) (d : DataType)

inductive Answer where
  | done (outcome : Outcome Unit)
  | made (outcome : Outcome Handle)
  | entry (outcome : Outcome (Option Entry))
  | count (entries : Nat)
  | truth (outcome : Outcome Bool)
  | dense (d : DataType) (outcome : Outcome (DenseArray d))
  | arrays (d : DataType) (outcome : Outcome (MatrixArrays d))
  /-- There is no such iterator. -/
  | absent

/-- A workspace and the iterators that a caller has made. -/
structure Caller where
  workspace : Workspace
  iterators : List HeldIterator

/-- The next entry, at kind `d?` if one is given. -/
def Workspace.call (w : Workspace) (d? : Option DataType) (i : HeldIterator) :
    Outcome (Option Entry × HeldIterator) :=
  match d? with
  | none => w.next i
  | some d => w.nextAs d i

namespace Caller

/-- The answer to a task, and the caller after it. -/
def carry (c : Caller) : Task → Answer × Caller
  | .ask h r =>
    match c.workspace.update h (·.perform r) with
    | .ok w => (.done (.ok ()), { c with workspace := w })
    | .error e => (.done (.error e), c)
  | .write h x =>
    let (outcome, w) := c.workspace.updateStorage h (·.overwrite x)
    (.done outcome, { c with workspace := w })
  | .transpose h name ordering format =>
    let (outcome, w) := c.workspace.addTransposed h name ordering format
    (.made outcome, { c with workspace := w })
  | .transposeAlike h ordering =>
    let (outcome, w) := c.workspace.addTransposedAlike h ordering
    (.made outcome, { c with workspace := w })
  | .iterate h d? =>
    match c.workspace.iterator h d? with
    | .ok i => (.done (.ok ()), { c with iterators := c.iterators ++ [i] })
    | .error e => (.done (.error e), c)
  | .clone place =>
    match c.iterators[place]? with
    | some i => (.done (.ok ()), { c with iterators := c.iterators ++ [i] })
    | none => (.absent, c)
  | .next place d? =>
    match c.iterators[place]? with
    | some i =>
      match c.workspace.call d? i with
      | .ok (entry, j) => (.entry (.ok entry), { c with iterators := c.iterators.set place j })
      | .error e => (.entry (.error e), c)
    | none => (.absent, c)
  | .remaining place =>
    match c.iterators[place]? with
    | some i => (.count (c.workspace.remaining i), c)
    | none => (.absent, c)
  | .equals g h => (.truth do return (← c.workspace.tensor? g).equals (← c.workspace.tensor? h), c)
  | .dense h d => (.dense d do (← c.workspace.tensor? h).toDense d, c)
  | .arrays h kind d => (.arrays d do (← c.workspace.tensor? h).matrixArrays kind d, c)

/-- The answers to some tasks, and the caller after them. -/
def carryAll (c : Caller) : List Task → List Answer × Caller
  | [] => ([], c)
  | task :: rest =>
    let (answer, c₁) := c.carry task
    let (answers, c₂) := c₁.carryAll rest
    (answer :: answers, c₂)

theorem carryAll_append (c : Caller) : ∀ tasks more : List Task, c.carryAll (tasks ++ more) =
    ((c.carryAll tasks).1 ++ ((c.carryAll tasks).2.carryAll more).1, ((c.carryAll tasks).2.carryAll more).2)
  | [], _ => rfl
  | task :: tasks, more => by
    simp only [List.cons_append, carryAll, carryAll_append (c.carry task).2 tasks more]

end Caller

/-! ## Answers -/

theorem ValueWrite.apply_disowned (a : ValueArray) (x : ValueWrite) :
    x.apply a.disowned = ValueArray.disowned <$> x.apply a := by
  cases x with
  | set place v =>
    simp only [apply, a.set_disowned]
    cases a.set place v <;> rfl
  | put place v => exact a.put_disowned place v
  | fillZero => rfl

theorem Storage.overwrite_disowned (x : ValueWrite) (s : Storage) :
    s.disowned.overwrite x = (fun done => (done.1, done.2.disowned)) <$> s.overwrite x := by
  unfold overwrite
  rw [show s.disowned.values = s.values.disowned from rfl, x.apply_disowned]
  cases x.apply s.values <;> rfl

theorem Workspace.call_disowned (w : Workspace) (d? : Option DataType) (i : HeldIterator) :
    w.disowned.call d? i = w.call d? i := by
  cases d? with
  | none => exact w.next_disowned i
  | some d => exact w.nextAs_disowned d i

namespace Caller

def disowned (c : Caller) : Caller := { c with workspace := c.workspace.disowned }

/-- **A task is answered alike for disowned arrays**, and leaves them as it leaves the others. -/
theorem carry_disowned (c : Caller) (task : Task) :
    c.disowned.carry task = ((c.carry task).1, (c.carry task).2.disowned) := by
  cases task with
  | ask h r =>
    have hupdate : c.workspace.disowned.update h (·.perform r) =
        Workspace.disowned <$> c.workspace.update h (·.perform r) :=
      c.workspace.update_disowned h fun t => t.perform_disowned r
    simp only [carry, disowned, hupdate]
    cases c.workspace.update h (·.perform r) <;> rfl
  | write h x =>
    simp only [carry, disowned, c.workspace.updateStorage_disowned h (Storage.overwrite_disowned x)]
  | transpose h name ordering format =>
    simp only [carry, disowned, c.workspace.addTransposed_disowned]
  | transposeAlike h ordering =>
    simp only [carry, disowned, c.workspace.addTransposedAlike_disowned]
  | iterate h d? =>
    simp only [carry, disowned, c.workspace.iterator_disowned]
    cases c.workspace.iterator h d? <;> rfl
  | clone place =>
    simp only [carry, disowned]
    cases c.iterators[place]? <;> rfl
  | next place d? =>
    simp only [carry, disowned]
    cases c.iterators[place]? with
    | none => rfl
    | some i =>
      simp only [c.workspace.call_disowned]
      cases c.workspace.call d? i <;> rfl
  | remaining place =>
    simp only [carry, disowned, c.workspace.remaining_disowned]
    cases c.iterators[place]? <;> rfl
  | equals g h =>
    simp only [carry, disowned, c.workspace.tensor?_disowned]
    cases c.workspace.tensor? g with
    | none => rfl
    | some t =>
      cases c.workspace.tensor? h with
      | none => rfl
      | some u =>
        simp only [Option.map_some, Outcome.liftM_option, Outcome.ofOption_some, ok_bind, t.equals_disowned]
  | dense h d =>
    simp only [carry, disowned, c.workspace.tensor?_disowned]
    cases c.workspace.tensor? h with
    | none => rfl
    | some t => simp only [Option.map_some, Outcome.liftM_option, Outcome.ofOption_some, ok_bind, t.toDense_disowned]
  | arrays h kind d =>
    simp only [carry, disowned, c.workspace.tensor?_disowned]
    cases c.workspace.tensor? h with
    | none => rfl
    | some t =>
      simp only [Option.map_some, Outcome.liftM_option, Outcome.ofOption_some, ok_bind, t.matrixArrays_disowned]

theorem carryAll_disowned : ∀ (tasks : List Task) (c : Caller), c.disowned.carryAll tasks =
    ((c.carryAll tasks).1, (c.carryAll tasks).2.disowned)
  | [], _ => rfl
  | task :: tasks, c => by
    simp only [carryAll, carry_disowned, carryAll_disowned tasks]

/-- **Callers whose workspaces differ in owners alone** get the same answers. -/
theorem carryAll_alike {c c' : Caller} (h : c.disowned = c'.disowned) (tasks : List Task) :
    (c.carryAll tasks).1 = (c'.carryAll tasks).1 ∧
      (c.carryAll tasks).2.disowned = (c'.carryAll tasks).2.disowned := by
  have heq := (carryAll_disowned tasks c).symm.trans (h ▸ carryAll_disowned tasks c')
  exact Prod.mk.inj heq

end Caller

end TensorStorage
