import TensorStorage.Proofs.Tensor.Requests
/-!
# Commands — what a caller does to a workspace

A command makes a tensor or goes to one behind a handle, and one that fails leaves every tensor alone, but for the
generation that opening a storage begins.  What a command does to the tensors is said once, for those that it makes and
those that were there (`Workspace.tensor?_obey_of_some`, `Workspace.tensor?_obey`).
-/
namespace TensorStorage

/-- What a caller does to a workspace. -/
inductive Command where
  | new (name : String) (dtype : DataType) (dimensions : List Nat) (format : Format) (options : Options)
  | uniform (name : String) (dtype : DataType) (dimensions : List Nat) (type : ModeType)
  | scalar (v : Value)
  | matrix (kind : MatrixKind) (name : String) (dimensions : List Nat) (pointers inner : IndexArray)
    (values : ValueArray)
  | transpose (h : Handle) (name : String) (ordering : List Nat) (format : Format)
  | transposeAlike (h : Handle) (ordering : List Nat)
  | ask (h : Handle) (r : Request)
  | setStorage (h : Handle) (s : Storage)
  /-- Opens the storage and changes it in place. -/
  | edit (h : Handle) (change : Storage → Outcome (Unit × Storage))

namespace Tensor

/-- The tensor after a change that may be refused. -/
def afterwards (t : Tensor) : Outcome Tensor → Tensor
  | .ok u => u
  | .error _ => t

/-- The tensor after its storage was opened and changed in place. -/
def edit (t : Tensor) (change : Storage → Outcome (Unit × Storage)) : Tensor :=
  match t.openStorage with
  | .error _ => t
  | .ok (s, u) =>
    match change s with
    | .error _ => u
    | .ok (_, s) => u.closeStorage s

theorem serve_snd (t : Tensor) (r : Request) : (t.serve r).2 = t.afterwards (t.perform r) := by
  unfold serve
  cases t.perform r <;> rfl

theorem edit_of_none {t : Tensor} (h : t.storage? = none) (change : Storage → Outcome (Unit × Storage)) :
    t.edit change = t := by
  unfold edit openStorage storage
  rw [h]
  rfl

theorem edit_of_some {t : Tensor} {s : Storage} (h : t.storage? = some s)
    (change : Storage → Outcome (Unit × Storage)) : t.edit change =
      { t with
        storage? := some (match change s with | .ok (_, s') => s' | .error _ => s)
        generation := t.generation + 1 } := by
  unfold edit openStorage storage
  rw [h]
  simp only [ok_bind, pure_eq_ok]
  cases change s with
  | error e => rw [← h]
  | ok r => rfl

end Tensor

/-- The tensor behind a handle after a command. -/
def Command.reach (h : Handle) (t : Tensor) : Command → Tensor
  | .ask g r => if g = h then (t.serve r).2 else t
  | .setStorage g s => if g = h then t.afterwards (t.setStorage s) else t
  | .edit g change => if g = h then t.edit change else t
  | _ => t

namespace Workspace

def obey (w : Workspace) : Command → Workspace
  | .new name dtype dimensions format options => (w.addMade (Tensor.new name dtype dimensions format options)).2
  | .uniform name dtype dimensions type => (w.addMade (Tensor.uniform name dtype dimensions type)).2
  | .scalar v => (w.addScalar v).2
  | .matrix kind name dimensions pointers inner values =>
    (w.addMade (kind.assemble name dimensions pointers inner values)).2
  | .transpose h name ordering format => (w.addTransposed h name ordering format).2
  | .transposeAlike h ordering => (w.addTransposedAlike h ordering).2
  | .ask h r => (w.serve h r).2
  | .setStorage h s =>
    match w.update h (·.setStorage s) with
    | .ok w' => w'
    | .error _ => w
  | .edit h change => (w.updateStorage h change).2

def obeyAll (w : Workspace) (commands : List Command) : Workspace := commands.foldl obey w

/-- The tensor that a command is to make, for commands that make one. -/
def making? (w : Workspace) : Command → Option (Outcome Tensor)
  | .new name dtype dimensions format options => some (Tensor.new name dtype dimensions format options)
  | .uniform name dtype dimensions type => some (Tensor.uniform name dtype dimensions type)
  | .scalar v => some (Tensor.scalar (w.drawName 's').1 v)
  | .matrix kind name dimensions pointers inner values => some (kind.assemble name dimensions pointers inner values)
  | .transpose h name ordering format => some do (← w.tensor? h).transpose name ordering format
  | .transposeAlike h ordering => some do
    let t ← w.tensor? h
    t.transpose (w.drawName 'A').1 ordering t.format
  | .ask .. | .setStorage .. | .edit .. => none

variable {w : Workspace} {g h : Handle} {t u : Tensor}

/-- Tensors with the one that a computation makes behind them, if it makes one. -/
def withMade (tensors : Array Tensor) : Outcome Tensor → Array Tensor
  | .ok t => tensors.push t
  | .error _ => tensors

theorem tensors_addMade (w : Workspace) (made : Outcome Tensor) :
    (w.addMade made).2.tensors = withMade w.tensors made := by
  unfold addMade
  cases made with
  | error e => rfl
  | ok t => exact tensors_settle _ t

/-- **A command that makes a tensor** adds it behind the others, if it is made. -/
theorem tensors_obey_of_making {c : Command} {made : Outcome Tensor} (hmaking : w.making? c = some made) :
    (w.obey c).tensors = withMade w.tensors made := by
  cases c with
  | ask | setStorage | edit => cases hmaking
  | _ =>
    cases hmaking
    exact tensors_addMade ..

theorem reach_of_making {c : Command} {made : Outcome Tensor} (hmaking : w.making? c = some made) (h : Handle)
    (t : Tensor) : c.reach h t = t := by
  cases c with
  | ask | setStorage | edit => cases hmaking
  | _ => rfl

/-! ## Changes through a handle -/

/-- **A workspace after a change through a handle**: the tensor behind it is put back changed, or all is as it was. -/
def Alters (w w' : Workspace) (g : Handle) (f : Tensor → Tensor) : Prop :=
  (∃ u, w.tensor? g = some u ∧ w' = w.put g (f u)) ∨ w' = w ∧ ∀ u, w.tensor? g = some u → f u = u

theorem Alters.tensor? {w w' : Workspace} {f : Tensor → Tensor} (ha : Alters w w' g f) (h : Handle) :
    w'.tensor? h = (w.tensor? h).map fun t => if g = h then f t else t := by
  rcases ha with ⟨u, hu, rfl⟩ | ⟨rfl, hfixed⟩
  · by_cases he : g = h
    · rw [← he, hu, tensor?_put_self hu]
      simp
    · rw [tensor?_put_of_ne he]
      simp [he]
  · by_cases he : g = h
    · rw [← he]
      cases hu : w'.tensor? g with
      | none => rfl
      | some u => simp [hfixed u hu]
    · simp [he]

theorem alters_update (w : Workspace) (g : Handle) (change : Tensor → Outcome Tensor) :
    Alters w (match w.update g change with | .ok w' => w' | .error _ => w) g fun t => t.afterwards (change t) := by
  have hupdate : w.update g change = (do
      let t ← Outcome.ofOption (w.tensor? g)
      return w.put g (← change t)) := rfl
  cases hg : w.tensor? g with
  | none =>
    rw [hupdate, hg]
    exact .inr ⟨rfl, fun u hu => by cases hg.symm.trans hu⟩
  | some u =>
    rw [hupdate, hg, Outcome.ofOption_some, ok_bind]
    cases hchange : change u with
    | error e =>
      have hfixed : u.afterwards (change u) = u := by rw [hchange]; rfl
      exact .inr ⟨rfl, fun v hv => Option.some.inj (hg.symm.trans hv) ▸ hfixed⟩
    | ok v =>
      have hafter : u.afterwards (change u) = v := by rw [hchange]; rfl
      exact .inl ⟨u, hg, congrArg (w.put g) hafter.symm⟩

theorem alters_updateStorage (w : Workspace) (g : Handle) (change : Storage → Outcome (Unit × Storage)) :
    Alters w (w.updateStorage g change).2 g (·.edit change) := by
  unfold updateStorage
  simp only [Outcome.liftM_option, Outcome.liftM_checked]
  cases hg : w.tensor? g with
  | none => exact .inr ⟨rfl, fun u hu => by cases hg.symm.trans hu⟩
  | some u =>
    simp only [Outcome.ofOption_some, ok_bind]
    cases hopen : u.openStorage with
    | error e =>
      have hfixed : u.edit change = u := by unfold Tensor.edit; rw [hopen]
      exact .inr ⟨rfl, fun v hv => Option.some.inj (hg.symm.trans hv) ▸ hfixed⟩
    | ok opened =>
      refine .inl ⟨u, hg, ?_⟩
      have hedit : u.edit change = (match change opened.1 with
          | .error _ => opened.2
          | .ok (_, s) => opened.2.closeStorage s) := by
        unfold Tensor.edit
        rw [hopen]
      refine Eq.trans ?_ (congrArg (w.put g) hedit.symm)
      simp only [Outcome.ofChecked_ok]
      cases change opened.1 <;> rfl

/-- **A command that makes no tensor** changes the one behind its handle, if there is one. -/
theorem tensor?_obey_of_not_making {c : Command} (hmaking : w.making? c = none) (h : Handle) :
    (w.obey c).tensor? h = (w.tensor? h).map fun t => c.reach h t := by
  cases c with
  | ask g r =>
    have hserve : (w.serve g r).2 = match w.update g (·.perform r) with | .ok w' => w' | .error _ => w := by
      unfold serve
      cases w.update g (·.perform r) <;> rfl
    have halters := alters_update w g (·.perform r)
    rw [← hserve] at halters
    simp only [Command.reach, Tensor.serve_snd]
    exact halters.tensor? h
  | setStorage g s => exact (alters_update w g (·.setStorage s)).tensor? h
  | edit g change => exact (alters_updateStorage w g change).tensor? h
  | _ => cases hmaking

/-! ## Every command -/

/-- **A command changes the tensor behind a handle as it changes the tensor alone.** -/
theorem tensor?_obey_of_some (c : Command) (ht : w.tensor? h = some t) :
    (w.obey c).tensor? h = some (c.reach h t) := by
  cases hmaking : w.making? c with
  | none => rw [tensor?_obey_of_not_making hmaking, ht, Option.map_some]
  | some made =>
    rw [reach_of_making hmaking]
    unfold tensor? at ht ⊢
    rw [tensors_obey_of_making hmaking]
    cases made with
    | error e => exact ht
    | ok u =>
      obtain ⟨hlt, rfl⟩ := Array.getElem?_eq_some_iff.1 ht
      exact Array.getElem?_push_lt hlt

/-- **A tensor is there after a command** because it was made, or because it was there before. -/
theorem tensor?_obey {c : Command} (hu : (w.obey c).tensor? h = some u) :
    w.making? c = some (.ok u) ∨ ∃ t, w.tensor? h = some t ∧ u = c.reach h t := by
  cases hmaking : w.making? c with
  | none =>
    rw [tensor?_obey_of_not_making hmaking] at hu
    obtain ⟨t, ht, rfl⟩ := Option.map_eq_some_iff.1 hu
    exact .inr ⟨t, ht, rfl⟩
  | some made =>
    unfold tensor? at hu
    rw [tensors_obey_of_making hmaking] at hu
    cases made with
    | error e => exact .inr ⟨u, hu, (reach_of_making hmaking h u).symm⟩
    | ok v =>
      have hpush : (w.tensors.push v)[h.place]? = some u := hu
      rw [Array.getElem?_push] at hpush
      split at hpush
      · rw [← Option.some.inj hpush]
        exact .inl rfl
      · exact .inr ⟨u, hpush, (reach_of_making hmaking h u).symm⟩

end Workspace

end TensorStorage
