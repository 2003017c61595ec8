import TensorStorage.Proofs.Outcome
import TensorStorage.Workspace
/-!
# Requests — runs of changes, to a tensor alone and behind handles

A run serves requests in turn, and a request that is refused changes nothing.  A tensor in a workspace goes through the
requests that come through its handle, as if the workspace held no other tensor (`Workspace.run_eq`).
-/
namespace TensorStorage

/-- What a caller asks of a tensor. -/
inductive Request where
  | insert (e : Entry)
  | reserve (records : Nat)
  | rename (name : String)
  | zero
  | pack
deriving DecidableEq

namespace Tensor

def perform (t : Tensor) : Request → Outcome Tensor
  | .insert e => t.insert e
  | .reserve records => t.reserve? records
  | .rename name => .ok (t.rename name)
  | .zero => .ok t.zero
  | .pack => t.pack

/-- Whether a request is granted, and the tensor after it. -/
def serve (t : Tensor) (r : Request) : Bool × Tensor :=
  match t.perform r with
  | .ok u => (true, u)
  | .error _ => (false, t)

/-- The requests with whether they were granted, and the tensor after them. -/
def run (t : Tensor) : List Request → List (Request × Bool) × Tensor
  | [] => ([], t)
  | r :: rest =>
    let (granted, u) := t.serve r
    let (served, v) := u.run rest
    ((r, granted) :: served, v)

variable {t u : Tensor} {r : Request}

theorem serve_of_ok (h : t.perform r = .ok u) : t.serve r = (true, u) := by
  unfold serve
  rw [h]

theorem serve_of_error {e : Failure} (h : t.perform r = .error e) : t.serve r = (false, t) := by
  unfold serve
  rw [h]

theorem run_cons (t : Tensor) (r : Request) (rest : List Request) :
    t.run (r :: rest) = ((r, (t.serve r).1) :: ((t.serve r).2.run rest).1, ((t.serve r).2.run rest).2) := rfl

theorem run_append (t : Tensor) : ∀ requests more : List Request, t.run (requests ++ more) =
    ((t.run requests).1 ++ ((t.run requests).2.run more).1, ((t.run requests).2.run more).2)
  | [], _ => rfl
  | r :: requests, more => by
    rw [List.cons_append, run_cons, run_cons, run_append _ requests more]
    rfl

end Tensor

namespace Workspace

/-- Whether a request through a handle is granted, and the workspace after it. -/
def serve (w : Workspace) (h : Handle) (r : Request) : Bool × Workspace :=
  match w.update h (·.perform r) with
  | .ok w' => (true, w')
  | .error _ => (false, w)

def run (w : Workspace) : List (Handle × Request) → List (Handle × Request × Bool) × Workspace
  | [] => ([], w)
  | (h, r) :: rest =>
    let (granted, w₁) := w.serve h r
    let (served, w₂) := w₁.run rest
    ((h, r, granted) :: served, w₂)

/-- What came through one handle. -/
def through {α : Type} (h : Handle) (items : List (Handle × α)) : List α :=
  items.filterMap fun item => if item.1 = h then some item.2 else none

theorem through_cons_self {α : Type} (h : Handle) (a : α) (items : List (Handle × α)) :
    through h ((h, a) :: items) = a :: through h items :=
  List.filterMap_cons_some (if_pos rfl)

theorem through_cons_of_ne {α : Type} {g h : Handle} (hne : g ≠ h) (a : α) (items : List (Handle × α)) :
    through h ((g, a) :: items) = through h items :=
  List.filterMap_cons_none (if_neg hne)

/-- What came through a handle up to some item came before it. -/
theorem exists_of_through_eq {α : Type} {h : Handle} {items : List (Handle × α)} {a : α} {before after : List α}
    (heq : through h items = before ++ a :: after) :
    ∃ before' after', items = before' ++ (h, a) :: after' ∧ through h before' = before := by
  obtain ⟨l, m, rfl, hbefore, hm⟩ := List.filterMap_eq_append_iff.1 heq
  obtain ⟨skipped, ⟨g, b⟩, rest, rfl, hskipped, hb, -⟩ := List.filterMap_eq_cons_iff.1 hm
  obtain ⟨rfl, rfl⟩ : g = h ∧ b = a := by
    by_cases hg : g = h
    · rw [if_pos hg] at hb
      exact ⟨hg, Option.some.inj hb⟩
    · rw [if_neg hg] at hb
      cases hb
  refine ⟨l ++ skipped, rest, (List.append_assoc ..).symm, ?_⟩
  unfold through
  rw [List.filterMap_append, hbefore, List.filterMap_eq_nil_iff.2 hskipped, List.append_nil]

variable {w : Workspace} {g h : Handle} {t : Tensor}

theorem tensors_settle (w : Workspace) (t : Tensor) : (w.settle t).tensors = w.tensors := by
  unfold settle
  cases t.storage? <;> rfl

theorem tensor?_put_self (ht : w.tensor? h = some t) (u : Tensor) : (w.put h u).tensor? h = some u := by
  unfold tensor? at ht
  obtain ⟨hlt, -⟩ := Array.getElem?_eq_some_iff.1 ht
  unfold tensor? put
  rw [tensors_settle]
  exact Array.getElem?_setIfInBounds_self_of_lt hlt

theorem tensor?_put_of_ne (hne : g ≠ h) (u : Tensor) : (w.put g u).tensor? h = w.tensor? h := by
  have hplace : g.place ≠ h.place := fun heq => hne (by cases g; cases h; exact congrArg _ heq)
  unfold tensor? put
  rw [tensors_settle]
  exact Array.getElem?_setIfInBounds_ne hplace

/-- **A request reaches the tensor behind its handle.** -/
theorem serve_self (ht : w.tensor? h = some t) (r : Request) :
    (w.serve h r).1 = (t.serve r).1 ∧ (w.serve h r).2.tensor? h = some (t.serve r).2 := by
  unfold serve update
  simp only [Outcome.liftM_option, ht, Outcome.ofOption_some, ok_bind]
  cases hr : t.perform r with
  | error e =>
    rw [Tensor.serve_of_error hr]
    exact ⟨rfl, ht⟩
  | ok u =>
    rw [Tensor.serve_of_ok hr]
    exact ⟨rfl, tensor?_put_self ht u⟩

/-- **A request leaves the other tensors alone.** -/
theorem tensor?_serve_of_ne (hne : g ≠ h) (r : Request) : (w.serve g r).2.tensor? h = w.tensor? h := by
  unfold serve
  cases hw : w.update g (·.perform r) with
  | error e => rfl
  | ok w' =>
    unfold update at hw
    simp only [bind_eq_ok, Outcome.liftM_option, Outcome.ofOption_eq_ok] at hw
    obtain ⟨t, -, u, -, hw⟩ := hw
    cases hw
    exact tensor?_put_of_ne hne u

/-- **A tensor goes through the requests that come through its handle**, and through nothing else. -/
theorem run_eq : ∀ (requests : List (Handle × Request)) {w : Workspace} {t : Tensor}, w.tensor? h = some t →
    through h (w.run requests).1 = (t.run (through h requests)).1 ∧
      (w.run requests).2.tensor? h = some (t.run (through h requests)).2
  | [], _, _, ht => ⟨rfl, ht⟩
  | (g, r) :: requests, w, t, ht => by
    show through h ((g, r, (w.serve g r).1) :: ((w.serve g r).2.run requests).1) = _ ∧
      ((w.serve g r).2.run requests).2.tensor? h = _
    by_cases hg : g = h
    · rw [hg]
      obtain ⟨hgranted, hu⟩ := serve_self ht r
      obtain ⟨hserved, hv⟩ := run_eq requests hu
      rw [through_cons_self, through_cons_self, Tensor.run_cons, hgranted, hserved]
      exact ⟨rfl, hv⟩
    · rw [through_cons_of_ne hg, through_cons_of_ne hg]
      exact run_eq requests ((tensor?_serve_of_ne hg r).trans ht)

end Workspace

end TensorStorage
