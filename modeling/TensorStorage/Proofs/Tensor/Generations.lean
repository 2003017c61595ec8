import TensorStorage.Proofs.Tensor.Commands
import TensorStorage.Proofs.Tensor.Pack
/-!
# Generations — which commands an iterator outlives

A command that may put other arrays behind a handle (`Command.Disturbs`) begins a new generation there
(`Command.reach_of_disturbs`); any other keeps the generation, the index and the number of values of a packed tensor
(`Command.keeps_reach`).  So a generation never comes back.
-/
namespace TensorStorage

/-- **A command after which the arrays behind a handle may be others**: a pack of waiting records or a storage to
install, if it is granted, or the opening of the storage. -/
def Command.Disturbs (h : Handle) (t : Tensor) : Command → Prop
  | .ask g .pack => g = h ∧ t.pending ≠ 0 ∧ ∃ u, t.pack = .ok u
  | .setStorage g s => g = h ∧ ∃ u, t.setStorage s = .ok u
  | .edit g _ => g = h ∧ t.isPacked = true
  | _ => False

namespace Tensor

variable {t u v : Tensor}

/-- **A tensor that can be walked as before**: of the same format and generation, with the same index and as many
values. -/
structure Keeps (t u : Tensor) : Prop where
  format : u.format = t.format
  generation : u.generation = t.generation
  storage : ∀ s, t.storage? = some s → ∃ s', u.storage? = some s' ∧ s'.index = s.index ∧ s'.values.size = s.values.size

theorem Keeps.refl (t : Tensor) : t.Keeps t := ⟨rfl, rfl, fun s hs => ⟨s, hs, rfl, rfl⟩⟩

theorem Keeps.trans (h : t.Keeps u) (h' : u.Keeps v) : t.Keeps v := by
  refine ⟨h'.format.trans h.format, h'.generation.trans h.generation, fun s hs => ?_⟩
  obtain ⟨s', hs', hindex, hsize⟩ := h.storage s hs
  obtain ⟨s'', hs'', hindex', hsize'⟩ := h'.storage s' hs'
  exact ⟨s'', hs'', hindex'.trans hindex, hsize'.trans hsize⟩

/-- What leaves format, generation and storage alone keeps them. -/
theorem keeps_of_eq (hformat : u.format = t.format) (hgeneration : u.generation = t.generation)
    (hstorage : u.storage? = t.storage?) : t.Keeps u :=
  ⟨hformat, hgeneration, fun s hs => ⟨s, hstorage.trans hs, rfl, rfl⟩⟩

theorem keeps_zero (t : Tensor) : t.Keeps t.zero :=
  ⟨rfl, rfl, fun s hs => ⟨s.zero, congrArg (Option.map Storage.zero) hs, rfl, ValueArray.size_fillZero s.values⟩⟩

theorem isPacked_iff : t.isPacked = true ↔ ∃ s, t.storage? = some s := Option.isSome_iff_exists

theorem isSettled_of_pending (hpacked : t.isPacked = true) : t.isSettled = true ↔ t.pending = 0 := by
  unfold isSettled
  rw [hpacked, Bool.and_true]
  exact beq_iff_eq

/-- **A request that is no pack of waiting records keeps the tensor.** -/
theorem keeps_serve (hpacked : t.isPacked = true) (r : Request)
    (hpack : r = .pack → ¬ (t.pending ≠ 0 ∧ ∃ u, t.pack = .ok u)) : t.Keeps (t.serve r).2 := by
  cases hr : t.perform r with
  | error e =>
    rw [serve_of_error hr]
    exact .refl t
  | ok u =>
    rw [serve_of_ok hr]
    rcases perform_eq_ok hr with ⟨-, hformat, hgeneration, hstorage⟩ | ⟨rfl, rfl⟩ | ⟨⟨rfl, hsettled⟩, -⟩
    · exact keeps_of_eq hformat hgeneration hstorage
    · exact keeps_zero t
    · refine absurd ⟨fun hpending => ?_, u, hr⟩ (hpack rfl)
      exact Bool.eq_false_iff.1 hsettled ((isSettled_of_pending hpacked).2 hpending)

end Tensor

namespace Command

variable {h : Handle} {t : Tensor} {c : Command}

/-- **A command that disturbs nothing keeps a packed tensor.** -/
theorem keeps_reach (hpacked : t.isPacked = true) (hc : ¬ c.Disturbs h t) : t.Keeps (c.reach h t) := by
  cases c with
  | ask g r =>
    by_cases he : g = h
    · rw [reach, if_pos he]
      refine Tensor.keeps_serve hpacked r fun hr hgranted => ?_
      subst hr
      exact hc ⟨he, hgranted⟩
    · rw [reach, if_neg he]
      exact .refl t
  | setStorage g s =>
    by_cases he : g = h
    · rw [reach, if_pos he]
      cases hset : t.setStorage s with
      | error e => exact .refl t
      | ok u => exact absurd ⟨he, u, hset⟩ hc
    · rw [reach, if_neg he]
      exact .refl t
  | edit g change =>
    have he : g ≠ h := fun he => hc ⟨he, hpacked⟩
    rw [reach, if_neg he]
    exact .refl t
  | _ => exact .refl t

/-- **A command that disturbs begins a new generation.** -/
theorem reach_of_disturbs (hpacked : t.isPacked = true) (hc : c.Disturbs h t) :
    (c.reach h t).generation = t.generation + 1 ∧ (c.reach h t).isPacked = true := by
  cases c with
  | ask g r =>
    cases r with
    | pack =>
      obtain ⟨he, hpending, u, hu⟩ := hc
      rw [reach, if_pos he, Tensor.serve_of_ok (r := .pack) hu]
      rcases Tensor.pack_eq_ok hu with ⟨hsettled, -⟩ | ⟨-, stored, s, -, -, rfl⟩
      · exact absurd ((Tensor.isSettled_of_pending hpacked).1 hsettled) hpending
      · exact ⟨rfl, rfl⟩
    | insert e => exact hc.elim
    | reserve n => exact hc.elim
    | rename name => exact hc.elim
    | zero => exact hc.elim
  | setStorage g s =>
    obtain ⟨he, u, hu⟩ := hc
    rw [reach, if_pos he, hu]
    simp only [Tensor.setStorage, error_bind, guard_eq_ok, bind_eq_ok] at hu
    obtain ⟨-, -, -, hu⟩ := hu
    cases hu
    exact ⟨rfl, rfl⟩
  | edit g change =>
    obtain ⟨he, hpacked⟩ := hc
    obtain ⟨s, hs⟩ := Tensor.isPacked_iff.1 hpacked
    rw [reach, if_pos he, Tensor.edit_of_some hs]
    exact ⟨rfl, rfl⟩
  | _ => exact hc.elim

/-- **Generations only grow**, and a packed tensor stays packed. -/
theorem generation_le_reach (hpacked : t.isPacked = true) (c : Command) :
    t.generation ≤ (c.reach h t).generation ∧ (c.reach h t).isPacked = true := by
  by_cases hc : c.Disturbs h t
  · obtain ⟨hgeneration, hpacked'⟩ := reach_of_disturbs hpacked hc
    exact ⟨hgeneration ▸ Nat.le_succ _, hpacked'⟩
  · have hkeeps := keeps_reach hpacked hc
    obtain ⟨s, hs⟩ := Tensor.isPacked_iff.1 hpacked
    obtain ⟨s', hs', -⟩ := hkeeps.storage s hs
    exact ⟨Nat.le_of_eq hkeeps.generation.symm, Tensor.isPacked_iff.2 ⟨s', hs'⟩⟩

end Command

end TensorStorage
