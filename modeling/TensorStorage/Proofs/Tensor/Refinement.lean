import TensorStorage.Proofs.Tensor.Content
import TensorStorage.Proofs.Tensor.Iterator
/-!
# Refinement — a run of requests shows what its content shows

A tensor that holds a content (`Tensor.Holds`) goes on holding it through every request, so that at the end of a run, of
requests through one handle or through many, it shows what the content shows (`Workspace.shows_run`).
-/
namespace TensorStorage

namespace Tensor

variable {p : Packer} {c : Content} {t u : Tensor}

/-- **What a caller sees of a content**: how many records wait, whether the tensor is packed, and what its iterators
answer. -/
structure Shows (t : Tensor) (c : Content) : Prop where
  pending : t.pending = c.pending.length
  isPacked : t.isPacked = c.values?.isSome
  unpacked : c.values? = none → t.iterator = .error (.notPacked t.name)
  entries : ∀ values, c.values? = some values → ∃ es, t.Yields es ∧
    (es.map fun e => t.format.keyOf e.coordinate).Pairwise Coordinate.Before ∧ ∀ x v, values x = some v ↔ ⟨x, v⟩ ∈ es

/-- If the next pack merges, it resolves at most as many coordinates as the largest index. -/
def PacksWithin (t : Tensor) : Prop :=
  ∀ stored s, t.isSettled = false → t.storedEntries = .ok stored → t.packer.merge stored t.buffer.records = .ok s →
    ((stored ++ t.buffer.records).map (·.coordinate)).eraseDups.length ≤ maxIndex

/-- **A tensor with this content.** -/
structure Holds (t : Tensor) (p : Packer) (c : Content) : Prop where
  waits : t.Waits p c.pending
  stored : t.storage? = none ∧ c.values? = none ∨ ∃ s values levels, t.storage? = some s ∧ c.values? = some values ∧
    s.checkedLevels p.format = .ok levels ∧ p.Listing (s.nestedEntries p.format levels) values

namespace Holds

theorem isPacked_eq (h : t.Holds p c) : t.isPacked = c.values?.isSome := by
  unfold isPacked
  rcases h.stored with ⟨hs, hc⟩ | ⟨s, values, levels, hs, hc, -⟩
  · rw [hs, hc]
    rfl
  · rw [hs, hc]
    rfl

/-- **The entries that a pack starts from** list the map. -/
theorem listing (h : t.Holds p c) {stored : List Entry} (hstored : t.storedEntries = .ok stored) :
    p.Listing stored c.value? := by
  unfold storedEntries at hstored
  unfold Content.value?
  rcases h.stored with ⟨hs, hc⟩ | ⟨s, values, levels, hs, hc, hlevels, hlisting⟩
  · rw [hs] at hstored
    rw [hc]
    cases hstored
    exact Packer.listing_nil p
  · rw [hs, h.waits.format] at hstored
    have hentries : s.entries p.format = .ok stored := hstored
    rw [Storage.entries_of_checkedLevels hlevels] at hentries
    cases hentries
    rw [hc]
    exact hlisting

theorem pack (h : t.Holds p c) (hwithin : t.PacksWithin) (hpack : t.pack = .ok u) : u.Holds p (c.packed p) := by
  unfold Content.packed
  rcases pack_eq_ok hpack with ⟨hsettled, rfl⟩ | ⟨hsettled, stored, s, hstored, hmerge, rfl⟩
  · rw [h.waits.isSettled_iff, h.isPacked_eq] at hsettled
    rw [if_pos hsettled]
    exact h
  · have hcount := hwithin stored s hsettled hstored hmerge
    have hlisting := h.listing hstored
    rw [if_neg fun hc => Bool.eq_false_iff.1 hsettled (h.waits.isSettled_iff.2 (h.isPacked_eq ▸ hc))]
    rw [h.waits.packer, h.waits.records] at hmerge
    rw [h.waits.records] at hcount
    obtain ⟨levels, hlevels, hlists⟩ := Packer.lists_of_merge hlisting.nodup hmerge hcount
    exact ⟨h.waits.of_pack s, .inr ⟨s, _, levels, rfl, rfl, hlevels, hlists.listing hlisting⟩⟩

theorem zero (h : t.Holds p c) : t.zero.Holds p c.zeroed := by
  refine ⟨h.waits.serve_zero.1, ?_⟩
  unfold Content.zeroed
  rcases h.stored with ⟨hs, hc⟩ | ⟨s, values, levels, hs, hc, hlevels, hlisting⟩
  · rw [hc]
    exact .inl ⟨congrArg (Option.map Storage.zero) hs, rfl⟩
  · rw [hc]
    refine .inr ⟨s.zero, _, levels, congrArg (Option.map Storage.zero) hs, rfl, ?_, ?_⟩
    · rw [Storage.checkedLevels_zero, hlevels]
    · rw [Storage.nestedEntries_zero]
      exact hlisting.zeroed

/-- **A request changes the tensor as it changes the content.** -/
theorem serve (h : t.Holds p c) (r : Request) (hwithin : r = .pack → t.PacksWithin) :
    (t.serve r).2.Holds p (c.after p (r, (t.serve r).1)) := by
  cases r with
  | insert e =>
    obtain ⟨-, hwaits, hstorage⟩ := h.waits.serve_insert e
    refine ⟨hwaits, ?_⟩
    rw [hstorage]
    exact h.stored
  | reserve n =>
    obtain ⟨hwaits, hstorage⟩ := h.waits.serve_reserve n
    refine ⟨hwaits, ?_⟩
    rw [hstorage]
    exact h.stored
  | rename name => exact ⟨(h.waits.serve_rename name).1, h.stored⟩
  | zero => exact h.zero
  | pack =>
    show (t.serve .pack).2.Holds p (if (t.serve .pack).1 = true then c.packed p else c)
    by_cases hgranted : (t.serve .pack).1 = true
    · rw [if_pos hgranted]
      exact h.pack (hwithin rfl) (serve_pack_granted hgranted)
    · rw [if_neg hgranted, serve_pack_refused (Bool.eq_false_iff.2 hgranted)]
      exact h

/-- **A run changes the tensor as it changes the content.** -/
theorem run : ∀ (requests : List Request) {t : Tensor} {c : Content}, t.Holds p c →
    (∀ before after, requests = before ++ .pack :: after → (t.run before).2.PacksWithin) →
      (t.run requests).2.Holds p (c.afterRun p (t.run requests).1)
  | [], _, _, h, _ => h
  | r :: requests, t, c, h, hwithin => by
    have hstep := h.serve r fun hr => hwithin [] requests (by rw [hr]; rfl)
    refine run requests hstep fun before after heq => ?_
    exact hwithin (r :: before) after (by rw [heq]; rfl)

theorem shows (h : t.Holds p c) : t.Shows c := by
  refine ⟨h.waits.pending_eq, h.isPacked_eq, fun hc => ?_, fun values hc => ?_⟩
  all_goals rcases h.stored with ⟨hs, hc'⟩ | ⟨s, values', levels, hs, hc', hlevels, hlisting⟩
  all_goals rw [hc'] at hc
  · unfold iterator storage
    rw [hs]
    rfl
  · cases hc
  · cases hc
  · cases hc
    rw [h.waits.format]
    have hyields := yields_of_checkedLevels hs (by rwa [h.waits.format])
    rw [h.waits.format] at hyields
    exact ⟨_, hyields, hlisting.inOrder, hlisting.value_iff⟩

end Holds

end Tensor

namespace Workspace

/-- **A run shows what its content shows.**  Whatever is asked through the handle of a new tensor, and of the other
tensors in between, the tensor has as many records waiting as its content, is packed when that has a map, and its
iterators answer the map's coordinates and values in level order, provided that no pack resolves more coordinates than
the largest index. -/
theorem shows_run {name : String} {dtype : DataType} {dimensions : List Nat} {format : Format} {options : Options}
    {t : Tensor} {w : Workspace} {h : Handle} (hnew : Tensor.new name dtype dimensions format options = .ok t)
    (ht : w.tensor? h = some t) (requests : List (Handle × Request))
    (hwithin : ∀ n u, requests[n]? = some (h, .pack) → (w.run (requests.take n)).2.tensor? h = some u → u.PacksWithin) :
    ∃ u, (w.run requests).2.tensor? h = some u ∧
      u.Shows (Content.empty.afterRun ⟨dimensions, format, dtype, options.policy⟩ (through h (w.run requests).1)) := by
  obtain ⟨hwaits, hnone⟩ := Tensor.waits_of_new hnew
  have hholds : t.Holds ⟨dimensions, format, dtype, options.policy⟩ .empty := ⟨hwaits, .inl ⟨hnone, rfl⟩⟩
  obtain ⟨hserved, hu⟩ := run_eq requests ht
  rw [hserved]
  refine ⟨_, hu, (hholds.run _ fun before after heq => ?_).shows⟩
  obtain ⟨before', after', rfl, rfl⟩ := exists_of_through_eq heq
  refine hwithin before'.length _ (by simp) ?_
  rw [List.take_left]
  exact (run_eq before' ht).2

/-- Two tensors, one of which is packed, zeroed and packed again while the other is packed. -/
theorem shows_run_rows :
    let f : Format := ⟨[.compressed, .dense], [0, 1], rfl, by decide⟩
    let t : Tensor := ⟨"t", [3, 2], .int32, f, ⟨.sum, 0⟩, .new 2 .int32, none, 0⟩
    let w : Workspace := ⟨#[t, t], 0, .empty⟩
    let requests : List (Handle × Request) := [(⟨0⟩, .insert ⟨[0, 1], ⟨.int32, (7 : Int32)⟩⟩), (⟨0⟩, .pack),
      (⟨1⟩, .insert ⟨[1, 1], ⟨.int32, (2 : Int32)⟩⟩), (⟨0⟩, .zero), (⟨1⟩, .pack),
      (⟨0⟩, .insert ⟨[2, 0], ⟨.int32, (5 : Int32)⟩⟩), (⟨0⟩, .insert ⟨[2], ⟨.int32, (5 : Int32)⟩⟩), (⟨0⟩, .pack)]
    Tensor.new "t" .int32 [3, 2] f ⟨.sum, 0⟩ = .ok t ∧ ∃ u, (w.run requests).2.tensor? ⟨0⟩ = some u ∧ u.pending = 0 ∧
      ∃ es, u.Yields es ∧ ⟨[0, 1], ⟨.int32, (0 : Int32)⟩⟩ ∈ es ∧ ⟨[2, 0], ⟨.int32, (5 : Int32)⟩⟩ ∈ es ∧
        ∀ v, ⟨[1, 1], v⟩ ∉ es := by
  intro f t w requests
  have hnew : Tensor.new "t" .int32 [3, 2] f ⟨.sum, 0⟩ = .ok t := rfl
  have hw : w.tensor? ⟨0⟩ = some t := rfl
  have hserved : (w.run requests).1 = [
    (⟨0⟩, .insert ⟨[0, 1], ⟨.int32, (7 : Int32)⟩⟩, true), (⟨0⟩, .pack, true),
    (⟨1⟩, .insert ⟨[1, 1], ⟨.int32, (2 : Int32)⟩⟩, true), (⟨0⟩, .zero, true), (⟨1⟩, .pack, true),
    (⟨0⟩, .insert ⟨[2, 0], ⟨.int32, (5 : Int32)⟩⟩, true), (⟨0⟩, .insert ⟨[2], ⟨.int32, (5 : Int32)⟩⟩, false),
    (⟨0⟩, .pack, true)] := by
    cbv
  have hfirst : ∀ u, (w.run (requests.take 1)).2.tensor? ⟨0⟩ = some u → u.PacksWithin := by
    intro u hu stored s _ hstored _
    cases hu
    cases hstored
    decide
  have hentries : ((w.run (requests.take 7)).2.tensor? ⟨0⟩).map (fun u => u.storedEntries) =
      some (.ok [⟨[0, 0], ⟨.int32, (0 : Int32)⟩⟩, ⟨[0, 1], ⟨.int32, (0 : Int32)⟩⟩]) := by
    cbv
  have hrecords : ((w.run (requests.take 7)).2.tensor? ⟨0⟩).map (fun u => u.buffer.records) =
      some [⟨[2, 0], ⟨.int32, (5 : Int32)⟩⟩] := by
    cbv
  have hsecond : ∀ u, (w.run (requests.take 7)).2.tensor? ⟨0⟩ = some u → u.PacksWithin := by
    intro u hu stored s _ hstored _
    rw [hu] at hentries hrecords
    rw [show u.storedEntries = _ from Option.some.inj hentries] at hstored
    cases hstored
    rw [show u.buffer.records = _ from Option.some.inj hrecords]
    decide
  have hplaces : ∀ n < requests.length, requests[n]? = some (⟨0⟩, .pack) → n = 1 ∨ n = 7 := by
    decide
  have hwithin : ∀ n u, requests[n]? = some (⟨0⟩, .pack) → (w.run (requests.take n)).2.tensor? ⟨0⟩ = some u →
      u.PacksWithin := by
    intro n u hn hu
    obtain ⟨hlt, -⟩ := List.getElem?_eq_some_iff.1 hn
    rcases hplaces n hlt hn with rfl | rfl
    · exact hfirst u hu
    · exact hsecond u hu
  obtain ⟨u, hu, hshows⟩ := shows_run hnew hw requests hwithin
  rw [hserved] at hshows
  obtain ⟨es, hyields, -, hes⟩ := hshows.entries _ rfl
  exact ⟨hnew, u, hu, hshows.pending, es, hyields, (hes _ _).1 (by decide), (hes _ _).1 (by decide), fun v hv => by
    cases (hes _ _).2 hv⟩

end Workspace

end TensorStorage
