import TensorStorage.Proofs.Pack.Batches
import TensorStorage.Proofs.Tensor.Pack
/-!
# Batches — where the packs stand in a run

As long as nothing is zeroed, the storage of a tensor is the pack of the first inserts that were granted, and the others
wait (`Tensor.BatchedAs`).  So a run that ends with a pack comes to the pack of all of them (`pack_batches`).
-/
namespace TensorStorage

namespace Packer

variable {p : Packer} {first second entries : List Entry} {s : Storage}

/-- **Policies that keep a running total**: the last value wins, or integers are summed. -/
def Accumulates (p : Packer) : Prop := p.policy = .lastWins ∨ p.policy = .sum ∧ p.dtype.isIntegral = true

theorem length_valuesAt_le (h : (first.map (·.coordinate)).Nodup) (c : Coordinate) : (valuesAt first c).length ≤ 1 := by
  rw [head?_valuesAt h]
  cases (valuesAt first c).head? <;> simp

theorem merge_of_totals {total : List Value → Value} (htotal : Running p.dtype total) (hpolicy : p.policy ≠ .reject)
    (htotals : ∀ values, p.policy.Totals p.dtype total values) (h : p.pack first = .ok s)
    (hentries : s.entries p.format = .ok entries) : p.merge entries second = p.pack (first ++ second) :=
  merge_batches htotal (fun _ => htotals _) (fun _ => htotals _) (fun _ => htotals _)
    (fun hreject => absurd hreject hpolicy) hpolicy h hentries

theorem merge_of_accumulates (hp : p.Accumulates) (h : p.pack first = .ok s)
    (hentries : s.entries p.format = .ok entries) : p.merge entries second = p.pack (first ++ second) := by
  rcases hp with hp | ⟨hp, hintegral⟩
  · refine merge_of_totals (running_lastOf p.dtype) (by rw [hp]; decide) (fun values => ?_) h hentries
    rw [hp]
    exact DuplicatePolicy.totals_lastWins p.dtype values
  · refine merge_of_totals (running_sumOf hintegral) (by rw [hp]; decide) (fun values => ?_) h hentries
    rw [hp]
    exact DuplicatePolicy.totals_sum hintegral values

/-- **Packing batch after batch makes what another packer makes of all of them at once**, as long as it succeeds. -/
structure BatchesTo (p q : Packer) : Prop where
  pack : ∀ {first : List Entry} {s : Storage}, p.pack first = .ok s → q.pack first = .ok s
  merge : ∀ {first second entries : List Entry} {s s' : Storage}, q.pack first = .ok s →
    s.entries p.format = .ok entries → p.merge entries second = .ok s' → q.pack (first ++ second) = .ok s'

theorem Accumulates.batchesTo (hp : p.Accumulates) : p.BatchesTo p where
  pack h := h
  merge h hentries hmerge := (merge_of_accumulates hp h hentries).symm.trans hmerge

/-- Where repeated coordinates are refused, the second batch wins over the first. -/
theorem merge_of_reject (hp : p.policy = .reject) (hfirst : (first.map (·.coordinate)).Nodup)
    (hsecond : (second.map (·.coordinate)).Nodup) (h : p.pack first = .ok s)
    (hentries : s.entries p.format = .ok entries) :
    p.merge entries second = { p with policy := .lastWins }.pack (first ++ second) := by
  have htotals : ∀ l : List Entry, (l.map (·.coordinate)).Nodup →
      ∀ c, p.policy.Totals p.dtype (lastOf p.dtype) (valuesAt l c) := fun l hl c => by
    rw [hp]
    exact DuplicatePolicy.totals_reject p.dtype (length_valuesAt_le hl c)
  exact merge_batches (running_lastOf p.dtype) (htotals first hfirst) (htotals second hsecond)
    (fun c => DuplicatePolicy.totals_lastWins p.dtype _) (fun _ => hsecond) (by decide) h hentries

end Packer

def insertsGranted (served : List (Request × Bool)) : List Entry :=
  served.filterMap fun
    | (.insert e, true) => some e
    | _ => none

theorem insertsGranted_cons (r : Request) (granted : Bool) (served : List (Request × Bool)) :
    insertsGranted ((r, granted) :: served) = insertsGranted [(r, granted)] ++ insertsGranted served :=
  List.filterMap_append (l := [(r, granted)])

namespace Tensor

variable {p q : Packer} {accepted : List Entry} {t u : Tensor}

/-- **The first records are packed, the others wait.**  The storage is what `q` makes of the first records. -/
def BatchedAs (t : Tensor) (p q : Packer) (accepted : List Entry) : Prop :=
  ∃ packed pending, accepted = packed ++ pending ∧ t.Waits p pending ∧
    (t.storage? = none ∧ packed = [] ∨ ∃ s, t.storage? = some s ∧ q.pack packed = .ok s)

def Batched (t : Tensor) (p : Packer) (accepted : List Entry) : Prop := t.BatchedAs p p accepted

/-- **After a pack, all records are packed.** -/
theorem BatchedAs.of_pack (hp : p.BatchesTo q) (h : t.BatchedAs p q accepted) (hpack : t.pack = .ok u) :
    u.Waits p [] ∧ ∃ s, u.storage? = some s ∧ q.pack accepted = .ok s := by
  obtain ⟨packed, pending, rfl, hwaits, hstorage⟩ := h
  rcases pack_eq_ok hpack with ⟨hsettled, rfl⟩ | ⟨-, stored, s, hstored, hmerge, rfl⟩
  · obtain ⟨rfl, hpacked⟩ := hwaits.isSettled_iff.1 hsettled
    rcases hstorage with ⟨hnone, -⟩ | hstorage
    · unfold isPacked at hpacked
      rw [hnone] at hpacked
      cases hpacked
    · rw [List.append_nil]
      exact ⟨hwaits, hstorage⟩
  · refine ⟨hwaits.of_pack s, s, rfl, ?_⟩
    rw [hwaits.packer, hwaits.records] at hmerge
    unfold storedEntries at hstored
    rcases hstorage with ⟨hnone, rfl⟩ | ⟨s₀, hsome, hs₀⟩
    · rw [hnone] at hstored
      cases hstored
      exact hp.pack hmerge
    · rw [hsome, hwaits.format] at hstored
      exact hp.merge hs₀ hstored hmerge

theorem BatchedAs.serve (hp : p.BatchesTo q) (h : t.BatchedAs p q accepted) {r : Request} (hr : r ≠ .zero) :
    (t.serve r).2.BatchedAs p q (accepted ++ insertsGranted [(r, (t.serve r).1)]) := by
  cases r with
  | zero => exact absurd rfl hr
  | pack =>
    rw [show insertsGranted [(.pack, (t.serve .pack).1)] = [] from rfl, List.append_nil]
    by_cases hgranted : (t.serve .pack).1 = true
    · obtain ⟨hwaits, hstorage⟩ := h.of_pack hp (serve_pack_granted hgranted)
      exact ⟨accepted, [], (List.append_nil _).symm, hwaits, .inr hstorage⟩
    · rw [serve_pack_refused (Bool.eq_false_iff.2 hgranted)]
      exact h
  | reserve n =>
    obtain ⟨packed, pending, heq, hwaits, hstorage⟩ := h
    obtain ⟨hwaits', hstorage'⟩ := hwaits.serve_reserve n
    refine ⟨packed, pending, (List.append_nil _).trans heq, hwaits', ?_⟩
    rwa [hstorage']
  | rename name =>
    obtain ⟨packed, pending, heq, hwaits, hstorage⟩ := h
    exact ⟨packed, pending, (List.append_nil _).trans heq, (hwaits.serve_rename name).1, hstorage⟩
  | insert e =>
    obtain ⟨packed, pending, rfl, hwaits, hstorage⟩ := h
    obtain ⟨hgranted, hwaits', hstorage'⟩ := hwaits.serve_insert e
    refine ⟨packed, _, ?_, hwaits', by rwa [hstorage']⟩
    rw [hgranted, List.append_assoc]
    congr 1
    by_cases he : p.Takes e
    · rw [if_pos he, decide_eq_true he]
      rfl
    · rw [if_neg he, decide_eq_false he]
      exact List.append_nil _

/-- **What a run leaves packed and waiting.** -/
theorem BatchedAs.run (hp : p.BatchesTo q) : ∀ (requests : List Request) {t : Tensor} {accepted : List Entry},
    t.BatchedAs p q accepted → Request.zero ∉ requests →
      (t.run requests).2.BatchedAs p q (accepted ++ insertsGranted (t.run requests).1)
  | [], _, accepted, h, _ => by
    rw [show insertsGranted _ = [] from rfl, List.append_nil]
    exact h
  | r :: requests, t, accepted, h, hzero => by
    rw [List.mem_cons, not_or] at hzero
    have hstep := h.serve hp (Ne.symm hzero.1)
    have ih := BatchedAs.run hp requests hstep hzero.2
    rw [run_cons, insertsGranted_cons, ← List.append_assoc]
    exact ih

theorem pack_of_run (hp : p.Accumulates) (h : t.Batched p []) {requests : List Request}
    (hzero : Request.zero ∉ requests)
    (hlast : (t.run (requests ++ [Request.pack])).1.getLast? = some (.pack, true)) :
    ∃ s, (t.run (requests ++ [Request.pack])).2.storage? = some s ∧
      p.pack (insertsGranted (t.run (requests ++ [Request.pack])).1) = .ok s := by
  have hrun := BatchedAs.run hp.batchesTo requests h hzero
  rw [List.nil_append] at hrun
  rw [run_append] at hlast ⊢
  rw [run_cons] at hlast
  simp only [run, List.getLast?_append, List.getLast?_singleton, Option.some_or, Option.some.injEq, Prod.mk.injEq,
    true_and] at hlast
  obtain ⟨-, s, hs, hpack⟩ := hrun.of_pack hp.batchesTo (serve_pack_granted hlast)
  refine ⟨s, hs, ?_⟩
  unfold insertsGranted at hpack ⊢
  rw [List.filterMap_append]
  simpa [run_cons, run] using hpack

end Tensor

/-- **Packing in batches.**  Merging more records over the entries of a packed storage has the outcome of packing all
records at once, if the last value wins or integers are summed; where repeated coordinates are refused, and neither
batch repeats one, it has the outcome of packing all records where the last value wins.  So two runs of a new tensor in
which nothing is zeroed, which end with a pack that is granted and in which the same inserts were granted, leave the
same storage, wherever the other packs stand. -/
theorem pack_batches :
    (∀ (p : Packer) (first second entries : List Entry) (s : Storage), p.pack first = .ok s →
      s.entries p.format = .ok entries →
      (p.policy = .lastWins ∨ p.policy = .sum ∧ p.dtype.isIntegral = true →
        p.merge entries second = p.pack (first ++ second)) ∧
      (p.policy = .reject → (first.map (·.coordinate)).Nodup → (second.map (·.coordinate)).Nodup →
        p.merge entries second = { p with policy := .lastWins }.pack (first ++ second))) ∧
    ∀ (name : String) (dtype : DataType) (dimensions : List Nat) (format : Format) (options : Options) (t : Tensor)
      (requests requests' : List Request), Tensor.new name dtype dimensions format options = .ok t →
      options.policy = .lastWins ∨ options.policy = .sum ∧ dtype.isIntegral = true →
      Request.zero ∉ requests → Request.zero ∉ requests' →
      (t.run (requests ++ [Request.pack])).1.getLast? = some (.pack, true) →
      (t.run (requests' ++ [Request.pack])).1.getLast? = some (.pack, true) →
      insertsGranted (t.run (requests ++ [Request.pack])).1 = insertsGranted (t.run (requests' ++ [Request.pack])).1 →
      ∃ s, (t.run (requests ++ [Request.pack])).2.storage? = some s ∧
        (t.run (requests' ++ [Request.pack])).2.storage? = some s := by
  refine ⟨fun p first second entries s h hentries => ⟨fun hp => ?_, fun hp hfirst hsecond => ?_⟩, ?_⟩
  · exact Packer.merge_of_accumulates hp h hentries
  · exact Packer.merge_of_reject hp hfirst hsecond h hentries
  · intro name dtype dimensions format options t requests requests' hnew hp hzero hzero' hlast hlast' hsame
    obtain ⟨hwaits, hnone⟩ := Tensor.waits_of_new hnew
    have hp : Packer.Accumulates ⟨dimensions, format, dtype, options.policy⟩ := hp
    have hbatched : t.Batched ⟨dimensions, format, dtype, options.policy⟩ [] := ⟨[], [], rfl, hwaits, .inl ⟨hnone, rfl⟩⟩
    obtain ⟨s, hs, hpack⟩ := Tensor.pack_of_run hp hbatched hzero hlast
    obtain ⟨s', hs', hpack'⟩ := Tensor.pack_of_run hp hbatched hzero' hlast'
    rw [hsame, hpack'] at hpack
    cases hpack
    exact ⟨s, hs, hs'⟩

/-- Compressed rows over dense columns, in which the padding of the first batch meets the records of the second. -/
theorem pack_batches_rows :
    let f : Format := ⟨[.compressed, .dense], [0, 1], rfl, by decide⟩
    let first : List Entry := [⟨[2, 0], ⟨.int32, (5 : Int32)⟩⟩]
    let second : List Entry := [⟨[2, 1], ⟨.int32, (7 : Int32)⟩⟩, ⟨[2, 0], ⟨.int32, (1 : Int32)⟩⟩]
    let entries : List Entry := [⟨[2, 0], ⟨.int32, (5 : Int32)⟩⟩, ⟨[2, 1], ⟨.int32, (0 : Int32)⟩⟩]
    Packer.merge ⟨[3, 2], f, .int32, .sum⟩ entries second = Packer.pack ⟨[3, 2], f, .int32, .sum⟩ (first ++ second) ∧
      Packer.merge ⟨[3, 2], f, .int32, .reject⟩ entries second =
        Packer.pack ⟨[3, 2], f, .int32, .lastWins⟩ (first ++ second) ∧
      ∃ t s, Tensor.new "t" .int32 [3, 2] f {} = .ok t ∧
        (t.run ((first.map .insert ++ .pack :: second.map .insert) ++ [Request.pack])).2.storage? = some s ∧
        (t.run ((first ++ second).map .insert ++ [Request.pack])).2.storage? = some s := by
  intro f first second entries
  obtain ⟨hmerge, hrun⟩ := pack_batches
  have hsum := hmerge ⟨[3, 2], f, .int32, .sum⟩ first second entries
    ⟨⟨[.compressed { data := #[0, 1] } { data := #[2] }, .dense 2], 2⟩, .ofArray .int32 #[5, 0]⟩ (by cbv) (by cbv)
  have hreject := hmerge ⟨[3, 2], f, .int32, .reject⟩ first second entries
    ⟨⟨[.compressed { data := #[0, 1] } { data := #[2] }, .dense 2], 2⟩, .ofArray .int32 #[5, 0]⟩ (by cbv) (by cbv)
  obtain ⟨t, ht⟩ : ∃ t, Tensor.new "t" .int32 [3, 2] f {} = .ok t := ⟨_, rfl⟩
  obtain ⟨s, hs, hs'⟩ := hrun "t" .int32 [3, 2] f {} t (first.map .insert ++ .pack :: second.map .insert)
    ((first ++ second).map .insert) ht (.inl rfl) (by decide) (by decide) (by cases ht; cbv) (by cases ht; cbv)
    (by cases ht; cbv)
  exact ⟨hsum.1 (.inr ⟨rfl, rfl⟩), hreject.2 rfl (by decide) (by decide), t, s, ht, hs, hs'⟩

end TensorStorage
