import TensorStorage.Proofs.Tensor.Batches
import TensorStorage.Proofs.Tensor.Soundness
/-!
# Repetitions — packing where repeated coordinates are refused

Under a policy that refuses repetitions, packing batch after batch makes the storage in which the last value of all
batches wins (`Packer.batchesTo_of_reject`).  So what is stored is admitted at every point of a run, and a pack names a
repetition exactly where the records that wait have one (`reject_repetitions`).
-/
namespace TensorStorage

namespace Packer

variable {p : Packer} {stored records entries : List Entry} {s : Storage}

theorem batchesTo_of_reject (hp : p.policy = .reject) : p.BatchesTo { p with policy := .lastWins } where
  pack h := by
    rw [pack_policy ((grants_of_merge h).distinct hp)]
    exact h
  merge {first second entries s s'} h hentries hmerge := by
    have haccumulates : { p with policy := .lastWins }.Accumulates := .inl rfl
    have hover : DuplicatePolicy.lastWins.overStored = p.policy.overStored := by rw [hp]; rfl
    rw [← merge_of_accumulates haccumulates h hentries, merge_policy ((grants_of_merge hmerge).distinct hp) hover]
    exact hmerge

/-- **A new entry of a coordinate that no other new one has is what is stored there**, whatever was stored before. -/
theorem valuesAt_of_reject (hp : p.policy = .reject) (h : p.merge stored records = .ok s)
    (hentries : s.entries p.format = .ok entries) {r : Entry} (hr : r ∈ records) :
    valuesAt entries r.coordinate = [r.value] := by
  obtain ⟨hc, out, hout, -, rfl⟩ := entries_of_merge h hentries
  have hlen : r.coordinate.length = p.format.order :=
    (hout.admits r (List.mem_append_right _ hr)).length.trans (check_eq_ok hc).1.symm
  have hmem : ⟨p.format.keyOf r.coordinate, r.value⟩ ∈ out := by
    rw [hout.mem_iff, Format.fromLevels_keyOf hlen, valuesAt_of_nodup ((grants_of_merge h).distinct hp) hr, hp]
    refine ⟨Format.length_keyOf .., ?_⟩
    show DuplicatePolicy.lastWins.resolve? (_ ++ [r.value]) = _
    rw [DuplicatePolicy.resolve?_lastWins, List.getLast?_concat]
  have hleaf := hout.laysOut.key_mem_leaves hmem
  have hvalue := hout.laysOut.valueOf_key hmem
  have hat := hout.laysOut.valuesAt_entryAt (Format.length_keyOf p.format r.coordinate)
  rw [Format.fromLevels_keyOf hlen, if_pos hleaf, hvalue] at hat
  exact hat

end Packer

namespace Tensor

variable {p q : Packer} {accepted stored : List Entry} {t : Tensor}

/-- Inserts are granted to records that the tensor takes. -/
theorem BatchedAs.takes (hp : p.BatchesTo q) : ∀ (requests : List Request) {t : Tensor} {accepted : List Entry},
    t.BatchedAs p q accepted → Request.zero ∉ requests → ∀ e ∈ insertsGranted (t.run requests).1, p.Takes e
  | [], _, _, _, _, _, he => by cases he
  | r :: requests, t, accepted, h, hzero, e, he => by
    rw [List.mem_cons, not_or] at hzero
    rw [run_cons, insertsGranted_cons, List.mem_append] at he
    rcases he with he | he
    · obtain ⟨-, pending, -, hwaits, -⟩ := h
      cases r with
      | insert e' =>
        rw [(hwaits.serve_insert e').1] at he
        by_cases htakes : p.Takes e'
        · rw [decide_eq_true htakes] at he
          cases List.mem_singleton.1 he
          exact htakes
        · rw [decide_eq_false htakes] at he
          cases he
      | _ => cases he
    · exact BatchedAs.takes hp requests (h.serve hp (Ne.symm hzero.1)) hzero.2 e he

/-- **What a pack starts from is admitted**, if all that the tensor was given is, and is of few coordinates. -/
theorem BatchedAs.storedEntries {policy : DuplicatePolicy} (h : t.BatchedAs p { p with policy } accepted)
    (horder : p.format.order = p.dimensions.length) (hadmits : ∀ e ∈ accepted, p.Admits e)
    (hcount : (accepted.map (·.coordinate)).eraseDups.length ≤ maxIndex) :
    ∃ stored, t.storedEntries = .ok stored ∧ ∀ e ∈ stored ++ t.buffer.records, p.Admits e := by
  obtain ⟨packed, pending, rfl, hwaits, hstorage⟩ := h
  rw [hwaits.records]
  have hpending : ∀ e ∈ pending, p.Admits e := fun e he => hadmits e (List.mem_append_right _ he)
  unfold Tensor.storedEntries
  rcases hstorage with ⟨hnone, -⟩ | ⟨s, hs, hpack⟩
  · rw [hnone]
    exact ⟨[], rfl, hpending⟩
  · have hfew : (packed.map (·.coordinate)).eraseDups.length ≤ maxIndex := by
      refine Nat.le_trans (length_eraseDups_le fun c hc => List.mem_eraseDups.2 ?_) hcount
      exact (List.sublist_append_left packed pending).map _ |>.subset hc
    obtain ⟨levels, -, hentries, hall⟩ := (Packer.suits_of_merge hpack hfew).entries horder
    rw [hs, hwaits.format]
    refine ⟨_, hentries, fun e he => (List.mem_append.1 he).elim (fun he => ?_) (hpending e)⟩
    exact ⟨(hall e he).length, (hall e he).dtype, (hall e he).inBounds⟩

/-- **A pack names a repetition exactly where the records that wait have one**, and names the first. -/
theorem pack_eq_duplicate_iff {pending : List Entry} (h : t.Waits p pending) (hshape : p.Shaped)
    (hstored : t.storedEntries = .ok stored) (hadmits : ∀ e ∈ stored ++ pending, p.Admits e) {c : Coordinate} :
    t.pack = .error (.refused (.duplicateCoordinate c)) ↔ p.policy = .reject ∧ p.FirstRepeated pending c := by
  rw [← Packer.merge_eq_duplicate_iff hshape hadmits]
  unfold pack
  by_cases hsettled : t.isSettled = true
  · obtain ⟨rfl, -⟩ := h.isSettled_iff.1 hsettled
    rw [if_pos hsettled, Packer.merge_eq_duplicate_iff hshape hadmits]
    refine ⟨by rintro ⟨⟩, ?_⟩
    rintro ⟨-, hc⟩
    exact absurd hc.repeated (by simp)
  · rw [if_neg hsettled, hstored, ok_bind, h.packer, h.records]
    cases p.merge stored pending with
    | ok s => exact ⟨by rintro ⟨⟩, by rintro ⟨⟩⟩
    | error e => simp only [error_bind, Except.error.injEq]

/-- **What a pack after a run is refused for.** -/
theorem pack_run_eq_duplicate_iff (h : t.BatchedAs p { p with policy := .lastWins } []) (hpolicy : p.policy = .reject)
    (hshape : p.Shaped) {requests : List Request} (hzero : Request.zero ∉ requests)
    (hbounds : ∀ e ∈ insertsGranted (t.run requests).1, e.coordinate.inBounds p.dimensions = true)
    (hcount : ((insertsGranted (t.run requests).1).map (·.coordinate)).eraseDups.length ≤ maxIndex) :
    (∀ e ∈ (t.run requests).2.buffer.records, p.Admits e) ∧
      ∀ c, (t.run requests).2.pack = .error (.refused (.duplicateCoordinate c)) ↔
        p.FirstRepeated (t.run requests).2.buffer.records c := by
  have hbatches := Packer.batchesTo_of_reject hpolicy
  have hadmits : ∀ e ∈ insertsGranted (t.run requests).1, p.Admits e := fun e he => by
    obtain ⟨hlength, hdtype⟩ := BatchedAs.takes hbatches requests h hzero e he
    exact ⟨hlength, hdtype, hbounds e he⟩
  have hrun := BatchedAs.run hbatches requests h hzero
  rw [List.nil_append] at hrun
  obtain ⟨stored, hstored, hall⟩ := hrun.storedEntries hshape.order hadmits hcount
  obtain ⟨packed, pending, -, hwaits, -⟩ := hrun
  rw [hwaits.records] at hall ⊢
  refine ⟨fun e he => hall e (List.mem_append_right _ he), fun c => ?_⟩
  rw [pack_eq_duplicate_iff hwaits hshape hstored hall, and_iff_right hpolicy]

end Tensor

/-- **Where repeated coordinates are refused**, packing names the first of the coordinates that are repeated among the new
entries, in level order, and fails for no other repetition: a stored entry is replaced by the new one that it meets.  So
at every point of a run of a new tensor in which nothing is zeroed, and which was given records in bounds of at most as
many different coordinates as the largest index, a pack names a repetition exactly if the records that wait have one. -/
theorem reject_repetitions :
    (∀ (p : Packer) (stored records : List Entry), p.policy = .reject → p.Shaped →
      (stored.map (·.coordinate)).Nodup → (∀ e ∈ stored ++ records, p.Admits e) →
      ((∃ c, p.merge stored records = .error (.refused (.duplicateCoordinate c))) ↔
        ∃ c, 2 ≤ (records.map (·.coordinate)).count c) ∧
      (∀ c, p.merge stored records = .error (.refused (.duplicateCoordinate c)) ↔ p.FirstRepeated records c) ∧
      ((records.map (·.coordinate)).Nodup →
        p.merge stored records = p.pack (Packer.untouched stored records ++ records)) ∧
      (((stored ++ records).map (·.coordinate)).eraseDups.length ≤ maxIndex → ∀ s, p.merge stored records = .ok s →
        ∃ entries, s.entries p.format = .ok entries ∧ ∀ r ∈ records, valuesAt entries r.coordinate = [r.value])) ∧
    ∀ (name : String) (dtype : DataType) (dimensions : List Nat) (format : Format) (options : Options) (t u : Tensor)
      (requests : List Request), Tensor.new name dtype dimensions format options = .ok t →
      options.policy = .reject → .singleton ∉ format.types → Request.zero ∉ requests →
      (∀ e ∈ insertsGranted (t.run requests).1, e.coordinate.inBounds dimensions = true) →
      ((insertsGranted (t.run requests).1).map (·.coordinate)).eraseDups.length ≤ maxIndex →
      (t.run requests).2 = u →
        ((∃ c, u.pack = .error (.refused (.duplicateCoordinate c))) ↔
          ∃ c, 2 ≤ (u.buffer.records.map (·.coordinate)).count c) ∧
        ∀ c, u.pack = .error (.refused (.duplicateCoordinate c)) ↔
          Packer.FirstRepeated ⟨dimensions, format, dtype, options.policy⟩ u.buffer.records c := by
  constructor
  · intro p stored records hpolicy hshape hstored hadmits
    have hnamed : ∀ c, p.merge stored records = .error (.refused (.duplicateCoordinate c)) ↔
        p.FirstRepeated records c := fun c => by
      rw [Packer.merge_eq_duplicate_iff hshape hadmits, and_iff_right hpolicy]
    have hlen : ∀ e ∈ records, e.coordinate.length = p.format.order := fun e he =>
      (hadmits e (List.mem_append_right _ he)).length.trans hshape.order.symm
    refine ⟨?_, hnamed, fun hrecords => ?_, fun hcount s hmerge => ?_⟩
    · simp only [hnamed, Packer.exists_firstRepeated_iff hlen]
    · exact Packer.merge_eq_pack_untouched hpolicy hstored hrecords hadmits
    · obtain ⟨levels, -, hentries, -⟩ := (Packer.suits_of_merge hmerge hcount).entries hshape.order
      exact ⟨_, hentries, fun r hr => Packer.valuesAt_of_reject hpolicy hmerge hentries hr⟩
  · rintro name dtype dimensions format options t u requests hnew hpolicy hsupported hzero hbounds hcount rfl
    have hsound := Tensor.sound_of_new hnew
    obtain ⟨horder, hdimensions⟩ := Tensor.checkShape_eq_ok hsound.shape
    obtain ⟨hwaits, hnone⟩ := Tensor.waits_of_new hnew
    have hbatched : t.BatchedAs ⟨dimensions, format, dtype, options.policy⟩ ⟨dimensions, format, dtype, .lastWins⟩ [] :=
      ⟨[], [], rfl, hwaits, .inl ⟨hnone, rfl⟩⟩
    obtain ⟨hadmits, hnamed⟩ := Tensor.pack_run_eq_duplicate_iff hbatched hpolicy ⟨horder, hsupported, hdimensions⟩ hzero
      hbounds hcount
    refine ⟨?_, hnamed⟩
    simp only [hnamed]
    exact Packer.exists_firstRepeated_iff fun e he => (hadmits e he).length.trans horder.symm

/-- Columns in use, with all rows.  Two coordinates are repeated, and the first of them in level order is not the first
of them row by row.  In the run, the second record is over the padding of the first; then two are at one coordinate. -/
theorem reject_repetitions_columns :
    let f : Format := ⟨[.compressed, .dense], [1, 0], rfl, by decide⟩
    let one : Value := ⟨.int32, (1 : Int32)⟩
    let stored : List Entry := [⟨[0, 1], one⟩]
    let records : List Entry := [⟨[0, 1], one⟩, ⟨[2, 0], one⟩, ⟨[0, 1], one⟩, ⟨[2, 0], one⟩]
    let requests : List Request := [.insert ⟨[1, 0], one⟩, .pack, .insert ⟨[2, 0], one⟩, .pack, .insert ⟨[2, 0], one⟩,
      .insert ⟨[2, 0], one⟩]
    Packer.merge ⟨[3, 2], f, .int32, .reject⟩ stored records =
        .error (.refused (.duplicateCoordinate [2, 0])) ∧
      ∃ t, Tensor.new "t" .int32 [3, 2] f ⟨.reject, 0⟩ = .ok t ∧
        (t.run (requests.take 4)).1.map Prod.snd = [true, true, true, true] ∧
        (t.run requests).2.pack = .error (.refused (.duplicateCoordinate [2, 0])) := by
  intro f one stored records requests
  obtain ⟨hmerge, hrun⟩ := reject_repetitions
  obtain ⟨t, ht⟩ : ∃ t, Tensor.new "t" .int32 [3, 2] f ⟨.reject, 0⟩ = .ok t := ⟨_, rfl⟩
  have hall : ∀ e ∈ stored ++ records, e.coordinate.length = 2 ∧ e.value.dtype = .int32 ∧
      e.coordinate.inBounds [3, 2] = true := by decide
  have hle : ∀ c ∈ records.map (·.coordinate), (f.keyOf [2, 0]).le (f.keyOf c) = true := by decide
  have hserved : (t.run requests).1 = requests.map (·, true) := by cases ht; cbv
  have hwaiting : (t.run requests).2.buffer.records = [⟨[2, 0], one⟩, ⟨[2, 0], one⟩] := by cases ht; cbv
  have hgranted : insertsGranted (t.run requests).1 = [⟨[1, 0], one⟩, ⟨[2, 0], one⟩, ⟨[2, 0], one⟩, ⟨[2, 0], one⟩] := by
    rw [hserved]
    rfl
  refine ⟨?_, t, ht, by cases ht; cbv, ?_⟩
  · have hadmits : ∀ e ∈ stored ++ records, Packer.Admits ⟨[3, 2], f, .int32, .reject⟩ e := fun e he =>
      ⟨(hall e he).1, (hall e he).2.1, (hall e he).2.2⟩
    refine ((hmerge _ stored records rfl ⟨rfl, by decide, by decide⟩ (by decide) hadmits).2.1 _).2 ⟨by decide, ?_⟩
    exact fun c hc => hle c (List.count_pos_iff.1 (Nat.lt_of_lt_of_le Nat.two_pos hc))
  · refine ((hrun _ _ _ _ _ t _ requests ht rfl (by decide) (by decide) ?_ ?_ rfl).2 _).2 ?_
    · rw [hgranted]
      decide
    · rw [hgranted]
      decide
    · rw [hwaiting]
      refine ⟨by decide, fun c hc => hle c ?_⟩
      have hmem : c ∈ [[2, 0], [2, 0]] := List.count_pos_iff.1 (Nat.lt_of_lt_of_le Nat.two_pos hc)
      obtain rfl : c = [2, 0] := by simpa using hmem
      decide

end TensorStorage
