import TensorStorage.Proofs.Pack.Verdict
import TensorStorage.Proofs.Tensor.Commands
import TensorStorage.Proofs.Tensor.Refinement
/-!
# Soundness — every tensor of a workspace holds storage that fits

A sound tensor has a checked shape, records waiting that it takes, and storage of its kind that fits its dimensions
(`Tensor.Sound`).  Commands make sound tensors and keep them sound (`Workspace.Sound.obey`).  So its iterators answer
coordinates within the dimensions, and packing it fails only for the records that wait (`Workspace.sound_obeyAll`).
-/
namespace TensorStorage

/-! ## Storages -/

/-- **A storage that suits a packer**: of its kind, nesting under its format, and within its dimensions. -/
def Storage.Suits (s : Storage) (p : Packer) : Prop := s.dtype = p.dtype ∧ s.checkFits p.format p.dimensions = .ok ()

namespace Storage.Suits

variable {s s' : Storage} {p : Packer}

theorem of_sameShape (h : s.Suits p) (hindex : s'.index = s.index) (hdtype : s'.dtype = s.dtype)
    (hsize : s'.values.size = s.values.size) : s'.Suits p := by
  refine ⟨hdtype.trans h.1, ?_⟩
  unfold checkFits
  rw [checkedLevels_of_sameShape hindex hsize]
  exact h.2

theorem zero (h : s.Suits p) : s.zero.Suits p := h.of_sameShape rfl rfl (ValueArray.size_fillZero s.values)

/-- **The entries of a storage that suits a packer are admitted.** -/
theorem entries (h : s.Suits p) (horder : p.format.order = p.dimensions.length) :
    ∃ levels, s.checkedLevels p.format = .ok levels ∧ s.entries p.format = .ok (s.nestedEntries p.format levels) ∧
      ∀ e ∈ s.nestedEntries p.format levels, p.Admits e := by
  obtain ⟨levels, hlevels, hentries, hall⟩ := entries_of_checkFits horder h.2
  refine ⟨levels, hlevels, hentries, fun e he => ?_⟩
  obtain ⟨hlen, hin, hdtype⟩ := hall e he
  exact ⟨hlen, hdtype.trans h.1, hin⟩

end Storage.Suits

/-- **A packed storage suits its packer.** -/
theorem Packer.suits_of_merge {p : Packer} {stored records : List Entry} {s : Storage}
    (h : p.merge stored records = .ok s)
    (hcount : ((stored ++ records).map (·.coordinate)).eraseDups.length ≤ maxIndex) : s.Suits p := by
  refine ⟨?_, checkFits_of_merge h hcount⟩
  obtain ⟨hc, out, hresolve, hlay⟩ := merge_eq_ok h
  obtain ⟨modes, -, rfl⟩ := lay_eq_ok hc (resolve_eq_ok (check_eq_ok hc).1 hresolve).laysOut hlay
  rfl

/-! ## Tensors -/

namespace Tensor

variable {p : Packer} {pending : List Entry} {t u : Tensor}

theorem checkShape_eq_ok {dimensions : List Nat} {format : Format} (h : checkShape dimensions format = .ok ()) :
    format.order = dimensions.length ∧ ∀ d ∈ dimensions, d ≤ maxIndex := by
  unfold checkShape at h
  rw [guard_eq_ok] at h
  obtain ⟨horder, h⟩ := h
  refine ⟨Decidable.not_not.1 horder, ?_⟩
  split at h
  · cases h
  · rename_i hnone
    simpa [List.find?_eq_none] using hnone

/-- **A sound tensor**: with a checked shape, records waiting that it takes, and storage that suits it. -/
structure Sound (t : Tensor) (p : Packer) (pending : List Entry) : Prop where
  waits : t.Waits p pending
  takes : ∀ e ∈ pending, p.Takes e
  shape : checkShape p.dimensions p.format = .ok ()
  stored : ∀ s, t.storage? = some s → s.Suits p

theorem sound_of_new {name : String} {dtype : DataType} {dimensions : List Nat} {format : Format} {options : Options}
    (h : new name dtype dimensions format options = .ok t) : t.Sound ⟨dimensions, format, dtype, options.policy⟩ [] := by
  obtain ⟨hwaits, hnone⟩ := waits_of_new h
  refine ⟨hwaits, fun e he => absurd he List.not_mem_nil, ?_, fun s hs => ?_⟩
  · unfold new at h
    simp only [bind_eq_ok, Outcome.liftM_checked, Outcome.ofChecked_eq_ok] at h
    obtain ⟨⟨⟩, hshape, -⟩ := h
    exact hshape
  · rw [hnone] at hs
    cases hs

theorem insertAll_cons (t : Tensor) (e : Entry) (es : List Entry) :
    t.insertAll (e :: es) = (do (← t.insert e).insertAll es) := by
  unfold insertAll insert
  rw [List.foldlM_cons]
  cases t.buffer.push e <;> rfl

/-- Records that are added one after the other wait behind the others in their order. -/
theorem Waits.of_insertAll : ∀ {es : List Entry} {t : Tensor} {pending : List Entry}, t.Waits p pending →
    t.insertAll es = .ok u → u.Waits p (pending ++ es) ∧ (∀ e ∈ es, p.Takes e) ∧ u.storage? = t.storage?
  | [], t, pending, h, hu => by
    cases hu
    rw [List.append_nil]
    exact ⟨h, fun e he => absurd he List.not_mem_nil, rfl⟩
  | e :: es, t, pending, h, hu => by
    rw [insertAll_cons, bind_eq_ok] at hu
    obtain ⟨v, hv, hu⟩ := hu
    have hserve : t.serve (.insert e) = (true, v) := serve_of_ok (by
      simp only [perform, hv, Outcome.liftM_checked, Outcome.ofChecked_ok])
    obtain ⟨hgranted, hwaits, hstorage⟩ := h.serve_insert e
    rw [hserve] at hgranted hwaits hstorage
    have he : p.Takes e := of_decide_eq_true hgranted.symm
    rw [if_pos he] at hwaits
    obtain ⟨hwaits', htakes, hstorage'⟩ := hwaits.of_insertAll hu
    rw [List.append_assoc] at hwaits'
    refine ⟨hwaits', fun e' he' => ?_, hstorage'.trans hstorage⟩
    rcases List.mem_cons.1 he' with rfl | he'
    · exact he
    · exact htakes e' he'

/-- A tensor without storage packs its records alone. -/
theorem packsWithin_of_unpacked (h : t.Waits p pending) (hnone : t.storage? = none)
    (hcount : (pending.map (·.coordinate)).eraseDups.length ≤ maxIndex) : t.PacksWithin := by
  intro stored s _ hstored _
  unfold storedEntries at hstored
  rw [hnone] at hstored
  cases hstored
  rw [h.records]
  exact hcount

namespace Sound

theorem order (h : t.Sound p pending) : p.format.order = p.dimensions.length := (checkShape_eq_ok h.shape).1

/-- **Packing a sound tensor leaves it sound.** -/
theorem pack (h : t.Sound p pending) (hwithin : t.PacksWithin) (hpack : t.pack = .ok u) :
    ∃ pending', u.Sound p pending' := by
  rcases pack_eq_ok hpack with ⟨-, rfl⟩ | ⟨hsettled, stored, s, hstored, hmerge, rfl⟩
  · exact ⟨pending, h⟩
  · have hcount := hwithin stored s hsettled hstored hmerge
    rw [h.waits.packer] at hmerge
    refine ⟨[], h.waits.of_pack s, fun e he => absurd he List.not_mem_nil, h.shape, fun s' hs' => ?_⟩
    cases hs'
    exact Packer.suits_of_merge hmerge hcount

/-- **A request leaves a sound tensor sound.** -/
theorem serve (h : t.Sound p pending) (r : Request) (hwithin : r = .pack → t.PacksWithin) :
    ∃ pending', (t.serve r).2.Sound p pending' := by
  cases r with
  | insert e =>
    obtain ⟨-, hwaits, hstorage⟩ := h.waits.serve_insert e
    refine ⟨_, hwaits, fun e' he' => ?_, h.shape, hstorage ▸ h.stored⟩
    by_cases he : p.Takes e
    · rw [if_pos he, List.mem_append, List.mem_singleton] at he'
      rcases he' with he' | rfl
      · exact h.takes e' he'
      · exact he
    · rw [if_neg he] at he'
      exact h.takes e' he'
  | reserve n =>
    obtain ⟨hwaits, hstorage⟩ := h.waits.serve_reserve n
    exact ⟨pending, hwaits, h.takes, h.shape, hstorage ▸ h.stored⟩
  | rename name => exact ⟨pending, (h.waits.serve_rename name).1, h.takes, h.shape, h.stored⟩
  | zero =>
    obtain ⟨hwaits, hstorage⟩ := h.waits.serve_zero
    refine ⟨pending, hwaits, h.takes, h.shape, fun s hs => ?_⟩
    rw [hstorage] at hs
    obtain ⟨old, hold, rfl⟩ := Option.map_eq_some_iff.1 hs
    exact (h.stored old hold).zero
  | pack =>
    by_cases hgranted : (t.serve .pack).1 = true
    · exact h.pack (hwithin rfl) (serve_pack_granted hgranted)
    · rw [serve_pack_refused (Bool.eq_false_iff.2 hgranted)]
      exact ⟨pending, h⟩

/-- **A storage that is installed was checked.** -/
theorem setStorage {s : Storage} (h : t.Sound p pending) (hu : t.setStorage s = .ok u) : u.Sound p pending := by
  obtain ⟨hdimensions, hformat, hdtype⟩ : t.dimensions = p.dimensions ∧ t.format = p.format ∧ t.dtype = p.dtype := by
    rw [← h.waits.packer]
    exact ⟨rfl, rfl, rfl⟩
  simp only [Tensor.setStorage, error_bind, guard_eq_ok, bind_eq_ok] at hu
  obtain ⟨hkind, ⟨⟩, hfits, hu⟩ := hu
  cases hu
  refine ⟨⟨h.waits.packer, h.waits.flat, h.waits.order, h.waits.dtype, h.waits.records⟩, h.takes, h.shape,
    fun s' hs' => ?_⟩
  cases hs'
  rw [hdimensions, hformat] at hfits
  exact ⟨(Decidable.not_not.1 hkind).trans hdtype, hfits⟩

/-- A change in place that keeps the index, and the kind and the number of the values, leaves a sound tensor sound. -/
theorem edit {change : Storage → Outcome (Unit × Storage)} (h : t.Sound p pending)
    (hkeeps : ∀ s s', t.storage? = some s → change s = .ok ((), s') →
      s'.index = s.index ∧ s'.dtype = s.dtype ∧ s'.values.size = s.values.size) : (t.edit change).Sound p pending := by
  cases hs : t.storage? with
  | none =>
    rw [edit_of_none hs]
    exact h
  | some s =>
    rw [edit_of_some hs]
    refine ⟨⟨h.waits.packer, h.waits.flat, h.waits.order, h.waits.dtype, h.waits.records⟩, h.takes, h.shape,
      fun s' hs' => ?_⟩
    cases hs'
    cases hchange : change s with
    | error e => exact h.stored s hs
    | ok changed =>
      obtain ⟨hindex, hdtype, hsize⟩ := hkeeps s changed.2 hs hchange
      exact (h.stored s hs).of_sameShape hindex hdtype hsize

/-! ## What a sound tensor promises -/

/-- **A sound tensor that is packed yields coordinates within its dimensions.** -/
theorem yields (h : t.Sound p pending) (hpacked : t.isPacked = true) :
    ∃ es, t.Yields es ∧ ∀ e ∈ es, p.Admits e := by
  obtain ⟨s, hs⟩ := Option.isSome_iff_exists.1 hpacked
  obtain ⟨levels, hlevels, -, hadmits⟩ := (h.stored s hs).entries h.order
  rw [← h.waits.format] at hlevels hadmits
  exact ⟨_, yields_of_checkedLevels hs hlevels, hadmits⟩

/-- **Packing a sound tensor fails only for the records that wait**, the format or a count. -/
theorem pack_fails (h : t.Sound p pending) {e : Failure} (he : t.pack = .error e) : p.Fails pending e := by
  have hmerge : ∀ stored, (∀ e ∈ stored, p.Admits e) → t.packer.merge stored t.buffer.records = .error e →
      p.Fails pending e := fun stored hstored hmerge => by
    rw [h.waits.packer, h.waits.records] at hmerge
    exact Packer.merge_fails h.order (checkShape_eq_ok h.shape).2 hstored h.takes hmerge
  unfold Tensor.pack at he
  by_cases hsettled : t.isSettled = true
  · rw [if_pos hsettled] at he
    cases he
  · rw [if_neg hsettled] at he
    unfold storedEntries at he
    cases hs : t.storage? with
    | none =>
      rw [hs] at he
      rcases bind_eq_error.1 he with he | ⟨stored, hstored, he⟩
      · cases he
      · cases hstored
        rcases bind_eq_error.1 he with he | ⟨s, -, he⟩
        · exact hmerge [] (fun e he => absurd he List.not_mem_nil) he
        · cases he
    | some s =>
      obtain ⟨levels, -, hentries, hadmits⟩ := (h.stored s hs).entries h.order
      rw [hs] at he
      simp only [h.waits.format, hentries, ok_bind] at he
      rcases bind_eq_error.1 he with he | ⟨s', -, he⟩
      · exact hmerge _ hadmits he
      · cases he

end Sound

/-! ## Tensors that are made -/

/-- **A tensor that one without storage was packed to.** -/
def PackedAtFirst (t : Tensor) : Prop :=
  ∃ filled p pending, Sound filled p pending ∧ filled.storage? = none ∧ filled.PacksWithin ∧ filled.pack = .ok t

theorem PackedAtFirst.sound (h : t.PackedAtFirst) : ∃ p pending, t.Sound p pending := by
  obtain ⟨filled, p, pending, hfilled, -, hwithin, hpack⟩ := h
  exact ⟨p, hfilled.pack hwithin hpack⟩

theorem packedAtFirst_of_scalar {name : String} {v : Value} (h : scalar name v = .ok t) : t.PackedAtFirst := by
  simp only [scalar, bind_eq_ok, Outcome.liftM_checked, Outcome.ofChecked_eq_ok] at h
  obtain ⟨empty, hempty, filled, hfilled, hpack⟩ := h
  have hsound := sound_of_new hempty
  have hinsert : empty.perform (.insert ⟨[], v⟩) = .ok filled := by
    simp only [perform, hfilled, Outcome.liftM_checked, Outcome.ofChecked_ok]
  obtain ⟨hgranted, hwaits, hstorage⟩ := hsound.waits.serve_insert ⟨[], v⟩
  obtain ⟨pending, hsound⟩ := hsound.serve (.insert ⟨[], v⟩) fun he => by cases he
  rw [serve_of_ok hinsert] at hgranted hwaits hstorage hsound
  rw [if_pos (of_decide_eq_true hgranted.symm)] at hwaits
  have hnone : filled.storage? = none := hstorage.trans (waits_of_new hempty).2
  exact ⟨filled, _, pending, hsound, hnone,
    packsWithin_of_unpacked hwaits hnone (Nat.succ_le_of_lt (by decide : 0 < maxIndex)), hpack⟩

theorem sound_of_assemble {kind : MatrixKind} {name : String} {dimensions : List Nat} {pointers inner : IndexArray}
    {values : ValueArray} (h : kind.assemble name dimensions pointers inner values = .ok t) :
    t.Sound ⟨dimensions, kind.format, values.dtype, ({} : Options).policy⟩ [] := by
  simp only [MatrixKind.assemble, error_bind, guard_eq_ok, bind_eq_ok] at h
  obtain ⟨-, index, -, s, -, empty, hempty, hs⟩ := h
  exact (sound_of_new hempty).setStorage hs

/-- A transposition packs at most as many coordinates as the largest index. -/
def TransposesWithin (t : Tensor) (ordering : List Nat) : Prop :=
  ∀ es permuted, t.entries = .ok es → es.mapM (Entry.permuted? ordering) = some permuted →
    (permuted.map (·.coordinate)).eraseDups.length ≤ maxIndex

theorem packedAtFirst_of_transpose {name : String} {ordering : List Nat} {format : Format}
    (h : t.transpose name ordering format = .ok u) (hwithin : t.TransposesWithin ordering) : u.PackedAtFirst := by
  simp only [transpose, error_bind, guard_eq_ok, bind_eq_ok, Outcome.liftM_checked, Outcome.liftM_option,
    Outcome.ofChecked_eq_ok, Outcome.ofOption_eq_ok] at h
  obtain ⟨-, -, -, dimensions, -, empty, hempty, s, -, roomy, hroomy, es, hes, permuted, hpermuted, filled, hfilled,
    hpack⟩ := h
  have hsound := sound_of_new hempty
  have hreserve : empty.perform (.reserve s.index.size) = .ok roomy := by
    simp only [perform, hroomy, Outcome.liftM_option, Outcome.ofOption_some]
  obtain ⟨hwaits, hstorage⟩ := hsound.waits.serve_reserve s.index.size
  rw [serve_of_ok hreserve] at hwaits hstorage
  obtain ⟨hwaits', htakes, hstorage'⟩ := hwaits.of_insertAll hfilled
  have hnone : filled.storage? = none := hstorage'.trans (hstorage.trans (waits_of_new hempty).2)
  have hfilled : filled.Sound _ ([] ++ permuted) := ⟨hwaits', htakes, hsound.shape, fun s hs => by
    rw [hnone] at hs
    cases hs⟩
  exact ⟨filled, _, _, hfilled, hnone, packsWithin_of_unpacked hwaits' hnone (hwithin es permuted hes hpermuted), hpack⟩

end Tensor

/-! ## Workspaces -/

/-- **A command within the range of index entries**: it packs at most as many coordinates as the largest index; and if
it changes a storage in place, it keeps the index, and the kind and the number of the values. -/
def Command.Within (w : Workspace) : Command → Prop
  | .ask h .pack => ∀ t, w.tensor? h = some t → t.PacksWithin
  | .transpose h name ordering format => ∀ t u, w.tensor? h = some t →
      t.transpose name ordering format = .ok u → t.TransposesWithin ordering
  | .transposeAlike h ordering => ∀ t u, w.tensor? h = some t →
      t.transpose (w.drawName 'A').1 ordering t.format = .ok u → t.TransposesWithin ordering
  | .edit h change => ∀ t s s', w.tensor? h = some t → t.storage? = some s → change s = .ok ((), s') →
      s'.index = s.index ∧ s'.dtype = s.dtype ∧ s'.values.size = s.values.size
  | _ => True

namespace Workspace

/-- Commands that are within the range of index entries when they come. -/
def Within (w : Workspace) : List Command → Prop
  | [] => True
  | c :: commands => c.Within w ∧ (w.obey c).Within commands

def Sound (w : Workspace) : Prop := ∀ h t, w.tensor? h = some t → ∃ p pending, t.Sound p pending

variable {w : Workspace}

theorem sound_empty : Sound .empty := fun h t ht => by
  cases (Array.getElem?_empty).symm.trans ht

/-- **A tensor that a command makes is sound.** -/
theorem sound_of_making {c : Command} {t : Tensor} (hwithin : c.Within w) (h : w.making? c = some (.ok t)) :
    ∃ p pending, t.Sound p pending := by
  cases c with
  | new name dtype dimensions format options => exact ⟨_, _, Tensor.sound_of_new (Option.some.inj h)⟩
  | uniform name dtype dimensions type => exact ⟨_, _, Tensor.sound_of_new (Option.some.inj h)⟩
  | scalar v => exact (Tensor.packedAtFirst_of_scalar (Option.some.inj h)).sound
  | matrix kind name dimensions pointers inner values =>
    exact ⟨_, _, Tensor.sound_of_assemble (Option.some.inj h)⟩
  | transpose g name ordering format =>
    obtain ⟨t', ht', h⟩ := bind_eq_ok.1 (Option.some.inj h)
    exact (Tensor.packedAtFirst_of_transpose h (hwithin t' t (Outcome.ofOption_eq_ok.1 ht') h)).sound
  | transposeAlike g ordering =>
    obtain ⟨t', ht', h⟩ := bind_eq_ok.1 (Option.some.inj h)
    exact (Tensor.packedAtFirst_of_transpose h (hwithin t' t (Outcome.ofOption_eq_ok.1 ht') h)).sound
  | ask => cases h
  | setStorage => cases h
  | edit => cases h

/-- **A command keeps a tensor sound.** -/
theorem sound_reach {c : Command} {h : Handle} {t : Tensor} {p : Packer} {pending : List Entry}
    (hwithin : c.Within w) (ht : w.tensor? h = some t) (hsound : t.Sound p pending) :
    ∃ p pending, (c.reach h t).Sound p pending := by
  cases c with
  | ask g r =>
    by_cases he : g = h
    · rw [Command.reach, if_pos he]
      refine ⟨p, hsound.serve r fun hr => ?_⟩
      rw [hr, he] at hwithin
      exact hwithin t ht
    · rw [Command.reach, if_neg he]
      exact ⟨p, pending, hsound⟩
  | setStorage g s =>
    by_cases he : g = h
    · rw [Command.reach, if_pos he]
      cases hset : t.setStorage s with
      | error e => exact ⟨p, pending, hsound⟩
      | ok u => exact ⟨p, pending, hsound.setStorage hset⟩
    · rw [Command.reach, if_neg he]
      exact ⟨p, pending, hsound⟩
  | edit g change =>
    by_cases he : g = h
    · rw [Command.reach, if_pos he]
      rw [he] at hwithin
      exact ⟨p, pending, hsound.edit fun s s' => hwithin t s s' ht⟩
    · rw [Command.reach, if_neg he]
      exact ⟨p, pending, hsound⟩
  | _ => exact ⟨p, pending, hsound⟩

/-- **A command leaves a workspace sound.** -/
theorem Sound.obey (hw : w.Sound) {c : Command} (hwithin : c.Within w) : (w.obey c).Sound := by
  intro h u hu
  rcases tensor?_obey hu with hmade | ⟨t, ht, rfl⟩
  · exact sound_of_making hwithin hmade
  · obtain ⟨p, pending, hsound⟩ := hw h t ht
    exact sound_reach hwithin ht hsound

/-- **A run leaves a workspace sound.** -/
theorem Sound.obeyAll : ∀ {commands : List Command} {w : Workspace}, w.Sound → w.Within commands →
    (w.obeyAll commands).Sound
  | [], _, hw, _ => hw
  | _ :: _, _, hw, hwithin => (hw.obey hwithin.1).obeyAll hwithin.2

/-- **Every tensor holds storage that fits.**  After any run of commands within the range of index entries, the storage
of each tensor, if there is one, is of the tensor's kind and fits its format and dimensions, and all records that wait
are of its order and kind.  So a packed tensor yields coordinates within its dimensions, and packing it fails only for
its format, a record that waits or a count. -/
theorem sound_obeyAll (commands : List Command) (hwithin : Within .empty commands) (h : Handle) (t : Tensor)
    (ht : (obeyAll .empty commands).tensor? h = some t) :
    (∀ s, t.storage? = some s → s.dtype = t.dtype ∧ s.checkFits t.format t.dimensions = .ok ()) ∧
      t.buffer.records.length = t.pending ∧
      (∀ e ∈ t.buffer.records, e.coordinate.length = t.order ∧ e.value.dtype = t.dtype) ∧
      (t.isPacked = true → ∃ es, t.Yields es ∧
        ∀ e ∈ es, e.coordinate.length = t.order ∧ e.coordinate.inBounds t.dimensions = true) ∧
      ∀ e, t.pack = .error e → t.packer.Fails t.buffer.records e := by
  obtain ⟨p, pending, hsound⟩ := Sound.obeyAll sound_empty hwithin h t ht
  obtain rfl := hsound.waits.packer
  obtain rfl := hsound.waits.records
  refine ⟨hsound.stored, CoordinateBuffer.length_records hsound.waits.flat, hsound.takes, fun hpacked => ?_,
    fun e he => hsound.pack_fails he⟩
  obtain ⟨es, hyields, hadmits⟩ := hsound.yields hpacked
  exact ⟨es, hyields, fun e he => ⟨(hadmits e he).length, (hadmits e he).inBounds⟩⟩

/-- A tensor that is packed and transposed, and a matrix over arrays of its own: what is out of bounds waits, and is
what packing fails for. -/
theorem sound_obeyAll_rows :
    let commands : List Command := [.new "t" .int32 [3, 2] .csr ⟨.sum, 0⟩,
      .ask ⟨0⟩ (.insert ⟨[2, 1], ⟨.int32, (7 : Int32)⟩⟩), .ask ⟨0⟩ .pack,
      .ask ⟨0⟩ (.insert ⟨[5, 1], ⟨.int32, (7 : Int32)⟩⟩), .transpose ⟨0⟩ "u" [1, 0] .csc,
      .matrix .rows "m" [2, 2] { data := #[0, 1, 1] } { data := #[1] } (.ofArray .int32 #[4])]
    Within .empty commands ∧ ∃ t, (obeyAll .empty commands).tensor? ⟨0⟩ = some t ∧
      t.pack = .error (.refused (.outOfBounds [5, 1] [3, 2])) ∧
      ∃ s, t.storage? = some s ∧ s.dtype = t.dtype ∧ s.checkFits t.format t.dimensions = .ok () := by
  intro commands
  have hentries : ((obeyAll .empty (commands.take 4)).tensor? ⟨0⟩).map (·.entries) =
      some (.ok [⟨[2, 1], ⟨.int32, (7 : Int32)⟩⟩]) := by
    cbv
  have hwithin : Within .empty commands := by
    refine ⟨trivial, trivial, fun t ht stored s _ hstored _ => ?_, trivial, fun t u ht _ es permuted hes hpermuted => ?_,
      trivial, trivial⟩
    · cases ht
      cases hstored
      decide
    · have ht : (obeyAll .empty (commands.take 4)).tensor? ⟨0⟩ = some t := ht
      rw [ht, Option.map_some, hes] at hentries
      cases hentries
      cases hpermuted
      decide
  have hpack : ((obeyAll .empty commands).tensor? ⟨0⟩).map (fun t => (t.pack, t.isPacked)) =
      some (.error (.refused (.outOfBounds [5, 1] [3, 2])), true) := by
    cbv
  cases ht : (obeyAll .empty commands).tensor? ⟨0⟩ with
  | none =>
    rw [ht] at hpack
    cases hpack
  | some t =>
    rw [ht, Option.map_some, Option.some.injEq, Prod.mk.injEq] at hpack
    obtain ⟨s, hs⟩ := Option.isSome_iff_exists.1 hpack.2
    obtain ⟨hfits, -⟩ := sound_obeyAll commands hwithin ⟨0⟩ t ht
    exact ⟨hwithin, t, rfl, hpack.1, s, hs, hfits s hs⟩

end Workspace

end TensorStorage
