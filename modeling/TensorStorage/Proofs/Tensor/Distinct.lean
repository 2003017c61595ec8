import TensorStorage.Proofs.Matrix.Exchange
/-!
# Distinct — which stored entries a pack keeps

Packing takes stored entries of different coordinates for granted, and makes such entries; but the storages that come
from outside are not checked for it (`Workspace.pack_drops_stored`).  Where these list different coordinates too, so
does every tensor, and packing keeps each stored entry that no waiting record is for (`Workspace.pack_keeps_stored`).
-/
namespace TensorStorage

/-! ## Storages -/

namespace Storage

variable {s s' : Storage} {f : Format} {levels : List Level} {es : List Entry}

theorem map_coordinate_nestedEntries (h : s.checkedLevels f = .ok levels) :
    (s.nestedEntries f levels).map (·.coordinate) = (leavesBelow levels 0).map fun leaf => f.fromLevels leaf.1 := by
  obtain ⟨-, hn, hv⟩ := levelsNested_of_checkedLevels h
  rw [nestedEntries_eq_map f hn hv, List.map_map]
  rfl

theorem entries_eq_ok (h : s.entries f = .ok es) :
    ∃ levels, s.checkedLevels f = .ok levels ∧ es = s.nestedEntries f levels := by
  obtain ⟨levels, hlevels⟩ := checkedLevels_of_entries h
  rw [entries_of_checkedLevels hlevels] at h
  exact ⟨levels, hlevels, (Except.ok.inj h).symm⟩

end Storage

/-- **Segments that list no inner number twice.** -/
def DistinctSegments (positions coordinates : Array Int32) : Prop :=
  ∀ i, i + 1 < positions.size → (((Level.compressed positions coordinates).children i).map Prod.snd).Nodup

namespace Tensor

variable {p : Packer} {pending stored : List Entry} {t u : Tensor} {s s' : Storage}

/-- **A tensor whose stored entries have different coordinates.** -/
def StoresDistinct (t : Tensor) : Prop := ∀ es, t.storedEntries = .ok es → (es.map (·.coordinate)).Nodup

theorem storedEntries_of_some (hs : t.storage? = some s) : t.storedEntries = s.entries t.format := by
  rw [storedEntries, hs]

namespace StoresDistinct

theorem of_unpacked (hnone : t.storage? = none) : t.StoresDistinct := by
  intro es hes
  rw [storedEntries, hnone] at hes
  cases hes
  exact .nil

theorem congr (h : t.StoresDistinct) (hstorage : u.storage? = t.storage?) (hformat : u.format = t.format) :
    u.StoresDistinct := by
  intro es hes
  rw [storedEntries, hstorage, hformat] at hes
  exact h es hes

/-- What the values are does not matter. -/
theorem of_sameShape (h : t.StoresDistinct) (hs : t.storage? = some s) (hu : u.storage? = some s')
    (hformat : u.format = t.format) (hindex : s'.index = s.index) (hsize : s'.values.size = s.values.size) :
    u.StoresDistinct := by
  intro es hes
  rw [storedEntries_of_some hu, hformat] at hes
  obtain ⟨levels, hlevels, rfl⟩ := Storage.entries_eq_ok hes
  have hlevels' := (Storage.checkedLevels_of_sameShape hindex hsize t.format).symm.trans hlevels
  rw [Storage.map_coordinate_nestedEntries hlevels, ← Storage.map_coordinate_nestedEntries hlevels']
  exact h _ ((storedEntries_of_some hs).trans (Storage.entries_of_checkedLevels hlevels'))

theorem edit {change : Storage → Outcome (Unit × Storage)} (h : t.StoresDistinct)
    (hkeeps : ∀ s s', t.storage? = some s → change s = .ok ((), s') →
      s'.index = s.index ∧ s'.dtype = s.dtype ∧ s'.values.size = s.values.size) : (t.edit change).StoresDistinct := by
  cases hs : t.storage? with
  | none =>
    rw [edit_of_none hs]
    exact h
  | some s =>
    rw [edit_of_some hs]
    cases hchange : change s with
    | error e => exact h.of_sameShape hs rfl rfl rfl rfl
    | ok changed =>
      obtain ⟨hindex, -, hsize⟩ := hkeeps s changed.2 hs hchange
      exact h.of_sameShape hs rfl rfl hindex hsize

end StoresDistinct

theorem Sound.storedEntries_isOk (h : t.Sound p pending) : ∃ stored, t.storedEntries = .ok stored := by
  cases hs : t.storage? with
  | none =>
    rw [storedEntries, hs]
    exact ⟨[], rfl⟩
  | some s =>
    obtain ⟨_, -, hentries, -⟩ := (h.stored s hs).entries h.order
    rw [storedEntries_of_some hs, h.waits.format]
    exact ⟨_, hentries⟩

/-- **A pack keeps the stored entries that no waiting record is for**, if it finds them at different coordinates; and it
leaves entries at different coordinates. -/
theorem Sound.pack_keeps (h : t.Sound p pending) (hstored : t.storedEntries = .ok stored)
    (hnodup : (stored.map (·.coordinate)).Nodup) (hwithin : t.PacksWithin) (hpack : t.pack = .ok u) :
    ∃ es, u.storedEntries = .ok es ∧ (es.map (·.coordinate)).Nodup ∧
      ∀ e ∈ stored, (∀ r ∈ t.buffer.records, r.coordinate ≠ e.coordinate) → e ∈ es := by
  rcases pack_eq_ok hpack with ⟨-, rfl⟩ | ⟨hsettled, stored', s, hstored', hmerge, rfl⟩
  · exact ⟨stored, hstored, hnodup, fun e he _ => he⟩
  · rw [hstored] at hstored'
    cases hstored'
    have hcount := hwithin stored s hsettled hstored hmerge
    rw [h.waits.packer] at hmerge
    obtain ⟨levels, hlevels, hlists⟩ := Packer.lists_of_merge hnodup hmerge hcount
    have hentries : Storage.entries s t.format = .ok (s.nestedEntries p.format levels) := by
      rw [h.waits.format]
      exact Storage.entries_of_checkedLevels hlevels
    refine ⟨_, hentries, hlists.nodup, fun e he hnew => ?_⟩
    -- the entry is admitted, so its coordinate is listed, and with the value that was stored
    have hadmits : p.Admits e := by
      cases hs : t.storage? with
      | none =>
        rw [storedEntries, hs] at hstored
        cases hstored
        cases he
      | some old =>
        obtain ⟨_, -, holdEntries, hall⟩ := (h.stored old hs).entries h.order
        rw [storedEntries_of_some hs, h.waits.format, holdEntries] at hstored
        cases hstored
        exact hall e he
    have hmem : e.coordinate ∈ (s.nestedEntries p.format levels).map (·.coordinate) :=
      (hlists.mem_iff e.coordinate).2
        ⟨hadmits.length, hadmits.inBounds, .inr ⟨e, List.mem_append_left _ he, rfl⟩⟩
    obtain ⟨g, hg, hcoordinate⟩ := List.mem_map.1 hmem
    have hvalue := hlists.value g hg
    rw [hcoordinate, valuesAt_of_nodup hnodup he, valuesAt_eq_nil_iff.2 hnew] at hvalue
    obtain rfl : g = e := congrArg₂ Entry.mk hcoordinate (Option.some.inj hvalue).symm
    exact hg

/-- **A request leaves entries at different coordinates.** -/
theorem StoresDistinct.serve (hd : t.StoresDistinct) (h : t.Sound p pending) (r : Request)
    (hwithin : r = .pack → t.PacksWithin) : (t.serve r).2.StoresDistinct := by
  have hformat : ∀ {v : Tensor} {pending' : List Entry}, v.Waits p pending' → v.format = t.format := fun hwaits =>
    hwaits.format.trans h.waits.format.symm
  cases r with
  | insert e =>
    obtain ⟨-, hwaits, hstorage⟩ := h.waits.serve_insert e
    exact hd.congr hstorage (hformat hwaits)
  | reserve n =>
    obtain ⟨hwaits, hstorage⟩ := h.waits.serve_reserve n
    exact hd.congr hstorage (hformat hwaits)
  | rename name => exact hd.congr rfl rfl
  | zero =>
    cases hs : t.storage? with
    | none => exact .of_unpacked (congrArg (Option.map Storage.zero) hs)
    | some s =>
      exact hd.of_sameShape hs (congrArg (Option.map Storage.zero) hs) rfl rfl (ValueArray.size_fillZero s.values)
  | pack =>
    by_cases hgranted : (t.serve .pack).1 = true
    · have hpack := serve_pack_granted hgranted
      obtain ⟨stored, hstored⟩ := h.storedEntries_isOk
      obtain ⟨es, hes, hnodup, -⟩ := h.pack_keeps hstored (hd stored hstored) (hwithin rfl) hpack
      intro es' hes'
      rw [hes] at hes'
      cases hes'
      exact hnodup
    · rw [serve_pack_refused (Bool.eq_false_iff.2 hgranted)]
      exact hd

/-- **A tensor that was packed at first stores different coordinates.** -/
theorem PackedAtFirst.storesDistinct (h : t.PackedAtFirst) : t.StoresDistinct := by
  obtain ⟨filled, p, pending, hfilled, hnone, hwithin, hpack⟩ := h
  have hserve : filled.serve .pack = (true, t) := serve_of_ok hpack
  have hd := (StoresDistinct.of_unpacked hnone).serve hfilled .pack fun _ => hwithin
  rwa [hserve] at hd

end Tensor

/-! ## Matrices -/

theorem MatrixKind.cell_inj {kind : MatrixKind} {i i' c c' : Nat} :
    kind.cell i c = kind.cell i' c' ↔ i = i' ∧ c = c' := by
  cases kind with
  | rows => simp [cell]
  | columns => simp [cell, and_comm]

/-- **A matrix stores different coordinates** exactly if no segment lists an inner number twice. -/
theorem MatrixKind.storesDistinct_tensorOver {kind : MatrixKind} {name : String} {rows columns : Nat}
    {pointers inner : IndexArray} {values : ValueArray}
    (h : kind.Describes [rows, columns] pointers.data inner.data values.size) :
    (kind.tensorOver name [rows, columns] pointers inner values).StoresDistinct ↔
      DistinctSegments pointers.data inner.data := by
  have hlevels := checkedLevels_of_describes h
  have hentries : (kind.tensorOver name [rows, columns] pointers inner values).storedEntries = .ok _ :=
    Storage.entries_of_checkedLevels hlevels
  have hsize : pointers.data.size = kind.outer rows columns + 1 := by
    obtain ⟨_, _, hdimensions, -, -, hlists⟩ := h
    cases hdimensions
    exact hlists.size
  have hall : (kind.tensorOver name [rows, columns] pointers inner values).StoresDistinct ↔
      (((storageOver pointers inner values).nestedEntries kind.format
        [.dense (kind.outer rows columns), .compressed pointers.data inner.data]).map (·.coordinate)).Nodup :=
    ⟨fun hd => hd _ hentries, fun hnodup es hes => by
      rw [hentries] at hes
      cases hes
      exact hnodup⟩
  have hsegment : ∀ i, ((List.range' (Level.entryAt pointers.data i) (Level.entryAt pointers.data (i + 1) -
      Level.entryAt pointers.data i)).map fun k => ([i, Level.entryAt inner.data k], k)).map
        (fun leaf => kind.format.fromLevels leaf.1) =
      (((Level.compressed pointers.data inner.data).children i).map Prod.snd).map (kind.cell i) := fun i => by
    simp only [Level.children, List.map_map, Function.comp_def, fromLevels_format]
  have hinjective : ∀ i, Function.Injective (kind.cell i) := fun i c c' he => (cell_inj.1 he).2
  rw [hall, Storage.map_coordinate_nestedEntries hlevels, leavesBelow_segments, List.map_flatMap, List.nodup_flatMap]
  simp only [hsegment, List.nodup_map_iff (hinjective _), List.mem_range]
  refine ⟨fun hnodup i hi => hnodup.1 i (by omega), fun hd => ⟨fun i hi => hd i (by omega), ?_⟩⟩
  -- coordinates of different segments differ in the outer number
  refine List.pairwise_lt_range.imp fun {i j} hlt x hi hj => ?_
  obtain ⟨c, -, rfl⟩ := List.mem_map.1 hi
  obtain ⟨c', -, he⟩ := List.mem_map.1 hj
  exact Nat.ne_of_lt hlt (cell_inj.1 he).1.symm

/-! ## Workspaces -/

/-- **A command that installs different coordinates**, if it installs a storage from outside. -/
def Command.InstallsDistinct (w : Workspace) : Command → Prop
  | .matrix kind name dimensions pointers inner values => ∀ t,
      kind.assemble name dimensions pointers inner values = .ok t → DistinctSegments pointers.data inner.data
  | .setStorage h s => ∀ t es, w.tensor? h = some t → s.entries t.format = .ok es → (es.map (·.coordinate)).Nodup
  | _ => True

namespace Workspace

/-- Commands that install different coordinates when they come. -/
def InstallsDistinct (w : Workspace) : List Command → Prop
  | [] => True
  | c :: commands => c.InstallsDistinct w ∧ (w.obey c).InstallsDistinct commands

def StoresDistinct (w : Workspace) : Prop := ∀ h t, w.tensor? h = some t → t.StoresDistinct

variable {w : Workspace}

theorem storesDistinct_empty : StoresDistinct .empty := fun h t ht => by
  cases (Array.getElem?_empty).symm.trans ht

/-- **A tensor that a command makes stores different coordinates.** -/
theorem storesDistinct_of_making {c : Command} {t : Tensor} (hwithin : c.Within w) (hinstalls : c.InstallsDistinct w)
    (h : w.making? c = some (.ok t)) : t.StoresDistinct := by
  cases c with
  | new name dtype dimensions format options => exact .of_unpacked (Tensor.waits_of_new (Option.some.inj h)).2
  | uniform name dtype dimensions type => exact .of_unpacked (Tensor.waits_of_new (Option.some.inj h)).2
  | scalar v => exact (Tensor.packedAtFirst_of_scalar (Option.some.inj h)).storesDistinct
  | matrix kind name dimensions pointers inner values =>
    obtain ⟨hdescribes, rfl⟩ := MatrixKind.assemble_eq_ok_iff.1 (Option.some.inj h)
    obtain ⟨rows, columns, rfl, -⟩ := id hdescribes
    exact (MatrixKind.storesDistinct_tensorOver hdescribes).2 (hinstalls _ (Option.some.inj h))
  | transpose g name ordering format =>
    obtain ⟨t', ht', h⟩ := bind_eq_ok.1 (Option.some.inj h)
    exact (Tensor.packedAtFirst_of_transpose h (hwithin t' t (Outcome.ofOption_eq_ok.1 ht') h)).storesDistinct
  | transposeAlike g ordering =>
    obtain ⟨t', ht', h⟩ := bind_eq_ok.1 (Option.some.inj h)
    exact (Tensor.packedAtFirst_of_transpose h (hwithin t' t (Outcome.ofOption_eq_ok.1 ht') h)).storesDistinct
  | ask => cases h
  | setStorage => cases h
  | edit => cases h

/-- **A command keeps the coordinates of a tensor different.** -/
theorem storesDistinct_reach {c : Command} {h : Handle} {t : Tensor} {p : Packer} {pending : List Entry}
    (hwithin : c.Within w) (hinstalls : c.InstallsDistinct w) (ht : w.tensor? h = some t) (hsound : t.Sound p pending)
    (hd : t.StoresDistinct) : (c.reach h t).StoresDistinct := by
  cases c with
  | ask g r =>
    by_cases he : g = h
    · rw [Command.reach, if_pos he]
      refine hd.serve hsound r fun hr => ?_
      rw [hr, he] at hwithin
      exact hwithin t ht
    · rw [Command.reach, if_neg he]
      exact hd
  | setStorage g s =>
    by_cases he : g = h
    · rw [Command.reach, if_pos he]
      rw [he] at hinstalls
      cases hset : t.setStorage s with
      | error e => exact hd
      | ok u =>
        simp only [Tensor.setStorage, error_bind, guard_eq_ok, bind_eq_ok] at hset
        obtain ⟨-, -, -, hu⟩ := hset
        cases hu
        exact fun es hes => hinstalls t es ht hes
    · rw [Command.reach, if_neg he]
      exact hd
  | edit g change =>
    by_cases he : g = h
    · rw [Command.reach, if_pos he]
      rw [he] at hwithin
      exact hd.edit fun s s' => hwithin t s s' ht
    · rw [Command.reach, if_neg he]
      exact hd
  | _ => exact hd

theorem StoresDistinct.obey (hd : w.StoresDistinct) (hw : w.Sound) {c : Command} (hwithin : c.Within w)
    (hinstalls : c.InstallsDistinct w) : (w.obey c).StoresDistinct := by
  intro h u hu
  rcases tensor?_obey hu with hmade | ⟨t, ht, rfl⟩
  · exact storesDistinct_of_making hwithin hinstalls hmade
  · obtain ⟨p, pending, hsound⟩ := hw h t ht
    exact storesDistinct_reach hwithin hinstalls ht hsound (hd h t ht)

theorem StoresDistinct.obeyAll : ∀ {commands : List Command} {w : Workspace}, w.StoresDistinct → w.Sound →
    w.Within commands → w.InstallsDistinct commands → (w.obeyAll commands).StoresDistinct
  | [], _, hd, _, _, _ => hd
  | _ :: _, _, hd, hw, hwithin, hinstalls =>
    (hd.obey hw hwithin.1 hinstalls.1).obeyAll (hw.obey hwithin.1) hwithin.2 hinstalls.2

/-- **A pack keeps what it has nothing new for, if what came from outside was different.**  After any run of commands
within the range of index entries, of which those that make a matrix or set a storage bring different coordinates, the
entries that a pack merges its records over have different coordinates; and a pack that is granted keeps each of them
that no waiting record is for. -/
theorem pack_keeps_stored (commands : List Command) (hwithin : Within .empty commands)
    (hinstalls : InstallsDistinct .empty commands) (h : Handle) (t : Tensor)
    (ht : (obeyAll .empty commands).tensor? h = some t) :
    ∃ stored, t.storedEntries = .ok stored ∧ (stored.map (·.coordinate)).Nodup ∧
      ∀ u, t.PacksWithin → t.pack = .ok u → ∃ es, u.storedEntries = .ok es ∧ (es.map (·.coordinate)).Nodup ∧
        ∀ e ∈ stored, (∀ r ∈ t.buffer.records, r.coordinate ≠ e.coordinate) → e ∈ es := by
  obtain ⟨p, pending, hsound⟩ := Sound.obeyAll sound_empty hwithin h t ht
  have hd := StoresDistinct.obeyAll storesDistinct_empty sound_empty hwithin hinstalls h t ht
  obtain ⟨stored, hstored⟩ := hsound.storedEntries_isOk
  exact ⟨stored, hstored, hd stored hstored, fun u => hsound.pack_keeps hstored (hd stored hstored)⟩

/-- A matrix that is packed with a record for another place. -/
theorem pack_keeps_stored_rows :
    let commands : List Command := [.matrix .rows "m" [2, 2] { data := #[0, 2, 2] } { data := #[1, 0] }
        (.ofArray .int32 #[1, 2]), .ask ⟨0⟩ (.insert ⟨[1, 1], ⟨.int32, (5 : Int32)⟩⟩)]
    Within .empty commands ∧ InstallsDistinct .empty commands ∧
      ∃ t u es, (obeyAll .empty commands).tensor? ⟨0⟩ = some t ∧ t.PacksWithin ∧ t.pack = .ok u ∧
        u.storedEntries = .ok es ∧ ⟨[0, 1], ⟨.int32, (1 : Int32)⟩⟩ ∈ es := by
  intro commands
  have hwithin : Within .empty commands := ⟨trivial, trivial, trivial⟩
  have hsegments : DistinctSegments #[0, 2, 2] #[1, 0] := by
    rintro (_ | _ | i) hi
    · decide
    · decide
    · exact absurd hi (by simp)
  have hinstalls : InstallsDistinct .empty commands := ⟨fun _ _ => hsegments, trivial, trivial⟩
  obtain ⟨t, ht⟩ : ∃ t, (obeyAll .empty commands).tensor? ⟨0⟩ = some t := ⟨_, rfl⟩
  obtain ⟨stored, hstored, -, hpack⟩ := pack_keeps_stored commands hwithin hinstalls ⟨0⟩ t ht
  have hcomputed : (t.storedEntries, t.buffer.records) =
      (.ok [⟨[0, 1], ⟨.int32, (1 : Int32)⟩⟩, ⟨[0, 0], ⟨.int32, (2 : Int32)⟩⟩], [⟨[1, 1], ⟨.int32, (5 : Int32)⟩⟩]) := by
    cases ht
    cbv
  rw [hstored, Prod.mk.injEq] at hcomputed
  obtain ⟨hentries, hrecords⟩ := hcomputed
  cases hentries
  have hpacks : t.PacksWithin := by
    rintro stored' s - hstored' -
    rw [hstored] at hstored'
    cases hstored'
    rw [hrecords]
    decide
  obtain ⟨u, hu⟩ : ∃ u, t.pack = .ok u := by
    cases ht
    exact ⟨_, by cbv⟩
  obtain ⟨es, hes, -, hkeeps⟩ := hpack u hpacks hu
  refine ⟨hwithin, hinstalls, t, u, es, ht, hpacks, hu, hes, hkeeps _ (by simp) fun r hr => ?_⟩
  rw [hrecords] at hr
  rw [List.mem_singleton.1 hr]
  decide

/-- A matrix that lists a column twice in one row loses one of the two entries when it is packed with a record for
another place. -/
theorem pack_drops_stored :
    let commands : List Command := [.matrix .rows "m" [2, 2] { data := #[0, 2, 2] } { data := #[0, 0] }
        (.ofArray .int32 #[1, 2]), .ask ⟨0⟩ (.insert ⟨[1, 1], ⟨.int32, (5 : Int32)⟩⟩)]
    Within .empty commands ∧ ∃ t u, (obeyAll .empty commands).tensor? ⟨0⟩ = some t ∧ t.PacksWithin ∧
      t.storedEntries = .ok [⟨[0, 0], ⟨.int32, (1 : Int32)⟩⟩, ⟨[0, 0], ⟨.int32, (2 : Int32)⟩⟩] ∧
      t.buffer.records = [⟨[1, 1], ⟨.int32, (5 : Int32)⟩⟩] ∧ t.pack = .ok u ∧
      u.storedEntries = .ok [⟨[0, 0], ⟨.int32, (2 : Int32)⟩⟩, ⟨[1, 1], ⟨.int32, (5 : Int32)⟩⟩] := by
  intro commands
  obtain ⟨t, ht⟩ : ∃ t, (obeyAll .empty commands).tensor? ⟨0⟩ = some t := ⟨_, rfl⟩
  have hstored : (t.storedEntries, t.buffer.records) = (.ok [⟨[0, 0], ⟨.int32, (1 : Int32)⟩⟩,
      ⟨[0, 0], ⟨.int32, (2 : Int32)⟩⟩], [⟨[1, 1], ⟨.int32, (5 : Int32)⟩⟩]) := by
    cases ht
    cbv
  have hpacked : (t.pack >>= Tensor.storedEntries) =
      .ok [⟨[0, 0], ⟨.int32, (2 : Int32)⟩⟩, ⟨[1, 1], ⟨.int32, (5 : Int32)⟩⟩] := by
    cases ht
    cbv
  obtain ⟨u, hu, hes⟩ := bind_eq_ok.1 hpacked
  rw [Prod.mk.injEq] at hstored
  refine ⟨⟨trivial, trivial, trivial⟩, t, u, ht, ?_, hstored.1, hstored.2, hu, hes⟩
  rintro stored s - hstored' -
  rw [hstored.1] at hstored'
  cases hstored'
  rw [hstored.2]
  decide

end Workspace

end TensorStorage
