import TensorStorage.Proofs.Pack.Distinct
import TensorStorage.Proofs.Tensor.Equality
/-!
# Transpose — the same values at permuted coordinates

An ordering that transposition accepts permutes coordinates as a format does, so what is known of keys holds of permuted
coordinates.  A transposed tensor has the value of the first at every permuted coordinate (`Tensor.Permuted`), whatever
the formats and the duplicate policy; so transpositions compose, and undo each other (`Tensor.transpose_permutes`).
-/
namespace TensorStorage

/-! ## Permuted coordinates -/

/-- **A list permuted by an ordering**: its number `i` is number `ordering[i]` of the other. -/
def Coordinate.Permutes (ordering : List Nat) (x y : Coordinate) : Prop :=
  ∀ i : Nat, y[i]? = ordering[i]?.bind fun place => x[place]?

namespace Coordinate.Permutes

variable {ordering ordering' : List Nat} {x y z : Coordinate}

theorem unique (h : Permutes ordering x y) (h' : Permutes ordering x z) : y = z :=
  List.ext_getElem? fun i => (h i).trans (h' i).symm

theorem trans {composed : List Nat} (h : Permutes ordering x y) (h' : Permutes ordering' y z)
    (hcomposed : Permutes ordering' ordering composed) : Permutes composed x z := by
  intro i
  rw [h' i, hcomposed i, Option.bind_assoc]
  exact congrArg _ (funext fun place => h place)

theorem range (x : Coordinate) : Permutes (List.range x.length) x x := by
  intro i
  by_cases hi : i < x.length
  · rw [List.getElem?_range hi, Option.bind_some]
  · rw [List.getElem?_eq_none (Nat.le_of_not_lt hi), List.getElem?_eq_none (by simpa using hi)]
    rfl

end Coordinate.Permutes

namespace Format

variable {f f' f'' : Format} {x : Coordinate}

theorem permutes_keyOf (h : f.order ≤ x.length) : Coordinate.Permutes f.ordering x (f.keyOf x) := by
  intro i
  rw [keyOf, List.getElem?_map]
  cases hi : f.ordering[i]? with
  | none => rfl
  | some place =>
    have hlt : place < x.length := Nat.lt_of_lt_of_le ((f.mem_ordering_iff place).1 (List.mem_of_getElem? hi)) h
    simp [hlt]

theorem keyOf_keyOf (hx : x.length = f.order) (horder : f'.order = f.order) (horder' : f''.order = f.order)
    (hcomposed : Coordinate.Permutes f'.ordering f.ordering f''.ordering) : f''.keyOf x = f'.keyOf (f.keyOf x) := by
  have h := permutes_keyOf (f := f) (Nat.le_of_eq hx.symm)
  have h' := permutes_keyOf (f := f') (x := f.keyOf x) (by rw [length_keyOf, horder])
  exact (permutes_keyOf (by rw [hx, horder'])).unique (h.trans h' hcomposed)

/-- An ordering that passes the check is that of a format. -/
theorem of_replicate_eq_ok {ordering : List Nat} {f : Format}
    (h : Format.of (List.replicate ordering.length .dense) ordering = .ok f) :
    f.ordering = ordering ∧ f.order = ordering.length := by
  unfold Format.of at h
  rw [dif_pos List.length_replicate] at h
  split at h
  · cases h
    exact ⟨rfl, List.length_replicate⟩
  · cases h

end Format

/-! ## Arrays that nobody lent -/

namespace Ledger

theorem foldl_settleEntries (l : Ledger) : ∀ {arrays : List IndexArray}, (∀ a ∈ arrays, a.owner.isEngine = true) →
    arrays.foldl settleEntries l = l
  | [], _ => rfl
  | a :: arrays, h => by
    have ha : l.settleEntries a = l := by
      have howner := h a List.mem_cons_self
      unfold settleEntries
      cases hcase : a.owner with
      | engine => rfl
      | caller loan =>
        rw [hcase] at howner
        cases howner
    rw [List.foldl_cons, ha]
    exact foldl_settleEntries l fun a ha => h a (List.mem_cons_of_mem _ ha)

theorem settle_of_isOwned {s : Storage} (l : Ledger) (h : s.isOwned = true) : l.settle s = l := by
  rw [Storage.isOwned, Bool.and_eq_true, List.all_eq_true] at h
  obtain ⟨hvalues, hentries⟩ := h
  have hmodes : s.index.modes.foldl settleMode l = l := by
    have hfixed := foldl_settleEntries l hentries
    rwa [TensorIndex.arrays, List.foldl_flatMap] at hfixed
  unfold settle settleValues
  cases hcase : s.values.owner with
  | engine => exact hmodes
  | caller loan =>
    rw [hcase] at hvalues
    cases hvalues

end Ledger

/-! ## Entries at permuted coordinates -/

section Entries

variable {f : Format} {es : List Entry}

theorem permuted?_ordering {x : Coordinate} (h : f.order ≤ x.length) :
    Coordinate.permuted? f.ordering x = some (f.keyOf x) := Format.toLevels?_eq h

def Entry.permuted (f : Format) (e : Entry) : Entry := { e with coordinate := f.keyOf e.coordinate }

theorem mapM_permuted? (h : ∀ e ∈ es, e.coordinate.length = f.order) :
    es.mapM (Entry.permuted? f.ordering) = some (es.map (Entry.permuted f)) := by
  refine mapM_eq_pure fun e he => ?_
  rw [Entry.permuted?, permuted?_ordering (Nat.le_of_eq (h e he).symm)]
  rfl

theorem nodup_permuted (h : ∀ e ∈ es, e.coordinate.length = f.order) (hnodup : (es.map (·.coordinate)).Nodup) :
    ((es.map (Entry.permuted f)).map (·.coordinate)).Nodup := by
  rw [List.map_map]
  exact Format.nodup_map_keyOf h hnodup

theorem valueIn_permuted {d : DataType} (h : ∀ e ∈ es, e.coordinate.length = f.order)
    (hnodup : (es.map (·.coordinate)).Nodup) {x : Coordinate} (hx : x.length = f.order) :
    valueIn d (es.map (Entry.permuted f)) (f.keyOf x) = valueIn d es x := by
  by_cases hstored : ∃ e ∈ es, e.coordinate = x
  · obtain ⟨e, he, rfl⟩ := hstored
    rw [valueIn_of_mem hnodup he]
    exact valueIn_of_mem (e := e.permuted f) (nodup_permuted h hnodup) (List.mem_map_of_mem he)
  · rw [valueIn_of_not_mem fun e he hex => hstored ⟨e, he, hex⟩, valueIn_of_not_mem]
    rintro _ hmem hex
    obtain ⟨e, he, rfl⟩ := List.mem_map.1 hmem
    exact hstored ⟨e, he, Format.keyOf_inj (h e he) hx hex⟩

end Entries

theorem DuplicatePolicy.packed?_singleton (policy : DuplicatePolicy) (d : DataType) (v : Value) :
    policy.packed? d none [v] = some v := by
  cases policy <;> rfl

/-- **Packed entries of different coordinates** say what they said before. -/
theorem Packer.Lists.valueIn_of_nodup {p : Packer} {records es : List Entry} (h : p.Lists [] records es)
    (hnodup : (records.map (·.coordinate)).Nodup) (hbounds : ∀ e ∈ records,
      e.coordinate.length = p.dimensions.length ∧ e.coordinate.inBounds p.dimensions = true) (c : Coordinate) :
    valueIn p.dtype es c = valueIn p.dtype records c := by
  by_cases hc : c.length = p.dimensions.length ∧ c.inBounds p.dimensions = true
  · have hvalue := h.valueIn_eq hc.1 hc.2
    by_cases hmem : ∃ e ∈ records, e.coordinate = c
    · obtain ⟨e, he, rfl⟩ := hmem
      have hone : p.policy.packed? p.dtype none [e.value] = some (valueIn p.dtype es e.coordinate) := by
        rw [← hvalue, valuesAt_of_nodup hnodup he]
        rfl
      rw [valueIn_of_mem hnodup he]
      exact Option.some.inj (hone.symm.trans (p.policy.packed?_singleton p.dtype e.value))
    · rw [valuesAt_eq_nil_iff.2 fun e he hec => hmem ⟨e, he, hec⟩] at hvalue
      rw [valueIn_of_not_mem fun e he hec => hmem ⟨e, he, hec⟩]
      exact (Option.some.inj hvalue).symm
  -- neither list has a coordinate out of bounds
  · rw [valueIn_of_not_mem, valueIn_of_not_mem]
    · rintro e he rfl
      exact hc (hbounds e he)
    · rintro e he rfl
      obtain ⟨hlen, hin, -⟩ := (h.mem_iff e.coordinate).1 (List.mem_map_of_mem he)
      exact hc ⟨hlen, hin⟩

namespace Tensor

variable {t u v w : Tensor} {es gs : List Entry} {f g : Format} {name : String} {ordering : List Nat}

/-! ## Policies -/

def withPolicy (t : Tensor) (policy : DuplicatePolicy) : Tensor := { t with options := { t.options with policy } }

section Policies

variable {policy : DuplicatePolicy}

theorem new_withPolicy {d : DataType} {dimensions : List Nat} {options : Options}
    (h : new name d dimensions g options = .ok t) :
    new name d dimensions g { options with policy } = .ok (t.withPolicy policy) := by
  simp only [new, bind_eq_ok] at h ⊢
  obtain ⟨⟨⟩, hshape, buffer, hbuffer, h⟩ := h
  cases h
  exact ⟨(), hshape, buffer, hbuffer, rfl⟩

theorem reserve?_withPolicy {n : Nat} (h : t.reserve? n = some u) :
    (t.withPolicy policy).reserve? n = some (u.withPolicy policy) := by
  obtain ⟨buffer, hbuffer, rfl⟩ := Option.map_eq_some_iff.1 h
  exact Option.map_eq_some_iff.2 ⟨buffer, hbuffer, rfl⟩

theorem insertAll_withPolicy (h : t.insertAll es = .ok u) :
    (t.withPolicy policy).insertAll es = .ok (u.withPolicy policy) := by
  simp only [insertAll, bind_eq_ok] at h ⊢
  obtain ⟨buffer, hbuffer, h⟩ := h
  cases h
  exact ⟨buffer, hbuffer, rfl⟩

/-- **A first pack of different coordinates** does not depend on the policy. -/
theorem pack_withPolicy (hnone : t.storage? = none) (hnodup : (t.buffer.records.map (·.coordinate)).Nodup)
    (h : t.pack = .ok u) : (t.withPolicy policy).pack = .ok (u.withPolicy policy) := by
  have hstored : t.storedEntries = .ok [] := by rw [storedEntries, hnone]
  have hsettled : t.isSettled = false := by rw [isSettled, isPacked, hnone, Option.isSome_none, Bool.and_false]
  rcases pack_eq_ok h with ⟨hsettled', -⟩ | ⟨-, stored, s, hstored', hmerge, rfl⟩
  · rw [hsettled] at hsettled'
    cases hsettled'
  · rw [hstored] at hstored'
    cases hstored'
    have hpack : (t.withPolicy policy).packer.merge [] t.buffer.records = .ok s :=
      (Packer.pack_policy hnodup policy).trans hmerge
    have hunsettled : ¬(t.withPolicy policy).isSettled = true := Bool.eq_false_iff.1 hsettled
    have hnothing : (t.withPolicy policy).storedEntries = .ok [] := hstored
    rw [pack, if_neg hunsettled, hnothing, ok_bind]
    exact bind_eq_ok.2 ⟨s, hpack, rfl⟩

end Policies

/-! ## The steps of a transposition -/

theorem storage_eq_ok {s : Storage} : t.storage = .ok s ↔ t.storage? = some s := by
  unfold storage
  cases t.storage? with
  | none => simp
  | some s' => simp

/-- **A transposition that succeeds** packs the permuted entries into an empty tensor of permuted dimensions. -/
theorem transpose_eq_ok_iff (hs : t.Stores es) : t.transpose name ordering g = .ok u ↔
    ∃ (f : Format) (s : Storage) (empty roomy filled : Tensor),
      Format.of (List.replicate ordering.length .dense) ordering = .ok f ∧ f.order = t.dimensions.length ∧
      t.storage? = some s ∧ new name t.dtype (f.keyOf t.dimensions) g t.options = .ok empty ∧
      empty.reserve? s.index.size = some roomy ∧ roomy.insertAll (es.map (Entry.permuted f)) = .ok filled ∧
      filled.pack = .ok u := by
  simp only [transpose, error_bind, guard_eq_ok, bind_eq_ok, Outcome.liftM_checked, Outcome.liftM_option,
    Outcome.ofChecked_eq_ok, Outcome.ofOption_eq_ok, Decidable.not_not, storage_eq_ok]
  constructor
  · rintro ⟨f, hf, horder, dimensions, hdimensions, empty, hempty, s, hstorage, roomy, hroomy, es', hes, permuted,
      hpermuted, filled, hfilled, hpack⟩
    obtain ⟨rfl, hlen⟩ := Format.of_replicate_eq_ok hf
    have horder : f.order = t.dimensions.length := hlen.trans horder
    rw [permuted?_ordering (Nat.le_of_eq horder)] at hdimensions
    cases hdimensions
    rw [← storedEntries_eq hstorage, hs.entries] at hes
    cases hes
    rw [mapM_permuted? fun e he => (hs.length e he).trans horder.symm] at hpermuted
    cases hpermuted
    exact ⟨f, s, empty, roomy, filled, hf, horder, hstorage, hempty, hroomy, hfilled, hpack⟩
  · rintro ⟨f, s, empty, roomy, filled, hf, horder, hstorage, hempty, hroomy, hfilled, hpack⟩
    obtain ⟨rfl, hlen⟩ := Format.of_replicate_eq_ok hf
    exact ⟨f, hf, hlen.symm.trans horder, _, permuted?_ordering (Nat.le_of_eq horder), empty, hempty, s, hstorage, roomy,
      hroomy, es, (storedEntries_eq hstorage).symm.trans hs.entries, _,
      mapM_permuted? fun e he => (hs.length e he).trans horder.symm, filled, hfilled, hpack⟩

/-- Records that are added to an empty tensor wait alone. -/
theorem waits_of_filled {d : DataType} {dimensions : List Nat} {options : Options} {empty roomy filled : Tensor} {n : Nat}
    (hempty : new name d dimensions g options = .ok empty) (hroomy : empty.reserve? n = some roomy)
    (hfilled : roomy.insertAll es = .ok filled) :
    filled.Waits ⟨dimensions, g, d, options.policy⟩ es ∧ filled.storage? = none ∧ filled.name = name := by
  have hreserve : empty.perform (.reserve n) = .ok roomy := by
    simp only [perform, hroomy, Outcome.liftM_option, Outcome.ofOption_some]
  obtain ⟨hwaits, hnone⟩ := waits_of_new hempty
  obtain ⟨hwaits, hstorage⟩ := hwaits.serve_reserve n
  rw [serve_of_ok hreserve] at hwaits hstorage
  obtain ⟨hwaits, -, hstorage'⟩ := hwaits.of_insertAll hfilled
  refine ⟨hwaits, hstorage'.trans (hstorage.trans hnone), ?_⟩
  simp only [new, insertAll, bind_eq_ok] at hempty hfilled
  obtain ⟨-, -, buffer, -, hempty⟩ := hempty
  obtain ⟨buffer', -, rfl⟩ := Option.map_eq_some_iff.1 hroomy
  obtain ⟨buffer'', -, hfilled⟩ := hfilled
  cases hempty
  cases hfilled
  rfl

theorem packedFrom_of_transpose (hs : t.Stores es) (hcount : es.length ≤ maxIndex)
    (h : t.transpose name ordering g = .ok u) :
    ∃ (f : Format) (filled : Tensor) (gs : List Entry), f.ordering = ordering ∧ f.order = t.dimensions.length ∧
      filled.name = name ∧
      u.PackedFrom filled ⟨f.keyOf t.dimensions, g, t.dtype, t.options.policy⟩ (es.map (Entry.permuted f)) gs := by
  obtain ⟨f, s, empty, roomy, filled, hf, horder, -, hempty, hroomy, hfilled, hpack⟩ := (transpose_eq_ok_iff hs).1 h
  obtain ⟨hwaits, hnone, hname⟩ := waits_of_filled hempty hroomy hfilled
  have hdistinct : ((es.map (Entry.permuted f)).map (·.coordinate)).eraseDups.length ≤ maxIndex := by
    refine Nat.le_trans (length_eraseDups_le fun x hx => hx) ?_
    rwa [List.length_map, List.length_map]
  obtain ⟨gs, hgs⟩ := packedFrom_of_pack hwaits hnone hdistinct hpack
  exact ⟨f, filled, gs, (Format.of_replicate_eq_ok hf).1, horder, hname, hgs⟩

/-- **A transposition does not depend on the policy.** -/
theorem transpose_withPolicy (hs : t.Stores es) (policy : DuplicatePolicy) (h : t.transpose name ordering g = .ok u) :
    (t.withPolicy policy).transpose name ordering g = .ok (u.withPolicy policy) := by
  have hs' : (t.withPolicy policy).Stores es := ⟨hs.entries, hs.nodup, hs.length, hs.inBounds⟩
  obtain ⟨f, s, empty, roomy, filled, hf, horder, hstorage, hempty, hroomy, hfilled, hpack⟩ :=
    (transpose_eq_ok_iff hs).1 h
  obtain ⟨hwaits, hnone, -⟩ := waits_of_filled hempty hroomy hfilled
  have hnodup : (filled.buffer.records.map (·.coordinate)).Nodup := by
    rw [hwaits.records]
    exact nodup_permuted (fun e he => (hs.length e he).trans horder.symm) hs.nodup
  exact (transpose_eq_ok_iff hs').2 ⟨f, s, _, _, _, hf, horder, hstorage, new_withPolicy hempty,
    reserve?_withPolicy hroomy, insertAll_withPolicy hfilled, pack_withPolicy hnone hnodup hpack⟩

/-! ## The same values -/

/-- **A tensor with the values of another at permuted coordinates.** -/
structure Permuted (f : Format) (t u : Tensor) : Prop where
  order : f.order = t.dimensions.length
  dtype : u.dtype = t.dtype
  dimensions : u.dimensions = f.keyOf t.dimensions
  valueAt : ∀ x : Coordinate, x.length = f.order → u.valueAt (f.keyOf x) = t.valueAt x

namespace Permuted

variable {f' f'' : Format}

theorem refl (hf : f.ordering = List.range t.dimensions.length) : t.Permuted f t := by
  have horder : f.order = t.dimensions.length := by rw [← f.ordering_length, hf, List.length_range]
  have hkey : ∀ x : Coordinate, x.length = f.order → f.keyOf x = x := fun x hx => by
    have hrange := Coordinate.Permutes.range x
    rw [hx, horder, ← hf] at hrange
    exact (Format.permutes_keyOf (Nat.le_of_eq hx.symm)).unique hrange
  refine ⟨horder, rfl, (hkey _ horder.symm).symm, fun x hx => by rw [hkey x hx]⟩

theorem trans (h : t.Permuted f u) (h' : u.Permuted f' v) (horder : f''.order = f.order)
    (hcomposed : Coordinate.Permutes f'.ordering f.ordering f''.ordering) : t.Permuted f'' v := by
  have horder' : f'.order = f.order := by rw [h'.order, h.dimensions, Format.length_keyOf]
  have hkey : ∀ x : Coordinate, x.length = f.order → f''.keyOf x = f'.keyOf (f.keyOf x) := fun x hx =>
    Format.keyOf_keyOf hx horder' horder hcomposed
  refine ⟨horder.trans h.order, h'.dtype.trans h.dtype, ?_, fun x hx => ?_⟩
  · rw [h'.dimensions, h.dimensions, hkey _ h.order.symm]
  · rw [horder] at hx
    rw [hkey x hx, h'.valueAt _ (by rw [Format.length_keyOf, horder']), h.valueAt x hx]

theorem length_dimensions (h : t.Permuted f u) : u.dimensions.length = f.order := by
  rw [h.dimensions, Format.length_keyOf]

/-- **Tensors with the same values at the same permuted coordinates are equal.** -/
theorem equals (h : t.Permuted f v) (h' : t.Permuted f w) (hv : v.Stores es) (hw : w.Stores gs)
    (hnumber : ∀ x, (t.valueAt x).isNaN = false) : v.equals w = true := by
  refine hv.equals_of_valueAt_eq hw (h.dtype.trans h'.dtype.symm) (h.dimensions.trans h'.dimensions.symm)
    fun y hy _ => ?_
  rw [h.length_dimensions] at hy
  have hx : (f.fromLevels y).length = f.order := f.length_fromLevels y
  have hvalue := h.valueAt _ hx
  have hvalue' := h'.valueAt _ hx
  rw [Format.keyOf_fromLevels hy] at hvalue hvalue'
  rw [hvalue, hvalue']
  exact ⟨rfl, hnumber _⟩

/-- What is stored at no permuted coordinate is zero. -/
theorem value_eq_zero (h : t.Permuted f u) (hs : t.Stores es) (hu : u.Stores gs) {g : Entry} (hg : g ∈ gs)
    (hnew : ∀ e ∈ es, f.keyOf e.coordinate ≠ g.coordinate) : g.value = .zero t.dtype := by
  have hlen : g.coordinate.length = f.order := (hu.length g hg).trans h.length_dimensions
  have hvalue := h.valueAt _ (f.length_fromLevels g.coordinate)
  rw [Format.keyOf_fromLevels hlen, hu.valueAt_of_mem hg] at hvalue
  rw [hvalue]
  refine hs.valueAt_of_not_mem fun e he hec => hnew e he ?_
  rw [hec, Format.keyOf_fromLevels hlen]

end Permuted

theorem permuted_of_transpose (hs : t.Stores es) (hcount : es.length ≤ maxIndex)
    (h : t.transpose name ordering g = .ok u) : ∃ (f : Format) (gs : List Entry), f.ordering = ordering ∧
      t.Permuted f u ∧ u.Stores gs ∧ gs.length ≤ maxIndex ∧ (∀ e ∈ es, e.permuted f ∈ gs) ∧
      (∃ s, u.storage? = some s ∧ s.isOwned = true) ∧ u.pending = 0 ∧ u.name = name ∧ u.format = g := by
  obtain ⟨f, filled, gs, hf, horder, hname, hpacked⟩ := packedFrom_of_transpose hs hcount h
  have hlen : ∀ e ∈ es, e.coordinate.length = f.order := fun e he => (hs.length e he).trans horder.symm
  have hbounds : ∀ e ∈ es.map (Entry.permuted f), e.coordinate.length = (f.keyOf t.dimensions).length ∧
      e.coordinate.inBounds (f.keyOf t.dimensions) = true := by
    rintro _ hmem
    obtain ⟨e, he, rfl⟩ := List.mem_map.1 hmem
    exact ⟨by rw [Entry.permuted, Format.length_keyOf, Format.length_keyOf],
      (Format.inBounds_keyOf (hlen e he) horder.symm).2 (hs.inBounds e he)⟩
  have hnodup := nodup_permuted (f := f) hlen hs.nodup
  have hdtype : u.dtype = t.dtype := congrArg Packer.dtype hpacked.waits.packer
  refine ⟨f, gs, hf, ⟨horder, hdtype, congrArg Packer.dimensions hpacked.waits.packer, fun x hx => ?_⟩, hpacked.stores,
    hpacked.count, fun e he => ?_, hpacked.owned, hpacked.waits.pending_eq, hpacked.name.trans hname,
    hpacked.waits.format⟩
  · rw [hpacked.stores.valueAt_eq, hs.valueAt_eq, hdtype, hpacked.lists.valueIn_of_nodup hnodup hbounds]
    exact valueIn_permuted hlen hs.nodup hx
  · have hmem := List.mem_map_of_mem (f := Entry.permuted f) he
    obtain ⟨hl, hin⟩ := hbounds _ hmem
    obtain ⟨g, hg, hcoordinate⟩ := List.mem_map.1
      ((hpacked.lists.mem_iff (e.permuted f).coordinate).2 ⟨hl, hin, .inr ⟨_, hmem, rfl⟩⟩)
    have hvalue := hpacked.lists.valueIn_of_nodup hnodup hbounds g.coordinate
    rw [valueIn_of_mem hpacked.stores.nodup hg, hcoordinate, valueIn_of_mem hnodup hmem] at hvalue
    have hentry : g = e.permuted f := congrArg₂ Entry.mk hcoordinate hvalue
    rwa [← hentry]

/-- A tensor without lent arrays is added behind the others, and nothing else happens. -/
theorem addMade_of_isOwned {w : Workspace} {s : Storage} (hs : u.storage? = some s) (howned : s.isOwned = true) :
    w.addMade (.ok u) = (.ok ⟨w.tensors.size⟩, { w with tensors := w.tensors.push u }) := by
  have hsettle : w.ledger.settle s = w.ledger := Ledger.settle_of_isOwned w.ledger howned
  simp only [Workspace.addMade, Workspace.add, Workspace.settle, hs, hsettle]

theorem addTransposed_eq {w : Workspace} {h : Handle} {s : Storage} (ht : w.tensor? h = some t)
    (hu : t.transpose name ordering g = .ok u) (hs : u.storage? = some s) (howned : s.isOwned = true) :
    w.addTransposed h name ordering g = (.ok ⟨w.tensors.size⟩, { w with tensors := w.tensors.push u }) := by
  have hmade : w.addTransposed h name ordering g = w.addMade (.ok u) := by
    rw [Workspace.addTransposed, ht]
    exact congrArg w.addMade hu
  rw [hmade, addMade_of_isOwned hs howned]

/-- **Transposition moves every value to its permuted coordinate.**  A transposed tensor is a new one behind the others,
whose lent arrays are left alone; it is packed, with nothing waiting, of the same kind and of permuted dimensions.  It
stores each stored value at the permuted coordinate, and zeros besides, whatever the duplicate policy.  Without NaNs,
transposing twice equals transposing by the composed ordering, and transposing back gives an equal tensor, whatever the
formats. -/
theorem transpose_permutes {t : Tensor} {es : List Entry} (hs : t.Stores es) (hcount : es.length ≤ maxIndex)
    {name : String} {ordering : List Nat} {g : Format} {u : Tensor} (hu : t.transpose name ordering g = .ok u) :
    (∀ (w : Workspace) (h : Handle), w.tensor? h = some t →
      w.addTransposed h name ordering g = (.ok ⟨w.tensors.size⟩, { w with tensors := w.tensors.push u })) ∧
    u.isPacked = true ∧ u.pending = 0 ∧ u.name = name ∧ u.format = g ∧ u.dtype = t.dtype ∧
    Coordinate.Permutes ordering t.dimensions u.dimensions ∧
    (∃ gs, u.Stores gs ∧
      (∀ e ∈ es, ∃ x ∈ gs, Coordinate.Permutes ordering e.coordinate x.coordinate ∧ x.value = e.value) ∧
      ∀ x ∈ gs, (∃ e ∈ es, Coordinate.Permutes ordering e.coordinate x.coordinate) ∨ x.value = .zero t.dtype) ∧
    (∀ policy, (t.withPolicy policy).transpose name ordering g = .ok (u.withPolicy policy)) ∧
    ((∀ e ∈ es, e.value.isNaN = false) → ∀ (name' : String) (ordering' : List Nat) (g' : Format) (v : Tensor),
      u.transpose name' ordering' g' = .ok v →
      (∀ (composed : List Nat) (name'' : String) (g'' : Format) (w : Tensor),
        Coordinate.Permutes ordering' ordering composed → t.transpose name'' composed g'' = .ok w →
          v.equals w = true) ∧
      (Coordinate.Permutes ordering' ordering (List.range ordering.length) → v.equals t = true)) := by
  obtain ⟨f, gs, rfl, hpermuted, hgs, hlen, hmem, ⟨s, hstorage, howned⟩, hpending, hname, hformat⟩ :=
    permuted_of_transpose hs hcount hu
  have hkey : ∀ e ∈ es, Coordinate.Permutes f.ordering e.coordinate (f.keyOf e.coordinate) := fun e he =>
    Format.permutes_keyOf (Nat.le_of_eq (hpermuted.order.trans (hs.length e he).symm))
  refine ⟨fun w h ht => addTransposed_eq ht hu hstorage howned, Option.isSome_of_eq_some hstorage, hpending, hname,
    hformat, hpermuted.dtype, ?_, ⟨gs, hgs, fun e he => ⟨_, hmem e he, hkey e he, rfl⟩, fun x hx => ?_⟩,
    fun policy => transpose_withPolicy hs policy hu, fun hnumber name' ordering' g' v hv => ?_⟩
  · rw [hpermuted.dimensions]
    exact Format.permutes_keyOf (Nat.le_of_eq hpermuted.order)
  · by_cases hnew : ∃ e ∈ es, f.keyOf e.coordinate = x.coordinate
    · obtain ⟨e, he, hex⟩ := hnew
      exact .inl ⟨e, he, hex ▸ hkey e he⟩
    · exact .inr (hpermuted.value_eq_zero hs hgs hx fun e he hex => hnew ⟨e, he, hex⟩)
  · have hnumber := hs.isNaN_valueAt hnumber
    obtain ⟨f', es', rfl, hpermuted', hes', -⟩ := permuted_of_transpose hgs hlen hv
    refine ⟨fun composed name'' g'' w hcomposed hw => ?_, fun hinverse => ?_⟩
    · obtain ⟨f'', gs'', rfl, hpermuted'', hgs'', -⟩ := permuted_of_transpose hs hcount hw
      exact (hpermuted.trans hpermuted' (hpermuted''.order.trans hpermuted.order.symm) hcomposed).equals hpermuted''
        hes' hgs'' hnumber
    · rw [f.ordering_length, hpermuted.order] at hinverse
      have hself : t.Permuted (.dense t.dimensions.length) t := .refl rfl
      exact (hpermuted.trans hpermuted' (hself.order.trans hpermuted.order.symm) hinverse).equals hself hes' hs hnumber

/-- Modes that are turned round one place, padded with zeros, and turned back. -/
theorem transpose_permutes_rows :
    let t : Tensor := ⟨"t", [2, 3, 1], .int32, .sparse 3, {}, .new 3 .int32,
      some ⟨⟨[.compressed { data := #[0, 1] } { data := #[1] }, .compressed { data := #[0, 2] } { data := #[0, 2] },
        .compressed { data := #[0, 1, 2] } { data := #[0, 0] }], 2⟩, .ofArray .int32 #[5, 7]⟩, 1⟩
    let es : List Entry := [⟨[1, 0, 0], ⟨.int32, (5 : Int32)⟩⟩, ⟨[1, 2, 0], ⟨.int32, (7 : Int32)⟩⟩]
    let u : Tensor := ⟨"u", [3, 1, 2], .int32, .dense 3, {}, ⟨3, .int32, #[], #[], 2⟩,
      some ⟨⟨[.dense 3, .dense 1, .dense 2], 6⟩, .ofArray .int32 #[0, 5, 0, 0, 0, 7]⟩, 1⟩
    t.Stores es ∧ es.length ≤ maxIndex ∧ t.transpose "u" [1, 2, 0] (.dense 3) = .ok u ∧
      (t.withPolicy .sum).transpose "u" [1, 2, 0] (.dense 3) = .ok (u.withPolicy .sum) ∧
      (∃ gs, u.Stores gs ∧ ∃ x ∈ gs, Coordinate.Permutes [1, 2, 0] [1, 2, 0] x.coordinate ∧
        x.value = ⟨.int32, (7 : Int32)⟩) ∧
      ∃ v w, u.transpose "v" [2, 0, 1] (.sparse 3) = .ok v ∧ v.equals t = true ∧
        t.transpose "w" [0, 1, 2] (.dense 3) = .ok w ∧ v.equals w = true := by
  intro t es u
  have hs : t.Stores es := ⟨rfl, by decide, by decide, by decide⟩
  have hu : t.transpose "u" [1, 2, 0] (.dense 3) = .ok u := by cbv
  obtain ⟨v, hv⟩ : ∃ v, u.transpose "v" [2, 0, 1] (.sparse 3) = .ok v := ⟨_, by cbv⟩
  obtain ⟨w, hw⟩ : ∃ w, t.transpose "w" [0, 1, 2] (.dense 3) = .ok w := ⟨_, by cbv⟩
  obtain ⟨-, -, -, -, -, -, -, ⟨gs, hgs, hmem, -⟩, hpolicy, hcompose⟩ := transpose_permutes hs (by decide) hu
  obtain ⟨x, hx, hpermutes, hvalue⟩ := hmem ⟨[1, 2, 0], ⟨.int32, (7 : Int32)⟩⟩ (by decide)
  obtain ⟨hcomposed, hinverse⟩ := hcompose (by decide) "v" [2, 0, 1] (.sparse 3) v hv
  have hback : Coordinate.Permutes [2, 0, 1] [1, 2, 0] [0, 1, 2] := by
    rintro (_ | _ | _ | i)
    · rfl
    · rfl
    · rfl
    · rfl
  exact ⟨hs, by decide, hu, hpolicy .sum, ⟨gs, hgs, x, hx, hpermutes, hvalue⟩, v, w, hv, hinverse hback, hw,
    hcomposed [0, 1, 2] "w" (.dense 3) w hback hw⟩

end Tensor

end TensorStorage
