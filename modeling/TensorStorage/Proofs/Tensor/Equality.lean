import TensorStorage.Proofs.Pack.Order
import TensorStorage.Proofs.Tensor.Soundness
import TensorStorage.Proofs.Tensor.Stored
import TensorStorage.Proofs.Value
import TensorStorage.Tensor.Equality
/-!
# Equality — tensors are equal when they hold the same values

Of each tensor the entries that are not zero are compared, sorted by coordinate.  Sorted entries of different
coordinates are determined by what they say, so the comparison decides whether the tensors have the same value at every
coordinate (`Tensor.Stores.equals_iff`), however they store them.
-/
namespace TensorStorage

namespace Tensor

variable {a b c t : Tensor} {es gs : List Entry} {d : DataType}

/-! ## Sorted entries -/

theorem map_coordinate_of_entriesEqual : ∀ {es gs : List Entry}, entriesEqual es gs = true →
    es.map (·.coordinate) = gs.map (·.coordinate)
  | [], [], _ => rfl
  | [], _ :: _, h => by cases h
  | _ :: _, [], h => by cases h
  | e :: es, g :: gs, h => by
    simp only [entriesEqual, entryEquals, Bool.and_eq_true, beq_iff_eq] at h
    rw [List.map_cons, List.map_cons, h.1.1, map_coordinate_of_entriesEqual h.2]

theorem equals_of_entriesEqual : ∀ {es gs : List Entry}, entriesEqual es gs = true →
    (gs.map (·.coordinate)).Nodup → ∀ e ∈ es, ∀ g ∈ gs, e.coordinate = g.coordinate → e.value.equals g.value = true
  | [], _, _, _, _, he, _, _, _ => by cases he
  | _ :: _, [], h, _, _, _, _, _, _ => by cases h
  | e :: es, g :: gs, h, hnodup, e', he', g', hg', hc => by
    simp only [entriesEqual, entryEquals, Bool.and_eq_true, beq_iff_eq] at h
    obtain ⟨⟨hcoord, hvalue⟩, hrest⟩ := h
    rw [List.map_cons, List.nodup_cons] at hnodup
    rcases List.mem_cons.1 he' with rfl | he' <;> rcases List.mem_cons.1 hg' with rfl | hg'
    · exact hvalue
    · exact absurd (List.mem_map_of_mem (f := Entry.coordinate) hg') (hc ▸ hcoord ▸ hnodup.1)
    · refine absurd (List.mem_map_of_mem (f := Entry.coordinate) he') ?_
      rw [map_coordinate_of_entriesEqual hrest, hc]
      exact hnodup.1
    · exact equals_of_entriesEqual hrest hnodup.2 e' he' g' hg' hc

theorem entriesEqual_of_map_eq : ∀ {es gs : List Entry}, es.map (·.coordinate) = gs.map (·.coordinate) →
    (∀ e ∈ es, ∀ g ∈ gs, e.coordinate = g.coordinate → e.value.equals g.value = true) → entriesEqual es gs = true
  | [], [], _, _ => rfl
  | [], _ :: _, h, _ => by cases h
  | _ :: _, [], h, _ => by cases h
  | e :: es, g :: gs, h, hvalue => by
    obtain ⟨hcoord, hrest⟩ := List.cons.inj h
    have ih := entriesEqual_of_map_eq hrest fun e he g hg =>
      hvalue e (List.mem_cons_of_mem _ he) g (List.mem_cons_of_mem _ hg)
    simp only [entriesEqual, entryEquals, Bool.and_eq_true, beq_iff_eq]
    exact ⟨⟨hcoord, hvalue e List.mem_cons_self g List.mem_cons_self hcoord⟩, ih⟩

/-! ## The entries that are compared -/

def nonzerosOf (es : List Entry) : List Entry :=
  (es.filter fun e => !e.value.isZero).mergeSort fun a b => a.coordinate.le b.coordinate

theorem mem_nonzerosOf {e : Entry} : e ∈ nonzerosOf es ↔ e ∈ es ∧ e.value.isZero = false := by
  rw [nonzerosOf, List.mem_mergeSort, List.mem_filter, Bool.not_eq_true']

theorem pairwise_nonzerosOf (h : (es.map (·.coordinate)).Nodup) :
    ((nonzerosOf es).map (·.coordinate)).Pairwise Coordinate.Before := by
  have hne : ((nonzerosOf es).map (·.coordinate)).Nodup :=
    ((List.mergeSort_perm _ _).map _).nodup_iff.2 (h.sublist (List.filter_sublist.map _))
  have hle : (nonzerosOf es).Pairwise fun a b => a.coordinate.le b.coordinate = true :=
    List.pairwise_mergeSort (fun a b c => Coordinate.le_trans a.coordinate b.coordinate c.coordinate)
      (fun a b => Coordinate.le_total a.coordinate b.coordinate) _
  exact (List.pairwise_map.2 hle).and hne

/-- A coordinate is compared if the value there is not zero. -/
theorem mem_map_nonzerosOf (d : DataType) (h : (es.map (·.coordinate)).Nodup) (c : Coordinate) :
    c ∈ (nonzerosOf es).map (·.coordinate) ↔ (valueIn d es c).isZero = false := by
  constructor
  · intro hc
    obtain ⟨e, he, rfl⟩ := List.mem_map.1 hc
    obtain ⟨he, hzero⟩ := mem_nonzerosOf.1 he
    rwa [valueIn_of_mem h he]
  · intro hc
    by_cases hstored : ∃ e ∈ es, e.coordinate = c
    · obtain ⟨e, he, rfl⟩ := hstored
      rw [valueIn_of_mem h he] at hc
      exact List.mem_map_of_mem (mem_nonzerosOf.2 ⟨he, hc⟩)
    · rw [valueIn_of_not_mem fun e he hec => hstored ⟨e, he, hec⟩, Value.isZero_zero] at hc
      cases hc

/-- **The comparison is one of values**: lists of entries are equal when they say the same for every coordinate. -/
theorem entriesEqual_nonzerosOf (d : DataType) (hes : (es.map (·.coordinate)).Nodup)
    (hgs : (gs.map (·.coordinate)).Nodup) : entriesEqual (nonzerosOf es) (nonzerosOf gs) = true ↔
      ∀ c, (valueIn d es c).Same (valueIn d gs c) := by
  have hvalues : ∀ e ∈ nonzerosOf es, valueIn d es e.coordinate = e.value := fun e he =>
    valueIn_of_mem hes (mem_nonzerosOf.1 he).1
  have hvalues' : ∀ g ∈ nonzerosOf gs, valueIn d gs g.coordinate = g.value := fun g hg =>
    valueIn_of_mem hgs (mem_nonzerosOf.1 hg).1
  constructor
  · intro h c
    have hmap := map_coordinate_of_entriesEqual h
    by_cases hc : c ∈ (nonzerosOf es).map (·.coordinate)
    · obtain ⟨e, he, rfl⟩ := List.mem_map.1 hc
      obtain ⟨g, hg, hge⟩ := List.mem_map.1 (hmap ▸ hc)
      have hequals := equals_of_entriesEqual h ((pairwise_nonzerosOf hgs).imp fun hab => hab.2) e he g hg hge.symm
      rw [hvalues e he, ← hge, hvalues' g hg]
      exact .inl hequals
    -- what is compared on neither side is zero on both
    · have hc' := hmap ▸ hc
      rw [mem_map_nonzerosOf d hes, Bool.not_eq_false] at hc
      rw [mem_map_nonzerosOf d hgs, Bool.not_eq_false] at hc'
      exact .inr ⟨hc, hc'⟩
  · intro h
    refine entriesEqual_of_map_eq ?_ fun e he g hg hc => ?_
    · refine Coordinate.eq_of_mem_iff (pairwise_nonzerosOf hes) (pairwise_nonzerosOf hgs) fun c => ?_
      rw [mem_map_nonzerosOf d hes, mem_map_nonzerosOf d hgs, Bool.eq_false_iff, Bool.eq_false_iff, ne_eq, ne_eq,
        (h c).isZero_iff]
    · have hsame := h e.coordinate
      rw [hvalues e he, hc, hvalues' g hg] at hsame
      refine hsame.resolve_right fun hzero => ?_
      rw [(mem_nonzerosOf.1 he).2] at hzero
      cases hzero.1

theorem nonzeros_eq (h : t.storedEntries = .ok es) : t.nonzeros = .ok (nonzerosOf es) := by
  unfold nonzeros isPacked
  cases hs : t.storage? with
  | none =>
    rw [storedEntries, hs] at h
    cases h
    simp [nonzerosOf]
  | some s =>
    rw [storedEntries_eq hs] at h
    simp only [Option.isSome_some, if_true, h, ok_bind]
    rfl

/-- **Equality of tensors is equality of what they hold**: of kind, dimensions, and the value at every coordinate in
bounds. -/
theorem Stores.equals_iff (ha : a.Stores es) (hb : b.Stores gs) : a.equals b = true ↔
    a.dtype = b.dtype ∧ a.dimensions = b.dimensions ∧ ∀ c : Coordinate, c.length = a.dimensions.length →
      c.inBounds a.dimensions = true → (a.valueAt c).Same (b.valueAt c) := by
  unfold equals
  by_cases hshape : a.dtype ≠ b.dtype ∨ a.dimensions ≠ b.dimensions
  · rw [if_pos hshape]
    refine iff_of_false Bool.false_ne_true fun h => ?_
    exact hshape.elim (fun hd => hd h.1) fun hd => hd h.2.1
  · obtain ⟨hdtype, hdimensions⟩ : a.dtype = b.dtype ∧ a.dimensions = b.dimensions := by
      simpa only [not_or, not_not] using hshape
    rw [if_neg hshape, nonzeros_eq ha.entries, nonzeros_eq hb.entries]
    simp only [entriesEqual_nonzerosOf a.dtype ha.nodup hb.nodup, ha.valueAt_eq, hb.valueAt_eq, ← hdtype]
    constructor
    · intro h
      exact ⟨trivial, hdimensions, fun c _ _ => h c⟩
    · rintro ⟨-, -, h⟩ c
      by_cases hc : c.length = a.dimensions.length ∧ c.inBounds a.dimensions = true
      · exact h c hc.1 hc.2
      -- nothing is stored out of bounds
      · have hes : ∀ e ∈ es, e.coordinate ≠ c := by
          rintro e he rfl
          exact hc ⟨ha.length e he, ha.inBounds e he⟩
        have hgs : ∀ g ∈ gs, g.coordinate ≠ c := by
          rintro g hg rfl
          rw [hdimensions] at hc
          exact hc ⟨hb.length g hg, hb.inBounds g hg⟩
        rw [valueIn_of_not_mem hes, valueIn_of_not_mem hgs]
        exact Value.same_self (Value.isNaN_zero _)

theorem Stores.equals_of_valueAt_eq (ha : a.Stores es) (hb : b.Stores gs) (hdtype : a.dtype = b.dtype)
    (hdimensions : a.dimensions = b.dimensions) (hvalues : ∀ c : Coordinate, c.length = a.dimensions.length →
      c.inBounds a.dimensions = true → a.valueAt c = b.valueAt c ∧ (a.valueAt c).isNaN = false) :
    a.equals b = true := by
  refine (ha.equals_iff hb).2 ⟨hdtype, hdimensions, fun c hlen hin => ?_⟩
  obtain ⟨hvalue, hnumber⟩ := hvalues c hlen hin
  rw [← hvalue]
  exact Value.same_self hnumber

/-! ## Tensors that can be compared -/

/-- **A tensor that can be compared**: of a checked shape, and never packed or with a storage that fits, in which the
coordinates differ and no value is a NaN. -/
structure Comparable (t : Tensor) : Prop where
  shape : checkShape t.dimensions t.format = .ok ()
  fits : ∀ s, t.storage? = some s → s.checkFits t.format t.dimensions = .ok ()
  nodup : ∀ es, t.storedEntries = .ok es → (es.map (·.coordinate)).Nodup
  number : ∀ es, t.storedEntries = .ok es → ∀ e ∈ es, e.value.isNaN = false

theorem Comparable.stores (h : t.Comparable) : ∃ es, t.Stores es := by
  cases hs : t.storage? with
  | none =>
    have hnil : t.storedEntries = .ok [] := by rw [storedEntries, hs]
    exact ⟨[], hnil, .nil, fun e he => absurd he List.not_mem_nil, fun e he => absurd he List.not_mem_nil⟩
  | some s =>
    obtain ⟨levels, -, hentries, hall⟩ := Storage.entries_of_checkFits (checkShape_eq_ok h.shape).1 (h.fits s hs)
    have hstored : t.storedEntries = .ok (s.nestedEntries t.format levels) := by
      rw [storedEntries, hs]
      exact hentries
    exact ⟨_, hstored, h.nodup _ hstored, fun e he => (hall e he).1, fun e he => (hall e he).2.1⟩

theorem Comparable.isNaN_valueAt (h : t.Comparable) (c : Coordinate) : (t.valueAt c).isNaN = false := by
  obtain ⟨es, hes⟩ := h.stores
  exact hes.isNaN_valueAt (h.number es hes.entries) c

theorem Comparable.equals_iff (ha : a.Comparable) (hb : b.Comparable) : a.equals b = true ↔
    a.dtype = b.dtype ∧ a.dimensions = b.dimensions ∧ ∀ c : Coordinate, c.length = a.dimensions.length →
      c.inBounds a.dimensions = true → (a.valueAt c).Same (b.valueAt c) := by
  obtain ⟨es, hes⟩ := ha.stores
  obtain ⟨gs, hgs⟩ := hb.stores
  exact hes.equals_iff hgs

/-- **Equality is an equivalence** of the tensors that can be compared. -/
theorem equivalence_equals : Equivalence fun a b : { t : Tensor // t.Comparable } => a.1.equals b.1 = true where
  refl a := (a.2.equals_iff a.2).2 ⟨rfl, rfl, fun c _ _ => Value.same_self (a.2.isNaN_valueAt c)⟩
  symm {a b} h := by
    obtain ⟨hdtype, hdimensions, hvalues⟩ := (a.2.equals_iff b.2).1 h
    refine (b.2.equals_iff a.2).2 ⟨hdtype.symm, hdimensions.symm, fun c hlen hin => ?_⟩
    rw [← hdimensions] at hlen hin
    exact (hvalues c hlen hin).symm
  trans {a b c} h h' := by
    obtain ⟨hdtype, hdimensions, hvalues⟩ := (a.2.equals_iff b.2).1 h
    obtain ⟨hdtype', hdimensions', hvalues'⟩ := (b.2.equals_iff c.2).1 h'
    refine (a.2.equals_iff c.2).2 ⟨hdtype.trans hdtype', hdimensions.trans hdimensions', fun x hlen hin => ?_⟩
    exact (hvalues x hlen hin).trans (hvalues' x (hdimensions ▸ hlen) (hdimensions ▸ hin))

/-! ## Packing into different formats -/

variable {p : Packer} {pending inserts : List Entry}

/-- The records that a run of inserts lets wait are those that the tensor takes. -/
theorem Waits.run_inserts : ∀ (inserts : List Entry) {t : Tensor} {pending : List Entry}, t.Waits p pending →
    (t.run (inserts.map .insert)).2.Waits p (pending ++ inserts.filter (p.Takes ·)) ∧
      (t.run (inserts.map .insert)).2.storage? = t.storage?
  | [], t, pending, h => by
    rw [List.filter_nil, List.append_nil]
    exact ⟨h, rfl⟩
  | e :: inserts, t, pending, h => by
    obtain ⟨-, hwaits, hstorage⟩ := h.serve_insert e
    obtain ⟨hwaits', hstorage'⟩ := Waits.run_inserts inserts hwaits
    refine ⟨?_, hstorage'.trans hstorage⟩
    by_cases he : p.Takes e
    · rw [if_pos he, List.append_assoc, List.singleton_append] at hwaits'
      rw [List.filter_cons, if_pos (decide_eq_true he)]
      exact hwaits'
    · rw [if_neg he] at hwaits'
      rw [List.filter_cons, if_neg (by simpa using he)]
      exact hwaits'

/-- **A first pack of a list of inserts** says for a coordinate what the inserts that were taken come to there. -/
theorem stores_of_inserts {name : String} {dimensions : List Nat} {format : Format} {options : Options}
    (hnew : new name d dimensions format options = .ok t)
    (hcount : (inserts.map (·.coordinate)).eraseDups.length ≤ maxIndex)
    (hpack : (t.run (inserts.map .insert)).2.pack = .ok a) :
    (∃ es, a.Stores es) ∧ a.dtype = d ∧ a.dimensions = dimensions ∧
      ∀ c : Coordinate, c.length = dimensions.length → c.inBounds dimensions = true →
        options.policy.packed? d none (valuesAt
          (inserts.filter ((⟨dimensions, format, d, options.policy⟩ : Packer).Takes ·)) c) = some (a.valueAt c) := by
  obtain ⟨hwaits, hnone⟩ := waits_of_new hnew
  obtain ⟨hwaits, hstorage⟩ := hwaits.run_inserts inserts
  rw [List.nil_append] at hwaits
  have hsub : ∀ c ∈ (inserts.filter ((⟨dimensions, format, d, options.policy⟩ : Packer).Takes ·)).map
      Entry.coordinate, c ∈ (inserts.map (·.coordinate)).eraseDups := fun c hc => by
    obtain ⟨e, he, rfl⟩ := List.mem_map.1 hc
    exact List.mem_eraseDups.2 (List.mem_map_of_mem (List.mem_filter.1 he).1)
  obtain ⟨es, hpacked⟩ := packedFrom_of_pack hwaits (hstorage.trans hnone)
    (Nat.le_trans (length_eraseDups_le hsub) hcount) hpack
  have hdtype : a.dtype = d := congrArg Packer.dtype hpacked.waits.packer
  refine ⟨⟨es, hpacked.stores⟩, hdtype, congrArg Packer.dimensions hpacked.waits.packer, fun c hlen hin => ?_⟩
  rw [hpacked.stores.valueAt_eq, hdtype]
  exact hpacked.lists.valueIn_eq hlen hin

/-- **Equality does not depend on the format**: a list of inserts that is packed without NaNs makes equal tensors in any
two formats. -/
theorem equals_of_inserts {name name' : String} {dimensions : List Nat} {format format' : Format}
    {options options' : Options} {u : Tensor} (hnew : new name d dimensions format options = .ok t)
    (hnew' : new name' d dimensions format' options' = .ok u) (hpolicy : options.policy = options'.policy)
    (hcount : (inserts.map (·.coordinate)).eraseDups.length ≤ maxIndex)
    (hpack : (t.run (inserts.map .insert)).2.pack = .ok a) (hpack' : (u.run (inserts.map .insert)).2.pack = .ok b)
    (hnumber : ∀ c, (a.valueAt c).isNaN = false) : a.equals b = true := by
  obtain ⟨⟨es, hes⟩, hdtype, hdimensions, hvalues⟩ := stores_of_inserts hnew hcount hpack
  obtain ⟨⟨gs, hgs⟩, hdtype', hdimensions', hvalues'⟩ := stores_of_inserts hnew' hcount hpack'
  refine hes.equals_of_valueAt_eq hgs (hdtype.trans hdtype'.symm) (hdimensions.trans hdimensions'.symm)
    fun c hlen hin => ⟨?_, hnumber c⟩
  rw [hdimensions] at hlen hin
  have hvalue := hvalues c hlen hin
  rw [hpolicy] at hvalue
  exact Option.some.inj (hvalue.symm.trans (hvalues' c hlen hin))

theorem nonzeros_congr {u : Tensor} (hstorage : u.storage? = t.storage?) (hformat : u.format = t.format) :
    u.nonzeros = t.nonzeros := by
  unfold nonzeros isPacked
  rw [hstorage]
  cases hs : t.storage? with
  | none => rfl
  | some s => rw [entries_eq hs, entries_eq (hstorage.trans hs), hformat]

/-- **Equality decides whether tensors hold the same values.**  Tensors that can be compared are equal when kind and
dimensions are and the values at every coordinate in bounds are the same, where what is not stored is zero; waiting
records make no difference.  It is an equivalence of these tensors, and a list of inserts that is packed without NaNs
makes equal tensors in any two formats. -/
theorem equals_decides :
    (∀ a b : Tensor, a.Comparable → b.Comparable → (a.equals b = true ↔
      a.dtype = b.dtype ∧ a.dimensions = b.dimensions ∧ ∀ c : Coordinate, c.length = a.dimensions.length →
        c.inBounds a.dimensions = true → (a.valueAt c).Same (b.valueAt c))) ∧
    (∀ (a b : Tensor) (waiting waiting' : CoordinateBuffer),
      { a with buffer := waiting }.equals { b with buffer := waiting' } = a.equals b) ∧
    (Equivalence fun a b : { t : Tensor // t.Comparable } => a.1.equals b.1 = true) ∧
    ∀ (name name' : String) (d : DataType) (dimensions : List Nat) (format format' : Format)
      (policy : DuplicatePolicy) (capacity capacity' : Nat) (inserts : List Entry) (t u a b : Tensor),
      new name d dimensions format ⟨policy, capacity⟩ = .ok t →
      new name' d dimensions format' ⟨policy, capacity'⟩ = .ok u →
      (inserts.map (·.coordinate)).eraseDups.length ≤ maxIndex →
      (t.run (inserts.map .insert)).2.pack = .ok a → (u.run (inserts.map .insert)).2.pack = .ok b →
      (∀ c, (a.valueAt c).isNaN = false) → a.equals b = true := by
  refine ⟨fun a b ha hb => ha.equals_iff hb, fun a b waiting waiting' => ?_, equivalence_equals, ?_⟩
  · unfold equals
    rw [nonzeros_congr (t := a) (u := { a with buffer := waiting }) rfl rfl,
      nonzeros_congr (t := b) (u := { b with buffer := waiting' }) rfl rfl]
  · intro name name' d dimensions format format' policy capacity capacity' inserts t u a b hnew hnew' hcount hpack hpack'
    exact equals_of_inserts hnew hnew' rfl hcount hpack hpack'

theorem comparable_of_entries (es : List Entry) {s : Storage} (hshape : checkShape t.dimensions t.format = .ok ())
    (hs : t.storage? = some s) (hfits : s.checkFits t.format t.dimensions = .ok ())
    (hes : t.storedEntries = .ok es) (hnodup : (es.map (·.coordinate)).Nodup)
    (hnumber : ∀ e ∈ es, e.value.isNaN = false) : t.Comparable := by
  refine ⟨hshape, fun s' hs' => ?_, fun gs hgs => ?_, fun gs hgs => ?_⟩
  · rw [hs] at hs'
    cases hs'
    exact hfits
  · rw [hes] at hgs
    cases hgs
    exact hnodup
  · rw [hes] at hgs
    cases hgs
    exact hnumber

/-- A row that stores a minus zero and a row that leaves it out; and inserts packed by rows and in full. -/
theorem equals_decides_rows :
    let f : Format := ⟨[.compressed], [0], rfl, by decide⟩
    let one : Binary64 := .ofCode .double false 4607182418800017408
    let full : Tensor := ⟨"A", [2], .float64, .dense 1, {}, .new 1 .float64,
      some ⟨⟨[.dense 2], 2⟩, .ofArray .float64 #[.ofCode .double true 0, one]⟩, 1⟩
    let sparse : Tensor := ⟨"B", [2], .float64, f, {}, .new 1 .float64,
      some ⟨⟨[.compressed { data := #[0, 1] } { data := #[1] }], 1⟩, .ofArray .float64 #[one]⟩, 1⟩
    let inserts : List Entry := [⟨[1, 0], ⟨.int32, (7 : Int32)⟩⟩, ⟨[0, 1], ⟨.int32, (0 : Int32)⟩⟩]
    let rows : Tensor := ⟨"C", [2, 2], .int32, .csr, ⟨.sum, 0⟩, ⟨2, .int32, #[], #[], 2⟩,
      some ⟨⟨[.dense 2, .compressed { data := #[0, 1, 2] } { data := #[1, 0] }], 2⟩, .ofArray .int32 #[0, 7]⟩, 1⟩
    full.equals sparse = true ∧ (full.valueAt [0]).Same (sparse.valueAt [0]) ∧ sparse.equals full = true ∧
      ∃ t u b, new "C" .int32 [2, 2] .csr ⟨.sum, 0⟩ = .ok t ∧ new "D" .int32 [2, 2] (.dense 2) ⟨.sum, 0⟩ = .ok u ∧
        (t.run (inserts.map .insert)).2.pack = .ok rows ∧ (u.run (inserts.map .insert)).2.pack = .ok b ∧
        rows.equals b = true := by
  intro f one full sparse inserts rows
  obtain ⟨hiff, -, hequivalence, hinserts⟩ := equals_decides
  have hfull : full.Comparable :=
    comparable_of_entries [⟨[0], ⟨.float64, .ofCode .double true 0⟩⟩, ⟨[1], ⟨.float64, one⟩⟩] rfl rfl rfl rfl
      (by decide) (by decide +kernel)
  have hsparse : sparse.Comparable :=
    comparable_of_entries [⟨[1], ⟨.float64, one⟩⟩] rfl rfl rfl rfl (by decide) (by decide +kernel)
  have hrows : rows.Comparable :=
    comparable_of_entries [⟨[0, 1], ⟨.int32, (0 : Int32)⟩⟩, ⟨[1, 0], ⟨.int32, (7 : Int32)⟩⟩] rfl rfl rfl rfl
      (by decide) (by decide)
  have hequals : full.equals sparse = true := by decide +kernel
  have hsame := ((hiff full sparse hfull hsparse).1 hequals).2.2 [0] rfl rfl
  have hsymm := hequivalence.symm (x := ⟨full, hfull⟩) (y := ⟨sparse, hsparse⟩) hequals
  obtain ⟨t, ht⟩ : ∃ t, new "C" .int32 [2, 2] .csr ⟨.sum, 0⟩ = .ok t := ⟨_, rfl⟩
  obtain ⟨u, hu⟩ : ∃ u, new "D" .int32 [2, 2] (.dense 2) ⟨.sum, 0⟩ = .ok u := ⟨_, rfl⟩
  have ha : (t.run (inserts.map .insert)).2.pack = .ok rows := by
    cases ht
    cbv
  obtain ⟨b, hb⟩ : ∃ b, (u.run (inserts.map .insert)).2.pack = .ok b := by
    cases hu
    exact ⟨_, by cbv⟩
  exact ⟨hequals, hsame, hsymm, t, u, b, ht, hu, ha, hb, hinserts "C" "D" .int32 [2, 2] .csr (.dense 2) .sum 0 0
    inserts t u rows b ht hu (by decide) ha hb hrows.isNaN_valueAt⟩

end Tensor

end TensorStorage
