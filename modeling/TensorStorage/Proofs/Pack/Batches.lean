import TensorStorage.Proofs.Pack.RoundTrip
/-!
# Batches — packing in two goes and in one

The entries of a packed storage stand for everything that went into it: merging more records over them makes the storage
that all the records together make, array for array, as long as the policy keeps a running total (`Running`) at every
coordinate.  The last value is one for every kind, the sum one for the integers.
-/
namespace TensorStorage

/-! ## Running totals -/

/-- **A total that can be taken up where it was left**: what comes after a total of values is totalled as if it came
after the values. -/
structure Running (d : DataType) (total : List Value → Value) : Prop where
  nil : total [] = .zero d
  cons : ∀ l m, total (total l :: m) = total (l ++ m)

def lastOf (d : DataType) (values : List Value) : Value := values.getLast?.getD (.zero d)

def scalarsOf (d : DataType) (values : List Value) : List d.Scalar := values.filterMap (·.as? d)

def sumOf (d : DataType) (values : List Value) : Value := ⟨d, (scalarsOf d values).foldl d.add d.zero⟩

theorem scalarsOf_cons (d : DataType) (x : d.Scalar) (values : List Value) :
    scalarsOf d (⟨d, x⟩ :: values) = x :: scalarsOf d values := by
  rw [scalarsOf, List.filterMap_cons, Value.as?_self ⟨d, x⟩]
  rfl

theorem scalarsOf_append (d : DataType) (l m : List Value) : scalarsOf d (l ++ m) = scalarsOf d l ++ scalarsOf d m :=
  List.filterMap_append

theorem exists_scalar {d : DataType} {v : Value} (h : v.dtype = d) : ∃ x, v = ⟨d, x⟩ := by
  subst h
  exact ⟨v.scalar, rfl⟩

theorem running_lastOf (d : DataType) : Running d (lastOf d) where
  nil := rfl
  cons l m := by
    cases m with
    | nil => rw [List.append_nil]; rfl
    | cons v m =>
      have hne : (v :: m).getLast? = some ((v :: m).getLast (by simp)) := List.getLast?_eq_some_getLast _
      simp only [lastOf, List.getLast?_cons_cons, List.getLast?_append, hne, Option.some_or]

theorem add_assoc_of_isIntegral {d : DataType} (h : d.isIntegral = true) (x y z : d.Scalar) :
    d.add (d.add x y) z = d.add x (d.add y z) := by
  cases d with
  | int32 => exact Int32.add_assoc x y z
  | int64 => exact Int64.add_assoc x y z
  | _ => cases h

theorem zero_add_of_isIntegral {d : DataType} (h : d.isIntegral = true) (x : d.Scalar) : d.add d.zero x = x := by
  cases d with
  | int32 => exact Int32.zero_add x
  | int64 => exact Int64.zero_add x
  | _ => cases h

theorem running_sumOf {d : DataType} (h : d.isIntegral = true) : Running d (sumOf d) where
  nil := rfl
  cons l m := by
    rw [sumOf, sumOf, sumOf, scalarsOf_cons, scalarsOf_append, List.foldl_cons, List.foldl_append,
      zero_add_of_isIntegral h]

namespace DuplicatePolicy

/-- **The values at a coordinate come to their total**, stored ones first. -/
def Totals (policy : DuplicatePolicy) (d : DataType) (total : List Value → Value) (incoming : List Value) : Prop :=
  ∀ stored : List Value, (∀ v ∈ stored ++ incoming, v.dtype = d) →
    (policy.settle? stored incoming).getD (.zero d) = total (stored ++ incoming)

theorem getLast?_append_toList (l m : List Value) : (l ++ m.getLast?.toList).getLast? = (l ++ m).getLast? := by
  cases h : m.getLast? with
  | none => rw [List.getLast?_eq_none_iff.1 h]; rfl
  | some v => simp [h]

theorem totals_lastWins (d : DataType) (incoming : List Value) : lastWins.Totals d (lastOf d) incoming := by
  intro stored _
  rw [settle?, overStored, resolve?_lastWins, resolve?_lastWins, getLast?_append_toList, lastOf]

theorem totals_reject (d : DataType) {incoming : List Value} (h : incoming.length ≤ 1) :
    reject.Totals d (lastOf d) incoming := by
  intro stored _
  have htoList : (reject.resolve? incoming).toList = incoming := by
    match incoming, h with
    | [], _ => rfl
    | [v], _ => rfl
  rw [settle?, htoList, overStored, resolve?_lastWins, lastOf]

theorem foldlM_combine?_sum {d : DataType} : ∀ (values : List Value) (x : d.Scalar), (∀ v ∈ values, v.dtype = d) →
    values.foldlM sum.combine? ⟨d, x⟩ = some ⟨d, (scalarsOf d values).foldl d.add x⟩
  | [], _, _ => rfl
  | v :: values, x, hd => by
    obtain ⟨y, rfl⟩ := exists_scalar (hd v List.mem_cons_self)
    have hadd : sum.combine? ⟨d, x⟩ ⟨d, y⟩ = some ⟨d, d.add x y⟩ := congrArg (Option.map _) (Value.as?_self ⟨d, y⟩)
    rw [List.foldlM_cons, hadd, Option.bind_eq_bind, Option.bind_some, scalarsOf_cons, List.foldl_cons,
      foldlM_combine?_sum values _ fun v hv => hd v (List.mem_cons_of_mem _ hv)]

theorem resolve?_sum {d : DataType} (h : d.isIntegral = true) {values : List Value} (hd : ∀ v ∈ values, v.dtype = d) :
    sum.resolve? values = if values = [] then none else some (sumOf d values) := by
  cases values with
  | nil => rfl
  | cons v values =>
    obtain ⟨y, rfl⟩ := exists_scalar (hd v List.mem_cons_self)
    rw [if_neg (by simp), sumOf, scalarsOf_cons, List.foldl_cons, zero_add_of_isIntegral h]
    exact foldlM_combine?_sum values y fun v hv => hd v (List.mem_cons_of_mem _ hv)

theorem foldl_add_zero {d : DataType} (h : d.isIntegral = true) : ∀ (l : List d.Scalar) (x : d.Scalar),
    l.foldl d.add x = d.add x (l.foldl d.add d.zero)
  | [], x => by
    cases d with
    | int32 => exact (Int32.add_zero x).symm
    | int64 => exact (Int64.add_zero x).symm
    | _ => cases h
  | y :: l, x => by
    rw [List.foldl_cons, List.foldl_cons, foldl_add_zero h l (d.add x y), zero_add_of_isIntegral h,
      foldl_add_zero h l y, add_assoc_of_isIntegral h]

theorem totals_sum {d : DataType} (h : d.isIntegral = true) (incoming : List Value) :
    sum.Totals d (sumOf d) incoming := by
  intro stored hd
  have hstored : ∀ v ∈ stored, v.dtype = d := fun v hv => hd v (List.mem_append_left _ hv)
  have hincoming : ∀ v ∈ incoming, v.dtype = d := fun v hv => hd v (List.mem_append_right _ hv)
  rw [settle?, overStored, resolve?_sum h hincoming]
  by_cases hnil : incoming = []
  · rw [if_pos hnil, hnil, Option.toList_none, List.append_nil, resolve?_sum h hstored]
    split
    · rename_i hs
      rw [hs]
      rfl
    · rfl
  · rw [if_neg hnil, Option.toList_some, resolve?_sum h fun v hv => by
      rcases List.mem_append.1 hv with hv | hv
      · exact hstored v hv
      · rw [List.mem_singleton.1 hv]; rfl]
    rw [if_neg (by simp), Option.getD_some]
    rw [sumOf, sumOf, sumOf, scalarsOf_append, scalarsOf_append, scalarsOf_cons, List.foldl_append, List.foldl_append,
      foldl_add_zero h (scalarsOf d incoming) ((scalarsOf d stored).foldl d.add d.zero)]
    rfl

end DuplicatePolicy

/-! ## Two goes -/

namespace Packer

variable {p : Packer} {stored first second entries : List Entry} {out : List Record} {s : Storage}

theorem LaysOut.withPolicy (policy : DuplicatePolicy) (h : { p with policy }.LaysOut out) : p.LaysOut out :=
  ⟨h.inOrder, h.length, h.inBounds, h.dtype⟩

theorem LaysOut.valuesAt_entryAt (h : p.LaysOut out) {x : Coordinate} (hx : x.length = p.format.order) :
    valuesAt ((p.leaves out).map (p.entryAt out)) (p.format.fromLevels x) =
      if x ∈ p.leaves out then [p.valueOf out x] else [] := by
  by_cases hmem : x ∈ p.leaves out
  · rw [if_pos hmem]
    exact valuesAt_of_nodup h.nodup_entryAt (List.mem_map_of_mem hmem)
  · rw [if_neg hmem, valuesAt_eq_nil_iff]
    intro e he hc
    obtain ⟨y, hy, rfl⟩ := List.mem_map.1 he
    have hyx := congrArg p.format.keyOf hc
    rw [entryAt, Format.keyOf_fromLevels (h.nodesAt_leaves.length y hy), Format.keyOf_fromLevels hx] at hyx
    exact hmem (hyx ▸ hy)

theorem Resolved.admits_entryAt (h : p.Resolved stored first out) (horder : p.format.order = p.dimensions.length) :
    ∀ e ∈ (p.leaves out).map (p.entryAt out), p.Admits e := by
  intro e he
  obtain ⟨x, hx, rfl⟩ := List.mem_map.1 he
  obtain ⟨hlen, hin, -⟩ := (h.fromLevels_mem_iff horder).1 (List.mem_map_of_mem hx)
  exact ⟨hlen, rfl, hin⟩

/-- Every entry of a storage begins like an entry that went into it, up to the last compressed level. -/
theorem Resolved.exists_stem (h : p.Resolved stored first out) (h0 : p.pinned ≠ 0) {e : Entry}
    (he : e ∈ (p.leaves out).map (p.entryAt out)) : ∃ e' ∈ stored ++ first,
      (p.format.keyOf e'.coordinate).take p.pinned = (p.format.keyOf e.coordinate).take p.pinned := by
  obtain ⟨x, hx, rfl⟩ := List.mem_map.1 he
  obtain ⟨hlen, -, hpin⟩ := h.laysOut.mem_leaves.1 hx
  obtain ⟨r, hr, hstem⟩ := hpin.resolve_left h0
  obtain ⟨e', he', hkey⟩ := h.exists_entry hr
  refine ⟨e', he', ?_⟩
  rw [← hkey, hstem, entryAt, Format.keyOf_fromLevels hlen]

theorem Resolved.exists_entryAt (h : p.Resolved stored first out) {e : Entry} (he : e ∈ stored ++ first) :
    ∃ e' ∈ (p.leaves out).map (p.entryAt out), p.format.keyOf e'.coordinate = p.format.keyOf e.coordinate := by
  obtain ⟨r, hr, hkey⟩ := h.occurs e he
  refine ⟨_, List.mem_map_of_mem (h.laysOut.key_mem_leaves hr), ?_⟩
  rw [entryAt, Format.keyOf_fromLevels (h.laysOut.length r hr), hkey]

/-- Where every entry begins like one of the others, so does every key. -/
theorem Resolved.exists_key {q : Packer} {stored' first' : List Entry} {out' : List Record} {n : Nat}
    (hq : q.format = p.format) (h : p.Resolved stored first out) (h' : q.Resolved stored' first' out')
    (hstems : ∀ e ∈ stored ++ first, ∃ e' ∈ stored' ++ first',
      (p.format.keyOf e'.coordinate).take n = (p.format.keyOf e.coordinate).take n) {k : Coordinate}
    (hk : k ∈ out.map (·.key)) : ∃ k' ∈ out'.map (·.key), k'.take n = k.take n := by
  obtain ⟨r, hr, rfl⟩ := List.mem_map.1 hk
  obtain ⟨e, he, hkey⟩ := h.exists_entry hr
  obtain ⟨e', he', hstem⟩ := hstems e he
  obtain ⟨r', hr', hkey'⟩ := h'.occurs e' he'
  refine ⟨r'.key, List.mem_map_of_mem hr', ?_⟩
  rw [hkey', hq, hstem, hkey]

/-- **Two goes begin alike**: the entries of the first storage agree with what went into it up to the last compressed
level, and everything that went into it is among them. -/
theorem samePinned_batches {out₁ out₂ : List Record} {q : Packer} (hq : q.format = p.format)
    (h : p.Resolved stored first out)
    (h₁ : p.Resolved ((p.leaves out).map (p.entryAt out)) second out₁)
    (h₂ : q.Resolved stored (first ++ second) out₂) :
    SamePinned 0 p.format.types (out₁.map (·.key)) (out₂.map (·.key)) := by
  by_cases h0 : p.pinned = 0
  · exact .inl h0
  have hforward : ∀ e ∈ (p.leaves out).map (p.entryAt out) ++ second, ∃ e' ∈ stored ++ (first ++ second),
      (p.format.keyOf e'.coordinate).take p.pinned = (p.format.keyOf e.coordinate).take p.pinned := by
    intro e he
    rw [← List.append_assoc]
    rcases List.mem_append.1 he with he | he
    · obtain ⟨e', he', hstem⟩ := h.exists_stem h0 he
      exact ⟨e', List.mem_append_left _ he', hstem⟩
    · exact ⟨e, List.mem_append_right _ he, rfl⟩
  have hback : ∀ e ∈ stored ++ (first ++ second), ∃ e' ∈ (p.leaves out).map (p.entryAt out) ++ second,
      (q.format.keyOf e'.coordinate).take p.pinned = (q.format.keyOf e.coordinate).take p.pinned := by
    intro e he
    rw [← List.append_assoc] at he
    rcases List.mem_append.1 he with he | he
    · obtain ⟨e', he', hkey⟩ := h.exists_entryAt he
      exact ⟨e', List.mem_append_left _ he', by rw [hq, hkey]⟩
    · exact ⟨e, List.mem_append_right _ he, rfl⟩
  refine .inr fun x => ?_
  rw [Nat.zero_add, ← pinned]
  constructor
  · rintro ⟨k, hk, rfl⟩
    exact h₁.exists_key hq h₂ hforward hk
  · rintro ⟨k, hk, rfl⟩
    exact h₂.exists_key hq.symm h₁ hback hk

theorem Resolved.valueOf_total {total : List Value → Value} (h : p.Resolved stored first out) {x : Coordinate}
    (hx : x.length = p.format.order)
    (htotals : p.policy.Totals p.dtype total (valuesAt first (p.format.fromLevels x))) :
    p.valueOf out x = total (valuesAt (stored ++ first) (p.format.fromLevels x)) := by
  rw [h.valueOf_settle hx, valuesAt_append]
  refine htotals _ fun v hv => ?_
  rw [← valuesAt_append] at hv
  obtain ⟨e, he, -, rfl⟩ := mem_of_mem_valuesAt hv
  exact (h.admits e he).dtype

/-- **Two goes come to the same values.** -/
theorem valueOf_batches {out₁ out₂ : List Record} {policy : DuplicatePolicy} {total : List Value → Value}
    (htotal : Running p.dtype total)
    (hfirst : ∀ c, p.policy.Totals p.dtype total (valuesAt first c))
    (hsecond : ∀ c, p.policy.Totals p.dtype total (valuesAt second c))
    (hboth : ∀ c, policy.Totals p.dtype total (valuesAt (first ++ second) c)) (h : p.Resolved stored first out)
    (h₁ : p.Resolved ((p.leaves out).map (p.entryAt out)) second out₁)
    (h₂ : { p with policy }.Resolved stored (first ++ second) out₂) {x : Coordinate} (hx : x.length = p.format.order) :
    p.valueOf out₁ x = p.valueOf out₂ x := by
  have hvalue₂ : p.valueOf out₂ x = _ := h₂.valueOf_total hx (hboth _)
  rw [h₁.valueOf_total hx (hsecond _), hvalue₂, ← List.append_assoc, valuesAt_append, valuesAt_append _ second,
    h.laysOut.valuesAt_entryAt hx]
  by_cases hmem : x ∈ p.leaves out
  · rw [if_pos hmem, h.valueOf_total hx (hfirst _)]
    exact htotal.cons _ _
  · -- a coordinate that is no leaf had no values in the first go
    have hnil : valuesAt (stored ++ first) (p.format.fromLevels x) = [] := valuesAt_eq_nil_iff.2 fun e he hc => by
      obtain ⟨r, hr, hkey⟩ := h.occurs e he
      rw [hc, Format.keyOf_fromLevels hx] at hkey
      exact hmem (hkey ▸ h.laysOut.key_mem_leaves hr)
    rw [if_neg hmem, hnil]

theorem entries_of_merge (h : p.merge stored first = .ok s) (hentries : s.entries p.format = .ok entries) :
    p.check = .ok () ∧ ∃ out, p.Resolved stored first out ∧ p.lay out = .ok s ∧
      entries = (p.leaves out).map (p.entryAt out) := by
  obtain ⟨hc, out, hresolve, hlay⟩ := merge_eq_ok h
  have hout := resolve_eq_ok (check_eq_ok hc).1 hresolve
  obtain ⟨levels, hlevels⟩ := Storage.checkedLevels_of_entries hentries
  have hfits := fits_of_checkedLevels hc hout.laysOut hlay hlevels
  have heq := Storage.entries_of_checkedLevels (checkedLevels_of_lay hc hout.laysOut hlay hfits)
  rw [hentries, nestedEntries_of_lay hc hout.laysOut hlay hfits] at heq
  cases heq
  exact ⟨hc, out, hout, hlay, rfl⟩

/-- **Packing in two goes is packing in one**, with the same storage or the same failure. -/
theorem merge_batches {policy : DuplicatePolicy} {total : List Value → Value} (htotal : Running p.dtype total)
    (hfirst : ∀ c, p.policy.Totals p.dtype total (valuesAt first c))
    (hsecond : ∀ c, p.policy.Totals p.dtype total (valuesAt second c))
    (hboth : ∀ c, policy.Totals p.dtype total (valuesAt (first ++ second) c))
    (hreject : p.policy = .reject → (second.map (·.coordinate)).Nodup) (hpolicy : policy ≠ .reject)
    (h : p.merge stored first = .ok s) (hentries : s.entries p.format = .ok entries) :
    p.merge entries second = { p with policy }.merge stored (first ++ second) := by
  obtain ⟨hc, out, hout, -, rfl⟩ := entries_of_merge h hentries
  have hc' : { p with policy }.check = .ok () := hc
  have horder := (check_eq_ok hc).1
  have hagain := hout.admits_entryAt horder
  have hbefore : ∀ e ∈ stored ++ first, { p with policy }.Admits e := fun e he =>
    ⟨(hout.admits e he).length, (hout.admits e he).dtype, (hout.admits e he).inBounds⟩
  rw [merge, merge, hc, hc']
  by_cases hadmits : ∀ e ∈ second, p.Admits e
  · have hall : ∀ e ∈ stored ++ (first ++ second), { p with policy }.Admits e := fun e he => by
      rw [← List.append_assoc] at he
      rcases List.mem_append.1 he with he | he
      · exact hbefore e he
      · exact ⟨(hadmits e he).length, (hadmits e he).dtype, (hadmits e he).inBounds⟩
    obtain ⟨out₁, hresolve₁⟩ : ∃ out₁, p.resolve ((p.leaves out).map (p.entryAt out)) second = .ok out₁ :=
      resolve_isOk horder (fun e he => (List.mem_append.1 he).elim (hagain e) (hadmits e)) hreject
    obtain ⟨out₂, hresolve₂⟩ : ∃ out₂, { p with policy }.resolve stored (first ++ second) = .ok out₂ :=
      resolve_isOk (p := { p with policy }) horder hall fun hp => absurd hp hpolicy
    have hout₁ := resolve_eq_ok horder hresolve₁
    have hout₂ := resolve_eq_ok (p := { p with policy }) horder hresolve₂
    rw [hresolve₁, hresolve₂]
    refine lay_congr hc hout₁.laysOut (hout₂.laysOut.withPolicy policy) ?_ fun x hx => ?_
    · exact samePinned_batches (q := { p with policy }) rfl hout hout₁ hout₂
    · exact valueOf_batches htotal hfirst hsecond hboth hout hout₁ hout₂ (hout₁.laysOut.nodesAt_leaves.length x hx)
  -- a record of the second go is refused, by both for the same reason
  · cases hsecond' : p.collect second with
    | ok records => exact absurd ((collect_eq_ok horder).1 hsecond').1 hadmits
    | error e =>
      have hresolve₁ : p.resolve ((p.leaves out).map (p.entryAt out)) ([] ++ second) = .error e :=
        resolve_eq_error horder hagain (fun e he => by cases he) hsecond'
      have hresolve₂ : { p with policy }.resolve stored (first ++ second) = .error e :=
        resolve_eq_error (p := { p with policy }) horder (fun e he => hbefore e (List.mem_append_left _ he))
          (fun e he => hbefore e (List.mem_append_right _ he)) hsecond'
      rw [List.nil_append] at hresolve₁
      rw [hresolve₁, hresolve₂]
      rfl

end Packer

end TensorStorage
