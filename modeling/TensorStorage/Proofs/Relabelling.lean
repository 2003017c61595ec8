import TensorStorage.Proofs.Pack.Verdict
/-!
# Relabelling — what a mode ordering does

A format lays out coordinates by their numbers in level order.  So packing under it makes the storage that is packed of
the numbers in level order under the same mode types with the dimensions in their own order (`Packer.merge_relabelled`),
and a walk under it answers what the other walk answers, with the numbers put back (`relabelling`).
-/
namespace TensorStorage

namespace Format

variable {f : Format} {c k : Coordinate}

/-- The same mode types, with the dimensions in their own order. -/
def straight (f : Format) : Format where
  types := f.types
  ordering := List.range f.order
  length_eq := by simp [order]
  isPermutation := by simp

/-- A coordinate with its numbers in level order.  One of another order is left as it is. -/
def relabel (f : Format) (c : Coordinate) : Coordinate := if c.length = f.order then f.keyOf c else c

@[simp] theorem order_straight (f : Format) : f.straight.order = f.order := rfl

@[simp] theorem length_relabel (f : Format) (c : Coordinate) : (f.relabel c).length = c.length := by
  unfold relabel
  split
  · rename_i h
    rw [length_keyOf, h]
  · rfl

theorem keyOf_straight (hc : c.length = f.order) : f.straight.keyOf c = c := by
  refine List.ext_getElem (by rw [length_keyOf, order_straight, hc]) fun i hi hi' => ?_
  simp [keyOf, straight, hi']

theorem fromLevels_straight (hk : k.length = f.order) : f.straight.fromLevels k = k := by
  have h := fromLevels_keyOf (f := f.straight) hk
  rwa [keyOf_straight hk] at h

theorem keyOf_relabel (hc : c.length = f.order) : f.straight.keyOf (f.relabel c) = f.keyOf c := by
  rw [relabel, if_pos hc, keyOf_straight (length_keyOf f c)]

theorem keyOf_perm (hc : c.length = f.order) : (f.keyOf c).Perm c := by
  have h : (f.keyOf c).Perm ((List.range f.ordering.length).map fun d => c.getD d 0) := f.isPermutation.map _
  rw [f.ordering_length] at h
  exact h.trans (.of_eq (keyOf_straight hc))

end Format

def Entry.relabelled (f : Format) (e : Entry) : Entry := { e with coordinate := f.relabel e.coordinate }

/-! ## Packing -/

section Collapse

variable {f f' : Format} {policy : DuplicatePolicy}

/-- The format is only read to word a refusal. -/
theorem collapseFrom_of_format : ∀ {rest : List Record} {held : Record} {out : List Record},
    collapseFrom f policy held rest = .ok out → collapseFrom f' policy held rest = .ok out
  | [], _, _, h => h
  | next :: rest, held, out, h => by
    rw [collapseFrom] at h ⊢
    split
    · rename_i hkey
      rw [if_pos hkey, bind_eq_ok] at h
      obtain ⟨held', hcombine, h⟩ := h
      have hcombine' : policy.combine f' held next = .ok held' :=
        DuplicatePolicy.combine_eq_ok.2 (DuplicatePolicy.combine_eq_ok.1 hcombine)
      rw [hcombine', ok_bind]
      exact collapseFrom_of_format h
    · rename_i hkey
      rw [if_neg hkey, bind_eq_ok] at h
      obtain ⟨resolved, hresolved, h⟩ := h
      cases h
      rw [collapseFrom_of_format hresolved]
      rfl

theorem resolveDuplicates_of_format {records out : List Record} (h : resolveDuplicates f policy records = .ok out) :
    resolveDuplicates f' policy records = .ok out := by
  unfold resolveDuplicates at h ⊢
  cases hsorted : sortRecords records with
  | nil =>
    rw [hsorted] at h
    exact h
  | cons first rest =>
    rw [hsorted] at h
    exact collapseFrom_of_format h

end Collapse

namespace Packer

variable {p : Packer} {stored records : List Entry} {s : Storage}

/-- The packer of relabelled entries. -/
def relabelled (p : Packer) : Packer :=
  { p with dimensions := p.format.relabel p.dimensions, format := p.format.straight }

theorem shaped_relabelled : p.relabelled.Shaped ↔ p.Shaped := by
  have hlength : p.relabelled.dimensions.length = p.dimensions.length := p.format.length_relabel p.dimensions
  have hextents : p.format.order = p.dimensions.length →
      ((∀ d ∈ p.relabelled.dimensions, d ≤ maxIndex) ↔ ∀ d ∈ p.dimensions, d ≤ maxIndex) := fun horder => by
    simp only [relabelled, Format.relabel, if_pos horder.symm, (Format.keyOf_perm horder.symm).mem_iff]
  constructor
  · rintro ⟨horder, hsupported, h⟩
    have horder' : p.format.order = p.dimensions.length := horder.trans hlength
    exact ⟨horder', hsupported, (hextents horder').1 h⟩
  · rintro ⟨horder, hsupported, h⟩
    exact ⟨horder.trans hlength.symm, hsupported, (hextents horder).2 h⟩

theorem admits_relabelled (horder : p.format.order = p.dimensions.length) {e : Entry} :
    p.relabelled.Admits (e.relabelled p.format) ↔ p.Admits e := by
  have hlength : (p.format.relabel e.coordinate).length = (p.format.relabel p.dimensions).length ↔
      e.coordinate.length = p.dimensions.length := by rw [Format.length_relabel, Format.length_relabel]
  have hbounds : e.coordinate.length = p.dimensions.length →
      ((p.format.relabel e.coordinate).inBounds (p.format.relabel p.dimensions) = true ↔
        e.coordinate.inBounds p.dimensions = true) := fun h => by
    have he := h.trans horder.symm
    rw [Format.relabel, Format.relabel, if_pos he, if_pos horder.symm, Format.inBounds_keyOf he horder.symm]
  constructor
  · rintro ⟨hlen, hdtype, hin⟩
    exact ⟨hlength.1 hlen, hdtype, (hbounds (hlength.1 hlen)).1 hin⟩
  · rintro ⟨hlen, hdtype, hin⟩
    exact ⟨hlength.2 hlen, hdtype, (hbounds hlen).2 hin⟩

theorem keyed_relabelled {e : Entry} (he : e.coordinate.length = p.format.order) :
    p.relabelled.keyed (e.relabelled p.format) = p.keyed e := by
  unfold keyed
  rw [show p.relabelled.format.keyOf (e.relabelled p.format).coordinate = _ from Format.keyOf_relabel he]
  rfl

theorem collect_relabelled (horder : p.format.order = p.dimensions.length) {entries : List Entry} {out : List Record} :
    p.relabelled.collect (entries.map (Entry.relabelled p.format)) = .ok out ↔ p.collect entries = .ok out := by
  have horder' : p.relabelled.format.order = p.relabelled.dimensions.length :=
    horder.trans (p.format.length_relabel p.dimensions).symm
  rw [collect_eq_ok horder, collect_eq_ok horder', List.forall_mem_map, List.map_map]
  simp only [admits_relabelled horder]
  refine and_congr_right fun hadmits => ?_
  have hkeyed : entries.map (p.relabelled.keyed ∘ Entry.relabelled p.format) = entries.map p.keyed :=
    List.map_congr_left fun e he => keyed_relabelled ((hadmits e he).length.trans horder.symm)
  rw [hkeyed]

/-- Relabelled entries resolve to the same records. -/
theorem resolve_relabelled (horder : p.format.order = p.dimensions.length) {out : List Record} :
    p.relabelled.resolve (stored.map (Entry.relabelled p.format)) (records.map (Entry.relabelled p.format)) = .ok out ↔
      p.resolve stored records = .ok out := by
  simp only [resolve, bind_eq_ok, collect_relabelled horder, Outcome.liftM_checked, Outcome.ofChecked_eq_ok]
  constructor
  · rintro ⟨held, hheld, keyed, hkeyed, incoming, hincoming, h⟩
    exact ⟨held, hheld, keyed, hkeyed, incoming, resolveDuplicates_of_format hincoming, resolveDuplicates_of_format h⟩
  · rintro ⟨held, hheld, keyed, hkeyed, incoming, hincoming, h⟩
    exact ⟨held, hheld, keyed, hkeyed, incoming, resolveDuplicates_of_format hincoming, resolveDuplicates_of_format h⟩

theorem lay_relabelled (horder : p.format.order = p.dimensions.length) (out : List Record) :
    p.relabelled.lay out = p.lay out := by
  have horder' : p.relabelled.format.order = p.relabelled.dimensions.length :=
    horder.trans (p.format.length_relabel p.dimensions).symm
  have hshapes : p.relabelled.levelShapes = p.levelShapes := by
    unfold levelShapes
    rw [show p.relabelled.format.keyOf p.relabelled.dimensions = _ from Format.keyOf_relabel horder.symm]
    rfl
  rw [lay, lay, shapes_eq horder, shapes_eq horder', hshapes]
  rfl

/-- **Relabelled entries are packed to the same storage**, and are packed if the entries are. -/
theorem merge_relabelled : p.relabelled.merge (stored.map (Entry.relabelled p.format))
    (records.map (Entry.relabelled p.format)) = .ok s ↔ p.merge stored records = .ok s := by
  rw [merge_eq_ok_iff, merge_eq_ok_iff, shaped_relabelled]
  refine and_congr_right fun hshape => ?_
  simp only [resolve_relabelled hshape.order, lay_relabelled hshape.order]

end Packer

/-! ## Walks -/

theorem Storage.length_of_mem_nestedEntries {s : Storage} {f : Format} {levels : List Level} {e : Entry}
    (h : e ∈ s.nestedEntries f levels) : e.coordinate.length = f.order := by
  obtain ⟨leaf, -, he⟩ := List.mem_filterMap.1 h
  obtain ⟨v, -, rfl⟩ := Option.map_eq_some_iff.1 he
  exact f.length_fromLevels leaf.1

/-- The nested recursion lists the same entries, relabelled. -/
theorem Storage.nestedEntries_straight {s : Storage} {f : Format} {levels : List Level} (hlen : levels.length = f.order) :
    s.nestedEntries f.straight levels = (s.nestedEntries f levels).map (Entry.relabelled f) := by
  rw [nestedEntries, nestedEntries, List.map_filterMap]
  refine filterMap_congr_left fun leaf hleaf => ?_
  have hleaf : leaf.1.length = f.order := (length_of_mem_leavesBelow hleaf).trans hlen
  rw [Option.map_map, Format.fromLevels_straight hleaf]
  refine congrArg (Option.map · _) (funext fun v => ?_)
  rw [Function.comp_apply, Entry.relabelled, Format.relabel, if_pos (f.length_fromLevels leaf.1),
    Format.keyOf_fromLevels hleaf]

/-- **A walk answers what the walk with the dimensions in their own order answers**, with each coordinate's numbers put
back. -/
theorem Traversal.calls?_straight {source : Nat} {s : Storage} {f : Format} {t : Traversal}
    (h : start source s f.straight = .ok t) : ∃ t', start source s f = .ok t' ∧ ∀ n, ∃ items u u',
      calls? next? n t' = some (items, u') ∧ calls? next? n t = some (items.map (Option.map (Entry.relabelled f)), u) ∧
      ∀ e, some e ∈ items → e.coordinate.length = f.order := by
  obtain ⟨hl, -⟩ := start_eq_ok h
  have hl' : s.checkedLevels f = .ok t.levels := hl
  obtain ⟨hlevels, hn, -⟩ := Storage.levelsNested_of_checkedLevels hl'
  obtain ⟨t', h', hsame⟩ : ∃ t', start source s f = .ok t' ∧ t'.levels = t.levels := by
    rw [start, hl']
    exact ⟨_, rfl, rfl⟩
  have hahead' := entriesAhead_start h'
  rw [hsame] at hahead'
  refine ⟨t', h', fun n => ?_⟩
  obtain ⟨u, hu, -⟩ := calls?_of_step (stepsThrough hn) n t _ (entriesAhead_start h)
  obtain ⟨u', hu', -⟩ := calls?_of_step (stepsThrough hn) n t' _ hahead'
  refine ⟨_, u, u', hu', ?_, fun e he => ?_⟩
  · rw [hu, Storage.nestedEntries_straight (Storage.length_levels hlevels)]
    simp
  · rcases List.mem_append.1 he with he | he
    · obtain ⟨e', he', hsome⟩ := List.mem_map.1 he
      cases hsome
      exact Storage.length_of_mem_nestedEntries (List.mem_of_mem_take he')
    · cases (List.mem_replicate.1 he).2

/-- **A mode ordering is only a relabelling.**  Entries are packed if they are packed with their numbers in level order,
under the same mode types with the dimensions in their own order, and then to the same storage.  A storage that is
walked with the dimensions in their own order is walked under every ordering; each call answers the same value, and the
coordinate of the first walk is that of the second with its numbers in level order. -/
theorem relabelling :
    (∀ (p : Packer) (stored records : List Entry) (s : Storage), p.merge stored records = .ok s ↔
      p.relabelled.merge (stored.map (Entry.relabelled p.format)) (records.map (Entry.relabelled p.format)) = .ok s) ∧
    ∀ (source : Nat) (s : Storage) (f : Format) (t : Traversal), Traversal.start source s f.straight = .ok t →
      ∃ t', Traversal.start source s f = .ok t' ∧ ∀ n, ∃ items u u',
        calls? Traversal.next? n t' = some (items, u') ∧
        calls? Traversal.next? n t = some (items.map (Option.map (Entry.relabelled f)), u) ∧
        ∀ e, some e ∈ items → e.coordinate.length = f.order :=
  ⟨fun _ _ _ _ => Packer.merge_relabelled.symm, fun _ _ _ _ h => Traversal.calls?_straight h⟩

/-- Columns of a cube in use, under an ordering that is not its own inverse. -/
theorem relabelling_cycle :
    let types : List ModeType := [.compressed, .compressed, .dense]
    let cycled : Format := ⟨types, [1, 2, 0], rfl, by decide⟩
    let straight : Format := ⟨types, [0, 1, 2], rfl, by decide⟩
    let five : Value := ⟨.int32, (5 : Int32)⟩
    ∃ s, Packer.pack ⟨[2, 3, 4], cycled, .int32, .sum⟩ [⟨[1, 2, 0], five⟩] = .ok s ∧
      Packer.pack ⟨[3, 4, 2], straight, .int32, .sum⟩ [⟨[2, 0, 1], five⟩] = .ok s ∧
      ∃ t t' u u', Traversal.start 0 s straight = .ok t ∧ Traversal.start 0 s cycled = .ok t' ∧
        calls? Traversal.next? 3 t = some ([some ⟨[2, 0, 0], .zero .int32⟩, some ⟨[2, 0, 1], five⟩, none], u) ∧
        calls? Traversal.next? 3 t' = some ([some ⟨[0, 2, 0], .zero .int32⟩, some ⟨[1, 2, 0], five⟩, none], u') := by
  intro types cycled straight five
  obtain ⟨hpack, hwalk⟩ := relabelling
  let s : Storage := ⟨⟨[.compressed { data := #[0, 1] } { data := #[2] }, .compressed { data := #[0, 1] } { data := #[0] },
    .dense 2], 2⟩, .ofArray .int32 #[0, 5]⟩
  have hmerge : Packer.pack ⟨[2, 3, 4], cycled, .int32, .sum⟩ [⟨[1, 2, 0], five⟩] = .ok s := by cbv
  refine ⟨s, hmerge, (hpack ⟨[2, 3, 4], cycled, .int32, .sum⟩ [] [⟨[1, 2, 0], five⟩] s).1 hmerge, ?_⟩
  obtain ⟨t, ht⟩ : ∃ t, Traversal.start 0 s straight = .ok t := ⟨_, rfl⟩
  obtain ⟨t', ht', hcalls⟩ := hwalk 0 s cycled t ht
  obtain ⟨items, u, u', hitems', hitems, -⟩ := hcalls 3
  have hanswers : (calls? Traversal.next? 3 t').map Prod.fst =
      some [some ⟨[0, 2, 0], .zero .int32⟩, some ⟨[1, 2, 0], five⟩, none] := by
    cases ht'
    cbv
  rw [hitems'] at hanswers
  obtain rfl := Option.some.inj hanswers
  exact ⟨t, t', u, u', ht, ht', hitems, hitems'⟩

end TensorStorage
