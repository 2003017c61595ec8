import TensorStorage.Proofs.Tensor.Callers
import TensorStorage.Proofs.Tensor.Generations
import TensorStorage.Proofs.Tensor.Loans
/-!
# Lending — what a caller sees of the arrays of a matrix

While nothing is packed through its handle, a matrix over lent arrays stays over them, and what is written to its values
shows there.  The pack of a waiting record gives it arrays of the engine's own, and from then on what was lent shows
what it showed before (`Caller.lends_carry`, `Caller.carryAll_lent`).
-/
namespace TensorStorage

/-! ## What a task does -/

theorem ValueWrite.apply_eq_ok {a a' : ValueArray} {x : ValueWrite} (h : x.apply a = .ok a') :
    ∃ cells : Array a.dtype.Scalar, a' = { a with cells := { a.cells with data := cells } } := by
  cases x with
  | set place v =>
    simp only [apply, ValueArray.set, Outcome.liftM_checked, Outcome.ofChecked_eq_ok] at h
    split at h
    · split at h
      · exact ⟨_, (Except.ok.inj h).symm⟩
      · cases h
    · cases h
  | put place v =>
    simp only [apply, ValueArray.put, Buffer.set?] at h
    split at h
    · simp only [bind_eq_ok, Outcome.liftM_option, Outcome.ofOption_eq_ok] at h
      obtain ⟨cells, hcells, h⟩ := h
      split at hcells
      · cases hcells
        exact ⟨_, (Except.ok.inj h).symm⟩
      · cases hcells
    · cases h
  | fillZero =>
    cases h
    exact ⟨_, rfl⟩

/-- **A write leaves a storage its arrays.** -/
theorem Storage.overwrite_eq_ok {s s' : Storage} {x : ValueWrite} (h : s.overwrite x = .ok ((), s')) :
    ∃ cells, s' = s.withCells cells := by
  obtain ⟨values, hvalues, h⟩ := bind_eq_ok.1 h
  obtain ⟨cells, rfl⟩ := ValueWrite.apply_eq_ok hvalues
  cases h
  exact ⟨cells, rfl⟩

namespace Task

/-- **A task changes the tensor behind a handle**, by a granted request or a write. -/
inductive Turns (g : Handle) (t : Tensor) : Task → Tensor → Prop
  | ask {r : Request} {u : Tensor} : t.perform r = .ok u → Turns g t (.ask g r) u
  | write (x : ValueWrite) : Turns g t (.write g x) (t.edit (·.overwrite x))

variable {g h : Handle} {t u : Tensor} {task : Task} {s' : Storage}

theorem Turns.isPacked (hu : task.Turns g t u) (ht : t.isPacked = true) : u.isPacked = true := by
  cases hu with
  | @ask r _ hu =>
    have hreach := (Command.generation_le_reach ht (h := g) (.ask g r)).2
    rwa [Command.reach, if_pos rfl, Tensor.serve_of_ok hu] at hreach
  | write x =>
    have hreach := (Command.generation_le_reach ht (h := g) (.edit g (·.overwrite x))).2
    rwa [Command.reach, if_pos rfl] at hreach

/-- **The storage behind the handle**: packed anew, or with other values at most. -/
theorem Turns.storage? (hu : task.Turns g t u) (hs' : u.storage? = some s') :
    (task = .ask g .pack ∧ t.isSettled = false) ∧ s'.isOwned = true ∨
      ¬ (task = .ask g .pack ∧ t.isSettled = false) ∧ ∃ s cells, t.storage? = some s ∧ s' = s.withCells cells := by
  cases hu with
  | ask hu =>
    rcases Tensor.storage?_of_perform hu hs' with ⟨⟨rfl, hsettled⟩, howned⟩ | ⟨hkept, hsame⟩
    · exact .inl ⟨⟨rfl, hsettled⟩, howned⟩
    · exact .inr ⟨fun h => hkept ⟨(Task.ask.inj h.1).2, h.2⟩, hsame⟩
  | write x =>
    refine .inr ⟨fun h => (nomatch h.1), ?_⟩
    cases hs : t.storage? with
    | none =>
      rw [Tensor.edit_of_none hs, hs] at hs'
      cases hs'
    | some s =>
      rw [Tensor.edit_of_some hs] at hs'
      cases hs'
      cases hchange : s.overwrite x with
      | error e => exact ⟨s, s.values.cells.data, rfl, rfl⟩
      | ok done =>
        obtain ⟨cells, hcells⟩ := Storage.overwrite_eq_ok hchange
        exact ⟨s, cells, rfl, hcells⟩

theorem Turns.loansBelow {k : Nat} (hu : task.Turns g t u) (ht : t.LoansBelow k) : u.LoansBelow k := by
  intro s' hs'
  rcases hu.storage? hs' with ⟨-, howned⟩ | ⟨-, s, cells, hs, rfl⟩
  · exact Storage.loansBelow_of_isOwned howned k
  · exact (ht s hs).withCells cells

end Task

namespace Workspace

/-- A pack through this handle packs waiting records. -/
def Repacks (w : Workspace) (h : Handle) : Prop := ∃ t u, w.tensor? h = some t ∧ t.pending ≠ 0 ∧ t.pack = .ok u

theorem repacks_iff {w : Workspace} {h : Handle} {t u : Tensor} {task : Task} (ht : w.tensor? h = some t)
    (hpacked : t.isPacked = true) (hu : task.Turns h t u) :
    task = .ask h .pack ∧ w.Repacks h ↔ task = .ask h .pack ∧ t.isSettled = false := by
  refine and_congr_right ?_
  rintro rfl
  obtain ⟨hu⟩ := hu
  rw [← Bool.not_eq_true, Tensor.isSettled_of_pending hpacked]
  constructor
  · rintro ⟨t', u', ht', hpending, -⟩
    cases ht.symm.trans ht'
    exact hpending
  · exact fun hpending => ⟨t, u, ht, hpending, hu⟩

/-- **A workspace with more tensors**, none of them over lent arrays. -/
structure Extends (w w' : Workspace) : Prop where
  ledger : w'.ledger = w.ledger
  kept : ∀ h t, w.tensor? h = some t → w'.tensor? h = some t
  added : ∀ h t, w'.tensor? h = some t → w.tensor? h = some t ∨ ∃ s, t.storage? = some s ∧ s.isOwned = true

theorem Extends.refl (w : Workspace) : w.Extends w := ⟨rfl, fun _ _ => id, fun _ _ => .inl⟩

theorem extends_addMade (w : Workspace) (g : Handle) {made : Tensor → Outcome Tensor}
    (hmade : ∀ t u, made t = .ok u → ∃ s, u.storage? = some s ∧ s.isOwned = true) :
    w.Extends (w.addMade do made (← w.tensor? g)).2 := by
  cases hu : (do made (← w.tensor? g) : Outcome Tensor) with
  | error e => exact .refl w
  | ok u =>
    obtain ⟨t, -, hu⟩ := bind_eq_ok.1 hu
    obtain ⟨s, hs, howned⟩ := hmade t u hu
    rw [Tensor.addMade_of_isOwned hs howned]
    refine ⟨rfl, fun h t ht => ?_, fun h t ht => ?_⟩
    · obtain ⟨hlt, rfl⟩ := Array.getElem?_eq_some_iff.1 ht
      exact Array.getElem?_push_lt hlt
    · have hpush : (w.tensors.push u)[h.place]? = some t := ht
      rw [Array.getElem?_push] at hpush
      split at hpush
      · cases hpush
        exact .inr ⟨s, hs, howned⟩
      · exact .inl hpush

end Workspace

namespace Caller

/-- A task that neither asks for a change nor writes adds a tensor at most. -/
theorem extends_carry (c : Caller) {task : Task} (hask : ∀ h r, task ≠ .ask h r) (hwrite : ∀ h x, task ≠ .write h x) :
    c.workspace.Extends (c.carry task).2.workspace := by
  have hkept : (c.carry task).2.workspace = c.workspace → c.workspace.Extends (c.carry task).2.workspace :=
    fun heq => heq ▸ .refl _
  cases task with
  | ask h r => exact absurd rfl (hask h r)
  | write h x => exact absurd rfl (hwrite h x)
  | transpose h name ordering format =>
    exact c.workspace.extends_addMade h fun _ _ => Tensor.isOwned_of_transpose
  | transposeAlike h ordering =>
    have hextends := (c.workspace.drawName 'A').2.extends_addMade h
      fun t u (hu : t.transpose (c.workspace.drawName 'A').1 ordering t.format = .ok u) =>
        Tensor.isOwned_of_transpose hu
    exact ⟨hextends.ledger, hextends.kept, hextends.added⟩
  | iterate h d? =>
    refine hkept ?_
    simp only [carry]
    cases c.workspace.iterator h d? <;> rfl
  | clone place =>
    refine hkept ?_
    simp only [carry]
    cases c.iterators[place]? <;> rfl
  | next place d? =>
    refine hkept ?_
    simp only [carry]
    cases c.iterators[place]? with
    | none => rfl
    | some i =>
      dsimp only
      cases c.workspace.call d? i <;> rfl
  | remaining place =>
    refine hkept ?_
    simp only [carry]
    cases c.iterators[place]? <;> rfl
  | equals g h => exact hkept rfl
  | dense h d => exact hkept rfl
  | arrays h kind d => exact hkept rfl

/-- **What a task does to the workspace**: it changes a tensor through its handle, or adds one at most. -/
theorem workspace_carry (c : Caller) (task : Task) :
    (∃ g t u, c.workspace.tensor? g = some t ∧ task.Turns g t u ∧
      (c.carry task).2.workspace = c.workspace.put g u) ∨
    c.workspace.Extends (c.carry task).2.workspace ∧ ∀ h, task = .ask h .pack → ¬ c.workspace.Repacks h := by
  cases task with
  | ask g r =>
    cases hw : c.workspace.update g (·.perform r) with
    | error e =>
      have hcarry : (c.carry (.ask g r)).2.workspace = c.workspace := by simp only [carry, hw]
      refine .inr ⟨hcarry ▸ .refl _, ?_⟩
      rintro h heq ⟨t, u, ht, -, hu⟩
      cases heq
      have hgranted : c.workspace.update g (·.perform .pack) = .ok (c.workspace.put g u) := by
        simp only [Workspace.update, ht, Outcome.liftM_option, Outcome.ofOption_some, ok_bind, Tensor.perform, hu,
          pure_eq_ok]
      cases hgranted.symm.trans hw
    | ok w =>
      have hcarry : (c.carry (.ask g r)).2.workspace = w := by simp only [carry, hw]
      simp only [Workspace.update, bind_eq_ok, Outcome.liftM_option, Outcome.ofOption_eq_ok] at hw
      obtain ⟨t, ht, u, hu, hput⟩ := hw
      exact .inl ⟨g, t, u, ht, .ask hu, hcarry.trans (Except.ok.inj hput).symm⟩
  | write g x =>
    rcases Workspace.alters_updateStorage c.workspace g (·.overwrite x) with ⟨t, ht, hput⟩ | ⟨hsame, -⟩
    · exact .inl ⟨g, t, _, ht, .write x, hput⟩
    · have hcarry : (c.carry (.write g x)).2.workspace = c.workspace := hsame
      exact .inr ⟨hcarry ▸ .refl _, by simp⟩
  | _ => exact .inr ⟨c.extends_carry (by simp) (by simp), by simp⟩

end Caller

/-! ## Lent arrays -/

namespace Workspace

variable {w w' : Workspace} {g h : Handle} {t u : Tensor} {first : Nat} {pointers inner : Array Int32} {d : DataType}
  {values values' : Array d.Scalar} {s s' : Storage}

/-- **The arrays of a matrix are lent to the tensor behind a handle**, under three numbers from this one on, and this
is the tensor's storage: the lent arrays as they are shown, or the engine's own by now. -/
structure Lends (w : Workspace) (h : Handle) (first : Nat) (pointers inner : Array Int32) (d : DataType)
    (values : Array d.Scalar) (s : Storage) : Prop where
  shows : w.ledger.Shows first pointers inner d values
  others : ∀ g t, g ≠ h → w.tensor? g = some t → t.LoansBelow first
  stored : ∃ t, w.tensor? h = some t ∧ t.storage? = some s
  lent : s.isOwned = false → s = MatrixKind.storageLent first pointers inner d values

theorem ledger_put (hs : u.storage? = some s) : (w.put g u).ledger = w.ledger.settle s := by
  unfold put settle
  rw [hs]

theorem Lends.of_extends (hl : w.Lends h first pointers inner d values s) (he : w.Extends w') :
    w'.Lends h first pointers inner d values s := by
  obtain ⟨t, ht, hs⟩ := hl.stored
  refine ⟨he.ledger ▸ hl.shows, fun g t hne ht => ?_, ⟨t, he.kept h t ht, hs⟩, hl.lent⟩
  rcases he.added g t ht with ht | ⟨s', hs', howned⟩
  · exact hl.others g t hne ht
  · intro s'' hs''
    cases hs'.symm.trans hs''
    exact Storage.loansBelow_of_isOwned howned first

/-- A tensor that is put back leaves the others as they were, and its own loans below a bound at most. -/
theorem loansBelow_put {k : Nat} (hothers : ∀ g t, g ≠ h → w.tensor? g = some t → t.LoansBelow k)
    (ht : w.tensor? g = some t) (hu : g ≠ h → u.LoansBelow k) :
    ∀ g' t', g' ≠ h → (w.put g u).tensor? g' = some t' → t'.LoansBelow k := by
  intro g' t' hne ht'
  by_cases he : g = g'
  · subst he
    rw [tensor?_put_self ht] at ht'
    cases ht'
    exact hu hne
  · rw [tensor?_put_of_ne he] at ht'
    exact hothers g' t' hne ht'

/-- A change through another handle. -/
theorem Lends.put_of_ne (hl : w.Lends h first pointers inner d values s) (hne : g ≠ h) (ht : w.tensor? g = some t)
    (hu : u.LoansBelow first) : (w.put g u).Lends h first pointers inner d values s := by
  obtain ⟨t', ht', hs⟩ := hl.stored
  refine ⟨?_, loansBelow_put hl.others ht fun _ => hu, ⟨t', (tensor?_put_of_ne hne u).trans ht', hs⟩, hl.lent⟩
  cases hstorage : u.storage? with
  | none =>
    have hledger : (w.put g u).ledger = w.ledger := by
      unfold put settle
      rw [hstorage]
    exact hledger ▸ hl.shows
  | some s' => exact ledger_put hstorage ▸ hl.shows.settle (hu s' hstorage)

/-- A change through the handle. -/
theorem Lends.put_self (hl : w.Lends h first pointers inner d values s) (ht : w.tensor? h = some t)
    (hu : u.storage? = some s') (hshows : (w.ledger.settle s').Shows first pointers inner d values')
    (hlent : s'.isOwned = false → s' = MatrixKind.storageLent first pointers inner d values') :
    (w.put h u).Lends h first pointers inner d values' s' :=
  ⟨ledger_put hu ▸ hshows, loansBelow_put hl.others ht fun hne => absurd rfl hne, ⟨u, tensor?_put_self ht u, hu⟩, hlent⟩

end Workspace

namespace Caller

variable {c : Caller} {h : Handle} {first : Nat} {pointers inner : Array Int32} {d : DataType}
  {values : Array d.Scalar} {s : Storage}

/-- **What a task does to lent arrays.**  It releases them if it packs waiting records through the handle, and they are
shown as they were from then on; until then they are shown as the tensor has them. -/
theorem lends_carry (hl : c.workspace.Lends h first pointers inner d values s) (task : Task) :
    ∃ values' s', (c.carry task).2.workspace.Lends h first pointers inner d values' s' ∧
      (s'.isOwned = true ↔ s.isOwned = true ∨ task = .ask h .pack ∧ c.workspace.Repacks h) ∧
      (s'.isOwned = true → values' = values) := by
  rcases c.workspace_carry task with ⟨g, t, u, ht, hturns, hput⟩ | ⟨hextends, hnone⟩
  · rw [hput]
    by_cases hg : g = h
    · subst hg
      obtain ⟨t', ht', hs⟩ := hl.stored
      cases ht.symm.trans ht'
      have hpacked : t.isPacked = true := Tensor.isPacked_iff.2 ⟨s, hs⟩
      obtain ⟨s', hs'⟩ := Tensor.isPacked_iff.1 (hturns.isPacked hpacked)
      rw [Workspace.repacks_iff ht hpacked hturns]
      rcases hturns.storage? hs' with ⟨hpacks, howned⟩ | ⟨hkept, s₀, cells, hs₀, rfl⟩
      · refine ⟨values, s', hl.put_self ht hs' ?_ ?_, iff_of_true howned (.inr hpacks), fun _ => rfl⟩
        · exact hl.shows.settle (Storage.loansBelow_of_isOwned howned first)
        · exact fun h => absurd howned (Bool.eq_false_iff.1 h)
      · cases hs.symm.trans hs₀
        have hkept : (s.withCells cells).isOwned = true ↔
            s.isOwned = true ∨ task = .ask g .pack ∧ t.isSettled = false := (or_iff_left hkept).symm
        rcases Bool.eq_false_or_eq_true s.isOwned with howned | howned
        · refine ⟨values, _, hl.put_self ht hs' ?_ ?_, hkept, fun _ => rfl⟩
          · exact hl.shows.settle (Storage.loansBelow_of_isOwned howned first)
          · exact fun h => absurd howned (Bool.eq_false_iff.1 h)
        · have hlent := hl.lent howned
          subst hlent
          exact ⟨cells, _, hl.put_self ht hs' (hl.shows.settle_storageLent cells) fun _ => rfl, hkept,
            fun h => absurd h (Bool.eq_false_iff.1 howned)⟩
    · refine ⟨values, s, hl.put_of_ne hg ht ?_, ?_, fun _ => rfl⟩
      · exact hturns.loansBelow (hl.others g t hg ht)
      · refine (or_iff_left ?_).symm
        rintro ⟨rfl, -⟩
        cases hturns
        exact hg rfl
  · have hkept : ¬ (task = .ask h .pack ∧ c.workspace.Repacks h) := fun hpack => hnone h hpack.1 hpack.2
    exact ⟨values, s, hl.of_extends hextends, (or_iff_left hkept).symm, fun _ => rfl⟩

/-- **What a run does to lent arrays.** -/
theorem lends_carryAll : ∀ (tasks : List Task) {c : Caller} {values : Array d.Scalar} {s : Storage},
    c.workspace.Lends h first pointers inner d values s → ∃ values' s',
      (c.carryAll tasks).2.workspace.Lends h first pointers inner d values' s' ∧
      (s.isOwned = true → s'.isOwned = true ∧ values' = values) ∧
      ((∀ before after, tasks = before ++ .ask h .pack :: after → ¬ (c.carryAll before).2.workspace.Repacks h) →
        s.isOwned = false → s'.isOwned = false)
  | [], c, values, s, hl => ⟨values, s, hl, fun h => ⟨h, rfl⟩, fun _ => id⟩
  | task :: tasks, c, values, s, hl => by
    obtain ⟨values₁, s₁, hl₁, howned₁, hvalues₁⟩ := lends_carry hl task
    obtain ⟨values₂, s₂, hl₂, hreleased, hlent⟩ := lends_carryAll tasks hl₁
    refine ⟨values₂, s₂, hl₂, fun hs => ?_, fun hnone hs => hlent (fun before after heq => ?_) ?_⟩
    · have hs₁ := howned₁.2 (.inl hs)
      exact ⟨(hreleased hs₁).1, (hreleased hs₁).2.trans (hvalues₁ hs₁)⟩
    · exact hnone (task :: before) after (congrArg (task :: ·) heq)
    · refine Bool.eq_false_iff.2 fun hs₁ => ?_
      rcases howned₁.1 hs₁ with hs' | ⟨rfl, hrepacks⟩
      · exact Bool.eq_false_iff.1 hs hs'
      · exact hnone [] tasks rfl hrepacks

end Caller

namespace Workspace

/-- **Every loan of the workspace is listed** in its ledger. -/
def LoansListed (w : Workspace) : Prop := ∀ h t, w.tensor? h = some t → t.LoansBelow w.ledger.arrays.size

variable {w : Workspace} {kind : MatrixKind} {name : String} {dimensions : List Nat} {pointers inner : Array Int32}
  {d : DataType} {values : Array d.Scalar} {h : Handle}

theorem Lends.loansListed {first : Nat} {s : Storage} (hl : w.Lends h first pointers inner d values s) :
    w.LoansListed := by
  obtain ⟨hlt, -⟩ := Array.getElem?_eq_some_iff.1 hl.shows.values
  obtain ⟨t, ht, hs⟩ := hl.stored
  intro g u hu s' hs'
  by_cases hg : g = h
  · subst hg
    cases ht.symm.trans hu
    cases hs.symm.trans hs'
    rcases Bool.eq_false_or_eq_true s.isOwned with howned | howned
    · exact Storage.loansBelow_of_isOwned howned _
    · rw [hl.lent howned]
      exact (MatrixKind.loansBelow_storageLent first pointers inner d values).mono hlt
  · exact (hl.others g u hg hu s' hs').mono (by omega)

theorem addMatrix_lent : w.addMatrix kind name dimensions true pointers inner d values =
    { w with
      ledger := ⟨((w.ledger.arrays.push (.entries pointers)).push (.entries inner)).push (.components d values)⟩
    }.addMade (kind.assemble name dimensions ⟨pointers, .caller w.ledger.arrays.size⟩
      ⟨inner, .caller (w.ledger.arrays.size + 1)⟩ ⟨d, values, .caller (w.ledger.arrays.size + 2)⟩) := by
  simp only [addMatrix, Ledger.takeEntries, Ledger.takeValues, if_true, Array.size_push]

/-- A tensor over arrays that are lent and shown already. -/
theorem lends_add {first : Nat} {u : Tensor} (hshows : w.ledger.Shows first pointers inner d values)
    (hothers : ∀ g t, w.tensor? g = some t → t.LoansBelow first)
    (hu : u.storage? = some (MatrixKind.storageLent first pointers inner d values)) :
    (w.add u).2.Lends ⟨w.tensors.size⟩ first pointers inner d values
      (MatrixKind.storageLent first pointers inner d values) := by
  have htensors : (w.add u).2.tensors = w.tensors.push u := tensors_settle _ u
  have hledger : (w.add u).2.ledger = w.ledger.settle (MatrixKind.storageLent first pointers inner d values) := by
    simp only [add, settle, hu]
  refine ⟨hledger ▸ hshows.settle_storageLent values, fun g t hne ht => ?_, ⟨u, ?_, hu⟩, fun _ => rfl⟩
  · rw [tensor?, htensors, Array.getElem?_push, if_neg] at ht
    · exact hothers g t ht
    · exact fun hplace => hne (congrArg Handle.mk hplace)
  · rw [tensor?, htensors]
    exact Array.getElem?_push_size

/-- **A matrix over lent arrays**, and the same over arrays of the engine's own. -/
theorem lends_addMatrix (hloans : w.LoansListed)
    (hmade : (w.addMatrix kind name dimensions true pointers inner d values).1 = .ok h) :
    (w.addMatrix kind name dimensions true pointers inner d values).2.Lends h w.ledger.arrays.size pointers inner d
        values (MatrixKind.storageLent w.ledger.arrays.size pointers inner d values) ∧
      (w.addMatrix kind name dimensions false pointers inner d values).1 = .ok h ∧
      (w.addMatrix kind name dimensions true pointers inner d values).2.disowned =
        (w.addMatrix kind name dimensions false pointers inner d values).2.disowned := by
  rw [addMatrix_lent] at hmade ⊢
  rw [show w.addMatrix kind name dimensions false pointers inner d values =
    w.addMade (kind.assemble name dimensions { data := pointers } { data := inner } (.ofArray d values)) from rfl]
  cases hlent : kind.assemble name dimensions ⟨pointers, .caller w.ledger.arrays.size⟩
      ⟨inner, .caller (w.ledger.arrays.size + 1)⟩ ⟨d, values, .caller (w.ledger.arrays.size + 2)⟩ with
  | error e =>
    rw [hlent] at hmade
    cases hmade
  | ok t =>
    obtain ⟨hdescribes, rfl⟩ := MatrixKind.assemble_eq_ok_iff.1 hlent
    rw [hlent] at hmade
    cases hmade
    have howned : kind.assemble name dimensions { data := pointers } { data := inner } (.ofArray d values) =
        .ok (kind.tensorOver name dimensions { data := pointers } { data := inner } (.ofArray d values)) :=
      MatrixKind.assemble_eq_ok_iff.2 ⟨hdescribes, rfl⟩
    rw [howned]
    refine ⟨lends_add (w.ledger.shows_push pointers inner d values) hloans rfl, rfl, ?_⟩
    show (settle _ _).disowned = (settle _ _).disowned
    rw [disowned_settle, disowned_settle]
    simp only [disowned, Array.map_push]
    rfl

end Workspace

namespace Caller

/-- **Lent arrays.**  A matrix over lent arrays answers every task as the same matrix over arrays of the engine's own,
and what can be read afterwards is the same but for owners.  The lent pointers and inner numbers show as they were lent.
Until waiting records are packed through the handle, the tensor is over the lent arrays and its values are what they
show; from then on they show what they showed just before, and the tensor has no lent arrays. -/
theorem carryAll_lent (w : Workspace) (hloans : w.LoansListed) (iterators : List HeldIterator)
    (kind : MatrixKind) (name : String) (dimensions : List Nat) (pointers inner : Array Int32) (d : DataType)
    (values : Array d.Scalar) (h : Handle)
    (hmade : (w.addMatrix kind name dimensions true pointers inner d values).1 = .ok h) (tasks : List Task) :
    let first := w.ledger.arrays.size
    let lent : Caller := ⟨(w.addMatrix kind name dimensions true pointers inner d values).2, iterators⟩
    let owned : Caller := ⟨(w.addMatrix kind name dimensions false pointers inner d values).2, iterators⟩
    let c := (lent.carryAll tasks).2
    let shown := c.workspace.ledger.arrays
    (w.addMatrix kind name dimensions false pointers inner d values).1 = .ok h ∧
    (lent.carryAll tasks).1 = (owned.carryAll tasks).1 ∧ c.disowned = (owned.carryAll tasks).2.disowned ∧
    shown[first]? = some (.entries pointers) ∧ shown[first + 1]? = some (.entries inner) ∧
    ((∀ before after, tasks = before ++ .ask h .pack :: after → ¬ (lent.carryAll before).2.workspace.Repacks h) →
      ∃ t values', c.workspace.tensor? h = some t ∧
        t.storage? = some (MatrixKind.storageLent first pointers inner d values') ∧
        shown[first + 2]? = some (.components d values')) ∧
    (∀ before after, tasks = before ++ .ask h .pack :: after → (lent.carryAll before).2.workspace.Repacks h →
      shown[first + 2]? = (lent.carryAll before).2.workspace.ledger.arrays[first + 2]? ∧
      ∃ t s, c.workspace.tensor? h = some t ∧ t.storage? = some s ∧ s.isOwned = true) ∧
    c.workspace.LoansListed := by
  intro first lent owned c shown
  obtain ⟨hl, howned, halike⟩ := Workspace.lends_addMatrix hloans hmade
  have halike : lent.disowned = owned.disowned := congrArg (Caller.mk · iterators) halike
  obtain ⟨hanswers, hafter⟩ := carryAll_alike halike tasks
  have hl : lent.workspace.Lends h first pointers inner d values
    (MatrixKind.storageLent first pointers inner d values) := hl
  obtain ⟨values', s, hl', -, hlent⟩ := lends_carryAll tasks hl
  refine ⟨howned, hanswers, hafter, hl'.shows.pointers, hl'.shows.inner, fun hnone => ?_, ?_, hl'.loansListed⟩
  · obtain ⟨t, ht, hs⟩ := hl'.stored
    rw [hl'.lent (hlent hnone rfl)] at hs
    exact ⟨t, values', ht, hs, hl'.shows.values⟩
  · rintro before after rfl hrepacks
    obtain ⟨values₁, s₁, hl₁, -, -⟩ := lends_carryAll before hl
    obtain ⟨values₂, s₂, hl₂, howned₂, hvalues₂⟩ := lends_carry hl₁ (.ask h .pack)
    have hs₂ := howned₂.2 (.inr ⟨rfl, hrepacks⟩)
    obtain ⟨values₃, s₃, hl₃, hreleased, -⟩ := lends_carryAll after hl₂
    obtain ⟨hs₃, rfl⟩ := hreleased hs₂
    obtain ⟨t, ht, hs⟩ := hl₃.stored
    have hc : c = (((lent.carryAll before).2.carry (.ask h .pack)).2.carryAll after).2 := by
      simp only [c, carryAll_append, carryAll]
    rw [show shown = c.workspace.ledger.arrays from rfl, hc]
    exact ⟨hl₃.shows.values.trans (hvalues₂ hs₂ ▸ hl₁.shows.values.symm), t, s₃, ht, hs, hs₃⟩

/-- A row over lent arrays: an empty pack leaves them lent and a write shows in them, and once a record is packed zeros
do not. -/
theorem carryAll_lent_rows :
    let lent : Caller := ⟨(Workspace.empty.addMatrix .rows "A" [2, 2] true #[0, 1, 1] #[0] .int32 #[4]).2, []⟩
    let owned : Caller := ⟨(Workspace.empty.addMatrix .rows "A" [2, 2] false #[0, 1, 1] #[0] .int32 #[4]).2, []⟩
    let before : List Task := [.ask ⟨0⟩ .pack, .write ⟨0⟩ (.put 0 ⟨.int32, (7 : Int32)⟩),
      .ask ⟨0⟩ (.insert ⟨[1, 1], ⟨.int32, (5 : Int32)⟩⟩)]
    let tasks : List Task := before ++ .ask ⟨0⟩ .pack :: [.ask ⟨0⟩ .zero]
    Workspace.empty.LoansListed ∧
      (Workspace.empty.addMatrix .rows "A" [2, 2] true #[0, 1, 1] #[0] .int32 #[4]).1 = .ok ⟨0⟩ ∧
      (lent.carryAll tasks).1 = (owned.carryAll tasks).1 ∧
      (lent.carryAll tasks).2.workspace.ledger.arrays[0]? = some (.entries #[0, 1, 1]) ∧
      (lent.carryAll tasks).2.workspace.ledger.arrays[2]? = some (.components .int32 #[(7 : Int32)]) ∧
      ∃ t s, (lent.carryAll tasks).2.workspace.tensor? ⟨0⟩ = some t ∧ t.storage? = some s ∧ s.isOwned = true := by
  intro lent owned before tasks
  have hloans : Workspace.empty.LoansListed := by
    intro h t ht
    cases ht
  have hmade : (Workspace.empty.addMatrix .rows "A" [2, 2] true #[0, 1, 1] #[0] .int32 #[4]).1 = .ok ⟨0⟩ := by cbv
  let t : Tensor := ⟨"A", [2, 2], .int32, .csr, {}, ⟨2, .int32, #[1, 1], #[⟨.int32, (5 : Int32)⟩], 1⟩,
    some (MatrixKind.storageLent 0 #[0, 1, 1] #[0] .int32 #[(7 : Int32)]), 2⟩
  have ht : (lent.carryAll before).2.workspace.tensor? ⟨0⟩ = some t := by cbv
  obtain ⟨u, hu⟩ : ∃ u, t.pack = .ok u := ⟨_, by cbv⟩
  have hshown : (lent.carryAll before).2.workspace.ledger.arrays[2]? = some (.components .int32 #[(7 : Int32)]) := by
    cbv
  obtain ⟨-, hanswers, -, hpointers, -, -, hreleased, -⟩ :=
    carryAll_lent Workspace.empty hloans [] .rows "A" [2, 2] #[0, 1, 1] #[0] .int32 #[4] ⟨0⟩ hmade tasks
  rw [show Workspace.empty.ledger.arrays.size = 0 from rfl] at hpointers hreleased
  obtain ⟨hkept, hstored⟩ := hreleased before [.ask ⟨0⟩ .zero] rfl ⟨t, u, ht, by decide, hu⟩
  -- nothing is to be computed here
  with_reducible exact ⟨hloans, hmade, hanswers, hpointers, hkept.trans hshown, hstored⟩

end Caller

end TensorStorage
