import Mathlib.Logic.Relation
import Rediska.Proofs.HllCount

/-! The two forms of a sketch. One of them is in use, within its bounds, and the dense
one is for good. -/

namespace Rediska.Proofs
open Go Hll

/-- Only the form in use has bytes, and the sparse one not too many. -/
structure OneForm (h : HLL) : Prop where
  sparse : h.enc = .encSparse → h.dense = [] ∧ h.sparse.length ≤ hllSparseMaxBytes
  dense : h.enc = .encDense → h.sparse = []

section
variable {h after : HLL} {changed : Bool}

theorem promote_dense (ran : h.promote = .ok after) : after.enc = .encDense ∧ after.sparse = [] := by
  unfold HLL.promote at ran
  obtain ⟨_, _, ran⟩ := bind_ok ran
  cases ran
  exact ⟨rfl, rfl⟩

theorem promoteIf_dense {needed : Prop} [Decidable needed] (ran : h.promoteIf needed = .ok after) (mode : h.enc = .encDense) :
    after.enc = .encDense := by
  unfold HLL.promoteIf at ran
  split at ran
  · exact (promote_dense ran).1
  · cases ran
    exact mode

/-- A sketch that is not promoted has to be within the bounds already. -/
theorem OneForm.promoteIf {needed : Prop} [Decidable needed] (within : ¬ needed → OneForm h) (ran : h.promoteIf needed = .ok after) :
    OneForm after := by
  unfold HLL.promoteIf at ran
  split at ran
  · obtain ⟨mode, empty⟩ := promote_dense ran
    refine ⟨fun sparse => ?_, fun _ => empty⟩
    rw [mode] at sparse
    cases sparse
  next unneeded =>
    cases ran
    exact within unneeded

theorem OneForm.congr (oneForm : OneForm h) (enc : after.enc = h.enc) (sparse : after.sparse = h.sparse) (dense : after.dense = h.dense) :
    OneForm after := by
  refine ⟨fun mode => ?_, fun mode => ?_⟩
  · rw [sparse, dense]
    exact oneForm.sparse (enc ▸ mode)
  · rw [sparse]
    exact oneForm.dense (enc ▸ mode)

/-- The dense bytes are for the dense form alone. -/
theorem OneForm.write_dense (oneForm : OneForm h) (mode : h.enc = .encDense) (written : Bytes) : OneForm { h with dense := written } := by
  refine ⟨fun sparse => ?_, oneForm.dense⟩
  rw [show h.enc = .encSparse from sparse] at mode
  cases mode

theorem OneForm.addRank (oneForm : OneForm h) {i : Nat} {rank : UInt8} (ran : h.addRank i rank = .ok (after, changed)) : OneForm after := by
  unfold HLL.addRank at ran
  split at ran
  next mode =>
    obtain ⟨⟨written, ch⟩, _, ran⟩ := bind_ok ran
    obtain ⟨promoted, kept, ran⟩ := bind_ok ran
    cases ran
    refine OneForm.promoteIf (fun short => ⟨fun _ => ⟨?_, Nat.le_of_not_lt short⟩, fun dense => ?_⟩) kept
    · split <;> exact (oneForm.sparse mode).1
    · split at dense <;> exact absurd (mode.symm.trans dense) (by decide)
  next mode =>
    obtain ⟨⟨written, _⟩, _, ran⟩ := bind_ok ran
    cases ran
    exact oneForm.write_dense mode written

theorem addRank_dense {i : Nat} {rank : UInt8} (ran : h.addRank i rank = .ok (after, changed)) (mode : h.enc = .encDense) :
    after.enc = .encDense := by
  unfold HLL.addRank at ran
  split at ran
  next other =>
    rw [other] at mode
    cases mode
  next =>
    obtain ⟨_, _, ran⟩ := bind_ok ran
    cases ran
    exact mode

theorem OneForm.add (oneForm : OneForm h) {data : Bytes} (ran : h.add data = .ok (after, changed)) : OneForm after := by
  unfold HLL.add at ran
  obtain ⟨ready, promoted, ran⟩ := bind_ok ran
  obtain ⟨⟨added, grew⟩, ranked, ran⟩ := bind_ok ran
  cases ran
  have written := (OneForm.promoteIf (fun _ => oneForm) promoted).addRank ranked
  exact written.congr (by split <;> rfl) (by split <;> rfl) (by split <;> rfl)

theorem add_dense {data : Bytes} (ran : h.add data = .ok (after, changed)) (mode : h.enc = .encDense) : after.enc = .encDense := by
  unfold HLL.add at ran
  obtain ⟨ready, promoted, ran⟩ := bind_ok ran
  obtain ⟨⟨added, grew⟩, ranked, ran⟩ := bind_ok ran
  cases ran
  have kept := addRank_dense ranked (promoteIf_dense promoted mode)
  split <;> exact kept

theorem merge_dense {other : HLL} (ran : h.merge other = .ok (after, changed)) : after.enc = .encDense := by
  unfold HLL.merge at ran
  obtain ⟨ready, promoted, ran⟩ := bind_ok ran
  obtain ⟨⟨written, grew⟩, _, ran⟩ := bind_ok ran
  cases ran
  have mode : ready.enc = .encDense := by
    unfold HLL.promoteIf at promoted
    split at promoted
    · exact (promote_dense promoted).1
    next other =>
      cases promoted
      cases form : h.enc with
      | encSparse => exact absurd form other
      | encDense => rfl
  split <;> exact mode

theorem OneForm.merge (oneForm : OneForm h) {other : HLL} (ran : h.merge other = .ok (after, changed)) : OneForm after := by
  have mode := merge_dense ran
  unfold HLL.merge at ran
  obtain ⟨ready, promoted, ran⟩ := bind_ok ran
  obtain ⟨⟨written, grew⟩, _, ran⟩ := bind_ok ran
  cases ran
  have kept : ready.enc = .encDense := by split at mode <;> exact mode
  have ready' := (OneForm.promoteIf (fun _ => oneForm) promoted).write_dense kept written
  exact ready'.congr (by split <;> rfl) (by split <;> rfl) (by split <;> rfl)

theorem count_form {estimate : List Nat → Nat} {n : Nat} (ran : h.count estimate = .ok (after, n)) :
    after.enc = h.enc ∧ after.sparse = h.sparse ∧ after.dense = h.dense := by
  unfold HLL.count at ran
  split at ran
  · cases ran
    exact ⟨rfl, rfl, rfl⟩
  · obtain ⟨_, _, ran⟩ := bind_ok ran
    cases ran
    exact ⟨rfl, rfl, rfl⟩

end

theorem Built.oneForm {h : HLL} {seen : Finset Bytes} (built : Built h seen) : OneForm h := by
  induction built with
  | new => exact ⟨fun _ => ⟨rfl, by decide⟩, nofun⟩
  | add _ _ ran ih => exact ih.add ran
  | merge _ _ ran own _ => exact own.merge ran
  | count _ ran ih =>
    obtain ⟨enc, sparse, dense⟩ := count_form ran
    exact ih.congr enc sparse dense

theorem Holds.count_returns {h : HLL} {table : Table} (holds : Holds h table) (estimate : List Nat → Nat) :
    ∃ result, h.count estimate = .ok result := by
  unfold HLL.count
  split
  · exact ⟨_, rfl⟩
  · rw [holds.histo]
    exact ⟨_, rfl⟩

theorem Denotes.ne_nil {sparse : Bytes} {regs : List UInt8} (denotes : Denotes sparse regs) (some : regs ≠ []) : sparse ≠ [] := by
  cases denotes with
  | nil => exact absurd rfl some
  | run opcode more => cases opcode <;> simp

theorem Holds.stream {h : HLL} {table : Table} (holds : Holds h table) (mode : h.enc = .encSparse) :
    ∃ regs, Denotes h.sparse regs ∧ regs.length = registers := by
  cases holds with
  | sparse _ denotes full => exact ⟨_, denotes, full⟩
  | dense other => rw [other] at mode; cases mode

theorem Holds.array_length {h : HLL} {table : Table} (holds : Holds h table) (mode : h.enc = .encDense) :
    h.dense.length = 12289 := by
  cases holds with
  | sparse other => rw [other] at mode; cases mode
  | dense _ packed => exact packed.size.trans newDenseArray_length

theorem maxRank_le (seen : Finset Bytes) (i : Fin registers) : maxRank seen i ≤ 51 := by
  apply Finset.sup_le
  intro data _
  exact UInt8.le_iff_toNat_le.mp (hllPatLen_rank data).2

/-- One call from outside the package that came back. -/
inductive Called : HLL → HLL → Prop
  | add {h after : HLL} {changed : Bool} (data : Bytes) (ran : h.add data = .ok (after, changed)) : Called h after
  | merge {h other after : HLL} {changed : Bool} (ran : h.merge other = .ok (after, changed)) : Called h after
  | count {h after : HLL} {estimate : List Nat → Nat} {n : Nat} (ran : h.count estimate = .ok (after, n)) : Called h after

theorem Called.dense {h after : HLL} (called : Called h after) (mode : h.enc = .encDense) : after.enc = .encDense := by
  cases called with
  | add data ran => exact add_dense ran mode
  | merge ran => exact merge_dense ran
  | count ran => exact (count_form ran).1.trans mode

/-- A sparse sketch is a stream of complete opcodes for all registers in at most 3000
bytes, a dense one has its 12289 bytes, whatever was added, merged and counted before; no
register exceeds 51, no call indexes out of range, and a dense sketch stays dense. -/
theorem built_forms {h : HLL} {seen : Finset Bytes} (built : Built h seen) :
    (h.enc = .encSparse → h.dense = [] ∧ h.sparse ≠ [] ∧ h.sparse.length ≤ 3000 ∧
      ∃ regs, Denotes h.sparse regs ∧ regs.length = 16384 ∧ ∀ value ∈ regs, value ≤ sparseValMaxValue) ∧
    (h.enc = .encDense → h.sparse = [] ∧ h.dense.length = 12289) ∧
    (∀ i : Fin registers, ∃ value, readRegister h i = .ok value ∧ value ≤ 51) ∧
    (∀ data, ∃ result, h.add data = .ok result) ∧
    (∀ other more, Built other more → ∃ result, h.merge other = .ok result) ∧
    (∀ estimate, ∃ result, h.count estimate = .ok result) ∧
    (∀ after, Relation.ReflTransGen Called h after → h.enc = .encDense → after.enc = .encDense) := by
  have oneForm := built.oneForm
  have holds := built.holds
  refine ⟨?_, ?_, ?_, ?_, ?_, holds.count_returns, ?_⟩
  · intro mode
    obtain ⟨empty, short⟩ := oneForm.sparse mode
    obtain ⟨regs, denotes, full⟩ := holds.stream mode
    have some : regs ≠ [] := List.ne_nil_of_length_pos (by rw [full]; decide)
    exact ⟨empty, denotes.ne_nil some, short, regs, denotes, full, denotes.small⟩
  · intro mode
    exact ⟨oneForm.dense mode, holds.array_length mode⟩
  · intro i
    refine ⟨_, built.read i, UInt8.le_iff_toNat_le.mpr ?_⟩
    rw [UInt8.toNat_ofNat']
    exact (Nat.mod_le _ _).trans (maxRank_le seen i)
  · intro data
    obtain ⟨after, changed, ran, _⟩ := holds.add data
    exact ⟨_, ran⟩
  · intro other more source
    obtain ⟨after, changed, ran, _⟩ := holds.merge source.holds
    exact ⟨_, ran⟩
  · intro after calls mode
    induction calls with
    | refl => exact mode
    | tail _ call ih => exact call.dense ih

/-- One element, in three runs of five bytes. -/
theorem built_forms_of_one :
    ∃ regs, Denotes [113, 166, 132, 78, 87] regs ∧ regs.length = 16384 ∧ ∀ value ∈ regs, value ≤ sparseValMaxValue := by
  have built : Built { HLL.new with sparse := [113, 166, 132, 78, 87], dirty := true } (insert (ascii "a") ∅) :=
    .add .new (ascii "a") (show HLL.new.add (ascii "a") = .ok (_, true) from rfl)
  exact ((built_forms built).1 rfl).2.2.2

end Rediska.Proofs
