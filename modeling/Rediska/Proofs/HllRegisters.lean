import Mathlib.Data.Finset.Lattice.Fold
import Rediska.Proofs.HllDense
import Rediska.Proofs.HllSparse

/-! A sketch, in whichever form, is a table of maxima: adding an element or merging
another sketch is a join of tables. -/

namespace Rediska.Proofs
open Go Hll Logic

/-- Bit 50 of what is left of the hash is set. -/
theorem hllPatLen_rank (data : Bytes) : 1 ≤ (hllPatLen data).2 ∧ (hllPatLen data).2 ≤ 51 := by
  have set : (murmurHash64A data >>> 14 ||| ((1 : UInt64) <<< 50)).toNat.testBit 50 = true := by
    rw [UInt64.toNat_or, Nat.testBit_or, show ((1 : UInt64) <<< 50).toNat = 2 ^ 50 from rfl, Nat.testBit_two_pow_self,
      Bool.or_true]
  have bound := trailingZeros64_le (by decide) set
  simp only [hllPatLen, UInt8.le_iff_toNat_le, UInt8.toNat_add, UInt8.toNat_ofNat']
  exact ⟨show 1 ≤ (_ + 1) % 256 by omega, show (_ + 1) % 256 ≤ 51 by omega⟩

def tableOf (regs : List UInt8) : Table := fun i => (regs.getD i 0).toNat

/-- The part of a table below register `k`. -/
def cut (k : Nat) (table : Table) : Table := fun i => if i.val < k then table i else 0

theorem cut_zero (table : Table) : cut 0 table = ⊥ := by
  funext i
  simp [cut]

theorem cut_all (table : Table) {k : Nat} (all : registers ≤ k) : cut k table = table := by
  funext i
  simp [cut, show i.val < k by have := i.isLt; omega]

theorem cut_succ (table : Table) (k : Fin registers) : cut (k + 1) table = cut k table ⊔ Pi.single k (table k) := by
  funext i
  rw [sup_single_apply]
  by_cases same : i = k
  · subst same
    simp [cut]
  · have apart : i.val ≠ k.val := fun equal => same (Fin.ext equal)
    rw [if_neg same]
    simp only [cut]
    congr 1
    exact propext ⟨fun _ => by omega, fun _ => by omega⟩

theorem cut_add_of_zero (table : Table) (j n : Nat) (zero : ∀ i : Fin registers, j ≤ i.val → i.val < j + n → table i = 0) :
    cut (j + n) table = cut j table := by
  funext i
  simp only [cut]
  by_cases before : i.val < j
  · rw [if_pos before, if_pos (by omega)]
  · rw [if_neg before]
    split
    next inside => exact zero i (by omega) inside
    next => rfl

theorem Denotes.small {sparse : Bytes} {regs : List UInt8} (denotes : Denotes sparse regs) :
    ∀ value ∈ regs, value ≤ sparseValMaxValue := by
  induction denotes with
  | nil => exact fun _ member => nomatch member
  | run opcode _ ih =>
    intro value member
    cases List.mem_append.mp member with
    | inl held => exact (List.eq_of_mem_replicate held) ▸ opcode.value_range.1
    | inr later => exact ih value later

theorem tableOf_apply {regs : List UInt8} {i : Fin registers} {value : UInt8} (read : regs[i.val]? = some value) :
    tableOf regs i = value.toNat := by
  simp [tableOf, List.getD_eq_getElem?_getD, read]

/-- Copying the runs of a stream joins the stream's table in. -/
theorem Raised.walk {start table : Table} {state : Bytes × Bool} (raised : Raised start state table) {sparse : Bytes}
    {regs : List UInt8} (denotes : Denotes sparse regs) (full : regs.length = registers) :
    ∃ final, walkSparse raiseRun sparse state = .ok final ∧ Raised start final (table ⊔ tableOf regs) := by
  have walked := walkSparse_invariant raiseRun denotes
    (fun j state => Raised start state (table ⊔ cut j (tableOf regs))) state (by rwa [cut_zero, sup_bot_eq]) ?_
  · obtain ⟨final, ran, holds⟩ := walked
    rw [cut_all _ (by omega)] at holds
    exact ⟨final, ran, holds⟩
  · intro j n value state _ inside run raised
    have run' (k : Nat) (below : k < n) (bound : j + k < registers) : tableOf regs ⟨j + k, bound⟩ = value.toNat :=
      tableOf_apply (run k below)
    by_cases zero : value = 0
    · refine ⟨state, by simp [raiseRun, zero], ?_⟩
      rw [cut_add_of_zero]
      · exact raised
      · intro i low high
        have held := run' (i - j) (by omega) (by omega)
        simp only [show j + (i.val - j) = i.val by omega] at held
        rw [held, zero]
        rfl
    · have copied := forRange_invariant n (fun i => raiseRegister (j + i) value) state
        (fun k state => Raised start state (table ⊔ cut (j + k) (tableOf regs))) raised ?_
      · obtain ⟨next, ran, holds⟩ := copied
        exact ⟨next, by simp only [raiseRun, ne_eq, zero, not_false_eq_true, if_true, ran]; rfl, holds⟩
      · intro k current below raised
        have bound : j + k < registers := by omega
        have small : value ≤ registerMax := by
          have few := denotes.small value (List.mem_of_getElem? (run k below))
          exact UInt8.le_trans few (by decide)
        obtain ⟨next, wrote, holds⟩ := raised.register ⟨j + k, bound⟩ small
        refine ⟨next, wrote, ?_⟩
        have step := cut_succ (tableOf regs) ⟨j + k, bound⟩
        rw [run' k below bound] at step
        rw [← Nat.add_assoc, step, ← sup_assoc]
        exact holds

/-- The sketch's current form holds the table. -/
inductive Holds : HLL → Table → Prop
  | sparse {h : HLL} {regs : List UInt8} (mode : h.enc = .encSparse) (denotes : Denotes h.sparse regs)
      (full : regs.length = registers) : Holds h (tableOf regs)
  | dense {h : HLL} {table : Table} (mode : h.enc = .encDense) (packed : Packed h.dense table) : Holds h table

/-- A register read from the current form. -/
def readRegister (h : HLL) (i : Nat) : Panics UInt8 :=
  match h.enc with
  | .encSparse => sparseGet h.sparse i
  | .encDense => getDenseRegister h.dense i

theorem Holds.read {h : HLL} {table : Table} (holds : Holds h table) (i : Fin registers) :
    ∃ value, readRegister h i = .ok value ∧ value.toNat = table i := by
  cases holds with
  | @sparse regs mode denotes full =>
    have inside : i.val < regs.length := by have := i.isLt; omega
    have read : regs[i.val]? = some regs[i.val] := List.getElem?_eq_getElem inside
    refine ⟨regs[i.val], ?_, (tableOf_apply read).symm⟩
    rw [readRegister, mode]
    exact sparseGet_denotes denotes read
  | dense mode packed =>
    rw [readRegister, mode]
    exact packed.reads i

theorem Holds.new : Holds HLL.new ⊥ := by
  have empty : tableOf (List.replicate registers 0) = ⊥ := by
    funext i
    have zero : (List.replicate registers (0 : UInt8))[i.val]? = some 0 := by simp
    exact tableOf_apply zero
  rw [← empty]
  exact .sparse rfl (encodeXZero_opcode (by decide) (by decide)).denotes (by simp)

theorem Holds.promote {h : HLL} {table : Table} (holds : Holds h table) (mode : h.enc = .encSparse) :
    ∃ dense, h.promote = .ok { h with dense := dense, sparse := [], enc := .encDense } ∧ Packed dense table := by
  cases holds with
  | sparse _ denotes full =>
    have start : Raised ⊥ (newDenseArray, false) ⊥ := ⟨Packed.new, .refl ⊥⟩
    obtain ⟨final, ran, raised⟩ := start.walk denotes full
    refine ⟨final.1, by simp only [HLL.promote, ran]; rfl, ?_⟩
    rw [← bot_sup_eq (tableOf _)]
    exact raised.packed
  | dense mode' => rw [mode'] at mode; cases mode

/-- Promotion changes the form only. -/
theorem Holds.promoteIf {h : HLL} {table : Table} (holds : Holds h table) (needed : Prop) [Decidable needed]
    (sparse : needed → h.enc = .encSparse) :
    ∃ after, h.promoteIf needed = .ok after ∧ Holds after table ∧ after.cached = h.cached ∧ after.dirty = h.dirty ∧
      (needed → after.enc = .encDense) ∧ (¬ needed → after = h) := by
  by_cases need : needed
  · obtain ⟨dense, ran, packed⟩ := holds.promote (sparse need)
    rw [HLL.promoteIf, if_pos need]
    exact ⟨_, ran, .dense rfl packed, rfl, rfl, fun _ => rfl, fun other => absurd need other⟩
  · exact ⟨h, by rw [HLL.promoteIf, if_neg need], holds, rfl, rfl, fun other => absurd other need, fun _ => rfl⟩

theorem tableOf_set {regs : List UInt8} {i : Fin registers} {old val : UInt8} (read : regs[i.val]? = some old) :
    tableOf (if old < val then regs.set i val else regs) = tableOf regs ⊔ Pi.single i val.toNat := by
  have reads := raised_read read val
  funext j
  rw [sup_single_apply]
  by_cases same : j = i
  · subst same
    have raised := reads j
    rw [if_pos rfl] at raised
    rw [if_pos rfl, tableOf_apply raised, tableOf_apply read]
    exact raised_toNat old val
  · have kept := reads j
    rw [if_neg (fun equal => same (Fin.ext equal))] at kept
    rw [if_neg same, tableOf, tableOf, List.getD_eq_getElem?_getD, kept, ← List.getD_eq_getElem?_getD]

private theorem addRank_sparse {h : HLL} {i : Nat} {rank : UInt8} {written : Bytes} {ch : Bool} (mode : h.enc = .encSparse)
    (wrote : sparseSet h.sparse i rank = .ok (written, ch)) (stored : HLL)
    (store : stored = if ch then { h with sparse := written } else h) :
    h.addRank i rank = stored.promoteIf (hllSparseMaxBytes < stored.sparse.length) >>= fun after => .ok (after, ch) := by
  subst store
  unfold HLL.addRank
  split
  · rw [wrote]
    rfl
  next other => rw [mode] at other; cases other

/-- Adding one rank joins one entry in, in either form. -/
theorem Holds.addRank {h : HLL} {table : Table} (holds : Holds h table) (i : Fin registers) {rank : UInt8}
    (positive : 1 ≤ rank) (small : rank ≤ registerMax) (fits : h.enc = .encSparse → rank ≤ sparseValMaxValue) :
    ∃ after changed, h.addRank i rank = .ok (after, changed) ∧ Holds after (table ⊔ Pi.single i rank.toNat) ∧
      Grown table (table ⊔ Pi.single i rank.toNat) changed ∧ after.cached = h.cached ∧ after.dirty = h.dirty := by
  cases holds with
  | @sparse regs mode denotes full =>
    have inside : i.val < regs.length := by have := i.isLt; omega
    have read : regs[i.val]? = some regs[i.val] := List.getElem?_eq_getElem inside
    obtain ⟨written, wrote, denotes'⟩ := sparseSet_denotes denotes positive (fits mode) read
    have grown : Grown (tableOf regs) (tableOf regs ⊔ Pi.single i rank.toNat) (decide (regs[i.val] < rank)) := by
      refine .join _ _ ?_
      rw [single_le_iff, tableOf_apply read, ← UInt8.le_iff_toNat_le]
      simp
    let stored : HLL := if decide (regs[i.val] < rank) = true then { h with sparse := written } else h
    have kept : Holds stored (tableOf regs ⊔ Pi.single i rank.toNat) ∧ stored.enc = .encSparse ∧
        stored.cached = h.cached ∧ stored.dirty = h.dirty := by
      rw [← tableOf_set read]
      by_cases larger : regs[i.val] < rank
      · rw [if_pos larger] at denotes' ⊢
        rw [show stored = { h with sparse := written } from if_pos (decide_eq_true larger)]
        exact ⟨.sparse mode denotes' (by simpa using full), mode, rfl, rfl⟩
      · rw [if_neg larger]
        rw [show stored = h from if_neg (by simpa using larger)]
        exact ⟨.sparse mode denotes full, mode, rfl, rfl⟩
    obtain ⟨holds', mode', cached, dirty⟩ := kept
    obtain ⟨after, ran, final, cached', dirty', _⟩ :=
      holds'.promoteIf (hllSparseMaxBytes < stored.sparse.length) (fun _ => mode')
    refine ⟨after, decide (regs[i.val] < rank), ?_, final, grown, cached'.trans cached, dirty'.trans dirty⟩
    rw [addRank_sparse mode wrote stored rfl, ran]
    rfl
  | dense mode packed =>
    obtain ⟨written, grew, wrote, packed', grown⟩ := packed.set i small
    refine ⟨{ h with dense := written }, grew, ?_, .dense mode packed', grown, rfl, rfl⟩
    simp only [HLL.addRank, mode, wrote]
    rfl

theorem Holds.congr {h after : HLL} {table : Table} (holds : Holds h table) (enc : after.enc = h.enc)
    (sparse : after.sparse = h.sparse) (dense : after.dense = h.dense) : Holds after table := by
  cases holds with
  | sparse mode denotes full => exact .sparse (enc.trans mode) (sparse ▸ denotes) full
  | dense mode packed => exact .dense (enc.trans mode) (dense ▸ packed)

theorem Holds.add {h : HLL} {table : Table} (holds : Holds h table) (data : Bytes) :
    ∃ after changed, h.add data = .ok (after, changed) ∧ Holds after (table ⊔ point data) ∧
      Grown table (table ⊔ point data) changed ∧ after.cached = h.cached ∧ after.dirty = (h.dirty || changed) := by
  obtain ⟨positive, bounded⟩ := hllPatLen_rank data
  have small : (hllPatLen data).2 ≤ registerMax := UInt8.le_trans bounded (by decide)
  obtain ⟨ready, ran, holds', cached, dirty, _, same⟩ :=
    holds.promoteIf (h.enc = .encSparse ∧ sparseValMaxValue < (hllPatLen data).2) (fun needed => needed.1)
  have fits (mode : ready.enc = .encSparse) : (hllPatLen data).2 ≤ sparseValMaxValue := by
    by_contra large
    have needed : ¬ (h.enc = .encSparse ∧ sparseValMaxValue < (hllPatLen data).2) := by
      intro needed
      simp_all
    rw [same needed] at mode
    exact needed ⟨mode, UInt8.not_le.mp large⟩
  obtain ⟨after, changed, added, holds'', grown, cached', dirty'⟩ := holds'.addRank (registerOf data) positive small fits
  refine ⟨if changed then { after with dirty := true } else after, changed, ?_, ?_, grown, ?_, ?_⟩
  · simp only [HLL.add, ran]
    simp only [bind, Except.bind]
    rw [show (hllPatLen data).1 = (registerOf data).val from rfl, added]
  · exact holds''.congr (by split <;> rfl) (by split <;> rfl) (by split <;> rfl)
  · rw [← cached, ← cached']
    split <;> rfl
  · rw [← dirty, ← dirty']
    cases changed <;> simp

theorem Packed.small {dense : Bytes} {table : Table} (packed : Packed dense table) {i : Fin registers} {value : UInt8}
    (read : getDenseRegister dense i = .ok value) : value ≤ registerMax := by
  obtain ⟨held, same, bits⟩ :=
    getDenseRegister_bits dense i (by rw [packed.size, newDenseArray_length]; exact register_bytes i)
  cases read.symm.trans same
  have bound : value.toNat < 2 ^ 6 := by
    apply Nat.lt_pow_two_of_testBit
    intro t high
    have bit := bits t
    rw [← BitVec.testBit_toNat] at bit
    simpa [show ¬ t < 6 by omega] using bit
  exact UInt8.le_iff_toNat_le.mpr (show value.toNat ≤ 63 by omega)

theorem Holds.mergeRegisters {start table other : Table} {dense : Bytes} (raised : Raised start (dense, false) table)
    {sketch : HLL} (holds : Holds sketch other) :
    ∃ final, mergeRegisters dense sketch = .ok final ∧ Raised start final (table ⊔ other) := by
  cases holds with
  | sparse mode denotes full =>
    rw [Hll.mergeRegisters, mode]
    exact raised.walk denotes full
  | dense mode packed =>
    rw [Hll.mergeRegisters, mode]
    have merged := forRange_invariant registers
      (fun i state => getDenseRegister sketch.dense i >>= fun val => raiseRegister i val state) (dense, false)
      (fun k state => Raised start state (table ⊔ cut k other)) (by rwa [cut_zero, sup_bot_eq]) ?_
    · obtain ⟨final, ran, holds⟩ := merged
      rw [cut_all _ (Nat.le_refl _)] at holds
      exact ⟨final, ran, holds⟩
    · intro k state inside raised
      obtain ⟨value, read, held⟩ := packed.reads ⟨k, inside⟩
      obtain ⟨next, wrote, holds⟩ := raised.register ⟨k, inside⟩ (packed.small read)
      refine ⟨next, by rw [read]; exact wrote, ?_⟩
      rw [cut_succ other ⟨k, inside⟩, ← sup_assoc, ← held]
      exact holds

theorem Holds.merge {h other : HLL} {table entries : Table} (holds : Holds h table) (source : Holds other entries) :
    ∃ after changed, h.merge other = .ok (after, changed) ∧ Holds after (table ⊔ entries) ∧
      Grown table (table ⊔ entries) changed ∧ after.enc = .encDense ∧ after.cached = h.cached ∧
      after.dirty = (h.dirty || changed) := by
  obtain ⟨ready, ran, holds', cached, dirty, promoted, same⟩ := holds.promoteIf (h.enc = .encSparse) (fun mode => mode)
  have mode : ready.enc = .encDense := by
    by_cases sparse : h.enc = .encSparse
    · exact promoted sparse
    · rw [same sparse]
      cases form : h.enc with
      | encSparse => exact absurd form sparse
      | encDense => rfl
  cases holds' with
  | sparse mode' => rw [mode'] at mode; cases mode
  | dense _ packed =>
    have start : Raised table (ready.dense, false) table := ⟨packed, .refl table⟩
    obtain ⟨final, merged, raised⟩ := source.mergeRegisters start
    refine ⟨if final.2 then { ready with dense := final.1, dirty := true } else { ready with dense := final.1 }, final.2, ?_, ?_,
      raised.grown, ?_, ?_, ?_⟩
    · simp only [HLL.merge, ran]
      simp only [bind, Except.bind, merged]
    · refine .dense ?_ ?_
      · split <;> exact mode
      · have packed := raised.packed
        split <;> exact packed
    · split <;> exact mode
    · rw [← cached]
      split <;> rfl
    · rw [← dirty]
      cases final.2 <;> simp

theorem Holds.count {h after : HLL} {table : Table} (holds : Holds h table) {estimate : List Nat → Nat} {n : Nat}
    (ran : h.count estimate = .ok (after, n)) : Holds after table := by
  unfold HLL.count at ran
  split at ran
  · cases ran
    exact holds
  · obtain ⟨histo, _, ran⟩ := bind_ok ran
    cases ran
    exact holds.congr rfl rfl rfl

/-- A sketch built by calls from outside the package, and the data it has seen,
its own and that of the sketches merged into it. -/
inductive Built : HLL → Finset Bytes → Prop
  | new : Built HLL.new ∅
  | add {h after : HLL} {seen : Finset Bytes} {changed : Bool} (built : Built h seen) (data : Bytes)
      (ran : h.add data = .ok (after, changed)) : Built after (insert data seen)
  | merge {h other after : HLL} {seen more : Finset Bytes} {changed : Bool} (built : Built h seen)
      (source : Built other more) (ran : h.merge other = .ok (after, changed)) : Built after (seen ∪ more)
  | count {h after : HLL} {seen : Finset Bytes} {estimate : List Nat → Nat} {n : Nat} (built : Built h seen)
      (ran : h.count estimate = .ok (after, n)) : Built after seen

theorem Built.holds {h : HLL} {seen : Finset Bytes} (built : Built h seen) : Holds h (seen.sup point) := by
  induction built with
  | new => exact Holds.new
  | @add h after seen changed _ data ran ih =>
    obtain ⟨after', changed', ran', holds, _⟩ := ih.add data
    cases ran.symm.trans ran'
    rwa [Finset.sup_insert, sup_comm]
  | merge _ _ ran own other =>
    obtain ⟨after', changed', ran', holds, _⟩ := own.merge other
    cases ran.symm.trans ran'
    rwa [Finset.sup_union]
  | count _ ran ih => exact ih.count ran

/-- The largest rank the data brings to a register, zero if it brings none. -/
def maxRank (seen : Finset Bytes) (i : Fin registers) : Nat := (seen.filter (registerOf · = i)).sup rankOf

theorem sup_point_apply (seen : Finset Bytes) (i : Fin registers) : seen.sup point i = maxRank seen i := by
  induction seen using Finset.induction_on with
  | empty => rfl
  | insert data seen fresh ih =>
    rw [Finset.sup_insert, Pi.sup_apply, ih]
    simp only [maxRank, Finset.filter_insert]
    by_cases here : registerOf data = i
    · subst here
      simp [point]
    · have apart : point data i = 0 := by simp [point, Ne.symm here]
      rw [if_neg here, apart]
      exact Nat.zero_max _

/-- Some register is strictly larger afterwards. -/
def SomeGrew (before after : HLL) : Prop :=
  ∃ (i : Fin registers) (old new : UInt8), readRegister before i = .ok old ∧ readRegister after i = .ok new ∧ old < new

theorem someGrew_iff {before after : HLL} {table grown : Table} {changed : Bool} (first : Holds before table)
    (last : Holds after grown) (growth : Grown table grown changed) : changed = true ↔ SomeGrew before after := by
  rw [growth.flag, Pi.lt_def]
  constructor
  · intro larger
    obtain ⟨_, i, grew⟩ := larger
    obtain ⟨old, readOld, held⟩ := first.read i
    obtain ⟨new, readNew, stored⟩ := last.read i
    exact ⟨i, old, new, readOld, readNew, UInt8.lt_iff_toNat_lt.mpr (by rwa [held, stored])⟩
  · intro grew
    obtain ⟨i, old, new, readOld, readNew, larger⟩ := grew
    obtain ⟨old', readOld', held⟩ := first.read i
    obtain ⟨new', readNew', stored⟩ := last.read i
    cases readOld.symm.trans readOld'
    cases readNew.symm.trans readNew'
    exact ⟨growth.above, i, by rw [← held, ← stored]; exact UInt8.lt_iff_toNat_lt.mp larger⟩

theorem Built.read {h : HLL} {seen : Finset Bytes} (built : Built h seen) (i : Fin registers) :
    readRegister h i = .ok (UInt8.ofNat (maxRank seen i)) := by
  obtain ⟨value, read, held⟩ := built.holds.read i
  rw [read, ← sup_point_apply, ← held, UInt8.ofNat_toNat]

/-- Every register is the maximum over the data seen, adding and merging report exactly
the growth of a register, and sketches that have seen the same data read the same. -/
theorem built_registers_are_maxima {h : HLL} {seen : Finset Bytes} (built : Built h seen) :
    (∀ i : Fin registers, ∃ value, readRegister h i = .ok value ∧ value.toNat = maxRank seen i) ∧
    (∀ data, ∃ after changed, h.add data = .ok (after, changed) ∧ (changed = true ↔ SomeGrew h after)) ∧
    (∀ other more, Built other more →
      ∃ after changed, h.merge other = .ok (after, changed) ∧ (changed = true ↔ SomeGrew h after)) ∧
    (∀ other, Built other seen → ∀ i : Fin registers, readRegister other i = readRegister h i) := by
  refine ⟨?_, ?_, ?_, ?_⟩
  · intro i
    obtain ⟨value, read, held⟩ := built.holds.read i
    exact ⟨value, read, held.trans (sup_point_apply seen i)⟩
  · intro data
    obtain ⟨after, changed, ran, holds, grown, _⟩ := built.holds.add data
    exact ⟨after, changed, ran, someGrew_iff built.holds holds grown⟩
  · intro other more source
    obtain ⟨after, changed, ran, holds, grown, _⟩ := built.holds.merge source.holds
    exact ⟨after, changed, ran, someGrew_iff built.holds holds grown⟩
  · intro other same i
    rw [same.read i, built.read i]

/-- A sketch of one element, whose register 12711 holds its rank. -/
theorem built_registers_of_one :
    ∃ value, readRegister { HLL.new with sparse := [113, 166, 132, 78, 87], dirty := true } 12711 = .ok value ∧
      value.toNat = maxRank {ascii "a"} ⟨12711, by decide⟩ := by
  have built : Built { HLL.new with sparse := [113, 166, 132, 78, 87], dirty := true } (insert (ascii "a") ∅) :=
    .add .new (ascii "a") (show HLL.new.add (ascii "a") = .ok (_, true) from rfl)
  exact (built_registers_are_maxima built).1 ⟨12711, by decide⟩

end Rediska.Proofs
