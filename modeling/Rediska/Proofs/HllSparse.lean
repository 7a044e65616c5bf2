import Mathlib.Data.List.Basic
import Rediska.Hll.Sketch

/-! What an opcode stream stands for, and that splicing a run changes one register. -/

namespace Rediska.Proofs
open Go Hll

/-- One opcode: its bytes, the length of its run and the value of the run. -/
inductive Opcode : SparseOpKind → Bytes → Nat → UInt8 → Prop
  | zero {b : UInt8} (kind : decodeOpKind b = .opZero) : Opcode .opZero [b] (decodeZero b) 0
  | xzero {b0 b1 : UInt8} (kind : decodeOpKind b0 = .opXZero) : Opcode .opXZero [b0, b1] (decodeXZero b0 b1) 0
  | val {b : UInt8} (kind : decodeOpKind b = .opVal) : Opcode .opVal [b] (decodeVal b).2 (decodeVal b).1

/-- The registers an opcode stream stands for. -/
inductive Denotes : Bytes → List UInt8 → Prop
  | nil : Denotes [] []
  | run {kind : SparseOpKind} {op rest : Bytes} {n : Nat} {value : UInt8} {regs : List UInt8}
      (opcode : Opcode kind op n value) (more : Denotes rest regs) : Denotes (op ++ rest) (List.replicate n value ++ regs)

theorem Opcode.positive {kind : SparseOpKind} {op : Bytes} {n : Nat} {value : UInt8} (opcode : Opcode kind op n value) :
    1 ≤ n := by
  cases opcode <;> exact Nat.le_add_left 1 _

theorem Opcode.denotes {kind : SparseOpKind} {op : Bytes} {n : Nat} {value : UInt8} (opcode : Opcode kind op n value) :
    Denotes op (List.replicate n value) := by
  simpa using Denotes.run opcode .nil

theorem Denotes.append {first second : Bytes} {left right : List UInt8} (before : Denotes first left)
    (after : Denotes second right) : Denotes (first ++ second) (left ++ right) := by
  induction before with
  | nil => exact after
  | run opcode _ ih =>
    rw [List.append_assoc, List.append_assoc]
    exact .run opcode ih

section Walk
variable {σ : Type} {visit : Nat → Nat → UInt8 → σ → Panics (σ × Bool)}

theorem walkFrom_run {kind : SparseOpKind} {op : Bytes} {n : Nat} {value : UInt8} (opcode : Opcode kind op n value)
    (idx : Nat) (rest : Bytes) (state : σ) :
    walkFrom visit idx (op ++ rest) state = (do
      let (state, more) ← visit idx n value state
      if more then walkFrom visit (idx + n) rest state else .ok state) := by
  cases opcode with
  | zero kind => simp only [List.cons_append, List.nil_append, walkFrom, kind]
  | xzero kind => simp only [List.cons_append, List.nil_append, walkFrom, kind]
  | val kind => simp only [List.cons_append, List.nil_append, walkFrom, kind]

/-- A visitor that always goes on sees every run once, in register order. -/
theorem walkFrom_invariant {tail : Bytes} {regs : List UInt8} (denotes : Denotes tail regs) (holds : Nat → σ → Prop)
    (front : List UInt8) (state : σ) (start : holds front.length state)
    (step : ∀ j n value state, 1 ≤ n → j + n ≤ (front ++ regs).length → (∀ k < n, (front ++ regs)[j + k]? = some value) → holds j state →
      ∃ next, visit j n value state = .ok (next, true) ∧ holds (j + n) next) :
    ∃ final, walkFrom visit front.length tail state = .ok final ∧ holds (front ++ regs).length final := by
  induction denotes generalizing front state with
  | nil => exact ⟨state, rfl, by simpa using start⟩
  | @run kind op rest n value regs opcode _ ih =>
    have covered (k : Nat) (inside : k < n) : (front ++ (List.replicate n value ++ regs))[front.length + k]? = some value := by
      rw [List.getElem?_append_right (by omega), List.getElem?_append_left (by simp; omega)]
      simp [inside]
    obtain ⟨next, visited, kept⟩ := step front.length n value state opcode.positive (by simp) covered start
    have length : (front ++ List.replicate n value).length = front.length + n := by simp
    have same : front ++ (List.replicate n value ++ regs) = (front ++ List.replicate n value) ++ regs := by simp
    obtain ⟨final, ran, last⟩ := ih (front ++ List.replicate n value) next (by rwa [length]) (by rwa [← same])
    refine ⟨final, ?_, by rwa [same]⟩
    rw [walkFrom_run opcode, visited]
    rwa [length] at ran

theorem walkSparse_invariant (visit : Nat → Nat → UInt8 → σ → Panics (σ × Bool)) {sparse : Bytes} {regs : List UInt8}
    (denotes : Denotes sparse regs) (holds : Nat → σ → Prop) (state : σ) (start : holds 0 state)
    (step : ∀ j n value state, 1 ≤ n → j + n ≤ regs.length → (∀ k < n, regs[j + k]? = some value) → holds j state →
      ∃ next, visit j n value state = .ok (next, true) ∧ holds (j + n) next) :
    ∃ final, walkSparse visit sparse state = .ok final ∧ holds regs.length final :=
  walkFrom_invariant denotes holds [] state start step

end Walk

theorem sparseGet_denotes {sparse : Bytes} {regs : List UInt8} (denotes : Denotes sparse regs) {index : Nat} {value : UInt8}
    (read : regs[index]? = some value) : sparseGet sparse index = .ok value := by
  have walk (idx : Nat) (before : idx ≤ index) (read : regs[index - idx]? = some value) :
      walkFrom (fun startIndex runLen value result =>
        if startIndex ≤ index ∧ index < startIndex + runLen then .ok (value, false) else .ok (result, true))
        idx sparse 0 = .ok value := by
    clear * - denotes before read
    induction denotes generalizing idx with
    | nil => simp at read
    | @run kind op rest n held regs opcode _ ih =>
      rw [walkFrom_run opcode]
      by_cases here : index < idx + n
      · have same : held = value := by
          rw [List.getElem?_append_left (by simp; omega), List.getElem?_replicate, if_pos (by omega)] at read
          exact Option.some.inj read
        simp only [before, here, and_self, if_true, same]
        rfl
      · rw [List.getElem?_append_right (by simp; omega), List.length_replicate] at read
        simp only [here, and_false, if_false]
        exact ih (idx + n) (by omega) (by rwa [show index - (idx + n) = index - idx - n by omega])
  exact walk 0 (by omega) read

theorem encodeVal_opcode {value : UInt8} {n : Nat} (positive : 1 ≤ value) (fits : value ≤ sparseValMaxValue)
    (some : 1 ≤ n) (few : n ≤ 4) : Opcode .opVal [encodeVal value n] n value := by
  have low : 1 ≤ value.toNat := UInt8.le_iff_toNat_le.mp positive
  have high : value.toNat ≤ 32 := UInt8.le_iff_toNat_le.mp fits
  have table : ∀ (v : Fin 32) (l : Fin 4), decodeOpKind (encodeVal (UInt8.ofNat (v + 1)) (l + 1)) = .opVal ∧
      decodeVal (encodeVal (UInt8.ofNat (v + 1)) (l + 1)) = (UInt8.ofNat (v + 1), l.val + 1) := by decide
  have entry := table ⟨value.toNat - 1, by omega⟩ ⟨n - 1, by omega⟩
  simp only [Nat.sub_add_cancel low, Nat.sub_add_cancel some, UInt8.ofNat_toNat] at entry
  have opcode := Opcode.val entry.1
  rwa [entry.2] at opcode

theorem encodeZero_opcode {n : Nat} (some : 1 ≤ n) (few : n ≤ 64) : Opcode .opZero [encodeZero n] n 0 := by
  have table : ∀ m : Fin 64, decodeOpKind (encodeZero (m + 1)) = .opZero ∧ decodeZero (encodeZero (m + 1)) = m.val + 1 := by
    decide
  have entry := table ⟨n - 1, by omega⟩
  simp only [Nat.sub_add_cancel some] at entry
  have opcode := Opcode.zero entry.1
  rwa [entry.2] at opcode

theorem encodeXZero_opcode {n : Nat} (some : 1 ≤ n) (fits : n ≤ registers) : Opcode .opXZero (encodeXZero n) n 0 := by
  have bound : n - 1 < 2 ^ 14 := by
    have limit : n ≤ 16384 := fits
    omega
  have high : (n - 1) / 2 ^ 8 < 64 := by omega
  have first : ((0x40 : UInt16) ||| (UInt16.ofNat (n - 1) >>> 8)).toUInt8 = UInt8.ofNat (64 + (n - 1) / 2 ^ 8) := by
    apply UInt8.toNat_inj.mp
    have merged : 64 ||| (n - 1) / 2 ^ 8 = 64 + (n - 1) / 2 ^ 8 := (Nat.two_pow_add_eq_or_of_lt (i := 6) high 1).symm
    rw [UInt16.toNat_toUInt8, UInt16.toNat_or, UInt16.toNat_shiftRight, UInt16.toNat_ofNat', UInt8.toNat_ofNat',
      Nat.mod_eq_of_lt (show n - 1 < 2 ^ 16 by omega), Nat.shiftRight_eq_div_pow]
    exact congrArg (· % 2 ^ 8) merged
  have kinds : ∀ m : Fin 64, decodeOpKind (UInt8.ofNat (64 + m)) = .opXZero ∧
      ((UInt8.ofNat (64 + m) &&& 0x3F).toUInt16 <<< 8).toNat = 2 ^ 8 * m.val := by decide
  have entry := kinds ⟨(n - 1) / 2 ^ 8, high⟩
  have decoded : decodeXZero (UInt8.ofNat (64 + (n - 1) / 2 ^ 8)) (UInt16.ofNat (n - 1)).toUInt8 = n := by
    have low : (n - 1) % 256 < 2 ^ 8 := Nat.mod_lt _ (by decide)
    have merged := Nat.two_pow_add_eq_or_of_lt low ((n - 1) / 2 ^ 8)
    simp only [decodeXZero, UInt16.toNat_or, entry.2]
    simp only [UInt8.toNat_toUInt16, UInt16.toNat_toUInt8, UInt16.toNat_ofNat']
    rw [Nat.mod_eq_of_lt (show n - 1 < 2 ^ 16 by omega), show (n - 1) % 2 ^ 8 = (n - 1) % 256 from rfl, ← merged]
    omega
  have opcode : Opcode .opXZero [_, (UInt16.ofNat (n - 1)).toUInt8] _ 0 := .xzero entry.1
  rw [decoded] at opcode
  simpa only [encodeXZero, first] using opcode

theorem encodeZeroRun_denotes {n : Nat} (some : 1 ≤ n) (fits : n ≤ registers) :
    Denotes (encodeZeroRun n) (List.replicate n 0) := by
  unfold encodeZeroRun
  split
  next few => exact (encodeZero_opcode some few).denotes
  next => exact (encodeXZero_opcode some fits).denotes

theorem Opcode.run_length {kind : SparseOpKind} {op : Bytes} {n : Nat} {value : UInt8} (opcode : Opcode kind op n value) :
    n ≤ registers ∧ (kind = .opVal → n ≤ 4) := by
  cases opcode with
  | @zero b _ =>
    refine ⟨?_, nofun⟩
    have bound := b.toNat_lt
    simp only [decodeZero, registers]
    omega
  | @xzero b0 b1 _ =>
    refine ⟨?_, nofun⟩
    have masked : (b0 &&& 0x3F).toNat < 2 ^ 6 := by
      rw [UInt8.toNat_and]
      exact Nat.and_lt_two_pow _ (by decide)
    have low := b1.toNat_lt
    have merged := Nat.two_pow_add_eq_or_of_lt (show b1.toNat < 2 ^ 8 from low) (b0 &&& 0x3F).toNat
    have shifted : ((b0 &&& 0x3F).toUInt16 <<< 8).toNat = 2 ^ 8 * (b0 &&& 0x3F).toNat := by
      rw [UInt16.toNat_shiftLeft, UInt8.toNat_toUInt16, Nat.shiftLeft_eq, Nat.mul_comm]
      exact Nat.mod_eq_of_lt (show 2 ^ 8 * _ < 2 ^ 16 by omega)
    simp only [decodeXZero, registers, UInt16.toNat_or, shifted, UInt8.toNat_toUInt16, ← merged]
    omega
  | @val b _ =>
    have few : (b &&& 0x03).toNat ≤ 3 := by
      rw [UInt8.toNat_and]
      exact Nat.and_le_right
    refine ⟨?_, fun _ => ?_⟩
    · simp only [decodeVal, registers]
      omega
    · simp only [decodeVal]
      omega

theorem Opcode.value_range {kind : SparseOpKind} {op : Bytes} {n : Nat} {value : UInt8} (opcode : Opcode kind op n value) :
    value ≤ sparseValMaxValue ∧ (kind = .opVal ∧ 1 ≤ value ∨ kind ≠ .opVal ∧ value = 0) := by
  cases opcode with
  | zero => exact ⟨by decide, .inr ⟨nofun, rfl⟩⟩
  | xzero => exact ⟨by decide, .inr ⟨nofun, rfl⟩⟩
  | @val b _ =>
    have masked : ((b >>> 2) &&& 0x1F).toNat ≤ 31 := by
      rw [UInt8.toNat_and]
      exact Nat.and_le_right
    have value : (((b >>> 2) &&& 0x1F) + 1).toNat = ((b >>> 2) &&& 0x1F).toNat + 1 := by
      rw [UInt8.toNat_add]
      exact Nat.mod_eq_of_lt (show _ + 1 < 2 ^ 8 by omega)
    refine ⟨UInt8.le_iff_toNat_le.mpr ?_, .inl ⟨rfl, UInt8.le_iff_toNat_le.mpr ?_⟩⟩
    · rw [decodeVal, value]
      exact show _ ≤ 32 by omega
    · rw [decodeVal, value]
      exact show 1 ≤ _ by omega

/-- An empty side of the register is no opcode at all. -/
private theorem side_denotes {side : Bytes} {n : Nat} {value : UInt8}
    (some : 0 < n → Denotes side (List.replicate n value)) :
    Denotes (if 0 < n then side else []) (List.replicate n value) := by
  split
  next positive => exact some positive
  next empty =>
    have zero : n = 0 := by omega
    subst zero
    exact .nil

theorem splitRun_denotes {kind : SparseOpKind} {op : Bytes} {before after : Nat} {value val : UInt8}
    (opcode : Opcode kind op (before + 1 + after) value) (positive : 1 ≤ val) (fits : val ≤ sparseValMaxValue) :
    Denotes (splitRun kind value before after val) (List.replicate before value ++ [val] ++ List.replicate after value) := by
  have middle : Denotes [encodeVal val 1] [val] := (encodeVal_opcode positive fits (by decide) (by decide)).denotes
  obtain ⟨long, short⟩ := opcode.run_length
  obtain ⟨small, held | held⟩ := opcode.value_range
  · obtain ⟨rfl, nonzero⟩ := held
    have few := short rfl
    rw [splitRun, if_pos rfl]
    refine .append (.append (side_denotes fun some => ?_) middle) (side_denotes fun some => ?_)
    · exact (encodeVal_opcode nonzero small some (by omega)).denotes
    · exact (encodeVal_opcode nonzero small some (by omega)).denotes
  · obtain ⟨other, rfl⟩ := held
    rw [splitRun, if_neg other]
    refine .append (.append (side_denotes fun some => ?_) middle) (side_denotes fun some => ?_)
    · exact encodeZeroRun_denotes some (by omega)
    · exact encodeZeroRun_denotes some (by omega)

theorem sparseSetFrom_run {kind : SparseOpKind} {op : Bytes} {n : Nat} {value : UInt8} (opcode : Opcode kind op n value)
    (index : Nat) (val : UInt8) (rest passed : Bytes) (idx : Nat) :
    sparseSetFrom index val (op ++ rest) passed idx =
      sparseSetRun index val passed idx kind op n value rest (sparseSetFrom index val rest) := by
  cases opcode with
  | zero kind => simp only [List.cons_append, List.nil_append, sparseSetFrom, kind]
  | xzero kind => simp only [List.cons_append, List.nil_append, sparseSetFrom, kind]
  | val kind => simp only [List.cons_append, List.nil_append, sparseSetFrom, kind]

/-- A run with the register at offset `k` written. -/
private theorem set_replicate {n k : Nat} (inside : k < n) (value val : UInt8) (regs : List UInt8) :
    (List.replicate n value ++ regs).set k val =
      List.replicate k value ++ [val] ++ List.replicate (n - k - 1) value ++ regs := by
  have split : List.replicate n value = List.replicate k value ++ value :: List.replicate (n - k - 1) value := by
    rw [← List.replicate_succ, ← List.replicate_add]
    congr 1
    omega
  rw [split, List.append_assoc, List.set_append_right _ _ (by simp)]
  simp

theorem sparseSetFrom_denotes {sparse : Bytes} {regs : List UInt8} (denotes : Denotes sparse regs) {index : Nat} {val : UInt8}
    (positive : 1 ≤ val) (fits : val ≤ sparseValMaxValue) (passed : Bytes) (idx : Nat) (reached : idx ≤ index) {old : UInt8}
    (read : regs[index - idx]? = some old) :
    ∃ written, sparseSetFrom index val sparse passed idx = .ok (passed ++ written, decide (old < val)) ∧
      Denotes written (if old < val then regs.set (index - idx) val else regs) := by
  induction denotes generalizing passed idx with
  | nil => simp at read
  | @run kind op rest n value regs opcode more ih =>
    rw [sparseSetFrom_run opcode, sparseSetRun]
    by_cases here : index < idx + n
    · have same : value = old := by
        rw [List.getElem?_append_left (by simp; omega), List.getElem?_replicate, if_pos (by omega)] at read
        exact Option.some.inj read
      subst same
      rw [if_pos ⟨reached, here⟩]
      by_cases kept : val ≤ value
      · have smaller : ¬ value < val := by simpa using kept
        rw [if_pos kept, if_neg smaller]
        exact ⟨op ++ rest, by simp [smaller], .run opcode more⟩
      · have larger : value < val := by simpa using kept
        rw [if_neg kept, if_pos larger]
        have length : n = (index - idx) + 1 + (n - (index - idx) - 1) := by omega
        refine ⟨splitRun kind value (index - idx) (n - (index - idx) - 1) val ++ rest, by simp [larger], ?_⟩
        rw [set_replicate (by omega)]
        exact .append (splitRun_denotes (length ▸ opcode) positive fits) more
    · rw [if_neg (by simp [here])]
      rw [List.getElem?_append_right (by simp; omega), List.length_replicate] at read
      obtain ⟨written, ran, after⟩ :=
        ih (passed ++ op) (idx + n) (by omega) (by rwa [show index - (idx + n) = index - idx - n by omega])
      refine ⟨op ++ written, by rw [ran, List.append_assoc], ?_⟩
      have shifted : (List.replicate n value ++ regs).set (index - idx) val =
          List.replicate n value ++ regs.set (index - (idx + n)) val := by
        rw [List.set_append_right _ _ (by simp; omega), List.length_replicate]
        congr 2
        omega
      rw [shifted]
      split
      next larger =>
        rw [if_pos larger] at after
        exact .run opcode after
      next smaller =>
        rw [if_neg smaller] at after
        exact .run opcode after

theorem sparseSet_denotes {sparse : Bytes} {regs : List UInt8} (denotes : Denotes sparse regs) {index : Nat} {val old : UInt8}
    (positive : 1 ≤ val) (fits : val ≤ sparseValMaxValue) (read : regs[index]? = some old) :
    ∃ written, sparseSet sparse index val = .ok (written, decide (old < val)) ∧
      Denotes written (if old < val then regs.set index val else regs) :=
  sparseSetFrom_denotes denotes positive fits [] 0 (Nat.zero_le index) read

/-- Raising a register in a list of them. -/
theorem raised_read {regs : List UInt8} {i : Nat} {old : UInt8} (read : regs[i]? = some old) (val : UInt8) (j : Nat) :
    (if old < val then regs.set i val else regs)[j]? = if j = i then some (if old < val then val else old) else regs[j]? := by
  have inside : i < regs.length := (List.getElem?_eq_some_iff.mp read).1
  by_cases same : j = i
  · subst same
    split
    · simp [inside]
    · simp [read]
  · rw [if_neg same]
    split
    · exact List.getElem?_set_ne (Ne.symm same)
    · rfl

theorem raised_toNat (old val : UInt8) : (if old < val then val else old).toNat = max old.toNat val.toNat := by
  split
  next larger => exact (max_eq_right (UInt8.lt_iff_toNat_lt.mp larger).le).symm
  next smaller => exact (max_eq_left (UInt8.le_iff_toNat_le.mp (UInt8.not_lt.mp smaller))).symm

end Rediska.Proofs
