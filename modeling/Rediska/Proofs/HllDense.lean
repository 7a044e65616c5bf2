import Rediska.Hll.Table
import Rediska.Logic.Growth

/-! Packed counters read bit by bit: one counter is six bits of the array, and writing
it changes those six bits only. -/

namespace Rediska.Proofs
open Go Hll

/-- Bit `p` of a byte array, counted from the low bit of the first byte. -/
def bitAt (bytes : Bytes) (p : Nat) : Bool := (bytes.getD (p / 8) 0).toBitVec.getLsbD (p % 8)

@[simp] theorem registerMax_bit (t : Nat) : registerMax.toBitVec.getLsbD t = decide (t < 6) := by
  have mask : registerMax.toBitVec = BitVec.ofNat 8 (2 ^ 6 - 1) := rfl
  rw [mask, BitVec.getLsbD_ofNat, Nat.testBit_two_pow_sub_one]
  by_cases low : t < 6
  · simp [low, show t < 8 by omega]
  · simp [low]

theorem byte_at {bytes : Bytes} {k : Nat} (inside : k < bytes.length) : bytes[k]? = some (bytes.getD k 0) := by
  simp [List.getD_eq_getElem?_getD, inside]

theorem bitAt_set {bytes : Bytes} {k : Nat} (inside : k < bytes.length) (b : UInt8) (p : Nat) :
    bitAt (bytes.set k b) p = if p / 8 = k then b.toBitVec.getLsbD (p % 8) else bitAt bytes p := by
  unfold bitAt
  simp only [List.getD_eq_getElem?_getD, List.getElem?_set]
  by_cases here : p / 8 = k
  · subst here
    simp [inside]
  · simp [here, Ne.symm here]

theorem getDenseRegister_bits (dense : Bytes) (i : Nat) (inside : i * hllBits / 8 + 1 < dense.length) :
    ∃ value, getDenseRegister dense i = .ok value ∧
      ∀ t, value.toBitVec.getLsbD t = (decide (t < 6) && bitAt dense (i * hllBits + t)) := by
  have first := byte_at (show i * hllBits / 8 < dense.length by omega)
  have second := byte_at inside
  refine ⟨_, by simp only [getDenseRegister, first, second]; rfl, ?_⟩
  intro t
  by_cases low : t < 6
  · simp only [BitVec.getLsbD_setWidth, BitVec.getLsbD_and, BitVec.getLsbD_or, BitVec.getLsbD_ushiftRight,
      BitVec.getLsbD_shiftLeft, registerMax_bit, low, show t < 8 by omega, show t < 16 by omega, decide_true,
      Bool.true_and, Bool.and_true, bitAt]
    -- The counter starts in one byte and may end in the next.
    by_cases straddles : i * hllBits % 8 + t < 8
    · have byte : (i * hllBits + t) / 8 = i * hllBits / 8 := by omega
      have bit : (i * hllBits + t) % 8 = i * hllBits % 8 + t := by omega
      simp [byte, bit, show t < 8 - i * hllBits % 8 by omega, show i * hllBits % 8 + t < 16 by omega]
    · have byte : (i * hllBits + t) / 8 = i * hllBits / 8 + 1 := by omega
      have bit : (i * hllBits + t) % 8 = t - (8 - i * hllBits % 8) := by omega
      rw [byte, bit, BitVec.getLsbD_of_ge _ _ (show 8 ≤ i * hllBits % 8 + t by omega)]
      simp [show ¬ t < 8 - i * hllBits % 8 by omega, show t - (8 - i * hllBits % 8) < 16 by omega]
  · simp [low, BitVec.getLsbD_setWidth]

/-- The two bytes a counter is written to, before and after. -/
private theorem low_byte_bit (b val : UInt8) (f : Nat) {s : Nat} (inside : s < 8)
    (small : ∀ t, 6 ≤ t → val.toBitVec.getLsbD t = false) :
    ((b &&& ~~~ shl registerMax f) ||| shl val f).toBitVec.getLsbD s =
      if f ≤ s ∧ s < f + 6 then val.toBitVec.getLsbD (s - f) else b.toBitVec.getLsbD s := by
  simp only [shl, UInt8.toBitVec_or, UInt8.toBitVec_and, UInt8.toBitVec_not, BitVec.getLsbD_or, BitVec.getLsbD_and,
    BitVec.getLsbD_not, BitVec.getLsbD_shiftLeft, registerMax_bit, inside, decide_true, Bool.true_and]
  by_cases before : s < f
  · simp [before, show ¬ f ≤ s by omega]
  · by_cases past : s < f + 6
    · simp [before, show f ≤ s by omega, past, show s - f < 6 by omega]
    · simp [before, show f ≤ s by omega, past, show ¬ s - f < 6 by omega, small (s - f) (by omega)]

private theorem high_byte_bit (b val : UInt8) (rem : Nat) {s : Nat} (inside : s < 8)
    (small : ∀ t, 6 ≤ t → val.toBitVec.getLsbD t = false) :
    ((b &&& ~~~ shr registerMax rem) ||| shr val rem).toBitVec.getLsbD s =
      if rem + s < 6 then val.toBitVec.getLsbD (rem + s) else b.toBitVec.getLsbD s := by
  simp only [shr, UInt8.toBitVec_or, UInt8.toBitVec_and, UInt8.toBitVec_not, BitVec.getLsbD_or, BitVec.getLsbD_and,
    BitVec.getLsbD_not, BitVec.getLsbD_ushiftRight, registerMax_bit, inside, decide_true, Bool.true_and]
  by_cases touched : rem + s < 6
  · simp [touched]
  · simp [touched, small (rem + s) (by omega)]

theorem small_bit {val : UInt8} (small : val ≤ registerMax) {t : Nat} (high : 6 ≤ t) :
    val.toBitVec.getLsbD t = false := by
  have bound : val.toNat ≤ 63 := UInt8.le_iff_toNat_le.mp small
  have power : 2 ^ 6 ≤ 2 ^ t := Nat.pow_le_pow_right (by decide) high
  rw [← BitVec.testBit_toNat]
  exact Nat.testBit_lt_two_pow (show val.toNat < 2 ^ t by omega)

theorem setDenseRegister_bits {dense : Bytes} {i : Nat} {val current : UInt8}
    (inside : i * hllBits / 8 + 1 < dense.length) (small : val ≤ registerMax)
    (read : getDenseRegister dense i = .ok current) (larger : current < val) :
    ∃ written, setDenseRegister dense i val = .ok (written, true) ∧ written.length = dense.length ∧
      ∀ p, bitAt written p =
        if i * hllBits ≤ p ∧ p < i * hllBits + 6 then val.toBitVec.getLsbD (p - i * hllBits) else bitAt dense p := by
  have first := byte_at (show i * hllBits / 8 < dense.length by omega)
  have second := byte_at inside
  have unclamped : ¬ registerMax < val := by simpa using small
  have grows : ¬ val ≤ current := by simpa using larger
  have wrote := show setDenseRegister dense i val = .ok (_, true) by
    simp only [setDenseRegister, unclamped, read, first, second, if_false]
    simp only [bind, Except.bind, grows, if_false]
    rfl
  refine ⟨_, wrote, by simp, ?_⟩
  intro p
  have offset : p % 8 < 8 := Nat.mod_lt p (by decide)
  rw [bitAt_set (by simpa using inside), bitAt_set (by omega)]
  by_cases high : p / 8 = i * hllBits / 8 + 1
  · rw [if_pos high, high_byte_bit _ _ _ offset (fun _ => small_bit small)]
    by_cases touched : 8 - i * hllBits % 8 + p % 8 < 6
    · rw [if_pos touched, if_pos (by omega), show 8 - i * hllBits % 8 + p % 8 = p - i * hllBits by omega]
    · rw [if_neg touched, if_neg (by omega), bitAt, high]
  · rw [if_neg high]
    by_cases low : p / 8 = i * hllBits / 8
    · rw [if_pos low, low_byte_bit _ _ _ offset (fun _ => small_bit small)]
      by_cases touched : i * hllBits % 8 ≤ p % 8 ∧ p % 8 < i * hllBits % 8 + 6
      · rw [if_pos touched, if_pos (by omega), show p % 8 - i * hllBits % 8 = p - i * hllBits by omega]
      · rw [if_neg touched, if_neg (by omega), bitAt, low]
    · rw [if_neg low, if_neg (by omega)]

theorem single_le_iff (table : Table) (i : Fin registers) (v : Nat) : Pi.single i v ≤ table ↔ v ≤ table i := by
  constructor
  · intro below
    simpa using below i
  · intro below j
    by_cases same : j = i
    · subst same
      simpa using below
    · simp [same]

theorem sup_single_apply (table : Table) (i j : Fin registers) (v : Nat) :
    (table ⊔ Pi.single i v) j = if j = i then max (table i) v else table j := by
  by_cases same : j = i
  · subst same
    simp
  · simp [same]

/-- The dense array holds the table. -/
structure Packed (dense : Bytes) (table : Table) : Prop where
  size : dense.length = newDenseArray.length
  reads : ∀ i : Fin registers, ∃ value, getDenseRegister dense i = .ok value ∧ value.toNat = table i

theorem newDenseArray_length : newDenseArray.length = 12289 := List.length_replicate

theorem register_bytes (i : Fin registers) : i * hllBits / 8 + 1 < 12289 := by
  have bound : i.val < 16384 := i.isLt
  simp only [hllBits]
  omega

theorem bitAt_zeros (n p : Nat) : bitAt (List.replicate n 0) p = false := by
  have zero : (List.replicate n (0 : UInt8)).getD (p / 8) 0 = 0 := by
    rw [List.getD_eq_getElem?_getD, List.getElem?_replicate]
    split <;> rfl
  rw [bitAt, zero]
  simp

theorem Packed.new : Packed newDenseArray ⊥ := by
  refine ⟨rfl, ?_⟩
  intro i
  obtain ⟨value, read, bits⟩ :=
    getDenseRegister_bits newDenseArray i (by rw [newDenseArray_length]; exact register_bytes i)
  have zero : value.toBitVec = 0#8 := by
    apply BitVec.eq_of_getLsbD_eq
    intro t _
    rw [bits, newDenseArray, bitAt_zeros]
    simp
  exact ⟨value, read, congrArg BitVec.toNat zero⟩

/-- Two reads agree when the six bits agree. -/
private theorem getDenseRegister_congr {dense written : Bytes} {i : Nat} {value : UInt8}
    (inside : i * hllBits / 8 + 1 < dense.length) (size : written.length = dense.length)
    (read : getDenseRegister dense i = .ok value)
    (same : ∀ t < 6, bitAt written (i * hllBits + t) = bitAt dense (i * hllBits + t)) :
    getDenseRegister written i = .ok value := by
  obtain ⟨before, readBefore, bitsBefore⟩ := getDenseRegister_bits dense i inside
  obtain ⟨after, readAfter, bitsAfter⟩ := getDenseRegister_bits written i (by omega)
  have unchanged : after = before := by
    apply UInt8.toBitVec_inj.mp
    apply BitVec.eq_of_getLsbD_eq
    intro t _
    rw [bitsBefore, bitsAfter]
    by_cases low : t < 6
    · rw [same t low]
    · simp [low]
  rw [readAfter, unchanged, ← readBefore, read]

/-- Writing a counter joins one entry into the table. -/
theorem Packed.set {dense : Bytes} {table : Table} (packed : Packed dense table) (i : Fin registers) {val : UInt8}
    (small : val ≤ registerMax) :
    ∃ written grew, setDenseRegister dense i val = .ok (written, grew) ∧
      Packed written (table ⊔ Pi.single i val.toNat) ∧
      Logic.Grown table (table ⊔ Pi.single i val.toNat) grew := by
  obtain ⟨current, read, value⟩ := packed.reads i
  have unclamped : ¬ registerMax < val := by simpa using small
  have order : val ≤ current ↔ Pi.single i val.toNat ≤ table := by
    rw [single_le_iff, ← value, UInt8.le_iff_toNat_le]
  by_cases kept : val ≤ current
  · have same : table ⊔ Pi.single i val.toNat = table := sup_eq_left.mpr (order.mp kept)
    refine ⟨dense, false, ?_, ?_, ?_⟩
    · simp only [setDenseRegister, unclamped, if_false, read]
      simp only [bind, Except.bind, kept, if_true]
    · rw [same]
      exact packed
    · exact Logic.Grown.join table _ (by simpa using order.mp kept)
  · have larger : current < val := by simpa using kept
    have inside (j : Fin registers) : j * hllBits / 8 + 1 < dense.length := by
      rw [packed.size, newDenseArray_length]
      exact register_bytes j
    obtain ⟨written, wrote, size, bits⟩ := setDenseRegister_bits (inside i) small read larger
    refine ⟨written, true, wrote, ⟨size.trans packed.size, ?_⟩, ?_⟩
    · intro j
      rw [sup_single_apply]
      by_cases same : j = i
      · subst same
        obtain ⟨after, readAfter, bitsAfter⟩ :=
          getDenseRegister_bits written j (by rw [size]; exact inside j)
        have stored : after = val := by
          apply UInt8.toBitVec_inj.mp
          apply BitVec.eq_of_getLsbD_eq
          intro t _
          rw [bitsAfter, bits]
          by_cases low : t < 6
          · simp [low]
          · simp [low, small_bit small (show 6 ≤ t by omega)]
        rw [if_pos rfl, max_eq_right (value ▸ (UInt8.lt_iff_toNat_lt.mp larger).le)]
        exact ⟨after, readAfter, congrArg UInt8.toNat stored⟩
      · obtain ⟨other, readOther, valueOther⟩ := packed.reads j
        rw [if_neg same]
        refine ⟨other, getDenseRegister_congr (inside j) size readOther ?_, valueOther⟩
        intro t low
        have apart : ¬ (i * hllBits ≤ j * hllBits + t ∧ j * hllBits + t < i * hllBits + 6) := by
          have different : j.val ≠ i.val := fun equal => same (Fin.ext equal)
          simp only [hllBits]
          omega
        rw [bits, if_neg apart]
    · exact Logic.Grown.join table _ (by simpa using fun below => kept (order.mpr below))

/-- Every array of the right size holds a table. -/
theorem Packed.of_length {dense : Bytes} (size : dense.length = 12289) : ∃ table, Packed dense table := by
  have reads (i : Fin registers) : ∃ value, getDenseRegister dense i = .ok value := by
    obtain ⟨value, read, _⟩ := getDenseRegister_bits dense i (by rw [size]; exact register_bytes i)
    exact ⟨value, read⟩
  choose value read using reads
  exact ⟨fun i => (value i).toNat, size.trans newDenseArray_length.symm, fun i => ⟨value i, read i, rfl⟩⟩

/-- What a counter takes of a value: no more than its six bits hold. -/
def clamped (val : UInt8) : UInt8 := if registerMax < val then registerMax else val

theorem clamped_le (val : UInt8) : clamped val ≤ registerMax := by
  unfold clamped
  split
  · exact UInt8.le_refl _
  next small => exact UInt8.not_lt.mp small

theorem clamped_toNat (val : UInt8) : (clamped val).toNat = min val.toNat 63 := by
  have most : registerMax.toNat = 63 := rfl
  unfold clamped
  split
  next large =>
    have above := UInt8.lt_iff_toNat_lt.mp large
    omega
  next small =>
    have below := UInt8.le_iff_toNat_le.mp (UInt8.not_lt.mp small)
    omega

theorem setDenseRegister_clamped (dense : Bytes) (i : Nat) (val : UInt8) :
    setDenseRegister dense i val = setDenseRegister dense i (clamped val) := by
  have again : (if registerMax < clamped val then registerMax else clamped val) = clamped val :=
    if_neg (UInt8.not_lt.mpr (clamped_le val))
  simp only [setDenseRegister, again]
  rfl

/-- Writing a value to a register leaves the larger of the two there, cut to six bits, and
every other register as it was. It reports whether the register is another than before. -/
theorem set_raises_one_register (dense : Bytes) (size : dense.length = 12289) (i : Fin registers) (val : UInt8) :
    ∃ old written now grew, getDenseRegister dense i = .ok old ∧ setDenseRegister dense i val = .ok (written, grew) ∧
      written.length = 12289 ∧ getDenseRegister written i = .ok now ∧ now.toNat = max old.toNat (min val.toNat 63) ∧
      (∀ j : Fin registers, j ≠ i → ∃ value, getDenseRegister dense j = .ok value ∧ getDenseRegister written j = .ok value) ∧
      (grew = true ↔ now ≠ old) := by
  obtain ⟨table, packed⟩ := Packed.of_length size
  obtain ⟨written, grew, wrote, after, grown⟩ := packed.set i (clamped_le val)
  obtain ⟨old, read, before⟩ := packed.reads i
  obtain ⟨now, reread, value⟩ := after.reads i
  have raised : now.toNat = max old.toNat (min val.toNat 63) := by
    rw [value, sup_single_apply, if_pos rfl, before, clamped_toNat]
  refine ⟨old, written, now, grew, read, ?_, after.size.trans newDenseArray_length, reread, raised, ?_, ?_⟩
  · rw [setDenseRegister_clamped]
    exact wrote
  · intro j other
    obtain ⟨first, read, before⟩ := packed.reads j
    obtain ⟨second, reread, value⟩ := after.reads j
    have same : second = first := by
      apply UInt8.toNat_inj.mp
      rw [value, sup_single_apply, if_neg other, before]
    exact ⟨first, read, same ▸ reread⟩
  · have same : now = old ↔ now.toNat = old.toNat := UInt8.toNat_inj.symm
    rw [grown.flag, left_lt_sup, single_le_iff, ← before, clamped_toNat, Ne, same, raised]
    omega

theorem set_raises_first_register :
    ∃ old written now grew, getDenseRegister newDenseArray 0 = .ok old ∧ setDenseRegister newDenseArray 0 200 = .ok (written, grew) ∧
      written.length = 12289 ∧ getDenseRegister written 0 = .ok now ∧ now.toNat = max old.toNat (min (200 : UInt8).toNat 63) ∧
      (∀ j : Fin registers, j ≠ ⟨0, by decide⟩ →
        ∃ value, getDenseRegister newDenseArray j = .ok value ∧ getDenseRegister written j = .ok value) ∧
      (grew = true ↔ now ≠ old) :=
  set_raises_one_register newDenseArray newDenseArray_length ⟨0, by decide⟩ 200

/-- What a loop over counters carries: the array holds the table reached from `start`,
and the flag tells whether it is larger. -/
structure Raised (start : Table) (state : Bytes × Bool) (table : Table) : Prop where
  packed : Packed state.1 table
  grown : Logic.Grown start table state.2

theorem Raised.register {start table : Table} {state : Bytes × Bool} (raised : Raised start state table)
    (i : Fin registers) {val : UInt8} (small : val ≤ registerMax) :
    ∃ next, raiseRegister i val state = .ok next ∧ Raised start next (table ⊔ Pi.single i val.toNat) := by
  obtain ⟨written, grew, wrote, packed, grown⟩ := raised.packed.set i small
  exact ⟨(written, state.2 || grew), by simp only [raiseRegister, wrote]; rfl, packed, raised.grown.trans grown⟩

end Rediska.Proofs
