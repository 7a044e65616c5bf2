import Rediska.Hll.SparseSlices
import Rediska.Proofs.HllSparse

/-! Writing a register of an opcode stream in memory: the new stream is built in arrays of
its own, and the old one stays as it was. -/

namespace Rediska.Proofs
open Go Core Hll

variable {growth : Growth} {heap : Heap UInt8} {sparse : Slice}

theorem splitRunSlice_built (growth : Growth) (heap : Heap UInt8) (kind : SparseOpKind) (value : UInt8) (before after : Nat) (val : UInt8) :
    Slice.Built heap (splitRunSlice growth heap kind value before after val).1 (splitRunSlice growth heap kind value before after val).2
      (splitRun kind value before after val) := by
  let side (n : Nat) : Bytes := if kind = .opVal then [encodeVal value n] else encodeZeroRun n
  have parts : splitRun kind value before after val =
      (if 0 < before then side before else []) ++ [encodeVal val 1] ++ (if 0 < after then side after else []) := by
    simp only [splitRun, side]
    split <;> rfl
  have first : Slice.Built heap (if 0 < before then Slice.nil.append growth.grow heap (side before) else (heap, .nil)).1
      (if 0 < before then Slice.nil.append growth.grow heap (side before) else (heap, .nil)).2 (if 0 < before then side before else []) := by
    split
    · exact (Slice.built_nil heap).append growth.enough (side before)
    · exact Slice.built_nil heap
  have second := first.append growth.enough [encodeVal val 1]
  rw [parts, splitRunSlice]
  dsimp only
  split
  · exact second.append growth.enough (side after)
  · rw [List.append_nil]
    exact second

/-- The copy is made in a new array, and what it is made of is in others. -/
theorem spliceSlice_built (growth : Growth) (fits : sparse.Fits heap) {passed op rest : Bytes}
    (stream : sparse.items heap = passed ++ (op ++ rest)) {later : Heap UInt8} {replacement : Slice} {new : Bytes}
    (built : Slice.Built heap later replacement new) :
    ∃ after out, spliceSlice growth sparse passed.length op.length later replacement = .ok (after, out) ∧
      Slice.Built heap after out (passed ++ new ++ rest) := by
  have len : sparse.len = (passed ++ (op ++ rest)).length := by rw [← stream, fits.items_length]
  obtain ⟨there, same⟩ := fits.of_prefix built.kept
  obtain ⟨front, cut, frontFits, frontItems⟩ := there.window (Nat.zero_le passed.length) (by simp [len])
  obtain ⟨back, cut', backFits, backItems⟩ :=
    there.window (show passed.length + op.length ≤ sparse.len by simp [len, ← Nat.add_assoc]) (Nat.le_refl sparse.len)
  have opening : front.items later = passed := by
    rw [frontItems, same, stream, List.drop_zero, List.take_left]
  have closing : back.items later = rest := by
    rw [backItems, same, stream, len, List.take_length, ← List.append_assoc, ← List.length_append, List.drop_left]
  have made := (((Slice.built_make later (sparse.len - op.length + replacement.len)).append_slice growth.enough frontFits).append_slice
    growth.enough built.fits).append_slice growth.enough backFits
  rw [opening, closing, built.holds, List.nil_append] at made
  exact ⟨_, _, by simp only [spliceSlice, cut, cut', ok_bind], made.of_prefix built.kept⟩

theorem readOp_opcode {passed op rest : Bytes} {kind : SparseOpKind} {n : Nat} {value : UInt8}
    (stream : sparse.items heap = passed ++ (op ++ rest)) (opcode : Opcode kind op n value) :
    readOp heap sparse passed.length = .ok ⟨kind, n, value, op.length⟩ := by
  cases opcode with
  | @zero b kind =>
    have first : sparse.get heap passed.length = .ok b := Slice.get_next stream
    simp only [readOp, first, ok_bind, kind]
    rfl
  | @xzero b0 b1 kind =>
    have first : sparse.get heap passed.length = .ok b0 := Slice.get_next stream
    have second : sparse.get heap (passed.length + 1) = .ok b1 := Slice.get_eq (by rw [stream]; simp)
    simp only [readOp, first, ok_bind, kind, second]
    rfl
  | @val b kind =>
    have first : sparse.get heap passed.length = .ok b := Slice.get_next stream
    simp only [readOp, first, ok_bind, kind]
    rfl

/-- The stream ends where the second byte of an opcode should be. -/
theorem readOp_truncated {passed : Bytes} {b : UInt8} (stream : sparse.items heap = passed ++ [b]) (kind : decodeOpKind b = .opXZero) :
    readOp heap sparse passed.length = .error .indexOutOfRange := by
  have first : sparse.get heap passed.length = .ok b := Slice.get_next stream
  have second : sparse.get heap (passed.length + 1) = .error .indexOutOfRange := Slice.get_beyond (by rw [stream]; simp)
  simp only [readOp, first, ok_bind, kind, second, bind_error]

theorem Opcode.length_pos {kind : SparseOpKind} {op : Bytes} {n : Nat} {value : UInt8} (opcode : Opcode kind op n value) :
    0 < op.length := by
  cases opcode <;> exact Nat.succ_pos _

/-- Bytes start with an opcode, unless they end within one. -/
theorem opcode_cases {tail : Bytes} (some : tail ≠ []) :
    (∃ kind op n value rest, Opcode kind op n value ∧ tail = op ++ rest) ∨ ∃ b, decodeOpKind b = .opXZero ∧ tail = [b] := by
  obtain ⟨b, rest, rfl⟩ := List.exists_cons_of_ne_nil some
  cases kind : decodeOpKind b with
  | opZero => exact .inl ⟨_, [b], _, _, rest, .zero kind, rfl⟩
  | opVal => exact .inl ⟨_, [b], _, _, rest, .val kind, rfl⟩
  | opXZero =>
    cases rest with
    | nil => exact .inr ⟨b, kind, rfl⟩
    | cons b1 rest => exact .inl ⟨_, [b, b1], _, _, rest, .xzero kind, rfl⟩

/-- The same result in memory: bytes that are returned are in a slice, and no array that was
there before has changed. -/
def InMemory (heap : Heap UInt8) (result : Panics (Heap UInt8 × Slice × Bool)) : Panics (Bytes × Bool) → Prop
  | .error p => result = .error p
  | .ok (written, changed) =>
    ∃ after out, result = .ok (after, out, changed) ∧ heap <+: after ∧ out.Fits after ∧ out.items after = written

theorem sparseSetLoop_refines (growth : Growth) (fits : sparse.Fits heap) (index : Nat) (val : UInt8) {fuel : Nat} {passed tail : Bytes}
    (stream : sparse.items heap = passed ++ tail) (enough : tail.length < fuel) (idx : Nat) :
    InMemory heap (sparseSetLoop growth heap sparse index val fuel passed.length idx) (sparseSetFrom index val tail passed idx) := by
  have unchanged (result : Bytes) (all : sparse.items heap = result) : InMemory heap (.ok (heap, sparse, false)) (.ok (result, false)) :=
    ⟨heap, sparse, rfl, List.prefix_refl heap, fits, all⟩
  have len : sparse.len = passed.length + tail.length := by
    rw [← fits.items_length, stream, List.length_append]
  induction fuel generalizing passed tail idx with
  | zero => omega
  | succ fuel ih =>
    rw [sparseSetLoop]
    by_cases some : tail = []
    · subst some
      have ended : sparse.len ≤ passed.length := len.le
      rw [if_pos ended]
      exact unchanged passed (by rw [stream, List.append_nil])
    · have inside : ¬ sparse.len ≤ passed.length := by
        have := List.length_pos_iff.mpr some
        omega
      rw [if_neg inside]
      rcases opcode_cases some with ⟨kind, op, n, value, rest, opcode, rfl⟩ | ⟨b, kind, rfl⟩
      · rw [readOp_opcode stream opcode, ok_bind, sparseSetFrom_run opcode, sparseSetRun]
        dsimp only
        split
        · split
          · exact unchanged _ (by rw [stream, List.append_assoc])
          · have built := splitRunSlice_built growth heap kind value (index - idx) (n - (index - idx) - 1) val
            obtain ⟨after, out, spliced, built⟩ := spliceSlice_built growth fits stream built
            exact ⟨after, out, by rw [spliced]; rfl, built.kept, built.fits, built.holds⟩
        · have positive := opcode.length_pos
          rw [← List.length_append]
          apply ih
          · rw [stream, List.append_assoc]
          · rw [List.length_append] at enough
            omega
          · rw [len, List.length_append, List.length_append, Nat.add_assoc]
      · rw [readOp_truncated stream kind]
        simp only [sparseSetFrom, kind]
        rfl

/-- On slices `sparseSet` is what it is on bytes, and leaves the arrays alone. -/
theorem sparseSetSlice_refines (growth : Growth) (fits : sparse.Fits heap) (index : Nat) (val : UInt8) :
    InMemory heap (sparseSetSlice growth heap sparse index val) (sparseSet (sparse.items heap) index val) := by
  have all : sparse.items heap = [] ++ sparse.items heap := rfl
  apply sparseSetLoop_refines growth fits index val all
  rw [fits.items_length]
  exact Nat.lt_succ_self _

/-- Complete opcodes, with as many registers in their runs as there are. -/
def WholeStream (stream : Bytes) : Prop := ∃ regs, Denotes stream regs ∧ regs.length = registers

theorem WholeStream.new : WholeStream (encodeXZero registers) :=
  ⟨List.replicate registers 0, (encodeXZero_opcode (by decide) (Nat.le_refl _)).denotes, List.length_replicate⟩

/-- Writing a value to a register makes a new stream, well formed again, with the larger of
the two values there and the other registers as they were. It reports whether that is a
change, and leaves every array alone that was there before, the old stream among them. -/
theorem sparseSet_raises_one_register (growth : Growth) (heap : Heap UInt8) (sparse : Slice) (fits : sparse.Fits heap)
    (whole : WholeStream (sparse.items heap)) (i : Fin registers) {val : UInt8} (positive : 1 ≤ val) (small : val ≤ 32) :
    ∃ old now after out changed, sparseGet (sparse.items heap) i = .ok old ∧
      sparseSetSlice growth heap sparse i val = .ok (after, out, changed) ∧
      sparseSet (sparse.items heap) i val = .ok (out.items after, changed) ∧
      (changed = true ↔ old < val) ∧ WholeStream (out.items after) ∧
      sparseGet (out.items after) i = .ok now ∧ now.toNat = max old.toNat val.toNat ∧
      (∀ j : Fin registers, j ≠ i →
        ∃ value, sparseGet (sparse.items heap) j = .ok value ∧ sparseGet (out.items after) j = .ok value) ∧
      heap <+: after ∧ sparse.items after = sparse.items heap := by
  obtain ⟨regs, denotes, size⟩ := whole
  have held (j : Fin registers) : ∃ value, regs[j.val]? = some value :=
    ⟨_, List.getElem?_eq_getElem (by rw [size]; exact j.isLt)⟩
  obtain ⟨old, read⟩ := held i
  obtain ⟨written, wrote, raised⟩ := sparseSet_denotes denotes positive small read
  have refines := sparseSetSlice_refines growth fits i val
  rw [wrote] at refines
  obtain ⟨after, out, ran, kept, _, rfl⟩ := refines
  have reads := raised_read read val
  refine ⟨old, if old < val then val else old, after, out, decide (old < val), sparseGet_denotes denotes read, ran, wrote,
    decide_eq_true_iff, ⟨_, raised, ?_⟩, ?_, ?_, ?_, kept, (fits.of_prefix kept).2⟩
  · split
    · rw [List.length_set, size]
    · exact size
  · exact sparseGet_denotes raised (by rw [reads, if_pos rfl])
  · exact raised_toNat old val
  · intro j other
    obtain ⟨value, there⟩ := held j
    refine ⟨value, sparseGet_denotes denotes there, sparseGet_denotes raised ?_⟩
    rw [reads, if_neg (fun same => other (Fin.ext same)), there]

/-- A register of the stream for an empty sketch. -/
theorem sparseSet_raises_in_zeros :
    ∃ old now after out changed, sparseGet (encodeXZero registers) 5 = .ok old ∧
      sparseSetSlice ⟨fun _ needed => needed, fun _ _ => Nat.le_refl _⟩ [encodeXZero registers] ⟨0, 0, 2, 2⟩ 5 3 = .ok (after, out, changed) ∧
      sparseSet (encodeXZero registers) 5 3 = .ok (out.items after, changed) ∧
      (changed = true ↔ old < 3) ∧ WholeStream (out.items after) ∧
      sparseGet (out.items after) 5 = .ok now ∧ now.toNat = max old.toNat (3 : UInt8).toNat ∧
      (∀ j : Fin registers, j ≠ ⟨5, by decide⟩ →
        ∃ value, sparseGet (encodeXZero registers) j = .ok value ∧ sparseGet (out.items after) j = .ok value) ∧
      [encodeXZero registers] <+: after ∧ Slice.items after ⟨0, 0, 2, 2⟩ = encodeXZero registers :=
  sparseSet_raises_one_register ⟨fun _ needed => needed, fun _ _ => Nat.le_refl _⟩ [encodeXZero registers] ⟨0, 0, 2, 2⟩
    ⟨by decide, by decide⟩ .new ⟨5, by decide⟩ (by decide) (by decide)

end Rediska.Proofs
