import Rediska.Cluster.Slot
import Rediska.Logic.BitPolynomial

/-! The checksum of keys is the remainder of a polynomial division. -/

namespace Rediska.Proofs
open Go Cluster Logic Polynomial

/-- The generator of CRC-16/XMODEM without its leading term. -/
def xmodem : BitVec 16 := 0x1021

/-- The bits of a string, each byte from its most significant bit on. -/
def stringBits (s : Bytes) : List Bool := s.flatMap fun b => bitsOf b.toBitVec

/-- The checksum bit by bit, without a table. -/
def crc16Bits (s : Bytes) : UInt16 := ⟨(stringBits s).foldl (takeBit xmodem) 0⟩

theorem modulus_xmodem : modulus xmodem = X ^ 16 + X ^ 12 + X ^ 5 + 1 := by
  have low : poly xmodem = X ^ 12 + X ^ 5 + 1 := by
    simp [poly, Finset.sum_range_succ, xmodem, coefficient]
    ring
  rw [modulus, low]
  ring

theorem crc16Step_divides (crc : UInt16) : (crc16Step crc).toBitVec = divide xmodem crc.toBitVec := by
  have top : crc &&& 0x8000 ≠ 0 ↔ crc.toBitVec.msb = true := by
    have bit := BitVec.and_twoPow crc.toBitVec 15
    rw [ne_eq, ← UInt16.toBitVec_inj, BitVec.msb_eq_getLsbD_last]
    change ¬ (crc.toBitVec &&& BitVec.twoPow 16 15 = 0) ↔ _
    rw [bit]
    cases crc.toBitVec.getLsbD 15 with
    | false => simp
    | true => simp
  unfold crc16Step divide
  split
  next set =>
    rw [if_pos (top.mp set)]
    rfl
  next clear =>
    rw [if_neg fun set => clear (top.mpr set)]
    rfl

/-- A slot of the table is eight steps of the division. -/
theorem crc16tab_divides (i : UInt8) : (crc16tab i).toBitVec = (divide xmodem)^[8] (i.toBitVec.setWidth 16 <<< 8) := by
  have steps : Function.Semiconj UInt16.toBitVec crc16Step (divide xmodem) := crc16Step_divides
  simp only [crc16tab, List.foldl_const, List.length_range]
  exact steps.iterate_right 8 (i.toUInt16 <<< 8)

/-- The polynomial of a string. -/
noncomputable def stringPoly (s : Bytes) : (ZMod 2)[X] := message (stringBits s)

theorem stringBits_cons (b : UInt8) (rest : Bytes) : stringBits (b :: rest) = bitsOf b.toBitVec ++ stringBits rest := rfl

theorem stringBits_length (s : Bytes) : (stringBits s).length = 8 * s.length := by
  simp [stringBits, List.length_flatMap, bitsOf, Nat.mul_comm]

noncomputable section

/-- Congruent modulo the generator. -/
abbrev residue : (ZMod 2)[X] →+* AdjoinRoot (modulus xmodem) := AdjoinRoot.mk (modulus xmodem)

theorem residue_crc16tab (i : UInt8) : residue (poly (crc16tab i).toBitVec) = residue (X ^ 16 * poly i.toBitVec) := by
  have wide : poly (i.toBitVec.setWidth 16) = poly i.toBitVec := by
    apply poly_setWidth
    intro j high
    exact BitVec.getLsbD_of_ge _ _ (by omega)
  have empty : i.toBitVec.setWidth 16 >>> 8 = 0 := by
    apply BitVec.eq_of_getLsbD_eq
    intro j _
    simp [BitVec.getLsbD_ushiftRight, BitVec.getLsbD_setWidth]
  have shifted := poly_shiftLeft (i.toBitVec.setWidth 16) (k := 8) (by decide)
  simp only [Nat.reduceSub, empty, poly_zero, mul_zero, add_zero, wide] at shifted
  rw [crc16tab_divides, mk_divide_iterate xmodem (by decide), shifted, ← mul_assoc, ← pow_add]

/-- A byte taken in through the table. -/
theorem residue_byte (crc : UInt16) (b : UInt8) :
    residue (poly ((crc <<< 8) ^^^ crc16tab ((crc >>> 8).toUInt8 ^^^ b)).toBitVec) =
      residue (X ^ 8 * poly crc.toBitVec + X ^ 16 * poly b.toBitVec) := by
  have high : poly (crc >>> 8).toUInt8.toBitVec = poly (crc.toBitVec >>> 8) := by
    apply poly_setWidth (crc.toBitVec >>> 8)
    intro j beyond
    rw [BitVec.getLsbD_ushiftRight]
    exact BitVec.getLsbD_of_ge _ _ (by omega)
  have leaves := poly_shiftLeft crc.toBitVec (k := 8) (by decide)
  simp only [Nat.reduceSub] at leaves
  have low : poly (crc <<< 8).toBitVec = poly (crc.toBitVec <<< 8) := rfl
  rw [UInt16.toBitVec_xor, poly_xor, map_add, residue_crc16tab, UInt8.toBitVec_xor, poly_xor, ← map_add, high, low, ← leaves]
  apply congrArg residue
  ring

theorem residue_crc16 (s : Bytes) (crc : UInt16) :
    residue (poly (s.foldl (fun (crc : UInt16) (b : UInt8) => (crc <<< 8) ^^^ crc16tab ((crc >>> 8).toUInt8 ^^^ b)) crc).toBitVec) =
      residue (X ^ (8 * s.length) * poly crc.toBitVec + stringPoly s * X ^ 16) := by
  induction s generalizing crc with
  | nil => simp [stringPoly, stringBits, message]
  | cons b rest ih =>
    have bits : stringPoly (b :: rest) = poly b.toBitVec * X ^ (8 * rest.length) + stringPoly rest := by
      rw [stringPoly, stringBits_cons, message_append, message_bitsOf, stringBits_length]
      rfl
    rw [List.foldl_cons, ih, map_add, map_mul, residue_byte, ← map_mul, ← map_add, bits, List.length_cons]
    apply congrArg residue
    ring

/-- The checksum from the table is the one that is computed bit by bit, and this is the
remainder of the string's polynomial, multiplied by X to the 16, divided by the generator. -/
theorem crc16_is_remainder (s : Bytes) :
    crc16 s = crc16Bits s ∧ poly (crc16 s).toBitVec = (stringPoly s * X ^ 16) %ₘ (X ^ 16 + X ^ 12 + X ^ 5 + 1) := by
  have table : stringPoly s * X ^ 16 %ₘ modulus xmodem = poly (crc16 s).toBitVec := by
    apply remainder_eq
    have start : poly (0 : UInt16).toBitVec = 0 := poly_zero
    have run := residue_crc16 s 0
    rw [start, mul_zero, zero_add] at run
    exact run.symm
  have bitwise : stringPoly s * X ^ 16 %ₘ modulus xmodem = poly (crc16Bits s).toBitVec := by
    apply remainder_eq
    have run := mk_takeBits xmodem (by decide) 0 (stringBits s)
    rw [poly_zero, mul_zero, zero_add] at run
    exact run.symm
  constructor
  · apply UInt16.toBitVec_inj.mp
    apply poly_injective
    exact table.symm.trans bitwise
  · rw [← modulus_xmodem, table]

end

end Rediska.Proofs
