import Mathlib.Algebra.CharP.Two
import Mathlib.Algebra.Field.ZMod
import Mathlib.Algebra.Polynomial.Div
import Mathlib.Data.ZMod.Basic
import Mathlib.RingTheory.AdjoinRoot

/-! Bit strings as polynomials over the field of two elements, and their remainders. The
bits of a register are the coefficients of a polynomial; shifting the register multiplies
it by X, and taking the generator off again whenever a bit leaves is long division. -/

namespace Rediska.Logic
open Polynomial

noncomputable section

def coefficient (bit : Bool) : ZMod 2 := if bit then 1 else 0

theorem coefficient_xor (a b : Bool) : coefficient (a ^^ b) = coefficient a + coefficient b := by
  cases a <;> cases b <;> decide

theorem coefficient_injective : Function.Injective coefficient := by decide

/-- The polynomial of a register, the last bit being the constant term. -/
def poly {w : Nat} (v : BitVec w) : (ZMod 2)[X] := ∑ i ∈ Finset.range w, C (coefficient (v.getLsbD i)) * X ^ i

/-- The polynomial of a bit string, the first bit being that of the highest power. -/
def message : List Bool → (ZMod 2)[X]
  | [] => 0
  | bit :: rest => C (coefficient bit) * X ^ rest.length + message rest

/-- The bits of a register, the first one first. -/
def bitsOf {w : Nat} (v : BitVec w) : List Bool := List.ofFn fun i : Fin w => v.getMsbD i

section
variable {w : Nat}

theorem coeff_poly (v : BitVec w) (i : Nat) : (poly v).coeff i = coefficient (v.getLsbD i) := by
  simp only [poly, finsetSum_coeff, coeff_C_mul_X_pow]
  rw [Finset.sum_ite_eq]
  split
  next => rfl
  next outside =>
    have high : w ≤ i := Nat.le_of_not_lt fun low => outside (Finset.mem_range.mpr low)
    rw [BitVec.getLsbD_of_ge v i high]
    rfl

theorem poly_injective : Function.Injective (poly (w := w)) := by
  intro a b same
  apply BitVec.eq_of_getLsbD_eq
  intro i _
  apply coefficient_injective
  rw [← coeff_poly, ← coeff_poly, same]

theorem poly_zero : poly (0 : BitVec w) = 0 := by
  ext i
  simp [coeff_poly, coefficient]

theorem poly_xor (a b : BitVec w) : poly (a ^^^ b) = poly a + poly b := by
  ext i
  simp only [coeff_poly, coeff_add, BitVec.getLsbD_xor, coefficient_xor]

theorem degree_poly_lt (v : BitVec w) : (poly v).degree < w := by
  rw [degree_lt_iff_coeff_zero]
  intro i high
  rw [coeff_poly, BitVec.getLsbD_of_ge v i high]
  rfl

/-- A register shifted to the left, and the bits that have left it. -/
theorem poly_shiftLeft (v : BitVec w) {k : Nat} (within : k ≤ w) :
    poly (v <<< k) + X ^ w * poly (v >>> (w - k)) = X ^ k * poly v := by
  ext i
  simp only [coeff_add, coeff_X_pow_mul', coeff_poly, BitVec.getLsbD_shiftLeft, BitVec.getLsbD_ushiftRight]
  by_cases low : i < k
  · simp [low, coefficient, Nat.not_le.mpr low, Nat.not_le.mpr (low.trans_le within)]
  · by_cases inside : i < w
    · simp [low, inside, coefficient, Nat.le_of_not_lt low, Nat.not_le.mpr inside]
    · have same : w - k + (i - w) = i - k := by omega
      simp [inside, same, coefficient, Nat.le_of_not_lt low, Nat.le_of_not_lt inside]

/-- Widening or narrowing a register loses nothing if all its bits have room. -/
theorem poly_setWidth (v : BitVec w) {n : Nat} (room : ∀ i, n ≤ i → v.getLsbD i = false) : poly (v.setWidth n) = poly v := by
  ext i
  simp only [coeff_poly, BitVec.getLsbD_setWidth]
  by_cases inside : i < n
  · simp [inside]
  · simp [inside, room i (Nat.le_of_not_lt inside)]

end

/-! Bit strings. -/

theorem message_append (first rest : List Bool) : message (first ++ rest) = message first * X ^ rest.length + message rest := by
  induction first with
  | nil => simp [message]
  | cons bit first ih =>
    simp only [List.cons_append, message, ih, List.length_append]
    ring

theorem coeff_message (bits : List Bool) (i : Nat) : (message bits).coeff i = coefficient (bits.reverse.getD i false) := by
  induction bits with
  | nil => simp [message, coefficient]
  | cons bit rest ih =>
    simp only [message, coeff_add, coeff_C_mul_X_pow, ih, List.reverse_cons, List.getD_eq_getElem?_getD, List.getElem?_append,
      List.length_reverse]
    rcases Nat.lt_trichotomy i rest.length with low | last | high
    · simp [low, low.ne]
    · simp [last, coefficient]
    · have beyond : ¬ i < rest.length := Nat.not_lt.mpr high.le
      simp [beyond, high.ne', coefficient, Nat.sub_ne_zero_of_lt high]

theorem message_bitsOf {w : Nat} (v : BitVec w) : message (bitsOf v) = poly v := by
  ext i
  rw [coeff_message, coeff_poly]
  congr 1
  rw [List.getD_eq_getElem?_getD, bitsOf]
  by_cases inside : i < w
  · have place : w - 1 - (w - 1 - i) = i := by omega
    have bound : w - 1 - i < w := by omega
    rw [List.getElem?_reverse (by simpa using inside)]
    simp [BitVec.getMsbD, place, bound]
  · rw [List.getElem?_eq_none (by simpa using inside), BitVec.getLsbD_of_ge v i (Nat.le_of_not_lt inside)]
    rfl

/-! Remainders. A generator of width `w` stands for the polynomial that has its bits and a
leading X to the `w`. -/

section
variable {w : Nat} (generator : BitVec w)

def modulus : (ZMod 2)[X] := X ^ w + poly generator

/-- One step of the division: shift, and take the generator off if a bit has left. -/
def divide (v : BitVec w) : BitVec w := if v.msb then (v <<< 1) ^^^ generator else v <<< 1

/-- The step that takes in a bit of the message as well. -/
def takeBit (v : BitVec w) (bit : Bool) : BitVec w := if v.msb ^^ bit then (v <<< 1) ^^^ generator else v <<< 1

theorem degree_modulus : (modulus generator).degree = w := by
  have small : (poly generator).degree < (X ^ w : (ZMod 2)[X]).degree := by
    rw [degree_X_pow]
    exact degree_poly_lt generator
  rw [modulus, degree_add_eq_left_of_degree_lt small, degree_X_pow]

theorem modulus_monic : (modulus generator).Monic := monic_X_pow_add (degree_poly_lt generator)

/-- A register is the remainder of what it is congruent to. -/
theorem remainder_eq {f : (ZMod 2)[X]} {v : BitVec w}
    (same : AdjoinRoot.mk (modulus generator) f = AdjoinRoot.mk (modulus generator) (poly v)) :
    f %ₘ modulus generator = poly v := by
  rw [modByMonic_eq_of_dvd_sub (modulus_monic generator) (AdjoinRoot.mk_eq_mk.mp same)]
  rw [modByMonic_eq_self_iff (modulus_monic generator), degree_modulus]
  exact degree_poly_lt v

/-- The leading power counts for the generator. -/
theorem mk_X_pow : AdjoinRoot.mk (modulus generator) (X ^ w) = AdjoinRoot.mk (modulus generator) (poly generator) := by
  rw [AdjoinRoot.mk_eq_mk, CharTwo.sub_eq_add]
  exact dvd_rfl

variable (some : 0 < w)
include some

theorem poly_shiftLeft_one (v : BitVec w) : poly (v <<< 1) + C (coefficient v.msb) * X ^ w = X * poly v := by
  have top : poly (v >>> (w - 1)) = C (coefficient v.msb) := by
    ext i
    rw [coeff_poly, coeff_C, BitVec.getLsbD_ushiftRight]
    cases i with
    | zero => simp [BitVec.msb_eq_getLsbD_last]
    | succ i => simp [BitVec.getLsbD_of_ge v (w - 1 + (i + 1)) (by omega), coefficient]
  have shifted := poly_shiftLeft v some
  rw [top, pow_one] at shifted
  rw [← shifted]
  ring

/-- Taking in a bit multiplies by X and adds the bit above the register. -/
theorem mk_takeBit (v : BitVec w) (bit : Bool) :
    AdjoinRoot.mk (modulus generator) (poly (takeBit generator v bit)) =
      AdjoinRoot.mk (modulus generator) (X * poly v + C (coefficient bit) * X ^ w) := by
  have leaves : X * poly v + C (coefficient bit) * X ^ w = poly (v <<< 1) + C (coefficient (v.msb ^^ bit)) * X ^ w := by
    rw [← poly_shiftLeft_one some v, coefficient_xor, C_add]
    ring
  rw [leaves, map_add, map_mul, mk_X_pow, ← map_mul, ← map_add]
  apply congrArg (AdjoinRoot.mk (modulus generator))
  unfold takeBit
  cases v.msb ^^ bit with
  | false => simp [coefficient]
  | true => simp [coefficient, poly_xor]

theorem mk_divide (v : BitVec w) :
    AdjoinRoot.mk (modulus generator) (poly (divide generator v)) = AdjoinRoot.mk (modulus generator) (X * poly v) := by
  have step := mk_takeBit generator some v false
  simpa [takeBit, divide, coefficient] using step

theorem mk_divide_iterate (v : BitVec w) (n : Nat) :
    AdjoinRoot.mk (modulus generator) (poly ((divide generator)^[n] v)) = AdjoinRoot.mk (modulus generator) (X ^ n * poly v) := by
  induction n generalizing v with
  | zero => simp
  | succ n ih =>
    rw [Function.iterate_succ_apply, ih, map_mul, mk_divide generator some, ← map_mul, pow_succ, mul_assoc]

/-- Taking in the bits of a message, one after the other. -/
theorem mk_takeBits (v : BitVec w) (bits : List Bool) :
    AdjoinRoot.mk (modulus generator) (poly (bits.foldl (takeBit generator) v)) =
      AdjoinRoot.mk (modulus generator) (X ^ bits.length * poly v + message bits * X ^ w) := by
  induction bits generalizing v with
  | nil => simp [message]
  | cons bit rest ih =>
    rw [List.foldl_cons, ih, map_add, map_mul, mk_takeBit generator some, ← map_mul, ← map_add, List.length_cons, message]
    apply congrArg (AdjoinRoot.mk (modulus generator))
    ring

end
end
end Rediska.Logic
