import Mathlib.Data.List.Basic
import Mathlib.Data.Int.ModEq

/-! The part of the Go language that the models below share: byte strings, 64-bit
integers, and the run-time panics that end a goroutine and with it the process. -/

namespace Rediska.Go

/-- A Go string or byte slice. Any bytes are allowed; nothing requires UTF-8. -/
abbrev Bytes := List UInt8

/-- The bytes of an ASCII literal of the source. -/
def ascii (text : String) : Bytes := text.toList.map fun c => UInt8.ofNat c.toNat

def cr : UInt8 := 13
def lf : UInt8 := 10
def crlf : Bytes := [cr, lf]

inductive Panic
  | makeSlice
  | sliceBounds
  | indexOutOfRange
  | nilDereference
  | divideByZero
  | outOfFuel
deriving DecidableEq, Repr

/-- Two's complement wrap-around of `int` and `int64` arithmetic. -/
def wrap64 (n : Int) : Int := n.bmod (2 ^ 64)

def maxInt64 : Int := 2 ^ 63 - 1

def minInt64 : Int := -2 ^ 63

/-- The most bytes one allocation can have, with addresses of 48 bits. -/
def maxAlloc : Int := 2 ^ 48

/-- The lengths `make` takes for elements of this size. For any other it panics, before it
asks for memory. -/
def CanMake (size n : Int) : Prop := 0 ≤ n ∧ size * n ≤ maxAlloc

instance (size n : Int) : Decidable (CanMake size n) := inferInstanceAs (Decidable (_ ∧ _))

def IsInt64 (n : Int) : Prop := minInt64 ≤ n ∧ n ≤ maxInt64

instance (n : Int) : Decidable (IsInt64 n) := inferInstanceAs (Decidable (_ ∧ _))

theorem wrap64_of_isInt64 {n : Int} (fits : IsInt64 n) : wrap64 n = n := by
  obtain ⟨lower, upper⟩ := fits
  simp only [minInt64, maxInt64] at lower upper
  exact Int.bmod_eq_of_le (by omega) (by omega)

theorem isInt64_wrap64 (n : Int) : IsInt64 (wrap64 n) := by
  have lower : -((2 ^ 64 : Nat) : Int) / 2 ≤ wrap64 n := Int.le_bmod (by decide)
  have upper : wrap64 n < (((2 ^ 64 : Nat) : Int) + 1) / 2 := Int.bmod_lt (by decide)
  simp only [IsInt64, minInt64, maxInt64]
  omega

theorem wrap64_eq_self_iff {n : Int} : wrap64 n = n ↔ IsInt64 n := by
  constructor
  · intro same
    rw [← same]
    exact isInt64_wrap64 n
  · exact wrap64_of_isInt64

theorem wrap64_add (m n : Int) : wrap64 (wrap64 m + n) = wrap64 (m + n) := Int.bmod_add_bmod

/-- Past the largest `int`, addition comes back from below. -/
theorem wrap64_of_overflow {n : Int} (above : maxInt64 < n) (near : n < 2 ^ 63 + 2 ^ 62) :
    wrap64 n = n - 2 ^ 64 := by
  simp only [maxInt64] at above
  have shifted : wrap64 n = wrap64 (n - 2 ^ 64) := (Int.sub_bmod_right n (2 ^ 64)).symm
  rw [shifted]
  apply wrap64_of_isInt64
  simp only [IsInt64, minInt64, maxInt64]
  omega

end Rediska.Go
