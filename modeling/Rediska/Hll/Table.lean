import Mathlib.Algebra.Group.Pi.Basic
import Mathlib.Data.List.OfFn
import Mathlib.Order.Lattice
import Mathlib.Order.Lattice.Nat
import Mathlib.Order.Nat
import Rediska.Hll.Sketch

/-! What a sketch stands for, in whichever form it is: a table with a counter for each
register. -/

namespace Rediska.Hll
open Go

/-- One counter for each register. -/
abbrev Table := Fin registers → Nat

theorem hllPatLen_index (data : Bytes) : (hllPatLen data).1 < registers := by
  simp only [hllPatLen, UInt64.toNat_and]
  exact Nat.and_lt_two_pow _ (n := 14) (by decide)

def registerOf (data : Bytes) : Fin registers := ⟨(hllPatLen data).1, hllPatLen_index data⟩

def rankOf (data : Bytes) : Nat := (hllPatLen data).2.toNat

/-- The table of one element. -/
def point (data : Bytes) : Table := Pi.single (registerOf data) (rankOf data)

def histogramOf (values : List Nat) : List Nat := (List.range 64).map fun v => values.count v

/-- All that the estimator sees of a table. -/
def histogram (table : Table) : List Nat := histogramOf (List.ofFn table)

end Rediska.Hll
