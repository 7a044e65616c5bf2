import Rediska.Go.Basic

/-! The 64-bit MurmurHash that maps an element to its register and rank. -/

namespace Rediska.Hll
open Go

def murmurSeed : UInt64 := 0xadc83b19
def murmurM : UInt64 := 0xc6a4a7935bd1e995
def murmurR : UInt64 := 47

def littleEndian (bytes : Bytes) : UInt64 := bytes.foldr (fun b high => high <<< 8 ||| b.toUInt64) 0

def mixBlock (h k : UInt64) : UInt64 :=
  let k := k * murmurM
  let k := k ^^^ (k >>> murmurR)
  let k := k * murmurM
  (h ^^^ k) * murmurM

/-- Whole blocks of eight bytes, and the tail that is left. -/
def mixBlocks (h : UInt64) : Bytes → UInt64 × Bytes
  | b0 :: b1 :: b2 :: b3 :: b4 :: b5 :: b6 :: b7 :: rest =>
    mixBlocks (mixBlock h (littleEndian [b0, b1, b2, b3, b4, b5, b6, b7])) rest
  | tail => (h, tail)

/-- The cases of the switch fall through, from the last byte of the tail to the first. -/
def mixTail (h : UInt64) (tail : Bytes) : UInt64 :=
  if tail = [] then h
  else tail.zipIdx.foldr (fun (b, i) h => h ^^^ (b.toUInt64 <<< UInt64.ofNat (8 * i))) h * murmurM

def murmurHash64A (data : Bytes) : UInt64 :=
  let h := murmurSeed ^^^ (UInt64.ofNat data.length * murmurM)
  let (h, tail) := mixBlocks h data
  let h := mixTail h tail
  let h := h ^^^ (h >>> murmurR)
  let h := h * murmurM
  h ^^^ (h >>> murmurR)

/-- `bits.TrailingZeros64` -/
def trailingZeros64 (x : UInt64) : Nat := ((List.range 64).find? (fun i => x.toNat.testBit i)).getD 64

theorem trailingZeros64_le {x : UInt64} {i : Nat} (inside : i < 64) (set : x.toNat.testBit i = true) :
    trailingZeros64 x ≤ i := by
  unfold trailingZeros64
  cases found : (List.range 64).find? (fun i => x.toNat.testBit i) with
  | none => exact absurd set (List.find?_eq_none.mp found i (List.mem_range.mpr inside))
  | some j =>
    simp only [Option.getD_some]
    by_contra later
    have first := List.find?_range_eq_some.mp found
    exact absurd set (by simpa using first.2.2 i (by omega))

end Rediska.Hll
