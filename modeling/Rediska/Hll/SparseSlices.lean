import Rediska.Core.Sds
import Rediska.Go.Slice
import Rediska.Hll.Sparse

/-! `sparseSet` as it works on slices: the positions it reads at, and the arrays it writes. -/

namespace Rediska.Hll
open Go Core

/-- What the switch finds out about the opcode at a position. -/
structure SparseOp where
  kind : SparseOpKind
  runLen : Nat
  value : UInt8
  opBytes : Nat
  deriving DecidableEq, Repr

def readOp (heap : Heap UInt8) (sparse : Slice) (pos : Nat) : Panics SparseOp := do
  let b ← sparse.get heap pos
  match decodeOpKind b with
  | .opZero => .ok ⟨.opZero, decodeZero b, 0, 1⟩
  | .opXZero => do
    let b1 ← sparse.get heap (pos + 1)
    .ok ⟨.opXZero, decodeXZero b b1, 0, 2⟩
  | .opVal => .ok ⟨.opVal, (decodeVal b).2, (decodeVal b).1, 1⟩

variable (growth : Growth)

/-- The appends to `replacement`, which is nil at first. Both branches append the same
three parts; they differ in how the registers before and after are encoded. -/
def splitRunSlice (heap : Heap UInt8) (kind : SparseOpKind) (value : UInt8) (before after : Nat) (val : UInt8) : Heap UInt8 × Slice :=
  let side (n : Nat) : Bytes := if kind = .opVal then [encodeVal value n] else encodeZeroRun n
  let (heap, replacement) := if 0 < before then Slice.nil.append growth.grow heap (side before) else (heap, .nil)
  let (heap, replacement) := replacement.append growth.grow heap [encodeVal val 1]
  if 0 < after then replacement.append growth.grow heap (side after) else (heap, replacement)

/-- The copy with the replacement in the opcode's place. -/
def spliceSlice (sparse : Slice) (pos opBytes : Nat) (heap : Heap UInt8) (replacement : Slice) : Panics (Heap UInt8 × Slice) := do
  let (heap, out) := Slice.make heap (sparse.len - opBytes + replacement.len)
  let front ← sparse.window 0 pos
  let (heap, out) := out.append growth.grow heap (front.items heap)
  let (heap, out) := out.append growth.grow heap (replacement.items heap)
  let back ← sparse.window (pos + opBytes) sparse.len
  .ok (out.append growth.grow heap (back.items heap))

/-- The loop of `sparseSet`, from a position in the stream and a register on. -/
def sparseSetLoop (heap : Heap UInt8) (sparse : Slice) (index : Nat) (val : UInt8) :
    Nat → Nat → Nat → Panics (Heap UInt8 × Slice × Bool)
  | 0, _, _ => .error .outOfFuel
  | fuel + 1, pos, idx =>
    if sparse.len ≤ pos then .ok (heap, sparse, false)
    else do
      let op ← readOp heap sparse pos
      if idx ≤ index ∧ index < idx + op.runLen then
        if val ≤ op.value then .ok (heap, sparse, false)
        else do
          let before := index - idx
          let after := op.runLen - before - 1
          let (heap, replacement) := splitRunSlice growth heap op.kind op.value before after val
          let (heap, out) ← spliceSlice growth sparse pos op.opBytes heap replacement
          .ok (heap, out, true)
      else sparseSetLoop heap sparse index val fuel (pos + op.opBytes) (idx + op.runLen)

/-- The stream is in `sparse`. Every round of the loop passes a byte at least. -/
def sparseSetSlice (heap : Heap UInt8) (sparse : Slice) (index : Nat) (val : UInt8) : Panics (Heap UInt8 × Slice × Bool) :=
  sparseSetLoop growth heap sparse index val (sparse.len + 1) 0 0

end Rediska.Hll
