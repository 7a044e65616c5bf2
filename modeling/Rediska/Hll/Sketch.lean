import Rediska.Hll.Murmur
import Rediska.Hll.Sparse

/-! The sketch itself: packed six-bit counters when dense, opcodes when sparse. -/

namespace Rediska.Hll
open Go

def registers : Nat := 1 <<< 14
def hllBits : Nat := 6
def registerMax : UInt8 := 63

inductive EncMode where
  | encSparse | encDense
  deriving DecidableEq, Repr

structure HLL where
  dense : Bytes
  sparse : Bytes
  enc : EncMode
  cached : Nat
  dirty : Bool
  deriving DecidableEq, Repr

def HLL.new : HLL := ⟨[], encodeXZero registers, .encSparse, 0, false⟩

/-- The register an element belongs to, and the rank it brings there. -/
def hllPatLen (data : Bytes) : Nat × UInt8 :=
  let hash := murmurHash64A data
  let index := hash &&& 16383
  let hash := hash >>> 14
  let hash := hash ||| ((1 : UInt64) <<< 50)
  (index.toNat, UInt8.ofNat (trailingZeros64 hash) + 1)

def HLL.size (h : HLL) : Nat := if h.enc = .encSparse then h.sparse.length else h.dense.length

/-- Shifts of a byte: what leaves the eight bits is lost, also for shifts by eight and more. -/
def shl (b : UInt8) (k : Nat) : UInt8 := ⟨b.toBitVec <<< k⟩
def shr (b : UInt8) (k : Nat) : UInt8 := ⟨b.toBitVec >>> k⟩

def getDenseRegister (dense : Bytes) (regnum : Nat) : Panics UInt8 :=
  let byteIdx := regnum * hllBits / 8
  let firstBit := regnum * hllBits % 8
  let remBits := 8 - firstBit
  match dense[byteIdx]?, dense[byteIdx + 1]? with
  | some b0, some b1 =>
    let b0 := b0.toBitVec.setWidth 16
    let b1 := b1.toBitVec.setWidth 16
    .ok ⟨((b0 >>> firstBit ||| b1 <<< remBits) &&& registerMax.toBitVec.setWidth 16).setWidth 8⟩
  | _, _ => .error .indexOutOfRange

def setDenseRegister (dense : Bytes) (regnum : Nat) (val : UInt8) : Panics (Bytes × Bool) := do
  let val := if registerMax < val then registerMax else val
  let current ← getDenseRegister dense regnum
  if val ≤ current then .ok (dense, false)
  else
    let byteIdx := regnum * hllBits / 8
    let firstBit := regnum * hllBits % 8
    let remBits := 8 - firstBit
    match dense[byteIdx]?, dense[byteIdx + 1]? with
    | some b0, some b1 =>
      let b0 := (b0 &&& ~~~ shl registerMax firstBit) ||| shl val firstBit
      let b1 := (b1 &&& ~~~ shr registerMax remBits) ||| shr val remBits
      .ok ((dense.set byteIdx b0).set (byteIdx + 1) b1, true)
    | _, _ => .error .indexOutOfRange

def newDenseArray : Bytes := List.replicate ((registers * hllBits + 7) / 8 + 1) 0

/-- `if setDenseRegister(dense, regnum, val) { changed = true }` -/
def raiseRegister (regnum : Nat) (val : UInt8) (state : Bytes × Bool) : Panics (Bytes × Bool) := do
  let (dense, grew) ← setDenseRegister state.1 regnum val
  .ok (dense, state.2 || grew)

/-- The visitor that copies one run into a dense array, for `promote` and `Merge` alike. -/
def raiseRun (startIndex runLen : Nat) (value : UInt8) (state : Bytes × Bool) : Panics ((Bytes × Bool) × Bool) :=
  if value ≠ 0 then do
    let state ← forRange runLen (fun i => raiseRegister (startIndex + i) value) state
    .ok (state, true)
  else .ok (state, true)

def HLL.promote (h : HLL) : Panics HLL := do
  let (dense, _) ← walkSparse raiseRun h.sparse (newDenseArray, false)
  .ok { h with dense := dense, sparse := [], enc := .encDense }

def HLL.promoteIf (h : HLL) (needed : Prop) [Decidable needed] : Panics HLL :=
  if needed then h.promote else .ok h

/-- The switch of `Add`, on a sketch whose sparse form can hold the rank. -/
def HLL.addRank (h : HLL) (index : Nat) (rank : UInt8) : Panics (HLL × Bool) :=
  match h.enc with
  | .encSparse => do
    let (newSparse, ch) ← sparseSet h.sparse index rank
    let h := if ch then { h with sparse := newSparse } else h
    let h ← h.promoteIf (hllSparseMaxBytes < h.sparse.length)
    .ok (h, ch)
  | .encDense => do
    let (dense, changed) ← setDenseRegister h.dense index rank
    .ok ({ h with dense := dense }, changed)

def HLL.add (h : HLL) (data : Bytes) : Panics (HLL × Bool) := do
  let (index, rank) := hllPatLen data
  let h ← h.promoteIf (h.enc = .encSparse ∧ sparseValMaxValue < rank)
  let (h, changed) ← h.addRank index rank
  .ok (if changed then { h with dirty := true } else h, changed)

/-- The loops of `Merge`, over the other sketch's counters or over its runs. -/
def mergeRegisters (dense : Bytes) (other : HLL) : Panics (Bytes × Bool) :=
  match other.enc with
  | .encDense =>
    forRange registers (fun i state => do
      let val ← getDenseRegister other.dense i
      raiseRegister i val state) (dense, false)
  | .encSparse => walkSparse raiseRun other.sparse (dense, false)

def HLL.merge (h other : HLL) : Panics (HLL × Bool) := do
  let h ← h.promoteIf (h.enc = .encSparse)
  let (dense, changed) ← mergeRegisters h.dense other
  let h := { h with dense := dense }
  .ok (if changed then { h with dirty := true } else h, changed)

def HLL.histo (h : HLL) : Panics (List Nat) :=
  match h.enc with
  | .encSparse => sparseHisto h.sparse
  | .encDense =>
    forRange registers (fun i histo => do
      let value ← getDenseRegister h.dense i
      addToHisto histo value 1) emptyHisto

/-- `estimate` is the floating-point estimator, a function of the register histogram. -/
def HLL.count (estimate : List Nat → Nat) (h : HLL) : Panics (HLL × Nat) :=
  if ¬ h.dirty then .ok (h, h.cached)
  else do
    let histo ← h.histo
    .ok ({ h with cached := estimate histo, dirty := false }, estimate histo)

end Rediska.Hll
