import Rediska.Go.Loop

/-! The sparse form of a sketch: a stream of opcodes, each one a run of equal registers. -/

namespace Rediska.Hll
open Go

def hllSparseMaxBytes : Nat := 3000
def sparseValMaxValue : UInt8 := 32
def sparseZeroMaxLen : Nat := 64

def encodeZero (length : Nat) : UInt8 := UInt8.ofNat (length - 1)

def encodeXZero (length : Nat) : Bytes :=
  let n := UInt16.ofNat (length - 1)
  [((0x40 : UInt16) ||| (n >>> 8)).toUInt8, n.toUInt8]

def encodeVal (value : UInt8) (length : Nat) : UInt8 :=
  let v := value - 1
  let l := UInt8.ofNat (length - 1)
  (0x80 : UInt8) ||| (v <<< 2) ||| l

inductive SparseOpKind where
  | opZero | opXZero | opVal
  deriving DecidableEq, Repr

def decodeOpKind (b : UInt8) : SparseOpKind :=
  if b &&& 0x80 ≠ 0 then .opVal
  else if b &&& 0x40 ≠ 0 then .opXZero
  else .opZero

def decodeZero (b : UInt8) : Nat := b.toNat + 1

def decodeXZero (b0 b1 : UInt8) : Nat :=
  let n := ((b0 &&& 0x3F).toUInt16 <<< 8) ||| b1.toUInt16
  n.toNat + 1

def decodeVal (b : UInt8) : UInt8 × Nat := (((b >>> 2) &&& 0x1F) + 1, (b &&& 0x03).toNat + 1)

section Walk
variable {σ : Type} (visit : Nat → Nat → UInt8 → σ → Panics (σ × Bool))

/-- The walk from byte position on, register `idx` being the next one. The second
byte of a truncated XZERO is an index out of range. -/
def walkFrom (idx : Nat) : Bytes → σ → Panics σ
  | [], state => .ok state
  | b :: rest, state =>
    match decodeOpKind b, rest with
    | .opZero, rest => do
      let (state, more) ← visit idx (decodeZero b) 0 state
      if more then walkFrom (idx + decodeZero b) rest state else .ok state
    | .opXZero, [] => .error .indexOutOfRange
    | .opXZero, b1 :: rest => do
      let (state, more) ← visit idx (decodeXZero b b1) 0 state
      if more then walkFrom (idx + decodeXZero b b1) rest state else .ok state
    | .opVal, rest => do
      let (state, more) ← visit idx (decodeVal b).2 (decodeVal b).1 state
      if more then walkFrom (idx + (decodeVal b).2) rest state else .ok state

def walkSparse (sparse : Bytes) (state : σ) : Panics σ := walkFrom visit 0 sparse state

end Walk

def sparseGet (sparse : Bytes) (index : Nat) : Panics UInt8 :=
  walkSparse (fun startIndex runLen value result =>
    if startIndex ≤ index ∧ index < startIndex + runLen then .ok (value, false) else .ok (result, true)) sparse 0

/-- `histo[value] += n`, on an array of 64 counters -/
def addToHisto (histo : List Nat) (value : UInt8) (n : Nat) : Panics (List Nat) :=
  match histo[value.toNat]? with
  | none => .error .indexOutOfRange
  | some count => .ok (histo.set value.toNat (count + n))

def emptyHisto : List Nat := List.replicate 64 0

def sparseHisto (sparse : Bytes) : Panics (List Nat) :=
  walkSparse (fun _ runLen value histo => (addToHisto histo value runLen).map (·, true)) sparse emptyHisto

def encodeZeroRun (length : Nat) : Bytes :=
  if length ≤ sparseZeroMaxLen then [encodeZero length] else encodeXZero length

/-- The opcodes that take the place of the run around the register: the registers
before and after it keep the run's value. -/
def splitRun (kind : SparseOpKind) (value : UInt8) (before after : Nat) (val : UInt8) : Bytes :=
  if kind = .opVal then
    (if 0 < before then [encodeVal value before] else []) ++ [encodeVal val 1] ++
      (if 0 < after then [encodeVal value after] else [])
  else
    (if 0 < before then encodeZeroRun before else []) ++ [encodeVal val 1] ++
      (if 0 < after then encodeZeroRun after else [])

/-- One opcode of the search. `passed` is `sparse[:pos]`, `op` the opcode's own bytes
and `rest` what follows; `next` goes on behind the opcode. -/
def sparseSetRun (index : Nat) (val : UInt8) (passed : Bytes) (idx : Nat) (kind : SparseOpKind) (op : Bytes)
    (runLen : Nat) (value : UInt8) (rest : Bytes) (next : Bytes → Nat → Panics (Bytes × Bool)) : Panics (Bytes × Bool) :=
  if idx ≤ index ∧ index < idx + runLen then
    if val ≤ value then .ok (passed ++ op ++ rest, false)
    else
      let before := index - idx
      let after := runLen - before - 1
      .ok (passed ++ splitRun kind value before after val ++ rest, true)
  else next (passed ++ op) (idx + runLen)

def sparseSetFrom (index : Nat) (val : UInt8) : Bytes → Bytes → Nat → Panics (Bytes × Bool)
  | [], passed, _ => .ok (passed, false)
  | b :: rest, passed, idx =>
    match decodeOpKind b, rest with
    | .opZero, rest =>
      sparseSetRun index val passed idx .opZero [b] (decodeZero b) 0 rest (sparseSetFrom index val rest)
    | .opXZero, [] => .error .indexOutOfRange
    | .opXZero, b1 :: rest =>
      sparseSetRun index val passed idx .opXZero [b, b1] (decodeXZero b b1) 0 rest (sparseSetFrom index val rest)
    | .opVal, rest =>
      sparseSetRun index val passed idx .opVal [b] (decodeVal b).2 (decodeVal b).1 rest (sparseSetFrom index val rest)

def sparseSet (sparse : Bytes) (index : Nat) (val : UInt8) : Panics (Bytes × Bool) :=
  sparseSetFrom index val sparse [] 0

end Rediska.Hll
