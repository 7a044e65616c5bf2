import Rediska.Core.Encode
import Rediska.Go.Bufio

/-! The RESP decoder. Lengths and counts come from the client, so every slice,
allocation and index the source performs on them is a possible panic here. -/

namespace Rediska.Core
open Go

/-- What `Decode` returns as `any`: a string, an int64 or a slice. -/
inductive Value
  | str (s : Bytes)
  | int (n : Int)
  | arr (items : List Value)

inductive DecodeError
  | eof
  | malformedLine (line : Bytes)
  | invalidInteger (line : Bytes)
  | invalidBulkLength (line : Bytes)
  | invalidArrayLength (line : Bytes)
  | bulkBody
  | notTerminated (first second : UInt8)
  | element (index : Nat) (cause : DecodeError)
  | unknownType (b : UInt8)
deriving DecidableEq, Repr

inductive Outcome (α : Type)
  | value (a : α)
  | error (e : DecodeError)
  | panic (p : Panic)

def Outcome.map {α β : Type} (f : α → β) : Outcome α → Outcome β
  | .value a => .value (f a)
  | .error e => .error e
  | .panic p => .panic p

def Outcome.IsPanic {α : Type} (outcome : Outcome α) : Prop := ∃ p, outcome = .panic p

@[simp] theorem Outcome.isPanic_map {α β : Type} (f : α → β) (outcome : Outcome α) :
    (outcome.map f).IsPanic ↔ outcome.IsPanic := by
  cases outcome <;> simp [Outcome.map, Outcome.IsPanic]

/-- The scratch buffer of a `Decoder`, with all of its capacity; `none` is the nil
pointer that `Decode` passes. -/
abbrev Scratch := Option Bytes

section
variable {ρ : Type} [Source ρ]

def readLine (r : ρ) : Outcome Bytes × ρ :=
  match Source.readString r with
  | (none, r) => (.error .eof, r)
  | (some line, r) =>
    if line.length < 2 ∨ (line)[line.length - 2]? ≠ some cr then (.error (.malformedLine line), r)
    else (.value (line.take (line.length - 2)), r)

def readSimpleString (r : ρ) : Outcome Bytes × ρ := readLine r

def readError (r : ρ) : Outcome Bytes × ρ := readLine r

def readInteger (r : ρ) : Outcome Int × ρ :=
  match readLine r with
  | (.value line, r) => match parseInt line with
    | some n => (.value n, r)
    | none => (.error (.invalidInteger line), r)
  | (.error e, r) => (.error e, r)
  | (.panic p, r) => (.panic p, r)

/-- `io.ReadFull` into a slice overwrites as much of it as could be read. -/
def overlay (fresh old : Bytes) : Bytes := fresh ++ old.drop fresh.length

/-- The slice that was read into: the front of the scratch buffer, or a fresh one. -/
def readSlice (need : Nat) (fresh : Bytes) : Scratch → Bytes
  | some buf => buf.take need
  | none => fresh

/-- The two index expressions on the buffer, and the copy of the text before them. -/
def checkTerminator (length : Int) (buffer : Bytes) : Outcome Bytes :=
  if length < 0 then .panic .indexOutOfRange
  else match buffer[length.toNat]?, buffer[length.toNat + 1]? with
    | some first, some second =>
      if first ≠ cr ∨ second ≠ lf then .error (.notTerminated first second)
      else .value (buffer.take length.toNat)
    | _, _ => .panic .indexOutOfRange

/-- The body with its terminator. `need` has wrapped around for the largest lengths. -/
def readBody (length : Int) (r : ρ) (scratch : Scratch) : Outcome Bytes × ρ × Scratch :=
  let need := wrap64 (length + 2)
  if ¬ CanMake 1 need then
    -- A negative need passes the test of the capacity and fails in (*scratch)[:need]. No
    -- buffer is as large as what make refuses.
    (.panic (if need < 0 ∧ scratch.isSome then .sliceBounds else .makeSlice), r, scratch)
  else
    let scratch := scratch.map fun buf =>
      if (buf.length : Int) < need then List.replicate need.toNat 0 else buf
    let (body, r) := Source.readFull need.toNat r
    let scratch := scratch.map (overlay body)
    if body.length < need.toNat then (.error .bulkBody, r, scratch)
    else (checkTerminator length (readSlice need.toNat body scratch), r, scratch)

def readBulkString (r : ρ) (scratch : Scratch) : Outcome Bytes × ρ × Scratch :=
  match readLine r with
  | (.value line, r) => match atoi line with
    | none => (.error (.invalidBulkLength line), r, scratch)
    | some length => if length = -1 then (.value [], r, scratch) else readBody length r scratch
  | (.error e, r) => (.error e, r, scratch)
  | (.panic p, r) => (.panic p, r, scratch)

/-- The loop over the elements of an array, from `index` on. -/
def readElements (decode : ρ → Scratch → Outcome Value × ρ × Scratch) :
    Nat → Nat → ρ → Scratch → Outcome (List Value) × ρ × Scratch
  | 0, _, r, scratch => (.value [], r, scratch)
  | left + 1, index, r, scratch => match decode r scratch with
    | (.value v, r, scratch) =>
      let (rest, r, scratch) := readElements decode left (index + 1) r scratch
      (rest.map (v :: ·), r, scratch)
    | (.error e, r, scratch) => (.error (.element index e), r, scratch)
    | (.panic p, r, scratch) => (.panic p, r, scratch)

def readArray (decode : ρ → Scratch → Outcome Value × ρ × Scratch) (r : ρ) (scratch : Scratch) :
    Outcome (List Value) × ρ × Scratch :=
  match readLine r with
  | (.value line, r) => match atoi line with
    | none => (.error (.invalidArrayLength line), r, scratch)
    | some count =>
      -- An interface value takes two words.
      if ¬ CanMake 16 count then (.panic .makeSlice, r, scratch)
      else readElements decode count.toNat 0 r scratch
  | (.error e, r) => (.error e, r, scratch)
  | (.panic p, r) => (.panic p, r, scratch)

/-- Every nested call has read at least one more byte, so the bytes left bound the
depth. Fuel that did not suffice would show as a panic. -/
def decodeFuel : Nat → ρ → Scratch → Outcome Value × ρ × Scratch
  | 0, r, scratch => (.panic .outOfFuel, r, scratch)
  | fuel + 1, r, scratch => match Source.readByte r with
    | (none, r) => (.error .eof, r, scratch)
    | (some typeByte, r) =>
      if typeByte = plus then
        let (line, r) := readSimpleString r
        (line.map .str, r, scratch)
      else if typeByte = minus then
        let (line, r) := readError r
        (line.map .str, r, scratch)
      else if typeByte = colon then
        let (n, r) := readInteger r
        (n.map .int, r, scratch)
      else if typeByte = dollar then
        let (s, r, scratch) := readBulkString r scratch
        (s.map .str, r, scratch)
      else if typeByte = asterisk then
        let (items, r, scratch) := readArray (decodeFuel fuel) r scratch
        (items.map .arr, r, scratch)
      else (.error (.unknownType typeByte), r, scratch)

/-- `Decode` with no scratch buffer, `Decoder.Decode` with the decoder's own. -/
def decode (r : ρ) (scratch : Scratch) : Outcome Value × ρ × Scratch :=
  decodeFuel (Source.remaining r + 1) r scratch

end

end Rediska.Core
