import Rediska.Go.Loop
import Rediska.Go.Strings

/-! Hash slots of keys. -/

namespace Rediska.Cluster
open Go

def numSlots : Nat := 16384

def crc16Step (crc : UInt16) : UInt16 :=
  if crc &&& 0x8000 ≠ 0 then (crc <<< 1) ^^^ 0x1021 else crc <<< 1

/-- `crc16tab[i]` -/
def crc16tab (i : UInt8) : UInt16 := (List.range 8).foldl (fun crc _ => crc16Step crc) (i.toUInt16 <<< 8)

def crc16 (s : Bytes) : UInt16 :=
  s.foldl (fun crc b => (crc <<< 8) ^^^ crc16tab ((crc >>> 8).toUInt8 ^^^ b)) 0

/-- The index of a byte from some position on. -/
def indexByteFrom (s : Bytes) (c : UInt8) (start : Nat) : Option Nat := ((s.drop start).idxOf? c).map (start + ·)

/-- The part of a key that is hashed: what stands in the first braces, if anything does. -/
def hashTag (key : Bytes) : Bytes :=
  match indexByteFrom key 123 0 with
  | none => key
  | some start =>
    match indexByteFrom key 125 (start + 1) with
    | none => key
    | some stop => if start + 1 < stop then (key.take stop).drop (start + 1) else key

def keyHashSlot (key : Bytes) : Nat := (crc16 (hashTag key) &&& 16383).toNat

theorem keyHashSlot_lt (key : Bytes) : keyHashSlot key < numSlots := by
  rw [keyHashSlot, UInt16.toNat_and]
  exact Nat.and_lt_two_pow (n := 14) _ (by decide)

/-! The same with every index and slice expression as the source has it. -/

def indexByteLoop (s : Bytes) (c : UInt8) (i : Nat) : Panics (Option Nat) :=
  if i < s.length then do
    let b ← byteAt s i
    if b = c then .ok (some i) else indexByteLoop s c (i + 1)
  else .ok none
termination_by s.length - i

def crc16Loop (s : Bytes) : Panics UInt16 :=
  forRange s.length (fun i crc => do
    let b ← byteAt s i
    .ok ((crc <<< 8) ^^^ crc16tab ((crc >>> 8).toUInt8 ^^^ b))) 0

def hashTagIndexed (key : Bytes) : Panics Bytes := do
  match ← indexByteLoop key 123 0 with
  | none => .ok key
  | some start =>
    match ← indexByteLoop key 125 (start + 1) with
    | none => .ok key
    | some stop => if start + 1 < stop then slice key (start + 1) stop else .ok key

def keyHashSlotIndexed (key : Bytes) : Panics Nat := do
  let key ← hashTagIndexed key
  let crc ← crc16Loop key
  .ok (crc &&& 16383).toNat

end Rediska.Cluster
