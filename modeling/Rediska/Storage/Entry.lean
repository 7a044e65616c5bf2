import Mathlib.Data.List.Sort
import Rediska.Core.Sds
import Rediska.Go.Map
import Rediska.Go.Strconv
import Rediska.Go.Strings
import Rediska.Hll.Sketch

/-! Entries of the store, and the access stamps they carry. -/

namespace Rediska.Storage
open Go Core Hll

inductive Encoding where
  | int | embstr | raw | hll
  deriving DecidableEq, Repr

/-- A tagged union: `encoding` says which of the values is populated. No deadline
stands for the zero time. -/
structure Entry where
  encoding : Encoding
  intVal : Int
  strVal : Option SDS
  hllVal : Option HLL
  expiresAt : Option Int
  lru : UInt32
  deriving DecidableEq, Repr

inductive Policy where
  | noeviction | allkeysLRU | allkeysLFU | volatileLFU
  | other (name : Bytes)
  deriving DecidableEq, Repr

structure Candidate where
  key : Bytes
  score : UInt32
  deriving DecidableEq, Repr

/-- What the store takes from outside. Readings of the clock (in nanoseconds), draws of
the random source and iterations over the map are numbered in the order they happen.
`below n k` is whether the draw is below `1/k`; `order` is a map iteration; `estimate`
is the floating-point estimator of a register histogram, an unsigned integer of 64 bits.
Nothing is asked of it but that a sketch whose registers are all zero counts zero: what an
estimate beyond the 64 bits converts to is up to the machine. -/
structure Env where
  clock : Nat → Int
  forward : ∀ i j, i ≤ j → clock i ≤ clock j
  below : Nat → Nat → Bool
  below_one : ∀ i, below i 1 = true
  order : Nat → List Bytes → List Bytes
  order_perm : ∀ i keys, (order i keys).Perm keys
  sort : List Candidate → List Candidate
  sort_perm : ∀ pool, (sort pool).Perm pool
  sort_sorted : ∀ pool, (sort pool).Pairwise (fun a b => a.score ≤ b.score)
  growth : Growth
  estimate : List Nat → Nat
  estimate_empty : estimate (registers :: List.replicate 63 0) = 0
  estimate_lt : ∀ histo, estimate histo < 2 ^ 64
  unicode : CaseTable
  lfuLogFactor : UInt32
  lfuDecayTime : UInt32

/-- An environment at rest: the clock stands still, every draw but a certain one fails,
and maps are read in the order they are kept in. -/
def Env.still (now : Int) : Env where
  clock _ := now
  forward _ _ _ := Int.le_refl now
  below _ k := k = 1
  below_one _ := rfl
  order _ keys := keys
  order_perm _ keys := .refl keys
  sort pool := pool.insertionSort fun a b => a.score ≤ b.score
  sort_perm pool := pool.perm_insertionSort _
  sort_sorted pool := by
    have total : Std.Total fun a b : Candidate => a.score ≤ b.score := ⟨fun a b => UInt32.le_total a.score b.score⟩
    have trans : IsTrans Candidate fun a b => a.score ≤ b.score := ⟨fun _ _ _ => UInt32.le_trans⟩
    exact pool.pairwise_insertionSort _
  growth := ⟨fun _ needed => needed, fun _ _ => Nat.le_refl _⟩
  estimate histo := if histo.head? = some registers then 0 else 1
  estimate_empty := rfl
  estimate_lt histo := by split <;> decide
  unicode := ⟨id, id, fun _ _ => ⟨by simp only [id]; omega, by simp only [id]; omega⟩,
    fun _ _ => ⟨by simp only [id]; omega, by simp only [id]; omega⟩⟩
  lfuLogFactor := 10
  lfuDecayTime := 1

def lruClockMax : UInt32 := 16777215
def evictionPoolSize : Nat := 16
def entryOverhead : Nat := 64

/-- The low 24 bits of the clock in whole seconds. -/
def lruClock (now : Int) : UInt32 := UInt32.ofNat (((now / 1000000).tdiv 1000) % 2 ^ 24).toNat

def lruIdle (clock access : UInt32) : UInt32 :=
  if access ≤ clock then clock - access else clock + (lruClockMax - access)

def lfuInitVal : UInt8 := 5

/-- The tunable parameters of LFU. An `Env` holds them as they are once the server runs. -/
structure LFUParams where
  logFactor : UInt32
  decayTime : UInt32
  deriving DecidableEq, Repr

def LFUParams.initial : LFUParams := ⟨10, 1⟩

/-- `SetLFUParams`. The conversions to `uint32` keep the low 32 bits. -/
def setLFUParams (p : LFUParams) (logFactor decayTime : Int) : LFUParams where
  logFactor := if 0 ≤ logFactor then UInt32.ofNat (logFactor % 2 ^ 32).toNat else p.logFactor
  decayTime := if 1 ≤ decayTime then UInt32.ofNat (decayTime % 2 ^ 32).toNat else p.decayTime

/-- What the store meets once the parameters are set. -/
def Env.tuned (env : Env) (p : LFUParams) : Env := { env with lfuLogFactor := p.logFactor, lfuDecayTime := p.decayTime }

/-- The low 16 bits of the clock in whole minutes. -/
def lfuClock (now : Int) : UInt16 := UInt16.ofNat (((now / 1000000000).tdiv 60) % 2 ^ 16).toNat

def lfuDecodeCounter (packed : UInt32) : UInt8 := (packed &&& 255).toUInt8

def lfuDecodeLdt (packed : UInt32) : UInt16 := ((packed >>> 8) &&& 65535).toUInt16

def lfuEncode (ldt : UInt16) (counter : UInt8) : UInt32 := (ldt.toUInt32 <<< 8) ||| counter.toUInt32

/-- `draw k` is whether the next random number is below `1/k`. -/
def lfuLogIncr (logFactor : UInt32) (draw : Nat → Bool) (counter : UInt8) : UInt8 :=
  if counter = 255 then counter
  else
    let baseVal := counter.toNat - lfuInitVal.toNat
    if draw (baseVal * logFactor.toNat + 1) then counter + 1 else counter

def lfuDecay (decayTime : UInt32) (counter : UInt8) (idleMinutes : UInt16) : Panics UInt8 :=
  if decayTime = 0 then .error .divideByZero
  else
    let steps := idleMinutes.toUInt32 / decayTime
    if steps = 0 then .ok counter
    else if counter.toUInt32 ≤ steps then .ok 0
    else .ok (counter - steps.toUInt8)

def ldtIdle (nowLdt storedLdt : UInt16) : UInt16 :=
  if storedLdt ≤ nowLdt then nowLdt - storedLdt else nowLdt + (65535 - storedLdt)

def lfuTouch (logFactor decayTime : UInt32) (draw : Nat → Bool) (packed : UInt32) (nowLdt : UInt16) : Panics UInt32 := do
  let counter := lfuDecodeCounter packed
  let idle := ldtIdle nowLdt (lfuDecodeLdt packed)
  let counter ← lfuDecay decayTime counter idle
  .ok (lfuEncode nowLdt (lfuLogIncr logFactor draw counter))

def lfuNew (nowLdt : UInt16) : UInt32 := lfuEncode nowLdt lfuInitVal

def entrySize (key : Bytes) (e : Entry) : Int :=
  let valueSize :=
    match e.encoding with
    | .int => 8
    | .embstr | .raw => (e.strVal.map SDS.cap).getD 0
    | .hll => (e.hllVal.map HLL.size).getD 0
  (key.length + valueSize + entryOverhead : Nat)

def detectEncoding (value : Bytes) : Encoding :=
  if (parseInt value).isSome then .int
  else if value.length ≤ 44 then .embstr
  else .raw

end Rediska.Storage
