import Rediska.Storage.Entry

/-! The store's operations. The number of keys in the keyspace statistics is part of the
state, since this is the only store. -/

namespace Rediska.Storage
open Go Core Hll

structure Store where
  data : Map Bytes Entry
  usedMemory : Int
  evPool : List Candidate
  policy : Policy
  keys : Int
  /-- how many readings, draws and iterations have happened -/
  tick : Nat

def Store.new (policy : Policy) : Store := ⟨∅, 0, [], policy, 0, 0⟩

namespace Store
variable (env : Env) (s : Store)

def setPolicy (policy : Policy) : Store := { s with policy := policy }

def isLFU : Bool := s.policy = .allkeysLFU || s.policy = .volatileLFU

def now : Int × Store := (env.clock s.tick, { s with tick := s.tick + 1 })

def stampNew : UInt32 × Store :=
  let (now, after) := s.now env
  (if s.isLFU then lfuNew (lfuClock now) else lruClock now, after)

def stampAccess (current : UInt32) : Panics (UInt32 × Store) :=
  let (now, after) := s.now env
  if s.isLFU then do
    let stamp ← lfuTouch env.lfuLogFactor env.lfuDecayTime (env.below after.tick) current (lfuClock now)
    .ok (stamp, { after with tick := after.tick + 1 })
  else .ok (lruClock now, after)

def isExpired (e : Entry) : Bool × Store :=
  match e.expiresAt with
  | none => (false, s)
  | some deadline =>
    let (now, s) := s.now env
    (decide (deadline ≤ now), s)

def removeKey (key : Bytes) : Store :=
  match s.data.lookup key with
  | none => s
  | some e => { s with usedMemory := s.usedMemory - entrySize key e, data := s.data.erase key, keys := s.keys - 1 }

/-- Before an overwrite: the old size no longer counts, or there is one more key. -/
def dropOld (key : Bytes) : Store :=
  match s.data.lookup key with
  | none => { s with keys := s.keys + 1 }
  | some old => { s with usedMemory := s.usedMemory - entrySize key old }

/-- `s.data[key] = e` and its size. -/
def record (key : Bytes) (e : Entry) : Store :=
  { s with data := s.data.insert key e, usedMemory := s.usedMemory + entrySize key e }

def newEntry (value : Bytes) (expiresAt : Option Int) (lru : UInt32) : Entry :=
  match detectEncoding value with
  | .int => ⟨.int, (parseInt value).getD 0, none, none, expiresAt, lru⟩
  | enc => ⟨enc, 0, some (.new value), none, expiresAt, lru⟩

def deadline (ttl : Int) : Option Int × Store :=
  if 0 < ttl then
    let (now, s) := s.now env
    (some (now + ttl), s)
  else (none, s)

def set (key value : Bytes) (ttl : Int) : Store :=
  let s := s.dropOld key
  let (expiresAt, s) := s.deadline env ttl
  let (lru, s) := s.stampNew env
  s.record key (newEntry value expiresAt lru)

/-- Appending to a key that holds a sketch dereferences its nil string. -/
def append (key value : Bytes) : Panics (Int × Store) :=
  match s.data.lookup key with
  | none => .ok (value.length, s.set env key value 0)
  | some old =>
    let s := { s with usedMemory := s.usedMemory - entrySize key old }
    let buf := if old.encoding = .int then some (SDS.new (itoa old.intVal)) else old.strVal
    match buf with
    | none => .error .nilDereference
    | some buf => do
      let buf := buf.appendString env.growth value
      let (lru, s) ← s.stampAccess env old.lru
      .ok (buf.buf.length, s.record key ⟨.raw, 0, some buf, none, old.expiresAt, lru⟩)

inductive IntRead where
  | absent
  | notInteger
  | value (n : Int) (expiresAt : Option Int)
  deriving DecidableEq, Repr

/-- The entry is written back with its new stamp. -/
def touch (key : Bytes) (e : Entry) : Panics Store := do
  let (lru, s) ← s.stampAccess env e.lru
  .ok { s with data := s.data.insert key { e with lru := lru } }

def getInt (key : Bytes) : Panics (IntRead × Store) :=
  match s.data.lookup key with
  | none => .ok (.absent, s)
  | some e =>
    let (expired, s) := s.isExpired env e
    if expired then .ok (.absent, s.removeKey key)
    else do
      let s ← s.touch env key e
      if e.encoding ≠ .int then .ok (.notInteger, s) else .ok (.value e.intVal e.expiresAt, s)

def getEncoding (key : Bytes) : Option Encoding × Store :=
  match s.data.lookup key with
  | none => (none, s)
  | some e =>
    let (expired, s) := s.isExpired env e
    if expired then (none, s.removeKey key) else (some e.encoding, s)

inductive FreqRead where
  | policyNotLFU
  | absent
  | freq (counter : UInt8)
  deriving DecidableEq, Repr

def getFreq (key : Bytes) : FreqRead × Store :=
  if ¬ s.isLFU then (.policyNotLFU, s)
  else
    match s.data.lookup key with
    | none => (.absent, s)
    | some e =>
      let (expired, s) := s.isExpired env e
      if expired then (.absent, s.removeKey key) else (.freq (lfuDecodeCounter e.lru), s)

def get (key : Bytes) : Panics (Option Bytes × Store) :=
  match s.data.lookup key with
  | none => .ok (none, s)
  | some e =>
    let (expired, s) := s.isExpired env e
    if expired then .ok (none, s.removeKey key)
    else do
      let s ← s.touch env key e
      match e.encoding, e.strVal with
      | .int, _ => .ok (some (itoa e.intVal), s)
      | .raw, some str | .embstr, some str => .ok (some str.buf, s)
      | .raw, none | .embstr, none => .error .nilDereference
      | .hll, _ => .ok (none, s)

/-- The difference of two times, as a duration of 64 bits. -/
def sub (later earlier : Int) : Int := max minInt64 (min maxInt64 (later - earlier))

def ttl (key : Bytes) : Int × Store :=
  match s.data.lookup key with
  | none => (-2, s)
  | some e =>
    match e.expiresAt with
    | none => (-1, s)
    | some expiresAt =>
      let (now, s) := s.now env
      let remaining := sub expiresAt now
      if remaining ≤ 0 then (-2, s.removeKey key)
      else ((remaining.tdiv 1000000 + 500).tdiv 1000, s)

/-- `if e.hllVal.Add([]byte(v)) { changed = true }` -/
def addValue (v : Bytes) (state : Option HLL × Bool) : Panics (Option HLL × Bool) :=
  match state.1 with
  | none => .error .nilDereference
  | some h => do
    let (h, grew) ← h.add v
    .ok (some h, state.2 || grew)

def addValues (values : List Bytes) (h : Option HLL) (changed : Bool) : Panics (Option HLL × Bool) :=
  forEach values addValue (h, changed)

/-- The error `ErrNotHLL` is `none`. -/
def pfAdd (key : Bytes) (values : List Bytes) : Panics (Option Bool × Store) :=
  let create (s : Store) : Panics (Option Bool × Store) := do
    let (lru, s) := s.stampNew env
    let s := { s with keys := s.keys + 1 }
    let (h, changed) ← addValues values (some .new) true
    .ok (some changed, s.record key ⟨.hll, 0, none, h, none, lru⟩)
  match s.data.lookup key with
  | none => create s
  | some e =>
    let (expired, s) := s.isExpired env e
    if expired then create (s.removeKey key)
    else if e.encoding ≠ .hll then .ok (none, s)
    else do
      let s := { s with usedMemory := s.usedMemory - entrySize key e }
      let (lru, s) ← s.stampAccess env e.lru
      let (h, changed) ← addValues values e.hllVal false
      .ok (some changed, s.record key { e with hllVal := h, lru := lru })

/-- The sketch's cached count is updated in place. -/
def pfCount (key : Bytes) : Panics (Int × Store) :=
  match s.data.lookup key with
  | none => .ok (0, s)
  | some e =>
    if e.encoding ≠ .hll then .ok (0, s)
    else
      match e.hllVal with
      | none => .error .nilDereference
      | some h => do
        let (h, count) ← h.count env.estimate
        .ok (wrap64 count, { s with data := s.data.insert key { e with hllVal := some h } })

/-- Missing keys and keys of other types are passed over. -/
def mergeKey (key : Bytes) (acc : HLL) : Panics HLL :=
  match s.data.lookup key with
  | none => .ok acc
  | some e =>
    if e.encoding ≠ .hll then .ok acc
    else
      match e.hllVal with
      | none => .error .nilDereference
      | some h => (acc.merge h).map (·.1)

def pfMerge (dest : Bytes) (sources : List Bytes) : Panics Store := do
  let acc ← forEach (dest :: sources) s.mergeKey .new
  let s := s.dropOld dest
  let (lru, s) := s.stampNew env
  .ok (s.record dest ⟨.hll, 0, none, some acc, none, lru⟩)

def deleteOne (state : Int × Store) (key : Bytes) : Int × Store :=
  match state.2.data.lookup key with
  | none => state
  | some e =>
    let (expired, s) := state.2.isExpired env e
    (if expired then state.1 else state.1 + 1, s.removeKey key)

def delete (keys : List Bytes) : Int × Store := keys.foldl (deleteOne env) (0, s)

end Store
end Rediska.Storage
