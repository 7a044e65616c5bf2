import Rediska.Storage.Ops

/-! Active expiry and eviction. -/

namespace Rediska.Storage
open Go

namespace Store
variable (env : Env)

def maxExpiryKeys : Nat := 20

/-- The loop over the map: an entry without a deadline is passed over, and the round
ends with the twentieth that has one. Only the key being visited is removed, so the
iteration sees each key as it was. -/
def deleteExpiredFrom (keys : List Bytes) (checked : Nat) (deleted : Int) (s : Store) : Int × Store :=
  match keys with
  | [] => (deleted, s)
  | key :: rest =>
    if maxExpiryKeys ≤ checked then (deleted, s)
    else
      match s.data.lookup key with
      | none => deleteExpiredFrom rest checked deleted s
      | some e =>
        if e.expiresAt = none then deleteExpiredFrom rest checked deleted s
        else
          let (expired, s) := s.isExpired env e
          if expired then deleteExpiredFrom rest (checked + 1) (deleted + 1) (s.removeKey key)
          else deleteExpiredFrom rest (checked + 1) deleted s

def deleteExpired (s : Store) : Int × Store :=
  deleteExpiredFrom env (env.order s.tick s.data.keys) 0 0 { s with tick := s.tick + 1 }

def overMemory (s : Store) (maxBytes : Int) : Bool := decide (0 < maxBytes) && decide (maxBytes < s.usedMemory)

/-- The loop of `sampleKeys`, which ends with the map or with enough keys. -/
def firstKeys (s : Store) (n : Nat) : List Bytes × Store :=
  ((env.order s.tick s.data.keys).take n, { s with tick := s.tick + 1 })

def sampleKeys (s : Store) (n : Nat) : Panics (List Bytes × Store) :=
  -- The slice is made for n strings of two words, however few keys there are.
  if ¬ CanMake 16 n then .error .makeSlice else .ok (s.firstKeys env n)

def evictionScore (s : Store) (e : Entry) : UInt32 × Store :=
  if s.isLFU then ((255 - lfuDecodeCounter e.lru).toUInt32, s)
  else
    let (now, s) := s.now env
    (lruIdle (lruClock now) e.lru, s)

/-- `s.evPool[i].score = score` for the slot of the key. -/
def refresh (pool : List Candidate) (key : Bytes) (score : UInt32) : List Candidate :=
  match pool with
  | [] => []
  | cand :: rest => if cand.key = key then ⟨key, score⟩ :: rest else cand :: refresh rest key score

def poolInsert (s : Store) (key : Bytes) (score : UInt32) : Store :=
  if s.evPool.any (fun cand => cand.key = key) then { s with evPool := env.sort (refresh s.evPool key score) }
  else if s.evPool.length < evictionPoolSize then { s with evPool := env.sort (s.evPool ++ [⟨key, score⟩]) }
  else
    match s.evPool with
    | [] => s
    | first :: rest =>
      if score ≤ first.score then s else { s with evPool := env.sort (⟨key, score⟩ :: rest) }

/-- A key of the sample that is not in the map reads as the zero entry. -/
def poolSample (keys : List Bytes) (s : Store) : Store :=
  keys.foldl (fun s key =>
    let e := (s.data.lookup key).getD ⟨.int, 0, none, none, none, 0⟩
    let (score, s) := s.evictionScore env e
    s.poolInsert env key score) s

/-- From the stale end of the pool, dropping slots up to the first key that still
exists, which is removed. The slots are given from the last to the first. -/
def evictFrom (slots : List Candidate) (s : Store) : Store :=
  match slots with
  | [] => { s with evPool := [] }
  | cand :: rest =>
    if s.data.lookup cand.key = none then evictFrom rest s
    else { s with evPool := rest.reverse }.removeKey cand.key

def evictionRound (samples : Nat) (s : Store) : Panics Store := do
  let (keys, s) ← s.sampleKeys env samples
  let s := poolSample env keys s
  .ok (evictFrom s.evPool.reverse s)

def evictionLoop (samples : Nat) (maxBytes : Int) (fuel : Nat) (s : Store) : Panics Store :=
  if s.usedMemory ≤ maxBytes then .ok s
  else if s.data.keys = [] then .ok s
  else
    match fuel with
    | 0 => .error .outOfFuel
    | fuel + 1 => do
      let s ← evictionRound env samples s
      evictionLoop samples maxBytes fuel s

/-- Two rounds for each key are enough: one may only clear the pool of stale slots. -/
def performEvictions (s : Store) (samples : Int) (maxBytes : Int) : Panics Store :=
  if maxBytes ≤ 0 then .ok s
  else
    let samples := if samples ≤ 0 then 5 else samples.toNat
    evictionLoop env samples maxBytes (2 * s.data.keys.length + 1) s

end Store
end Rediska.Storage
