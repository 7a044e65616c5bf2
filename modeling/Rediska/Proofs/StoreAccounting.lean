import Rediska.Proofs.StoreMoves

/-! The running memory estimate and the key counter always agree with the map. -/

namespace Rediska.Proofs
open Go Core Hll Storage

structure Accounted (s : Store) : Prop where
  memory : s.usedMemory = total entrySize s.data
  keys : s.keys = total (fun _ _ => 1) s.data

theorem Accounted.new (policy : Policy) : Accounted (Store.new policy) := ⟨rfl, rfl⟩

theorem Accounted.removeKey {s : Store} (accounted : Accounted s) (key : Bytes) : Accounted (s.removeKey key) := by
  unfold Store.removeKey
  split
  next => exact accounted
  next e held =>
    constructor
    · simp only [total_erase entrySize held, accounted.memory]
    · simp only [total_erase (fun _ _ => 1) held, accounted.keys]

/-- Dropping what the key counted for and recording a new entry is an overwrite. -/
theorem Accounted.overwrite {s : Store} (accounted : Accounted s) (key : Bytes) (e : Entry) (n : Nat) :
    Accounted (Store.record { s.dropOld key with tick := n } key e) := by
  unfold Store.record Store.dropOld
  cases held : s.data.lookup key with
  | none =>
    constructor
    · simp only [total_insert_absent entrySize held, accounted.memory]
    · simp only [total_insert_absent (fun _ _ => 1) held, accounted.keys]
  | some old =>
    constructor
    · simp only [total_insert_present entrySize held, accounted.memory]
    · simp only [total_insert_present (fun _ _ => 1) held, accounted.keys]
      omega

/-- An entry of the same size may take another's place unnoticed. -/
theorem Accounted.swap {s : Store} (accounted : Accounted s) {key : Bytes} {old e : Entry} (n : Nat)
    (held : s.data.lookup key = some old) (same : entrySize key e = entrySize key old) :
    Accounted { s with tick := n, data := s.data.insert key e } := by
  constructor
  · simp only [total_insert_present entrySize held, accounted.memory, same]
    omega
  · simp only [total_insert_present (fun _ _ => 1) held, accounted.keys]
    omega

theorem Accounted.moved {s after : Store} (accounted : Accounted s) (moved : Moved s after) : Accounted after := by
  induction moved with
  | start => exact accounted
  | read _ _ ih | pool _ _ _ ih => exact ⟨ih.memory, ih.keys⟩
  | remove _ key ih => exact ih.removeKey key
  | overwrite _ _ key e ih => exact ih.overwrite key e _
  | swap _ _ held same ih => exact ih.swap _ held same

/-- The memory in use is more than any key takes. -/
theorem Accounted.key_counted {s : Store} (accounted : Accounted s) {key : Bytes} {e : Entry} (held : s.data.lookup key = some e) :
    key.length < s.usedMemory := by
  have size : (key.length : Int) < entrySize key e := by
    simp only [entrySize, entryOverhead]
    omega
  rw [accounted.memory]
  exact size.trans_le (le_total (fun key e => by simp only [entrySize]; omega) held)

/-- The calls other packages can make on a store. -/
inductive Call where
  | set (key value : Bytes) (duration : Int)
  | append (key value : Bytes)
  | get (key : Bytes)
  | getInt (key : Bytes)
  | getEncoding (key : Bytes)
  | getFreq (key : Bytes)
  | ttl (key : Bytes)
  | pfAdd (key : Bytes) (values : List Bytes)
  | pfCount (key : Bytes)
  | pfMerge (dest : Bytes) (sources : List Bytes)
  | delete (keys : List Bytes)
  | deleteExpired
  | performEvictions (samples maxBytes : Int)

/-- The store a call leaves when it returns. -/
def Call.run (env : Env) (s : Store) : Call → Panics Store
  | .set key value duration => .ok (s.set env key value duration)
  | .append key value => (s.append env key value).map (·.2)
  | .get key => (s.get env key).map (·.2)
  | .getInt key => (s.getInt env key).map (·.2)
  | .getEncoding key => .ok (s.getEncoding env key).2
  | .getFreq key => .ok (s.getFreq env key).2
  | .ttl key => .ok (s.ttl env key).2
  | .pfAdd key values => (s.pfAdd env key values).map (·.2)
  | .pfCount key => (s.pfCount env key).map (·.2)
  | .pfMerge dest sources => s.pfMerge env dest sources
  | .delete keys => .ok (s.delete env keys).2
  | .deleteExpired => .ok (s.deleteExpired env).2
  | .performEvictions samples maxBytes => s.performEvictions env samples maxBytes

def runCalls (env : Env) (s : Store) (calls : List Call) : Panics Store :=
  forEach calls (fun call s => call.run env s) s

/-- A call edits some keys, or evicts. -/
theorem Call.edits {env : Env} {s after : Store} {call : Call} (ran : call.run env s = .ok after) :
    Altered s after ∨ ∃ samples maxBytes, s.performEvictions env samples maxBytes = .ok after := by
  cases call with
  | set key value duration => cases ran; exact .inl (set_edits env s key value duration)
  | append key value => obtain ⟨⟨_, _⟩, returned, rfl⟩ := map_ok ran; exact .inl (append_edits returned)
  | get key => obtain ⟨⟨_, _⟩, returned, rfl⟩ := map_ok ran; exact .inl (get_edits returned)
  | getInt key => obtain ⟨⟨_, _⟩, returned, rfl⟩ := map_ok ran; exact .inl (getInt_edits returned)
  | getEncoding key => cases ran; exact .inl (getEncoding_edits env s key)
  | getFreq key => cases ran; exact .inl (getFreq_edits env s key)
  | ttl key => cases ran; exact .inl (ttl_edits env s key)
  | pfAdd key values => obtain ⟨⟨_, _⟩, returned, rfl⟩ := map_ok ran; exact .inl (pfAdd_edits returned)
  | pfCount key => obtain ⟨⟨_, _⟩, returned, rfl⟩ := map_ok ran; exact .inl (pfCount_edits returned)
  | pfMerge dest sources => exact .inl (pfMerge_edits ran)
  | delete keys => cases ran; exact .inl (deleteFrom_edits env (0, s) keys)
  | deleteExpired => cases ran; exact .inl (deleteExpired_edits env s)
  | performEvictions samples maxBytes => exact .inr ⟨samples, maxBytes, ran⟩

theorem Call.moves {env : Env} {s after : Store} {call : Call} (ran : call.run env s = .ok after) : Moved s after := by
  rcases Call.edits ran with edited | ⟨samples, maxBytes, evicted⟩
  · exact edited.moved
  · exact performEvictions_moves evicted

theorem runCalls_moves {env : Env} {s after : Store} {calls : List Call} (ran : runCalls env s calls = .ok after) : Moved s after := by
  unfold runCalls at ran
  induction calls generalizing s with
  | nil =>
    cases ran
    exact .start
  | cons call rest ih =>
    obtain ⟨middle, first, rest⟩ := bind_ok ran
    exact (Call.moves first).trans (ih rest)

/-- After any calls that return, the memory in use is the sum of the entry sizes and
the statistics count the keys of the map. -/
theorem calls_keep_accounts (env : Env) (policy : Policy) (calls : List Call) (s : Store)
    (ran : runCalls env (Store.new policy) calls = .ok s) :
    s.usedMemory = (s.data.entries.map fun entry => entrySize entry.1 entry.2).sum ∧ s.keys = s.data.keys.length := by
  have accounted := (Accounted.new policy).moved (runCalls_moves ran)
  exact ⟨accounted.memory, accounted.keys.trans (total_one s.data)⟩

theorem set_append_delete_accounts :
    ∃ s, runCalls (.still 0) (Store.new .allkeysLFU)
      [.set (ascii "k") (ascii "12") 5, .append (ascii "k") (ascii "34"), .set (ascii "m") (ascii "v") 0, .delete [ascii "k"]] =
        .ok s ∧ s.usedMemory = (s.data.entries.map fun entry => entrySize entry.1 entry.2).sum ∧ s.keys = s.data.keys.length := by
  have returns : ∃ s, runCalls (.still 0) (Store.new .allkeysLFU)
      [.set (ascii "k") (ascii "12") 5, .append (ascii "k") (ascii "34"), .set (ascii "m") (ascii "v") 0, .delete [ascii "k"]] =
        .ok s := ⟨_, rfl⟩
  obtain ⟨s, ran⟩ := returns
  exact ⟨s, ran, calls_keep_accounts _ _ _ s ran⟩

end Rediska.Proofs
