import Rediska.Proofs.Eviction

/-! What the operations of the store are made of: readings, removals, overwrites, an entry
in another's place, and changes of the pool. What these keep, every operation keeps. -/

namespace Rediska.Proofs
open Go Core Hll Storage

/-- What an operation on some keys is made of. -/
inductive Altered (s : Store) : Store → Prop
  | start : Altered s s
  | read {after : Store} {n : Nat} (before : Altered s after) (later : after.tick ≤ n) : Altered s { after with tick := n }
  | remove {after : Store} (before : Altered s after) (key : Bytes) : Altered s (after.removeKey key)
  | overwrite {after : Store} {n : Nat} (before : Altered s after) (later : after.tick ≤ n) (key : Bytes) (e : Entry) :
      Altered s (Store.record { after.dropOld key with tick := n } key e)
  /-- An entry of the same size takes another's place. -/
  | swap {after : Store} {n : Nat} {key : Bytes} {old e : Entry} (before : Altered s after) (later : after.tick ≤ n)
      (held : after.data.lookup key = some old) (same : entrySize key e = entrySize key old) :
      Altered s { after with tick := n, data := after.data.insert key e }

/-- The same, and changes of the pool. -/
inductive Moved (s : Store) : Store → Prop
  | start : Moved s s
  | read {after : Store} {n : Nat} (before : Moved s after) (later : after.tick ≤ n) : Moved s { after with tick := n }
  | remove {after : Store} (before : Moved s after) (key : Bytes) : Moved s (after.removeKey key)
  | overwrite {after : Store} {n : Nat} (before : Moved s after) (later : after.tick ≤ n) (key : Bytes) (e : Entry) :
      Moved s (Store.record { after.dropOld key with tick := n } key e)
  /-- An entry of the same size takes another's place. -/
  | swap {after : Store} {n : Nat} {key : Bytes} {old e : Entry} (before : Moved s after) (later : after.tick ≤ n)
      (held : after.data.lookup key = some old) (same : entrySize key e = entrySize key old) :
      Moved s { after with tick := n, data := after.data.insert key e }
  | pool {after : Store} {n : Nat} (before : Moved s after) (later : after.tick ≤ n) (pool : List Candidate) :
      Moved s { after with evPool := pool, tick := n }

variable {env : Env} {s middle after : Store} {key value : Bytes} {e : Entry}

theorem Moved.trans (first : Moved s middle) (last : Moved middle after) : Moved s after := by
  induction last with
  | start => exact first
  | read _ later ih => exact ih.read later
  | remove _ key ih => exact ih.remove key
  | overwrite _ later key e ih => exact ih.overwrite later key e
  | swap _ later held same ih => exact ih.swap later held same
  | pool _ later slots ih => exact ih.pool later slots

/-- Readings of the clock are made one after the other. -/
theorem Moved.tick (moved : Moved s after) : s.tick ≤ after.tick := by
  induction moved with
  | start => exact Nat.le_refl _
  | read _ later ih | overwrite _ later _ _ ih | swap _ later _ _ ih | pool _ later _ ih => exact Nat.le_trans ih later
  | remove _ key ih => exact (removeKey_tick _ key).symm ▸ ih

theorem Altered.trans (first : Altered s middle) (last : Altered middle after) : Altered s after := by
  induction last with
  | start => exact first
  | read _ later ih => exact ih.read later
  | remove _ key ih => exact ih.remove key
  | overwrite _ later key e ih => exact ih.overwrite later key e
  | swap _ later held same ih => exact ih.swap later held same

theorem Altered.moved (edited : Altered s after) : Moved s after := by
  induction edited with
  | start => exact .start
  | read _ later ih => exact ih.read later
  | remove _ key ih => exact ih.remove key
  | overwrite _ later key e ih => exact ih.overwrite later key e
  | swap _ later held same ih => exact ih.swap later held same

theorem Altered.tick (edited : Altered s after) : s.tick ≤ after.tick := edited.moved.tick

/-- Only eviction touches the pool. -/
theorem Altered.evPool (edited : Altered s after) : after.evPool = s.evPool := by
  induction edited with
  | start => rfl
  | read _ _ ih | swap _ _ _ _ ih => exact ih
  | remove _ key ih => rw [removeKey_evPool, ih]
  | overwrite _ _ key e ih => exact (dropOld_evPool _ key).trans ih

theorem Altered.ticked (before : Altered s middle) (ticked : Ticked middle after) (later : middle.tick ≤ after.tick) : Altered s after := by
  obtain ⟨n, rfl⟩ := ticked
  exact before.read later

theorem now_edits (env : Env) (s : Store) : Altered s (s.now env).2 := Altered.start.read (Nat.le_succ _)

theorem isExpired_edits (env : Env) (s : Store) (e : Entry) : Altered s (s.isExpired env e).2 :=
  Altered.start.ticked (isExpired_ticked env s e) (isExpired_tick env s e)

theorem touch_edits (held : s.data.lookup key = some e) (ran : s.touch env key e = .ok after) : Altered s after := by
  obtain ⟨⟨stamp, middle⟩, stamped, ran⟩ := bind_ok ran
  have later := stampAccess_tick stamped
  obtain ⟨n, rfl⟩ := stampAccess_ticked stamped
  cases ran
  exact Altered.start.swap later held rfl

theorem set_edits (env : Env) (s : Store) (key value : Bytes) (ttl : Int) : Altered s (s.set env key value ttl) := by
  have later := deadline_tick env (s.dropOld key) ttl
  rw [dropOld_tick] at later
  obtain ⟨n, ticked⟩ := deadline_ticked env (s.dropOld key) ttl
  unfold Store.set
  dsimp only
  rw [ticked] at later ⊢
  exact Altered.start.overwrite (Nat.le_succ_of_le later) key _

/-- The pattern of `Append` and `PFAdd` on a key that exists. -/
theorem restore_edits {old : Entry} {stamp : UInt32} (held : s.data.lookup key = some old)
    (stamped : Store.stampAccess env { s with usedMemory := s.usedMemory - entrySize key old } old.lru = .ok (stamp, middle))
    (e : Entry) : Altered s (middle.record key e) := by
  have first := stampAccess_tick stamped
  obtain ⟨n, rfl⟩ := stampAccess_ticked stamped
  have later : s.tick ≤ n := first
  have overwritten : Altered s (Store.record { s.dropOld key with tick := n } key e) := Altered.start.overwrite later key e
  simpa only [Store.dropOld, held] using overwritten

theorem append_edits {n : Int} (ran : s.append env key value = .ok (n, after)) : Altered s after := by
  unfold Store.append at ran
  split at ran
  · cases ran
    exact set_edits env s key value 0
  next old held =>
    dsimp only at ran
    split at ran
    · cases ran
    · obtain ⟨⟨stamp, middle⟩, stamped, ran⟩ := bind_ok ran
      cases ran
      exact restore_edits held stamped _

/-- Reading the expiry of an entry leaves the entry where it is. -/
theorem lookup_isExpired {held : Entry} (env : Env) (found : s.data.lookup key = some held) :
    (s.isExpired env e).2.data.lookup key = some held := by
  obtain ⟨n, same⟩ := isExpired_ticked env s e
  rw [same]
  exact found

/-! What the reads have in common. -/

/-- The text an entry has for a reader. -/
def entryText (e : Entry) : Panics (Option Bytes) :=
  match e.encoding, e.strVal with
  | .int, _ => .ok (some (itoa e.intVal))
  | .raw, some str | .embstr, some str => .ok (some str.buf)
  | .raw, none | .embstr, none => .error .nilDereference
  | .hll, _ => .ok none

/-- What INCR finds in an entry. -/
def entryInt (e : Entry) : Store.IntRead := if e.encoding ≠ .int then .notInteger else .value e.intVal e.expiresAt

section
variable {α : Type} (env : Env) (s : Store) (key : Bytes) (absent : α)

/-- An expired entry is removed, any other is looked at. -/
def peek (seen : Entry → α) : α × Store :=
  match s.data.lookup key with
  | none => (absent, s)
  | some e => if (s.isExpired env e).1 then (absent, (s.isExpired env e).2.removeKey key) else (seen e, (s.isExpired env e).2)

/-- An expired entry is removed, any other is touched and looked at. -/
def readKey (seen : Entry → Panics α) : Panics (α × Store) :=
  match s.data.lookup key with
  | none => .ok (absent, s)
  | some e =>
    if (s.isExpired env e).1 then .ok (absent, (s.isExpired env e).2.removeKey key)
    else (s.isExpired env e).2.touch env key e >>= fun touched => (seen e).map (·, touched)

end

theorem getEncoding_eq (env : Env) (s : Store) (key : Bytes) : s.getEncoding env key = peek env s key none fun e => some e.encoding := rfl

theorem getFreq_eq (env : Env) (s : Store) (key : Bytes) :
    s.getFreq env key =
      if ¬ s.isLFU then (.policyNotLFU, s) else peek env s key .absent fun e => .freq (lfuDecodeCounter e.lru) := rfl

theorem get_eq (env : Env) (s : Store) (key : Bytes) : s.get env key = readKey env s key none entryText := by
  unfold Store.get readKey
  cases s.data.lookup key with
  | none => rfl
  | some e =>
    refine if_congr Iff.rfl rfl (bind_congr fun touched => ?_)
    unfold entryText
    cases e.encoding <;> cases e.strVal <;> rfl

theorem getInt_eq (env : Env) (s : Store) (key : Bytes) : s.getInt env key = readKey env s key .absent fun e => .ok (entryInt e) := by
  unfold Store.getInt readKey
  cases s.data.lookup key with
  | none => rfl
  | some e =>
    refine if_congr Iff.rfl rfl (bind_congr fun touched => ?_)
    dsimp only [entryInt, Except.map]
    split <;> rfl

section
variable {α : Type} {absent : α}

theorem peek_edits (env : Env) (s : Store) (key : Bytes) (seen : Entry → α) : Altered s (peek env s key absent seen).2 := by
  unfold peek
  split
  · exact .start
  next e _ =>
    split
    · exact (isExpired_edits env s e).remove key
    · exact isExpired_edits env s e

theorem readKey_edits {seen : Entry → Panics α} {result : α} (ran : readKey env s key absent seen = .ok (result, after)) : Altered s after := by
  unfold readKey at ran
  split at ran
  · cases ran
    exact .start
  next e held =>
    split at ran
    · cases ran
      exact (isExpired_edits env s e).remove key
    · obtain ⟨middle, touched, ran⟩ := bind_ok ran
      obtain ⟨_, _, last⟩ := map_ok ran
      cases last
      exact (isExpired_edits env s e).trans (touch_edits (lookup_isExpired env held) touched)

end

theorem getInt_edits {read : Store.IntRead} (ran : s.getInt env key = .ok (read, after)) : Altered s after :=
  readKey_edits (getInt_eq env s key ▸ ran)

theorem getEncoding_edits (env : Env) (s : Store) (key : Bytes) : Altered s (s.getEncoding env key).2 := by
  rw [getEncoding_eq]
  apply peek_edits

theorem getFreq_edits (env : Env) (s : Store) (key : Bytes) : Altered s (s.getFreq env key).2 := by
  rw [getFreq_eq]
  split
  · exact .start
  · apply peek_edits

theorem get_edits {read : Option Bytes} (ran : s.get env key = .ok (read, after)) : Altered s after :=
  readKey_edits (get_eq env s key ▸ ran)

theorem ttl_edits (env : Env) (s : Store) (key : Bytes) : Altered s (s.ttl env key).2 := by
  unfold Store.ttl
  split
  · exact .start
  · split
    · exact .start
    · dsimp only
      split
      · exact (now_edits env s).remove key
      · exact now_edits env s

theorem pfAdd_edits {values : List Bytes} {changed : Option Bool} (ran : s.pfAdd env key values = .ok (changed, after)) :
    Altered s after := by
  -- A key that was not there, or has just been removed, counts anew.
  have created {s : Store} (absent : s.data.lookup key = none) {h : Option HLL} {stamp : UInt32} :
      Altered s (Store.record { (s.stampNew env).2 with keys := (s.stampNew env).2.keys + 1 } key ⟨.hll, 0, none, h, none, stamp⟩) := by
    have overwritten := (Altered.start (s := s)).overwrite (Nat.le_succ _) key ⟨.hll, 0, none, h, none, stamp⟩
    simp only [Store.dropOld, absent] at overwritten
    exact overwritten
  unfold Store.pfAdd at ran
  dsimp only at ran
  split at ran
  next absent =>
    obtain ⟨⟨h, grew⟩, _, ran⟩ := bind_ok ran
    cases ran
    exact created absent
  next e held =>
    split at ran
    · obtain ⟨⟨h, grew⟩, _, ran⟩ := bind_ok ran
      cases ran
      exact ((isExpired_edits env s e).remove key).trans (created (by rw [lookup_removeKey, if_pos rfl]))
    · split at ran
      · cases ran
        exact isExpired_edits env s e
      · obtain ⟨⟨stamp, middle⟩, stamped, ran⟩ := bind_ok ran
        obtain ⟨⟨h, grew⟩, _, ran⟩ := bind_ok ran
        cases ran
        exact (isExpired_edits env s e).trans (restore_edits (lookup_isExpired env held) stamped _)

theorem count_size {h after : HLL} {estimate : List Nat → Nat} {n : Nat} (ran : h.count estimate = .ok (after, n)) :
    after.size = h.size := by
  unfold HLL.count at ran
  split at ran
  · cases ran
    rfl
  · obtain ⟨histo, _, ran⟩ := bind_ok ran
    cases ran
    rfl

theorem pfCount_edits {n : Int} (ran : s.pfCount env key = .ok (n, after)) : Altered s after := by
  unfold Store.pfCount at ran
  split at ran
  · cases ran
    exact .start
  next e held =>
    split at ran
    · cases ran
      exact .start
    · split at ran
      · cases ran
      next h sketch =>
        obtain ⟨⟨counted, count⟩, ran', ran⟩ := bind_ok ran
        obtain ⟨_, rfl⟩ := Prod.mk.inj (Except.ok.inj ran)
        refine Altered.start.swap (Nat.le_refl s.tick) held ?_
        have size := count_size ran'
        unfold entrySize
        rw [sketch, Option.map_some, Option.map_some, size]

theorem pfMerge_edits {dest : Bytes} {sources : List Bytes} (ran : s.pfMerge env dest sources = .ok after) : Altered s after := by
  obtain ⟨acc, _, ran⟩ := bind_ok ran
  obtain rfl := Except.ok.inj ran
  have later : s.tick ≤ (s.dropOld dest).tick + 1 := by
    rw [dropOld_tick]
    exact Nat.le_succ _
  exact Altered.start.overwrite later dest _

theorem deleteOne_edits (env : Env) (state : Int × Store) (key : Bytes) : Altered state.2 (Store.deleteOne env state key).2 := by
  unfold Store.deleteOne
  split
  · exact .start
  next e _ => exact (isExpired_edits env state.2 e).remove key

theorem deleteFrom_edits (env : Env) (state : Int × Store) (keys : List Bytes) :
    Altered state.2 (keys.foldl (Store.deleteOne env) state).2 := by
  induction keys generalizing state with
  | nil => exact .start
  | cons key rest ih => exact (deleteOne_edits env state key).trans (ih _)

theorem deleteExpiredFrom_edits (env : Env) (keys : List Bytes) (checked : Nat) (deleted : Int) (s : Store) :
    Altered s (Store.deleteExpiredFrom env keys checked deleted s).2 := by
  induction keys generalizing checked deleted s with
  | nil => exact .start
  | cons key rest ih =>
    unfold Store.deleteExpiredFrom
    split
    · exact .start
    · split
      · exact ih checked deleted s
      next e _ =>
        split
        · exact ih checked deleted s
        · dsimp only
          split
          · exact ((isExpired_edits env s e).remove key).trans (ih _ _ _)
          · exact (isExpired_edits env s e).trans (ih _ _ _)

theorem deleteExpired_edits (env : Env) (s : Store) : Altered s (s.deleteExpired env).2 :=
  (now_edits env s).trans (deleteExpiredFrom_edits env _ 0 0 _)

theorem performEvictions_moves {samples maxBytes : Int} (ran : s.performEvictions env samples maxBytes = .ok after) :
    Moved s after := by
  refine performEvictions_keeps (Moved s) ?_ ?_ .start ran
  · intro middle slots n later moved
    exact moved.pool later slots
  · intro middle key moved
    exact moved.remove key

end Rediska.Proofs
