import Rediska.Storage.Evict

/-! The smallest steps of the store. Readings of the clock and draws move the tick and
nothing else. -/

namespace Rediska.Proofs
open Go Core Hll Storage

/-- The same store after some readings. -/
def Ticked (s after : Store) : Prop := ∃ n, after = { s with tick := n }

theorem Ticked.refl (s : Store) : Ticked s s := ⟨s.tick, rfl⟩

theorem Ticked.trans {s middle after : Store} (first : Ticked s middle) (last : Ticked middle after) : Ticked s after := by
  obtain ⟨_, rfl⟩ := first
  obtain ⟨n, rfl⟩ := last
  exact ⟨n, rfl⟩

section
variable (env : Env) (s : Store)

theorem now_ticked : Ticked s (s.now env).2 := ⟨_, rfl⟩

theorem stampNew_ticked : Ticked s (s.stampNew env).2 := ⟨_, rfl⟩

theorem isExpired_ticked (e : Entry) : Ticked s (s.isExpired env e).2 := by
  unfold Store.isExpired
  split
  · exact .refl s
  · exact now_ticked env s

theorem deadline_ticked (ttl : Int) : Ticked s (s.deadline env ttl).2 := by
  unfold Store.deadline
  split
  · exact now_ticked env s
  · exact .refl s

theorem stampAccess_ticked {env : Env} {s after : Store} {current stamp : UInt32}
    (ran : s.stampAccess env current = .ok (stamp, after)) : Ticked s after := by
  simp only [Store.stampAccess] at ran
  split at ran
  · obtain ⟨_, _, ran⟩ := bind_ok ran
    cases ran
    exact ⟨_, rfl⟩
  · cases ran
    exact ⟨_, rfl⟩

end

/-! No step turns the tick back. -/

/-- A deadline is looked at with one reading. -/
theorem isExpired_ticks (env : Env) (s : Store) (e : Entry) :
    (s.isExpired env e).2 = { s with tick := s.tick + if e.expiresAt = none then 0 else 1 } := by
  unfold Store.isExpired
  cases e.expiresAt with
  | none => rfl
  | some deadline => rfl

theorem isExpired_tick (env : Env) (s : Store) (e : Entry) : s.tick ≤ (s.isExpired env e).2.tick := by
  unfold Store.isExpired
  split
  · exact Nat.le_refl _
  · exact Nat.le_succ _

theorem deadline_tick (env : Env) (s : Store) (ttl : Int) : s.tick ≤ (s.deadline env ttl).2.tick := by
  unfold Store.deadline
  split
  · exact Nat.le_succ _
  · exact Nat.le_refl _

/-- An access reads the clock, and draws under the policies that count. -/
theorem stampAccess_ticks {env : Env} {s after : Store} {current stamp : UInt32}
    (ran : s.stampAccess env current = .ok (stamp, after)) : after.tick = s.tick + if s.isLFU then 2 else 1 := by
  simp only [Store.stampAccess] at ran
  split at ran
  next counts =>
    obtain ⟨_, _, ran⟩ := bind_ok ran
    cases ran
    rw [if_pos counts]
    rfl
  next dates =>
    cases ran
    rw [if_neg dates]
    rfl

theorem stampAccess_tick {env : Env} {s after : Store} {current stamp : UInt32}
    (ran : s.stampAccess env current = .ok (stamp, after)) : s.tick ≤ after.tick := by
  rw [stampAccess_ticks ran]
  exact Nat.le_add_right _ _

theorem removeKey_tick (s : Store) (key : Bytes) : (s.removeKey key).tick = s.tick := by
  unfold Store.removeKey
  split <;> rfl

theorem dropOld_tick (s : Store) (key : Bytes) : (s.dropOld key).tick = s.tick := by
  unfold Store.dropOld
  split <;> rfl

theorem removeKey_policy (s : Store) (key : Bytes) : (s.removeKey key).policy = s.policy := by
  unfold Store.removeKey
  split <;> rfl

theorem removeKey_evPool (s : Store) (key : Bytes) : (s.removeKey key).evPool = s.evPool := by
  unfold Store.removeKey
  split <;> rfl

theorem dropOld_evPool (s : Store) (key : Bytes) : (s.dropOld key).evPool = s.evPool := by
  unfold Store.dropOld
  split <;> rfl

theorem lookup_removeKey (s : Store) (key j : Bytes) :
    (s.removeKey key).data.lookup j = if j = key then none else s.data.lookup j := by
  unfold Store.removeKey
  split
  next absent =>
    split
    next same => rw [same, absent]
    next => rfl
  next => exact lookup_erase_if s.data key j

/-- Setting a key is one overwrite. -/
theorem set_data (env : Env) (s : Store) (key value : Bytes) (ttl : Int) :
    ∃ n stamp, s.set env key value ttl =
      Store.record { s.dropOld key with tick := n } key (Store.newEntry value ((s.dropOld key).deadline env ttl).1 stamp) := by
  obtain ⟨n, ticked⟩ := (deadline_ticked env (s.dropOld key) ttl).trans (stampNew_ticked env _)
  refine ⟨n, (((s.dropOld key).deadline env ttl).2.stampNew env).1, ?_⟩
  rw [← ticked]
  rfl

/-- Setting a key reads the clock for its stamp, and before that for its deadline, if any. -/
theorem set_ticks (env : Env) (s : Store) (key value : Bytes) (ttl : Int) :
    (s.set env key value ttl).tick = s.tick + if 0 < ttl then 2 else 1 := by
  have first : ((s.dropOld key).deadline env ttl).2.tick = s.tick + if 0 < ttl then 1 else 0 := by
    unfold Store.deadline
    split <;> simp only [Store.now, dropOld_tick, Nat.add_zero]
  have all : (s.set env key value ttl).tick = ((s.dropOld key).deadline env ttl).2.tick + 1 := rfl
  rw [all, first]
  split <;> rfl

/-! Where the stamps come from. -/

/-- The stamp an access gives an entry at a reading, which a counting policy follows with
a draw. -/
def accessStamp (env : Env) (lfu : Bool) (current : UInt32) (i : Nat) : Panics UInt32 :=
  if lfu then lfuTouch env.lfuLogFactor env.lfuDecayTime (env.below (i + 1)) current (lfuClock (env.clock i))
  else .ok (lruClock (env.clock i))

/-- The stamp of an entry written at a reading. -/
def newStamp (env : Env) (lfu : Bool) (i : Nat) : UInt32 :=
  if lfu then lfuNew (lfuClock (env.clock i)) else lruClock (env.clock i)

/-- The stamp is that of an access between the two states. -/
def Restamped (env : Env) (s after : Store) (current stamp : UInt32) : Prop :=
  ∃ i, s.tick ≤ i ∧ i < after.tick ∧ accessStamp env s.isLFU current i = .ok stamp

/-- The stamp is that of an entry written between the two states. -/
def Renewed (env : Env) (s after : Store) (stamp : UInt32) : Prop :=
  ∃ i, s.tick ≤ i ∧ i < after.tick ∧ stamp = newStamp env s.isLFU i

theorem stampAccess_stamp {env : Env} {s after : Store} {current stamp : UInt32}
    (ran : s.stampAccess env current = .ok (stamp, after)) : accessStamp env s.isLFU current s.tick = .ok stamp := by
  simp only [Store.stampAccess, Store.now] at ran
  unfold accessStamp
  split at ran
  next lfu =>
    obtain ⟨stamped, touched, ran⟩ := bind_ok ran
    cases ran
    rw [if_pos lfu, touched]
  next lru =>
    cases ran
    rw [if_neg lru]

theorem newEntry_lru (value : Bytes) (expiresAt : Option Int) (stamp : UInt32) :
    (Store.newEntry value expiresAt stamp).lru = stamp := by
  unfold Store.newEntry
  split <;> rfl

/-- The entry that is set is stamped as a new one. -/
theorem set_renews (env : Env) (s : Store) (key value : Bytes) (ttl : Int) :
    ∃ e, (s.set env key value ttl).data.lookup key = some e ∧ Renewed env s (s.set env key value ttl) e.lru := by
  obtain ⟨n, ticked⟩ := (deadline_ticked env (s.dropOld key) ttl)
  have policy : (s.dropOld key).isLFU = s.isLFU := by
    unfold Store.isLFU Store.dropOld
    split <;> rfl
  have later : s.tick ≤ n := by
    have order := deadline_tick env (s.dropOld key) ttl
    rw [ticked, dropOld_tick] at order
    exact order
  have last : (s.set env key value ttl).tick = n + 1 := by
    have read : (s.set env key value ttl).tick = ((s.dropOld key).deadline env ttl).2.tick + 1 := rfl
    rw [read, ticked]
  have stamp : (((s.dropOld key).deadline env ttl).2.stampNew env).1 = newStamp env s.isLFU n := by
    rw [ticked, ← policy]
    rfl
  refine ⟨Store.newEntry value ((s.dropOld key).deadline env ttl).1 (((s.dropOld key).deadline env ttl).2.stampNew env).1,
    AList.lookup_insert _, n, later, ?_, ?_⟩
  · rw [last]
    exact Nat.lt_succ_self n
  · rw [newEntry_lru, stamp]

end Rediska.Proofs
