import Rediska.Proofs.BatchRuns
import Rediska.Proofs.HandlerSteps

/-! The memory limit: whom it turns away, and what that does to a transaction. -/

namespace Rediska.Proofs
open Go Core Storage Commands Spec

variable {env : Env} {cfg : Config} {s after : Store} {reply : Bytes}

/-! When memory does not allow a command to run. -/

/-- Eviction goes on until the rest fits, and nothing at all always fits. -/
theorem Accounted.evicted_fits {samples maxBytes : Int} (accounted : Accounted s) (limited : 0 < maxBytes)
    (ran : s.performEvictions env samples maxBytes = .ok after) : after.usedMemory ≤ maxBytes := by
  have kept := accounted.moved (performEvictions_moves ran)
  rcases (performEvictions_run (fun _ => True) (fun _ _ _ _ _ _ => trivial) trivial ran).2 limited with fits | empty
  · exact fits
  · have nothing : after.data.entries = [] := List.map_eq_nil_iff.mp empty
    rw [kept.memory, total, nothing]
    exact limited.le

theorem checkMemory_full_iff {name : CommandName} (accounted : Accounted s) :
    (∃ room, checkMemory env cfg name s = .ok (room, false)) ↔
      denyOOMCommands name = true ∧ ¬ Evicts cfg.maxMemoryPolicy ∧ OverLimit cfg s := by
  constructor
  · rintro ⟨room, full⟩
    cases memoryChecked full with
    | stayed grows limited stays weighed =>
      have exceeds : s.overMemory (wrap64 (cfg.maxMemory * 2 ^ 20)) = true := by simpa using weighed.symm
      exact ⟨grows, stays, limited, exceeds⟩
    | evicted grows limited evicts ran weighed =>
      have exceeds : room.overMemory (wrap64 (cfg.maxMemory * 2 ^ 20)) = true := by simpa using weighed.symm
      simp only [Store.overMemory, Bool.and_eq_true, decide_eq_true_eq] at exceeds
      have fits := accounted.evicted_fits exceeds.1 ran
      exact absurd exceeds.2 (Int.not_lt.mpr fits)
  · rintro ⟨grows, stays, limited, exceeds⟩
    refine ⟨s, ?_⟩
    rw [checkMemory_limited env grows limited, makeRoom_stays env stays, ok_bind, exceeds]
    rfl

theorem checkMemory_within {name : CommandName} {room : Store} (checked : checkMemory env cfg name s = .ok (room, true))
    (grows : denyOOMCommands name = true) : ¬ OverLimit cfg room := by
  rintro ⟨limited, above⟩
  cases memoryChecked checked with
  | free free => exact free ⟨grows, limited⟩
  | stayed _ _ _ weighed | evicted _ _ _ _ weighed =>
    rw [above] at weighed
    cases weighed

/-- Turned away because of the memory limit. -/
def MemoryError (reply : Bytes) : Prop := ascii "-OOM" <+: reply

theorem MemoryError.take {reply : Bytes} (refused : MemoryError reply) : reply.take 4 = ascii "-OOM" := by
  obtain ⟨rest, rfl⟩ := refused
  rfl

theorem MemoryError.refusal (refused : MemoryError reply) : Refusal reply := ⟨ascii "OOM", by decide, refused.take⟩

theorem ClusterError.not_memoryError (elsewhere : ClusterError reply) : ¬ MemoryError reply := by
  intro refused
  have listed := elsewhere.take
  rw [refused.take] at listed
  exact absurd listed (by decide)

variable {w : World} {cmds : List Command} {cmd : Command}

/-- Exactly the commands that can grow memory are turned away, where nothing is evicted
and the limit has been passed. -/
theorem dispatch_memoryError_iff (accounted : Accounted w.store) :
    (∃ reply next, dispatch env cfg w cmd = .ok (reply, next) ∧ MemoryError reply) ↔
      ∃ name, lookupCommand cmd.name = some name ∧ denyOOMCommands name = true ∧ checkCluster cfg cmd = none ∧
        ¬ Evicts cfg.maxMemoryPolicy ∧ OverLimit cfg w.store := by
  constructor
  · rintro ⟨reply, next, returned, refused⟩
    cases dispatched returned with
    | unknown =>
      have said : Said (OneLine cmd.name) (encodeError (ascii "ERR unknown command '" ++ cmd.name ++ ascii "'")) :=
        .echo (by decide) (by decide) .rfl
      exact absurd refused.refusal said.not_refusal
    | refused elsewhere => exact absurd refused (checkKeys_clusterError elsewhere).not_memoryError
    | @full name room known passed checked =>
      obtain ⟨grows, stays, exceeds⟩ := (checkMemory_full_iff accounted).mp ⟨room, checked⟩
      exact ⟨name, known, grows, passed, stays, exceeds⟩
    | ran known _ _ handled => exact absurd refused.refusal (runHandler_said known handled).not_refusal
  · rintro ⟨name, known, grows, passed, stays, exceeds⟩
    obtain ⟨room, checked⟩ := (checkMemory_full_iff accounted).mpr ⟨grows, stays, exceeds⟩
    exact ⟨_, _, by rw [dispatch_checked known passed checked]; rfl, ⟨_, rfl⟩⟩

/-! Transactions. -/

/-- In a transaction that runs, the command of this number can grow memory, and is let
through to its handler. -/
inductive Grows (env : Env) (cfg : Config) (w : World) (cmds : List Command) (i : Nat) : Prop
  | intro {grow : Command} {name : CommandName} {replies : List Bytes} {here : World} {room : Store}
      (runs : checkClusterBatch cfg cmds = none) (turn : cmds[i]? = some grow)
      (before : dispatchAll env cfg w (cmds.take i) = .ok (replies, here)) (known : lookupCommand grow.name = some name)
      (grows : denyOOMCommands name = true) (passed : checkCluster cfg grow = none)
      (checked : checkMemory env cfg name here.store = .ok (room, true)) : Grows env cfg w cmds i

/-- However far the transaction comes, none of its replies turns a command away for memory
once one that can grow it has run. -/
def NeverCutShort (env : Env) (cfg : Config) (w : World) (cmds : List Command) : Prop :=
  ∀ n replies after i j reply, dispatchAll env cfg w (cmds.take n) = .ok (replies, after) → Grows env cfg w cmds i → i < j →
    replies[j]? = some reply → ¬ MemoryError reply

theorem Accounted.dispatchAll {replies : List Bytes} {after : World} (accounted : Accounted w.store)
    (ran : dispatchAll env cfg w cmds = .ok (replies, after)) : Accounted after.store := by
  induction cmds generalizing w replies with
  | nil =>
    cases ran
    exact accounted
  | cons cmd rest ih =>
    obtain ⟨reply, next, others, returned, later, _⟩ := dispatchAll_cons ran
    exact ih (accounted.moved (dispatch_moves returned)) later

/-- A reply of a transaction is the one its command was given in its turn. -/
theorem dispatchAll_at {n j : Nat} {replies : List Bytes} {after : World} (ran : dispatchAll env cfg w (cmds.take n) = .ok (replies, after))
    (said : replies[j]? = some reply) :
    ∃ cmd earlier there next, cmds[j]? = some cmd ∧ dispatchAll env cfg w (cmds.take j) = .ok (earlier, there) ∧
      dispatch env cfg there cmd = .ok (reply, next) := by
  rw [dispatchAll_eq] at ran
  obtain ⟨cmd, there, next, turn, before, now⟩ := runAll_at ran said
  obtain ⟨inside, _⟩ := List.getElem?_eq_some_iff.mp turn
  rw [List.length_take] at inside
  rw [List.getElem?_take_of_lt (by omega)] at turn
  rw [List.take_take, Nat.min_eq_left (by omega)] at before
  exact ⟨cmd, _, there, next, turn, by rw [dispatchAll_eq]; exact before, now⟩

/-- One more command of a transaction, and its reply. -/
theorem dispatchAll_next {j : Nat} {replies : List Bytes} {there next : World} (turn : cmds[j]? = some cmd)
    (before : dispatchAll env cfg w (cmds.take j) = .ok (replies, there)) (returned : dispatch env cfg there cmd = .ok (reply, next)) :
    dispatchAll env cfg w (cmds.take (j + 1)) = .ok (replies ++ [reply], next) ∧ replies.length = j := by
  obtain ⟨inside, _⟩ := List.getElem?_eq_some_iff.mp turn
  rw [dispatchAll_eq] at before
  refine ⟨?_, by rw [runAll_length before, List.length_take, Nat.min_eq_left inside.le]⟩
  rw [dispatchAll_eq, List.take_add_one, turn]
  exact runAll_snoc before returned

/-- Memory cuts no transaction short if the policy evicts; if it does not, then exactly
those are spared whose commands that can grow memory find the limit respected. -/
theorem never_cut_short_iff (accounted : Accounted w.store) :
    NeverCutShort env cfg w cmds ↔ Evicts cfg.maxMemoryPolicy ∨
      ∀ i j replies there cmd name, Grows env cfg w cmds i → i < j → cmds[j]? = some cmd →
        dispatchAll env cfg w (cmds.take j) = .ok (replies, there) → lookupCommand cmd.name = some name → denyOOMCommands name = true →
        checkCluster cfg cmd = none → ¬ OverLimit cfg there.store := by
  constructor
  · intro spared
    by_cases evicts : Evicts cfg.maxMemoryPolicy
    · exact .inl evicts
    · refine .inr fun i j replies there cmd name growth later turn before known grows passed exceeds => ?_
      obtain ⟨reply, after, returned, refused⟩ :=
        (dispatch_memoryError_iff (accounted.dispatchAll before)).mpr ⟨name, known, grows, passed, evicts, exceeds⟩
      obtain ⟨ran, count⟩ := dispatchAll_next turn before returned
      refine spared _ _ _ i j reply ran growth later ?_ refused
      rw [← count]
      simp
  · intro within n replies after i j reply ran growth later said refused
    obtain ⟨cmd, earlier, there, next, turn, before, returned⟩ := dispatchAll_at ran said
    obtain ⟨name, known, grows, passed, stays, exceeds⟩ :=
      (dispatch_memoryError_iff (accounted.dispatchAll before)).mp ⟨reply, next, returned, refused⟩
    rcases within with evicts | within
    · exact stays evicts
    · exact within i j earlier there cmd name growth later turn before known grows passed exceeds

/-- A limit of one megabyte, with any policy. -/
def Config.ofOneMegabyte (policy : Policy) : Config := { Config.plain with maxMemory := 1, maxMemoryPolicy := policy }

theorem never_cut_short_evicting :
    NeverCutShort (.still 0) (Config.ofOneMegabyte .allkeysLRU) ⟨.new .allkeysLRU, none⟩
      [⟨ascii "SET", [ascii "k", ascii "v"]⟩, ⟨ascii "SET", [ascii "m", ascii "v"]⟩] :=
  (never_cut_short_iff (.new _)).mpr (.inl trivial)

/-- A world with one entry. -/
def worldOf (key : Bytes) : World := ⟨(Store.new .noeviction).set (.still 0) key (ascii "v") 0, none⟩

/-- A SET takes the store beyond the limit, and the next one of the transaction is
turned away. -/
theorem set_cuts_transaction_short :
    ¬ ∀ (env : Env) (cfg : Config) (policy : Policy) (w : World) (cmds : List Command), Reachable env cfg policy w →
      NeverCutShort env cfg w cmds := by
  intro claim
  have big : ∃ key : Bytes, key.length = 2 ^ 20 := ⟨List.replicate (2 ^ 20) 97, List.length_replicate⟩
  obtain ⟨key, long⟩ := big
  -- The limit counts the key, the value and the overhead of an entry.
  have used : (worldOf key).store.usedMemory = 0 + ((key.length + 1 + 64 : Nat) : Int) := rfl
  have first : dispatch (.still 0) (Config.ofOneMegabyte .noeviction) ⟨.new .noeviction, none⟩ ⟨ascii "SET", [key, ascii "v"]⟩ =
      .ok (encodeSimpleString (ascii "OK"), worldOf key) := rfl
  have growth : Grows (.still 0) (Config.ofOneMegabyte .noeviction) ⟨.new .noeviction, none⟩
      [⟨ascii "SET", [key, ascii "v"]⟩, ⟨ascii "SET", [ascii "m", ascii "v"]⟩] 0 :=
    .intro (checkKeys_off rfl _) rfl rfl rfl rfl (checkKeys_off rfl _) rfl
  have exceeds : OverLimit (Config.ofOneMegabyte .noeviction) (worldOf key).store := by
    refine ⟨by decide, ?_⟩
    simp only [Store.overMemory, used, Bool.and_eq_true, decide_eq_true_eq]
    refine ⟨by decide, ?_⟩
    rw [long]
    decide
  have accounted : Accounted (worldOf key).store := (Accounted.new .noeviction).moved (dispatch_moves first)
  have turned : ∃ reply next, dispatch (.still 0) (Config.ofOneMegabyte .noeviction) (worldOf key)
      ⟨ascii "SET", [ascii "m", ascii "v"]⟩ = .ok (reply, next) ∧ MemoryError reply :=
    (dispatch_memoryError_iff accounted).mpr ⟨.set, rfl, rfl, checkKeys_off rfl _, id, exceeds⟩
  obtain ⟨reply, after, returned, refused⟩ := turned
  have both : dispatchAll (.still 0) (Config.ofOneMegabyte .noeviction) ⟨.new .noeviction, none⟩
      [⟨ascii "SET", [key, ascii "v"]⟩, ⟨ascii "SET", [ascii "m", ascii "v"]⟩] =
        .ok ([encodeSimpleString (ascii "OK"), reply], after) := by
    simp only [dispatchAll, first, returned, ok_bind]
  exact claim _ _ .noeviction _ _ (.start none) 2 _ _ 0 1 reply both growth Nat.one_pos rfl refused

end Rediska.Proofs
