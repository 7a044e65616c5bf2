import Rediska.Proofs.AofReplay
import Rediska.Proofs.ClusterOwnership
import Rediska.Proofs.MemoryLimit

/-! Evictions are not in the file: a replay brings evicted keys back. -/

namespace Rediska.Proofs
open Go Core Hll Storage Commands Server Spec Logic

variable {env env' : Env} {cfg : Config} {policy : Policy} {s : Store} {w after : World} {cmds : List Command} {cmd : Command}
  {key reply : Bytes}

/-- If the command can grow memory and may make room for that, it finds the memory in
use within the limit. -/
def Roomy (cfg : Config) (s : Store) (cmd : Command) : Prop :=
  ∀ name, lookupCommand cmd.name = some name → denyOOMCommands name = true → checkCluster cfg cmd = none →
    Evicts cfg.maxMemoryPolicy → ¬ OverLimit cfg s

theorem Roomy.evictionStep (roomy : Roomy cfg s cmd) (env : Env) : evictionStep env cfg s cmd = .ok s := by
  unfold Proofs.evictionStep
  split
  next name known passed =>
    by_cases limited : denyOOMCommands name = true ∧ 0 < cfg.maxMemory
    · have room : makeRoom env cfg s (wrap64 (cfg.maxMemory * 2 ^ 20)) = .ok s := by
        by_cases evicts : Evicts cfg.maxMemoryPolicy
        · rw [makeRoom_evicts env evicts]
          exact performEvictions_fits env fun above => roomy name known limited.1 passed evicts ⟨limited.2, above⟩
        · exact makeRoom_stays env evicts
      rw [checkMemory_limited env limited.1 limited.2, room]
      rfl
    · rw [checkMemory, if_neg limited]
      rfl
  · rfl

/-- Every command of the run that can make room finds that it does not have to. -/
def AlwaysRoomy (env : Env) (cfg : Config) (w : World) (cmds : List Command) : Prop :=
  ∀ cmd here rest, Turn env cfg w cmds cmd here rest → Roomy cfg here.store cmd

theorem AlwaysRoomy.nothingEvicted (roomy : AlwaysRoomy env cfg w cmds) : NothingEvicted env cfg w cmds :=
  fun cmd here rest turn => (roomy cmd here rest turn).evictionStep env

/-- As long as no command has to make room, replaying the file gives the keys of the
store and their values. -/
theorem replay_rebuilds_roomy (program : SameProgram env env') (cfg' : Config) (sized : ∀ cmd ∈ cmds, Sized (cmd.name :: cmd.args))
    (run : Run env cfg ⟨.new policy, some (newAOF [])⟩ cmds w) (roomy : AlwaysRoomy env cfg ⟨.new policy, some (newAOF [])⟩ cmds) :
    ∃ aof after, w.aof = some aof ∧ aof.recover (replayAOFCommand env' cfg') (.new policy) = .ok after ∧
      SameContents w.store after := by
  obtain ⟨log, K, s, rebuilt⟩ := (Rebuilt.start env env' cfg' policy).run program roomy.nothingEvicted sized run
  rw [List.nil_append] at rebuilt
  exact ⟨_, s, rebuilt.written, rebuilt.logged.recover, rebuilt.store.sameContents rebuilt.same⟩

theorem SameContents.absent {s s' : Store} (same : SameContents s s') (gone : s.data.lookup key = none) : s'.data.lookup key = none := by
  rcases related_cases (same key) with ⟨_, absent⟩ | ⟨_, _, held, _⟩
  · exact absent
  · rw [gone] at held
    cases held

theorem Logged.recover_write {cfg' : Config} {file : Option AOF} {log : List (List Bytes)} {args : List Bytes}
    (logged : Logged env' cfg' policy file log s) (sized : Sized args) :
    (AOF.write ⟨log.flatMap encodeArray⟩ args).recover (replayAOFCommand env' cfg') (.new policy) =
      replayAOFCommand env' cfg' args s := by
  have alone : encodeArray args = [args].flatMap encodeArray ++ [] := by rw [List.flatMap_singleton, List.append_nil]
  rw [AOF.write, recover_commands _ logged.sized, logged.replayed, ok_bind, alone,
    recover_commands _ (List.forall_mem_singleton.mpr sized), forEach]
  cases replayAOFCommand env' cfg' args s with
  | error p => rfl
  | ok final => rfl

/-- The first eviction is undone: a key it took, which is not one of the command's own,
is back after a replay. -/
theorem eviction_undone (program : SameProgram env env') (cfg' : Config) (sized : ∀ cmd ∈ cmds, Sized (cmd.name :: cmd.args))
    (run : Run env cfg ⟨.new policy, some (newAOF [])⟩ cmds w) (roomy : AlwaysRoomy env cfg ⟨.new policy, some (newAOF [])⟩ cmds)
    (last : Sized (cmd.name :: cmd.args)) (returned : dispatch env cfg w cmd = .ok (reply, after))
    (held : w.store.data.lookup key ≠ none) (apart : key ∉ keysOf cmd) (gone : after.store.data.lookup key = none) :
    ¬ ∃ aof final, after.aof = some aof ∧ aof.recover (replayAOFCommand env' cfg') (.new policy) = .ok final ∧
      SameContents after.store final := by
  rintro ⟨aof, final, written, replayed, same⟩
  have absent := same.absent gone
  obtain ⟨log, K, s, rebuilt⟩ := (Rebuilt.start env env' cfg' policy).run program roomy.nothingEvicted sized run
  rw [List.nil_append] at rebuilt
  obtain ⟨room, left, evicted, kept, _⟩ := evictionStep_returned rebuilt.store returned
  have there : K key ≠ none := by
    rcases rebuilt.store.at key with ⟨nothing, _⟩ | ⟨_, item, _, found, _⟩
    · exact absurd nothing held
    · rw [found]
      nofun
  have back {final' : Store} {left' : Keyspace} (shows : Represents env' policy final' left') (frame : left' key = K key) :
      final'.data.lookup key ≠ none := by
    rcases shows.at key with ⟨_, nothing⟩ | ⟨e, _, found, _⟩
    · exact absurd (frame.symm.trans nothing) there
    · rw [found]
      nofun
  cases dispatch_recorded evicted kept returned with
  | unlogged _ _ file =>
    rw [file, rebuilt.written] at written
    cases written
    rw [rebuilt.logged.recover] at replayed
    cases replayed
    exact back rebuilt.same rfl absent
  | @logged name request _ _ known asked _ _ _ _ file =>
    rw [file _ rebuilt.written] at written
    cases written
    rw [rebuilt.logged.recover_write last] at replayed
    have upper : toUpper env'.unicode cmd.name = cmd.name := by
      rw [lookupCommand_text known]
      exact toUpper_text _ name
    have asked' := asked
    rw [← requestOf_congr program.unicode] at asked'
    simp only [replayAOFCommand, replay, upper, known] at replayed
    obtain ⟨⟨said, final'⟩, handled, same_final⟩ := map_ok replayed
    cases same_final
    obtain ⟨clock, _, refines⟩ := handler_refines cfg' rebuilt.same asked'
    obtain ⟨left', spec, shows⟩ := refines.of_ok handled
    exact back shows (Request.run_frame spec fun named => apart (requestOf_keys known asked named)) absent

/-! A limit of one megabyte, and a key that long. -/

def setKey (key : Bytes) : Command := ⟨ascii "SET", [key, ascii "v"]⟩

/-- What SET of a key leaves. -/
def worldWith (key : Bytes) : World :=
  ⟨(Store.new .allkeysLRU).set (.still 0) key (ascii "v") 0, some ⟨encodeArray [ascii "SET", key, ascii "v"]⟩⟩

theorem setKey_returns (key : Bytes) :
    dispatch (.still 0) (Config.ofOneMegabyte .allkeysLRU) ⟨.new .allkeysLRU, some (newAOF [])⟩ (setKey key) =
      .ok (encodeSimpleString (ascii "OK"), worldWith key) := rfl

theorem worldWith_endless (key : Bytes) : NoDeadlines (worldWith key).store := (NoDeadlines.new .allkeysLRU).set _ _ _

theorem setKey_run (key : Bytes) :
    Run (.still 0) (Config.ofOneMegabyte .allkeysLRU) ⟨.new .allkeysLRU, some (newAOF [])⟩ [setKey key] (worldWith key) :=
  .cons (setKey_returns key) (worldWith_endless key) (.nil _)

theorem setKey_roomy (key : Bytes) :
    AlwaysRoomy (.still 0) (Config.ofOneMegabyte .allkeysLRU) ⟨.new .allkeysLRU, some (newAOF [])⟩ [setKey key] := by
  intro cmd here rest turn
  cases turn with
  | first =>
    intro name _ _ _ _ above
    exact absurd above.2 (by decide)
  | later _ turn => cases turn

theorem setKey_sized {key : Bytes} (short : key.length ≤ 2 ^ 20) : Sized ((setKey key).name :: (setKey key).args) := by
  have three : ((setKey key).name :: (setKey key).args).length = 3 := rfl
  refine ⟨by rw [three]; decide, ?_⟩
  intro arg listed
  simp only [setKey, List.mem_cons, List.not_mem_nil, or_false] at listed
  rcases listed with rfl | rfl | rfl
  · decide
  · simp only [CanMake, maxAlloc]
    omega
  · decide

theorem replay_rebuilds_small_key :
    ∃ aof after, (worldWith (ascii "k")).aof = some aof ∧ aof.recover (replayAOFCommand (.still 7) .plain) (.new .allkeysLRU) = .ok after ∧
      SameContents (worldWith (ascii "k")).store after := by
  have program : SameProgram (.still 0) (.still 7) := ⟨rfl, rfl, rfl⟩
  exact replay_rebuilds_roomy program .plain (List.forall_mem_singleton.mpr (setKey_sized (by decide))) (setKey_run _) (setKey_roomy _)

theorem NoDeadlines.thinned {room : Store} {K left : Keyspace} (endless : NoDeadlines s) (same : Represents env policy s K)
    (kept : Represents env policy room left) (thinned : Thinned K left) : NoDeadlines room := by
  intro key e held
  obtain ⟨item, found, shows⟩ := kept.item held
  rcases thinned key with there | gone
  · obtain ⟨e', held', shows'⟩ := same.entry (there.symm.trans found)
    rw [shows.expiresAt, ← shows'.expiresAt]
    exact endless key e' held'
  · rw [gone] at found
    cases found

/-- Making room for another SET takes the long key. -/
theorem long_key_evicted {key : Bytes} (long : key.length = 2 ^ 20) :
    ∃ reply after, dispatch (.still 0) (Config.ofOneMegabyte .allkeysLRU) (worldWith key) (setKey (ascii "m")) = .ok (reply, after) ∧
      after.store.data.lookup key = none ∧ NoDeadlines after.store := by
  obtain ⟨K, same⟩ := dispatch_keeps (.new _ _) (setKey_returns key)
  have accounted : Accounted (worldWith key).store := (Accounted.new _).moved (dispatch_moves (setKey_returns key))
  have modest (_ : denyOOMCommands .set = true) : ¬ Oversamples (Config.ofOneMegabyte .allkeysLRU) (worldWith key).store :=
    fun oversamples => absurd oversamples.2.2.2 (by decide)
  obtain ⟨room, fits, checked⟩ := checkMemory_returns (.still 0) modest
  obtain ⟨left, kept, thinned⟩ := checkMemory_thins same checked
  have enough : fits = true := by
    cases fits with
    | true => rfl
    | false => exact absurd trivial ((checkMemory_full_iff accounted).mp ⟨room, checked⟩).2.1
  subst enough
  have absent : room.data.lookup key = none := by
    cases held : room.data.lookup key with
    | none => rfl
    | some e =>
      have counted := (accounted.moved (checkMemory_moves checked)).key_counted held
      have limit : wrap64 ((Config.ofOneMegabyte .allkeysLRU).maxMemory * 2 ^ 20) = 2 ^ 20 := by decide
      refine absurd ⟨by decide, ?_⟩ (checkMemory_within checked rfl)
      simp only [Store.overMemory, limit, Bool.and_eq_true, decide_eq_true_eq]
      omega
  have returned : dispatch (.still 0) (Config.ofOneMegabyte .allkeysLRU) (worldWith key) (setKey (ascii "m")) =
      .ok (encodeSimpleString (ascii "OK"), appendAOF { worldWith key with store := room.set (.still 0) (ascii "m") (ascii "v") 0 } .set
        (setKey (ascii "m")) (encodeSimpleString (ascii "OK"))) :=
    dispatch_checked rfl (checkKeys_off rfl _) checked
  refine ⟨_, _, returned, ?_, ?_⟩
  · have other : key ≠ ascii "m" := by
      rintro rfl
      exact absurd long (by decide)
    obtain ⟨stamp, _, data⟩ := set_entry (.still 0) room (ascii "m") (ascii "v") 0
    rw [appendAOF_store, data, lookup_insert_if, if_neg other, absent]
  · rw [appendAOF_store]
    exact ((worldWith_endless key).thinned same kept thinned).set _ _ _

/-- A key as long as the limit is evicted, and is there again once the file is replayed. -/
theorem evicted_key_comes_back :
    ¬ ∀ (env env' : Env) (cfg cfg' : Config) (policy : Policy) (cmds : List Command) (w : World), SameProgram env env' →
      0 < cfg.maxMemory → Evicts cfg.maxMemoryPolicy → (∀ cmd ∈ cmds, Sized (cmd.name :: cmd.args)) →
      Run env cfg ⟨.new policy, some (newAOF [])⟩ cmds w →
      ∃ aof after, w.aof = some aof ∧ aof.recover (replayAOFCommand env' cfg') (.new policy) = .ok after ∧
        SameContents w.store after := by
  intro claim
  have big : ∃ key : Bytes, key.length = 2 ^ 20 := ⟨List.replicate (2 ^ 20) 97, List.length_replicate⟩
  obtain ⟨key, long⟩ := big
  obtain ⟨reply, after, returned, gone, endless⟩ := long_key_evicted long
  have program : SameProgram (.still 0) (.still 0) := ⟨rfl, rfl, rfl⟩
  have sized := setKey_sized long.le
  have sized' : Sized ((setKey (ascii "m")).name :: (setKey (ascii "m")).args) := setKey_sized (by decide)
  have run : Run (.still 0) (Config.ofOneMegabyte .allkeysLRU) ⟨.new .allkeysLRU, some (newAOF [])⟩ [setKey key, setKey (ascii "m")] after :=
    .cons (setKey_returns key) (worldWith_endless key) (.cons returned endless (.nil _))
  have held : (worldWith key).store.data.lookup key ≠ none := by
    obtain ⟨stamp, _, data⟩ := set_entry (.still 0) (Store.new .allkeysLRU) key (ascii "v") 0
    rw [worldWith, data, lookup_insert_if, if_pos rfl]
    nofun
  have apart : key ∉ keysOf (setKey (ascii "m")) := by
    have keys : keysOf (setKey (ascii "m")) = [ascii "m"] := by decide
    rw [keys, List.mem_singleton]
    rintro rfl
    exact absurd long (by decide)
  have all_sized : ∀ cmd ∈ [setKey key, setKey (ascii "m")], Sized (cmd.name :: cmd.args) :=
    List.forall_mem_cons.mpr ⟨sized, List.forall_mem_singleton.mpr sized'⟩
  exact eviction_undone program .plain (List.forall_mem_singleton.mpr sized) (setKey_run key) (setKey_roomy key) sized' returned held
    apart gone (claim _ _ (Config.ofOneMegabyte .allkeysLRU) .plain _ _ _ program (by decide) trivial all_sized run)

end Rediska.Proofs
