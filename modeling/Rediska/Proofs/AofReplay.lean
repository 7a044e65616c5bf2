import Rediska.Proofs.AofRecovery
import Rediska.Proofs.BatchRuns
import Rediska.Proofs.LoggedChanges
import Rediska.Server.Worker

/-! Replaying the file rebuilds the store, as long as no key ever had a deadline. -/

namespace Rediska.Proofs
open Go Core Hll Storage Commands Server Spec Logic

variable {env env' : Env} {cfg cfg' : Config} {policy : Policy} {s : Store} {K : Keyspace}

/-! The run that writes the file. -/

def NoDeadlines (s : Store) : Prop := ∀ key e, s.data.lookup key = some e → e.expiresAt = none

theorem Represents.timeless (same : Represents env policy s K) (none : NoDeadlines s) : Timeless K := by
  intro key item held
  obtain ⟨e, stored, shows⟩ := same.entry held
  rw [← shows.expiresAt]
  exact none key e stored

/-- One command that evicts nothing: either nothing happened to the contents and nothing
was written, or a request was made that the file now has at its end. -/
theorem dispatch_requests {w after : World} {cmd : Command} {reply : Bytes} {aof : AOF}
    (roomy : evictionStep env cfg w.store cmd = .ok w.store) (same : Represents env policy w.store K)
    (unexpired : Unexpired (env.clock after.store.tick) K) (opened : w.aof = some aof)
    (ran : dispatch env cfg w cmd = .ok (reply, after)) :
    (Represents env policy after.store K ∧ after.aof = some aof) ∨
      ∃ name request clock left, lookupCommand cmd.name = some name ∧ requestOf env name cmd.args = some request ∧
        ReadingsBetween env w.store after.store clock ∧ request.run (rulesOf env policy) clock K = .ok (reply, left) ∧
        Represents env policy after.store left ∧ after.aof = some (aof.write (cmd.name :: cmd.args)) := by
  cases dispatch_recorded roomy same ran with
  | unlogged kept shrunk file => exact .inl ⟨shrunk.unexpired unexpired ▸ kept, file.trans opened⟩
  | logged known asked between runs kept clean file =>
    exact .inr ⟨_, _, _, _, known, asked, between, runs, kept, file aof opened⟩

/-! The replay of the file. -/

theorem lookupCommand_text {text : Bytes} {name : CommandName} (known : lookupCommand text = some name) : text = name.text := by
  have found := List.find?_some known
  exact (of_decide_eq_true found).symm

/-- The names of commands are in upper case already. -/
theorem toUpper_text (unicode : CaseTable) (name : CommandName) : toUpper unicode name.text = name.text := by
  cases name <;> rfl

theorem requestOf_congr (cases' : env'.unicode = env.unicode) (name : CommandName) (args : List Bytes) :
    requestOf env' name args = requestOf env name args := by
  unfold requestOf
  split <;> simp only [setDuration, cases']

/-- The environments of two runs of the server: same program, same settings. -/
structure SameProgram (env env' : Env) : Prop where
  unicode : env'.unicode = env.unicode
  estimate : env'.estimate = env.estimate
  decay : env'.lfuDecayTime = env.lfuDecayTime

theorem SameProgram.rules (program : SameProgram env env') (policy : Policy) : rulesOf env' policy = rulesOf env policy := by
  rw [rulesOf, rulesOf, program.estimate, program.decay]

/-- A request that does the same at whatever the clock of the replay reads is replayed. -/
theorem replay_request {cmd : Command} {name : CommandName} {request : Request} {left : Keyspace}
    (program : SameProgram env env') (cfg' : Config) (same : Represents env' policy s K)
    (known : lookupCommand cmd.name = some name) (asked : requestOf env name cmd.args = some request)
    (ran : ∀ clock, Readings env' clock → ∃ reply, request.run (rulesOf env policy) clock K = .ok (reply, left)) :
    ∃ after, replayAOFCommand env' cfg' (cmd.name :: cmd.args) s = .ok after ∧ Represents env' policy after left := by
  have upper : toUpper env'.unicode cmd.name = cmd.name := by
    rw [lookupCommand_text known]
    exact toUpper_text _ name
  rw [← requestOf_congr program.unicode] at asked
  obtain ⟨clock, located, refines⟩ := handler_refines cfg' same asked
  obtain ⟨reply, ran⟩ := ran clock located.1
  rw [program.rules] at refines
  obtain ⟨after, returned, kept⟩ := refines.of_spec ran
  refine ⟨after, ?_, kept⟩
  simp only [replayAOFCommand, replay, upper, known, returned]
  rfl

/-- A file of commands, and what its replay leads to. -/
structure Logged (env' : Env) (cfg' : Config) (policy : Policy) (file : Option AOF) (log : List (List Bytes)) (s : Store) : Prop where
  written : file = some ⟨log.flatMap encodeArray⟩
  sized : ∀ cmd ∈ log, Sized cmd
  replayed : forEach log (replayAOFCommand env' cfg') (.new policy) = .ok s

theorem Logged.write {file : Option AOF} {log : List (List Bytes)} {args : List Bytes} {final : Store}
    (logged : Logged env' cfg' policy file log s) (sized : Sized args) (replayed : replayAOFCommand env' cfg' args s = .ok final) :
    Logged env' cfg' policy (some (AOF.write ⟨log.flatMap encodeArray⟩ args)) (log ++ [args]) final := by
  constructor
  · rw [AOF.write, List.flatMap_append, List.flatMap_singleton]
  · intro cmd inside
    rcases List.mem_append.mp inside with earlier | last
    · exact logged.sized cmd earlier
    · rw [List.mem_singleton.mp last]
      exact sized
  · rw [forEach_append, logged.replayed, ok_bind, forEach, replayed]
    rfl

theorem Logged.recover {file : Option AOF} {log : List (List Bytes)} (logged : Logged env' cfg' policy file log s) :
    (AOF.mk (log.flatMap encodeArray)).recover (replayAOFCommand env' cfg') (.new policy) = .ok s := by
  rw [← List.append_nil (log.flatMap encodeArray), recover_commands _ logged.sized, logged.replayed, ok_bind, recover_nil]

/-- Commands executed one after the other, with no deadline anywhere in between. -/
inductive Run (env : Env) (cfg : Config) : World → List Command → World → Prop
  | nil (w : World) : Run env cfg w [] w
  | cons {w middle after : World} {cmd : Command} {rest : List Command} {reply : Bytes}
      (first : dispatch env cfg w cmd = .ok (reply, middle)) (none : NoDeadlines middle.store)
      (others : Run env cfg middle rest after) : Run env cfg w (cmd :: rest) after

/-- The file holds commands whose replay leads to the contents of the store. -/
structure Rebuilt (env env' : Env) (cfg' : Config) (policy : Policy) (w : World) (log : List (List Bytes)) (K : Keyspace) (s : Store) :
    Prop where
  written : w.aof = some ⟨log.flatMap encodeArray⟩
  sized : ∀ cmd ∈ log, Sized cmd
  replayed : forEach log (replayAOFCommand env' cfg') (.new policy) = .ok s
  store : Represents env policy w.store K
  timeless : Timeless K
  same : Represents env' policy s K

theorem Rebuilt.logged {w : World} {log : List (List Bytes)} (rebuilt : Rebuilt env env' cfg' policy w log K s) :
    Logged env' cfg' policy w.aof log s :=
  ⟨rebuilt.written, rebuilt.sized, rebuilt.replayed⟩

theorem Rebuilt.step {w after : World} {log : List (List Bytes)} {cmd : Command} {reply : Bytes} (program : SameProgram env env')
    (roomy : evictionStep env cfg w.store cmd = .ok w.store) (rebuilt : Rebuilt env env' cfg' policy w log K s)
    (sized : Sized (cmd.name :: cmd.args))
    (ran : dispatch env cfg w cmd = .ok (reply, after)) (none : NoDeadlines after.store) :
    ∃ more K s, Rebuilt env env' cfg' policy after (log ++ more) K s ∧ (more = [] ∨ more = [cmd.name :: cmd.args]) := by
  rcases dispatch_requests roomy rebuilt.store (rebuilt.timeless.unexpired _) rebuilt.written ran with
    ⟨store, file⟩ | ⟨name, request, clock, left, known, asked, _, runs, store, file⟩
  · refine ⟨[], K, s, ?_, .inl rfl⟩
    rw [List.append_nil]
    exact { rebuilt with written := file, store := store }
  · have timeless := store.timeless none
    obtain ⟨final, replayed, same⟩ := replay_request program cfg' rebuilt.same known asked
      fun clock' _ => ⟨reply, Request.run_timeless rebuilt.timeless runs timeless clock'⟩
    have logged := rebuilt.logged.write sized replayed
    rw [← file] at logged
    exact ⟨_, left, final, ⟨logged.written, logged.sized, logged.replayed, store, timeless, same⟩, .inr rfl⟩

/-- No command of a run finds the store so full that a key has to go. -/
def NothingEvicted (env : Env) (cfg : Config) (w : World) (cmds : List Command) : Prop :=
  ∀ cmd here rest, Turn env cfg w cmds cmd here rest → evictionStep env cfg here.store cmd = .ok here.store

theorem NothingEvicted.unlimited (unlimited : cfg.maxMemory ≤ 0) (w : World) (cmds : List Command) : NothingEvicted env cfg w cmds :=
  fun _ _ _ _ => evictionStep_unlimited unlimited _ _

theorem Rebuilt.run {w after : World} {cmds : List Command} {log : List (List Bytes)} (program : SameProgram env env')
    (roomy : NothingEvicted env cfg w cmds) (rebuilt : Rebuilt env env' cfg' policy w log K s)
    (sized : ∀ cmd ∈ cmds, Sized (cmd.name :: cmd.args)) (run : Run env cfg w cmds after) :
    ∃ more K s, Rebuilt env env' cfg' policy after (log ++ more) K s := by
  induction run generalizing log K s with
  | nil => exact ⟨[], K, s, by rw [List.append_nil]; exact rebuilt⟩
  | cons first none others ih =>
    obtain ⟨one, K, s, rebuilt, _⟩ := rebuilt.step program (roomy _ _ _ (.first _ _ _)) (sized _ List.mem_cons_self) first none
    obtain ⟨more, K, s, rebuilt⟩ := ih (fun cmd here rest turn => roomy cmd here rest (.later first turn)) rebuilt
      fun cmd inside => sized cmd (.tail _ inside)
    exact ⟨one ++ more, K, s, by rw [← List.append_assoc]; exact rebuilt⟩

theorem Rebuilt.start (env env' : Env) (cfg' : Config) (policy : Policy) :
    Rebuilt env env' cfg' policy ⟨.new policy, some (newAOF [])⟩ [] (fun _ => none) (.new policy) :=
  ⟨rfl, nofun, rfl, .new env policy, nofun, .new env' policy⟩

/-- The same keys, with the same values. -/
def SameContents (s s' : Store) : Prop := ∀ key, Option.Rel SameValue (s.data.lookup key) (s'.data.lookup key)

theorem Represents.sameContents {s' : Store} (same : Represents env policy s K) (same' : Represents env' policy s' K) :
    SameContents s s' := by
  intro key
  rcases related_cases (same.sameItems same' key) with ⟨absent, absent'⟩ | ⟨e, e', held, held', value, _⟩
  · rw [absent, absent']
    exact .none
  · rw [held, held']
    exact .some value

/-- Whatever commands were executed, replaying the file they left in an empty store gives
a store with the same contents. -/
theorem replay_rebuilds_store {cmds : List Command} {w : World} (program : SameProgram env env') (cfg' : Config)
    (unlimited : cfg.maxMemory ≤ 0) (sized : ∀ cmd ∈ cmds, Sized (cmd.name :: cmd.args))
    (run : Run env cfg ⟨.new policy, some (newAOF [])⟩ cmds w) :
    ∃ aof after, w.aof = some aof ∧ aof.recover (replayAOFCommand env' cfg') (.new policy) = .ok after ∧
      SameContents w.store after := by
  obtain ⟨log, K, s, rebuilt⟩ := (Rebuilt.start env env' cfg' policy).run program (.unlimited unlimited _ _) sized run
  rw [List.nil_append] at rebuilt
  exact ⟨_, s, rebuilt.written, rebuilt.logged.recover, rebuilt.store.sameContents rebuilt.same⟩

theorem NoDeadlines.new (policy : Policy) : NoDeadlines (.new policy) := by
  intro key e held
  cases held

theorem NoDeadlines.set (none : NoDeadlines s) (env : Env) (key value : Bytes) : NoDeadlines (s.set env key value 0) := by
  intro j e held
  obtain ⟨n, stamp, written⟩ := set_data env s key value 0
  rw [written, Store.record, lookup_insert_if] at held
  split at held
  · cases held
    unfold Store.newEntry
    split <;> rfl
  · rw [(dropOld_data s key).1] at held
    exact none j e held

theorem replay_rebuilds_set :
    ∃ w aof after, Run (Env.still 0) .plain ⟨.new .noeviction, some (newAOF [])⟩ [⟨ascii "SET", [ascii "k", ascii "v"]⟩] w ∧
      w.aof = some aof ∧ aof.recover (replayAOFCommand (Env.still 7) .plain) (.new .noeviction) = .ok after ∧
      SameContents w.store after := by
  have set : ∃ reply w, dispatch (Env.still 0) .plain ⟨.new .noeviction, some (newAOF [])⟩ ⟨ascii "SET", [ascii "k", ascii "v"]⟩ =
      .ok (reply, w) ∧ w.store = (Store.new .noeviction).set (Env.still 0) (ascii "k") (ascii "v") 0 := ⟨_, _, rfl, rfl⟩
  obtain ⟨reply, w, ran, store⟩ := set
  have none : NoDeadlines w.store := by
    rw [store]
    exact (NoDeadlines.new .noeviction).set _ _ _
  have run : Run (Env.still 0) .plain ⟨.new .noeviction, some (newAOF [])⟩ [⟨ascii "SET", [ascii "k", ascii "v"]⟩] w :=
    .cons ran none (.nil w)
  have sized : ∀ cmd ∈ [(⟨ascii "SET", [ascii "k", ascii "v"]⟩ : Command)], Sized (cmd.name :: cmd.args) := by
    intro cmd inside
    rw [List.mem_singleton.mp inside]
    exact ⟨by decide, by decide⟩
  have program : SameProgram (Env.still 0) (Env.still 7) := ⟨rfl, rfl, rfl⟩
  obtain ⟨aof, after, written, replayed, same⟩ := replay_rebuilds_store program .plain (Int.le_refl 0) sized run
  exact ⟨w, aof, after, run, written, replayed, same⟩

end Rediska.Proofs
