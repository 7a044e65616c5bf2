import Rediska.Proofs.AofReplay
import Rediska.Proofs.BatchRuns

/-! Deadlines in the replayed file. A command is logged with its duration, which starts
anew when it is replayed: only what was set at the time of the replay keeps its deadline. -/

namespace Rediska.Proofs
open Go Core Storage Commands Server Spec

variable {env env' : Env} {cfg cfg' : Config} {policy : Policy} {s : Store} {K : Keyspace} {T : Int} {w after : World}
  {cmd : Command} {cmds : List Command} {log : List (List Bytes)} {reply : Bytes} {replies : List Bytes}

/-- The command starts a duration: it is SET with one, or EXPIRE with one for a string
that is there. INCR only carries on a deadline that is there. -/
def StartsDuration (env : Env) (s : Store) (cmd : Command) : Prop :=
  ∃ name request, lookupCommand cmd.name = some name ∧ requestOf env name cmd.args = some request ∧
    match request with
    | .set _ _ duration => 0 < duration
    | .expire key duration => 0 < duration ∧ ∃ e, s.data.lookup key = some e ∧ e.encoding ≠ .hll
    | _ => False

theorem Represents.startsDuration {name : CommandName} {request : Request} (same : Represents env policy s K) (timeless : Timeless K)
    (known : lookupCommand cmd.name = some name) (asked : requestOf env name cmd.args = some request)
    (sets : request.setsDeadline K) : StartsDuration env s cmd := by
  refine ⟨name, request, known, asked, ?_⟩
  cases request with
  | set => exact sets
  | expire key duration =>
    obtain ⟨positive, item, found, text⟩ := sets
    obtain ⟨e, held, shows⟩ := same.entry found
    exact ⟨positive, e, held, fun sketch => text (shows.text_none.mpr sketch)⟩
  | incr key =>
    obtain ⟨n, deadline, found⟩ := sets
    cases timeless key _ found
  | get | ttl | append | pfadd | pfcount | pfmerge | del | encoding => exact sets.elim

/-- What a restart at a time should leave: the keys that are there, with the deadlines
that are still to come, and none whose deadline has passed. -/
structure DeadlinesSurvive (T : Int) (live replayed : Store) : Prop where
  kept : ∀ key e d, live.data.lookup key = some e → e.expiresAt = some d → T < d →
    ∃ e', replayed.data.lookup key = some e' ∧ e'.expiresAt = some d
  expired : ∀ key e d, live.data.lookup key = some e → e.expiresAt = some d → d ≤ T → replayed.data.lookup key = none
  gone : ∀ key, live.data.lookup key = none → replayed.data.lookup key = none

theorem Represents.deadlinesSurvive {s' : Store} (same : Represents env policy s K) (same' : Represents env' policy s' K)
    (unexpired : Unexpired T K) : DeadlinesSurvive T s s' := by
  constructor
  · intro key e d held ends _
    obtain ⟨item, found, shows⟩ := same.item held
    obtain ⟨e', held', shows'⟩ := same'.entry found
    exact ⟨e', held', by rw [shows'.expiresAt, ← shows.expiresAt, ends]⟩
  · intro key e d held ends past
    obtain ⟨item, found, shows⟩ := same.item held
    have alive := unexpired_iff.mp unexpired key item found d (shows.expiresAt ▸ ends)
    omega
  · intro key absent
    cases held' : s'.data.lookup key with
    | none => rfl
    | some e' =>
      obtain ⟨item, found, _⟩ := same'.item held'
      obtain ⟨e, held, _⟩ := same.entry found
      rw [absent] at held
      cases held

/-- A deadline that is replayed as a later one has not survived. -/
theorem not_deadlinesSurvive {live replayed : Store} {key : Bytes} {e e' : Entry} {d d' : Int}
    (held : live.data.lookup key = some e) (ends : e.expiresAt = some d) (held' : replayed.data.lookup key = some e')
    (ends' : e'.expiresAt = some d') (later : d < d') : ¬ DeadlinesSurvive T live replayed := by
  intro survive
  by_cases past : d ≤ T
  · rw [survive.expired key e d held ends past] at held'
    cases held'
  · obtain ⟨e'', held'', ends''⟩ := survive.kept key e d held ends (by omega)
    rw [held'] at held''
    cases held''
    rw [ends'] at ends''
    cases ends''
    exact Int.lt_irrefl d later

/-- The file holds commands whose replay, at a time when nothing has expired, leads to
the contents of the store and its deadlines. There are none before that time. -/
structure Restored (env env' : Env) (cfg' : Config) (policy : Policy) (T : Int) (w : World) (log : List (List Bytes)) (K : Keyspace)
    (s : Store) : Prop where
  logged : Logged env' cfg' policy w.aof log s
  store : Represents env policy w.store K
  same : Represents env' policy s K
  unexpired : Unexpired T K
  reached : T ≤ env.clock w.store.tick ∨ Timeless K

/-- Replaying a request at the time it is asked about. -/
theorem replay_request_at {name : CommandName} {request : Request} {left : Keyspace} (program : SameProgram env env') (cfg' : Config)
    (instant : ∀ n, env'.clock n = T) (same : Represents env' policy s K) (known : lookupCommand cmd.name = some name)
    (asked : requestOf env name cmd.args = some request)
    (runs : request.run (rulesOf env policy) (fun _ => T) K = .ok (reply, left)) :
    ∃ after, replayAOFCommand env' cfg' (cmd.name :: cmd.args) s = .ok after ∧ Represents env' policy after left := by
  refine replay_request program cfg' same known asked fun clock read => ⟨reply, ?_⟩
  have still : clock = fun _ => T := by
    funext i
    obtain ⟨j, reading⟩ := read i
    rw [reading, instant]
  rw [still]
  exact runs

theorem Restored.step (program : SameProgram env env') (instant : ∀ n, env'.clock n = T) (unlimited : cfg.maxMemory ≤ 0)
    (restored : Restored env env' cfg' policy T w log K s) (sized : Sized (cmd.name :: cmd.args))
    (ran : dispatch env cfg w cmd = .ok (reply, after)) (later : env.clock after.store.tick ≤ T)
    (timely : StartsDuration env w.store cmd → env.clock w.store.tick = T) :
    ∃ log K s, Restored env env' cfg' policy T after log K s := by
  have onward : T ≤ env.clock w.store.tick → T ≤ env.clock after.store.tick :=
    fun reached => Int.le_trans reached (env.forward _ _ (dispatch_moves ran).tick)
  have unexpired := restored.unexpired.earlier later
  rcases dispatch_requests (evictionStep_unlimited unlimited _ _) restored.store unexpired restored.logged.written ran with
    ⟨store, file⟩ | ⟨name, request, clock, left, known, asked, between, runs, store, file⟩
  · exact ⟨log, K, s, { restored.logged with written := file }, store, restored.same, restored.unexpired,
      restored.reached.imp_left onward⟩
  · -- Either the time has come, or there are no deadlines and the request sets none.
    have at_time : request.run (rulesOf env policy) (fun _ => T) K = .ok (reply, left) ∧ Unexpired T left ∧
        (T ≤ env.clock after.store.tick ∨ Timeless left) := by
      by_cases reached : T ≤ env.clock w.store.tick
      · have still : clock = fun _ => T := by
          funext i
          exact Int.le_antisymm (Int.le_trans (between i).2 later) (Int.le_trans reached (between i).1)
        rw [still] at runs
        exact ⟨runs, Request.run_unexpired restored.unexpired runs, .inl (onward reached)⟩
      · have timeless := restored.reached.resolve_left reached
        have endless (sets : request.setsDeadline K) : False :=
          reached (timely (restored.store.startsDuration timeless known asked sets)).ge
        have timeless' := Request.run_endless timeless endless runs
        exact ⟨Request.run_timeless timeless runs timeless' _, timeless'.unexpired T, .inr timeless'⟩
    obtain ⟨runs', unexpired, reached⟩ := at_time
    obtain ⟨final, replayed, same⟩ := replay_request_at program cfg' instant restored.same known asked runs'
    have logged := restored.logged.write sized replayed
    rw [← file] at logged
    exact ⟨_, left, final, logged, store, same, unexpired, reached⟩

/-- While the commands run one after the other, a duration is started only when the clock
reads the given time. -/
def Timely (env : Env) (cfg : Config) (T : Int) (w : World) (cmds : List Command) : Prop :=
  ∀ cmd here rest, Turn env cfg w cmds cmd here rest → StartsDuration env here.store cmd → env.clock here.store.tick = T

theorem dispatchAll_moves (ran : dispatchAll env cfg w cmds = .ok (replies, after)) : Moved w.store after.store := by
  induction cmds generalizing w replies with
  | nil =>
    cases ran
    exact .start
  | cons cmd rest ih =>
    obtain ⟨reply, next, others, returned, others_ran, _⟩ := dispatchAll_cons ran
    exact (dispatch_moves returned).trans (ih others_ran)

theorem Restored.run (program : SameProgram env env') (instant : ∀ n, env'.clock n = T) (unlimited : cfg.maxMemory ≤ 0)
    (restored : Restored env env' cfg' policy T w log K s) (sized : ∀ cmd ∈ cmds, Sized (cmd.name :: cmd.args))
    (ran : dispatchAll env cfg w cmds = .ok (replies, after)) (timely : Timely env cfg T w cmds)
    (later : env.clock after.store.tick ≤ T) :
    ∃ log K s, Restored env env' cfg' policy T after log K s := by
  induction cmds generalizing w replies log K s with
  | nil =>
    cases ran
    exact ⟨log, K, s, restored⟩
  | cons cmd rest ih =>
    obtain ⟨reply, next, others, returned, others_ran, _⟩ := dispatchAll_cons ran
    have so_far := Int.le_trans (env.forward _ _ (dispatchAll_moves others_ran).tick) later
    obtain ⟨log, K, s, restored⟩ := restored.step program instant unlimited (sized _ List.mem_cons_self) returned so_far
      (timely cmd w rest (.first w cmd rest))
    exact ih restored (fun cmd inside => sized cmd (.tail _ inside)) others_ran
      (fun cmd here rest turn => timely cmd here rest (.later returned turn))

theorem Restored.start (env env' : Env) (cfg' : Config) (policy : Policy) (T : Int) :
    Restored env env' cfg' policy T ⟨.new policy, some (newAOF [])⟩ [] (fun _ => none) (.new policy) :=
  ⟨⟨rfl, nofun, rfl⟩, .new env policy, .new env' policy, nofun, .inr nofun⟩

/-- Deadlines survive a restart at a later time if every duration started at that time. -/
theorem deadlines_survive_timely (program : SameProgram env env') (cfg' : Config) (instant : ∀ n, env'.clock n = T)
    (unlimited : cfg.maxMemory ≤ 0) (sized : ∀ cmd ∈ cmds, Sized (cmd.name :: cmd.args))
    (ran : dispatchAll env cfg ⟨.new policy, some (newAOF [])⟩ cmds = .ok (replies, w)) (later : env.clock w.store.tick ≤ T)
    (timely : Timely env cfg T ⟨.new policy, some (newAOF [])⟩ cmds) :
    ∃ aof after, w.aof = some aof ∧ aof.recover (replayAOFCommand env' cfg') (.new policy) = .ok after ∧
      DeadlinesSurvive T w.store after := by
  obtain ⟨log, K, s, restored⟩ := (Restored.start env env' cfg' policy T).run program instant unlimited sized ran timely later
  exact ⟨_, s, restored.logged.written, restored.logged.recover, restored.store.deadlinesSurvive restored.same restored.unexpired⟩

def setTenSeconds : Command := ⟨ascii "SET", [ascii "k", ascii "v", ascii "EX", ascii "10"]⟩

theorem setTenSeconds_sized : ∀ cmd ∈ [setTenSeconds], Sized (cmd.name :: cmd.args) :=
  List.forall_mem_singleton.mpr ⟨by decide, by decide⟩

theorem deadline_survives_at_once :
    ∃ replies w aof after, dispatchAll (.still 7) .plain ⟨.new .noeviction, some (newAOF [])⟩ [setTenSeconds] = .ok (replies, w) ∧
      w.aof = some aof ∧ aof.recover (replayAOFCommand (.still 7) .plain) (.new .noeviction) = .ok after ∧
      DeadlinesSurvive 7 w.store after := by
  have ran : ∃ replies w, dispatchAll (.still 7) .plain ⟨.new .noeviction, some (newAOF [])⟩ [setTenSeconds] = .ok (replies, w) :=
    ⟨_, _, rfl⟩
  obtain ⟨replies, w, ran⟩ := ran
  have program : SameProgram (.still 7) (.still 7) := ⟨rfl, rfl, rfl⟩
  obtain ⟨aof, after, written, replayed, survive⟩ := deadlines_survive_timely program .plain (fun _ => rfl) (Int.le_refl 0)
    setTenSeconds_sized ran (Int.le_refl 7) fun _ _ _ _ _ => rfl
  exact ⟨replies, w, aof, after, ran, written, replayed, survive⟩

/-- The file of a SET with ten seconds at time 0, replayed after one second. -/
theorem ten_seconds_replayed :
    (dispatchAll (.still 0) .plain ⟨.new .noeviction, some (newAOF [])⟩ [setTenSeconds]).map (fun result =>
      ((result.2.store.data.lookup (ascii "k")).map fun e => e.expiresAt,
        (result.2.aof.map fun aof => (aof.recover (replayAOFCommand (.still 1000000000) .plain) (.new .noeviction)).map fun after =>
          (after.data.lookup (ascii "k")).map fun e => e.expiresAt))) =
      .ok (some (some 10000000000), some (.ok (some (some 11000000000)))) := by
  decide +kernel

/-- The deadline is ten seconds after the SET, and ten seconds after the restart once
the file is replayed. -/
theorem deadline_moved_by_replay :
    ¬ ∀ (env env' : Env) (cfg cfg' : Config) (policy : Policy) (cmds : List Command) (replies : List Bytes) (w : World) (T : Int),
      SameProgram env env' → (∀ n, env'.clock n = T) → cfg.maxMemory ≤ 0 → (∀ cmd ∈ cmds, Sized (cmd.name :: cmd.args)) →
      dispatchAll env cfg ⟨.new policy, some (newAOF [])⟩ cmds = .ok (replies, w) → env.clock w.store.tick ≤ T →
      ∃ aof after, w.aof = some aof ∧ aof.recover (replayAOFCommand env' cfg') (.new policy) = .ok after ∧
        DeadlinesSurvive T w.store after := by
  intro claim
  obtain ⟨⟨replies, w⟩, ran, final⟩ := map_ok ten_seconds_replayed
  have later : (0 : Int) ≤ 1000000000 := by decide
  obtain ⟨aof, after, written, replayed, survive⟩ := claim (.still 0) (.still 1000000000) .plain .plain .noeviction [setTenSeconds]
    replies w 1000000000 ⟨rfl, rfl, rfl⟩ (fun _ => rfl) (Int.le_refl 0) setTenSeconds_sized ran later
  dsimp only at final
  rw [written, Option.map_some, replayed] at final
  obtain ⟨live, restarted⟩ := Prod.mk.inj final
  obtain ⟨e, held, ends⟩ := Option.map_eq_some_iff.mp live
  obtain ⟨e', held', ends'⟩ := Option.map_eq_some_iff.mp (Except.ok.inj (Option.some.inj restarted))
  exact not_deadlinesSurvive held ends held' ends' (by decide) survive

/-- The first duration that starts earlier is lost: a command that leaves a deadline
before the time of the restart leaves a state that does not survive it. -/
theorem early_deadline_lost {e : Entry} {d : Int} {key : Bytes} (program : SameProgram env env') (cfg' : Config)
    (instant : ∀ n, env'.clock n = T) (unlimited : cfg.maxMemory ≤ 0) (sized : ∀ cmd ∈ cmds, Sized (cmd.name :: cmd.args))
    (ran : dispatchAll env cfg ⟨.new policy, some (newAOF [])⟩ cmds = .ok (replies, w))
    (timely : Timely env cfg T ⟨.new policy, some (newAOF [])⟩ cmds) (last : Sized (cmd.name :: cmd.args))
    (returned : dispatch env cfg w cmd = .ok (reply, after)) (early : env.clock after.store.tick < T)
    (held : after.store.data.lookup key = some e) (ends : e.expiresAt = some d) :
    ∃ aof final, after.aof = some aof ∧ aof.recover (replayAOFCommand env' cfg') (.new policy) = .ok final ∧
      ¬ DeadlinesSurvive T after.store final := by
  have before : env.clock w.store.tick < T := Int.lt_of_le_of_lt (env.forward _ _ (dispatch_moves returned).tick) early
  obtain ⟨log, K, s, restored⟩ :=
    (Restored.start env env' cfg' policy T).run program instant unlimited sized ran timely (Int.le_of_lt before)
  have timeless := restored.reached.resolve_left (by omega)
  rcases dispatch_requests (evictionStep_unlimited unlimited _ _) restored.store (timeless.unexpired _) restored.logged.written returned with
    ⟨store, _⟩ | ⟨name, request, clock, left, known, asked, between, runs, store, file⟩
  · obtain ⟨item, found, shows⟩ := store.item held
    rw [shows.expiresAt, timeless key item found] at ends
    cases ends
  · obtain ⟨item, found, shows⟩ := store.item held
    rw [shows.expiresAt] at ends
    obtain ⟨_, left', item', d', runs', found', ends', later⟩ :=
      Request.run_late timeless (fun i => Int.lt_of_le_of_lt (between i).2 early) runs found ends
    obtain ⟨final, replayed, same⟩ := replay_request_at program cfg' instant restored.same known asked runs'
    have logged := restored.logged.write last replayed
    rw [← file] at logged
    obtain ⟨e', held', shows'⟩ := same.entry found'
    exact ⟨_, final, logged.written, logged.recover,
      not_deadlinesSurvive held (shows.expiresAt.trans ends) held' (shows'.expiresAt.trans ends') later⟩

end Rediska.Proofs
