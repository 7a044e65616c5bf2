import Rediska.Proofs.AofReplay
import Rediska.Proofs.KeyspaceRuns

/-! Restarts are not seen. The processes that a server with an append-only file goes through
serve one keyspace, whenever each of them has come to its end. -/

namespace Rediska.Proofs
open Go Core Cluster Storage Commands Server Spec

variable {base env : Env} {cfg : Config} {policy : Policy} {K : Keyspace}

/-- One keyspace serves the commands of several processes, each with the stores it can come
to. -/
def LivesServed (policy : Policy) (lives : List Life) (K : Keyspace) : Prop :=
  ServesLives (fun life => rulesOf life.env policy) (fun life => StoresFrom life.env life.cfg policy life.world) (fun _ => none) lives K

theorem SameProgram.symm (program : SameProgram base env) : SameProgram env base :=
  ⟨program.unicode.symm, program.estimate.symm, program.decay.symm⟩

theorem SameProgram.trans {env' : Env} (first : SameProgram base env) (second : SameProgram env env') : SameProgram base env' :=
  ⟨second.unicode.trans first.unicode, second.estimate.trans first.estimate, second.decay.trans first.decay⟩

/-- The file stands for the keyspace: whenever it is replayed, that is what comes of it. -/
structure Durable (base : Env) (policy : Policy) (file : Bytes) (K : Keyspace) : Prop where
  timeless : Timeless K
  replays : ∃ log : List (List Bytes), file = log.flatMap encodeArray ∧ (∀ args ∈ log, Sized args) ∧
    ∀ env cfg, SameProgram base env → ∃ s, forEach log (replayAOFCommand env cfg) (.new policy) = .ok s ∧ Represents env policy s K

theorem Durable.empty (base : Env) (policy : Policy) : Durable base policy [] (fun _ => none) :=
  ⟨nofun, [], rfl, nofun, fun env _ _ => ⟨_, rfl, .new env policy⟩⟩

theorem Durable.recover {file : Bytes} (durable : Durable base policy file K) (program : SameProgram base env) (cfg : Config) :
    ∃ s, (newAOF file).recover (replayAOFCommand env cfg) (.new policy) = .ok s ∧ Represents env policy s K := by
  obtain ⟨log, rfl, sized, replays⟩ := durable.replays
  obtain ⟨s, replayed, same⟩ := replays env cfg program
  refine ⟨s, ?_, same⟩
  rw [newAOF, ← List.append_nil (log.flatMap encodeArray), recover_commands _ sized, replayed, ok_bind, recover_nil]

/-- A command that is done is in the file before its reply goes out. -/
theorem Durable.step {w after : World} {aof : AOF} {cmd : Command} {reply : Bytes} (durable : Durable base policy aof.file K)
    (program : SameProgram base env) (unlimited : cfg.maxMemory ≤ 0) (same : Represents env policy w.store K) (opened : w.aof = some aof)
    (sized : Sized (cmd.name :: cmd.args)) (lasting : Lasting env cmd) (ran : dispatch env cfg w cmd = .ok (reply, after)) :
    ∃ left aof, Durable base policy aof.file left ∧ Represents env policy after.store left ∧ after.aof = some aof := by
  obtain ⟨log, file, sizes, replays⟩ := durable.replays
  rcases dispatch_requests (evictionStep_unlimited unlimited _ _) same (durable.timeless.unexpired _) opened ran with
    ⟨store, kept⟩ | ⟨name, request, clock, left, known, asked, _, runs, store, written⟩
  · exact ⟨K, aof, durable, store, kept⟩
  · have timeless := Request.run_endless durable.timeless (Request.lasting_endless durable.timeless (lasting name request known asked)) runs
    refine ⟨left, _, ⟨timeless, log ++ [cmd.name :: cmd.args], ?_, ?_, ?_⟩, store, written⟩
    · rw [AOF.write, file, List.flatMap_append, List.flatMap_singleton]
    · intro args inside
      rcases List.mem_append.mp inside with earlier | last
      · exact sizes args earlier
      · rw [List.mem_singleton.mp last]
        exact sized
    · intro env' cfg' program'
      obtain ⟨s, replayed, same'⟩ := replays env' cfg' program'
      obtain ⟨final, one, kept⟩ := replay_request (program.symm.trans program') cfg' same' known asked
        fun clock' _ => ⟨reply, Request.run_timeless durable.timeless runs timeless clock'⟩
      refine ⟨final, ?_, kept⟩
      rw [forEach_append, replayed, ok_bind, forEach, one]
      rfl

theorem Durable.run {w after : World} {aof : AOF} {cmds : List Command} {replies : List Bytes} (durable : Durable base policy aof.file K)
    (program : SameProgram base env) (unlimited : cfg.maxMemory ≤ 0) (same : Represents env policy w.store K) (opened : w.aof = some aof)
    (fits : ∀ cmd ∈ cmds, Sized (cmd.name :: cmd.args) ∧ Lasting env cmd)
    (ran : runAll (dispatch env cfg) w cmds = .ok (replies, after)) :
    ∃ left aof, Durable base policy aof.file left ∧ Represents env policy after.store left ∧ after.aof = some aof := by
  induction cmds generalizing w K aof replies with
  | nil =>
    cases ran
    exact ⟨K, aof, durable, same, opened⟩
  | cons cmd rest ih =>
    obtain ⟨⟨reply, next⟩, first, ran⟩ := bind_ok ran
    obtain ⟨⟨others, last⟩, later, ran⟩ := bind_ok ran
    cases ran
    obtain ⟨sized, lasting⟩ := fits cmd List.mem_cons_self
    obtain ⟨middle, aof, durable, same, opened⟩ := durable.step program unlimited same opened sized lasting first
    exact ih durable same opened (fun cmd listed => fits cmd (List.mem_cons_of_mem _ listed)) later

theorem served_eq {life : Life} {replies : List Bytes} {after : World}
    (ran : runAll (dispatch life.env life.cfg) life.world (life.last.ran.map (·.2)) = .ok (replies, after)) :
    life.served = (life.last.ran.map (·.2)).zip replies := by
  rw [Life.served, ran]

theorem serial_prefix {initial final : World} {early late : List (SentRequest × Bytes)} (serial : Serial env cfg initial (early ++ late) final) :
    ∃ middle, Serial env cfg initial early middle := by
  unfold Serial at serial ⊢
  rw [List.map_append, List.map_append] at serial
  obtain ⟨first, _, middle, ran, _, same⟩ := runAll_append.mp serial
  have long : (early.map (·.2)).length = first.length := by
    rw [runAll_length ran, List.length_map, List.length_map]
  rw [(List.append_inj same long).1]
  exact ⟨middle, ran⟩

/-- What was answered is among what was served, all its commands together. -/
theorem answered_served {life : Life} (run : Relation.ReflTransGen (Step life.env life.cfg) (.start life.world) life.last) {i : Nat}
    {req : SentRequest} {reply : Bytes} (received : (i, req, reply) ∈ life.last.received) :
    ∃ replies, (commandsOf life.cfg req.body).zip replies <:+: life.served ∧ reply = replyOf life.cfg req.body replies := by
  have served := (Sound.reached run).served
  obtain ⟨early, late, executed⟩ := List.append_of_mem (served.own i req reply received).2
  obtain ⟨world, serial⟩ := served.serial
  obtain ⟨begun, _, blocks⟩ := served.contiguous
  obtain ⟨all, ran⟩ := ran_returned run
  rw [executed] at serial blocks
  obtain ⟨before, first⟩ := serial_prefix serial
  rw [List.append_cons] at serial
  obtain ⟨now, upTo⟩ := serial_prefix serial
  obtain ⟨replies, each, text⟩ := dispatchWorker_inv (executes_next first upTo)
  obtain ⟨others, earlier⟩ := serial_commands first
  have commands : life.last.ran.map (·.2) = (early.flatMap fun d => runs life.cfg d.1).map (·.2) ++
      (commandsOf life.cfg req.body ++ ((late.flatMap fun d => runs life.cfg d.1) ++ begun).map (·.2)) := by
    rw [blocks]
    simp [runs, Function.comp_def]
  have whole := ran
  rw [commands] at whole
  obtain ⟨front, back, middle, begins, goes, rfl⟩ := runAll_append.mp whole
  rw [earlier] at begins
  cases begins
  obtain ⟨mine, rest, _, here, there, rfl⟩ := runAll_append.mp goes
  rw [each] at here
  cases here
  refine ⟨replies, ?_, text⟩
  rw [served_eq ran, commands, List.zip_append (runAll_length earlier).symm, List.zip_append (runAll_length each).symm]
  exact ⟨_, _, List.append_assoc _ _ _⟩

theorem configure_settings {nodeID : Bytes → Bytes} {flags : Flags} {disk : Disk} (configured : configure nodeID flags disk = .ok cfg) :
    cfg.maxMemory = flags.maxMemory ∧ cfg.maxMemoryPolicy = policyOf flags.maxMemoryPolicy := by
  unfold configure at configured
  cases loaded : clusterLayout nodeID flags disk with
  | error e =>
    rw [loaded] at configured
    cases configured
  | ok current =>
    rw [loaded] at configured
    cases configured
    exact ⟨rfl, rfl⟩

/-- The server starts with what comes of replaying the file. -/
theorem startup_recovers (nodeID : Bytes → Bytes) (env : Env) {flags : Flags} {disk : Disk} (append : flags.appendOnly = true)
    (named : flags.appendOnlyFile ≠ []) (configured : configure nodeID flags disk = .ok cfg) :
    startup nodeID env flags disk =
      (((newAOF ((disk flags.appendOnlyFile).getD [])).recover (replayAOFCommand (env.tuned (tuning flags)) cfg)
        (.new cfg.maxMemoryPolicy)).mapError .panicked).map
          fun store => (cfg, ⟨store, some (newAOF ((disk flags.appendOnlyFile).getD []))⟩) := by
  rw [startup, configured]
  change restore env flags disk cfg >>= _ = _
  rw [restore, if_pos append, recoverAOF, openAOF, if_neg named]
  change (Except.mapError _ (AOF.recover _ _ (Store.new cfg.maxMemoryPolicy)) >>= _) >>= _ = _
  generalize AOF.recover _ _ (Store.new cfg.maxMemoryPolicy) = recovered
  cases recovered <;> rfl

theorem startup_needs {nodeID : Bytes → Bytes} {flags : Flags} {disk : Disk} {world : World} (append : flags.appendOnly = true)
    (starts : startup nodeID env flags disk = .ok (cfg, world)) :
    flags.appendOnlyFile ≠ [] ∧ ∃ settings, configure nodeID flags disk = .ok settings := by
  cases configured : configure nodeID flags disk with
  | error e =>
    rw [startup, configured] at starts
    cases starts
  | ok settings =>
    refine ⟨?_, settings, rfl⟩
    intro nameless
    rw [startup, configured] at starts
    change restore env flags disk settings >>= _ = _ at starts
    rw [restore, if_pos append, recoverAOF, openAOF, if_pos nameless] at starts
    cases starts

section
variable {nodeID : Bytes → Bytes} {flags : Flags} {disk found : Disk} {lives : List Life}

/-- A restart leads to the keyspace that the file stands for. -/
theorem Durable.restart (durable : Durable base (policyOf flags.maxMemoryPolicy) ((disk flags.appendOnlyFile).getD []) K)
    (append : flags.appendOnly = true) (named : flags.appendOnlyFile ≠ []) (program : SameProgram base (env.tuned (tuning flags)))
    (configured : configure nodeID flags disk = .ok cfg) :
    ∃ store, startup nodeID env flags disk = .ok (cfg, ⟨store, some (newAOF ((disk flags.appendOnlyFile).getD []))⟩) ∧
      Represents (env.tuned (tuning flags)) (policyOf flags.maxMemoryPolicy) store K := by
  obtain ⟨store, recovered, same⟩ := durable.recover program cfg
  rw [← (configure_settings configured).2] at recovered
  refine ⟨store, ?_, same⟩
  rw [startup_recovers nodeID env append named configured, recovered]
  rfl

theorem lives_durable (lived : Lives nodeID flags disk lives found) (append : flags.appendOnly = true) (unlimited : flags.maxMemory ≤ 0)
    (fresh : (disk flags.appendOnlyFile).getD [] = []) (program : ∀ life ∈ lives, SameProgram base life.env)
    (fits : ∀ life ∈ lives, ∀ done ∈ life.last.ran, Sized (done.2.name :: done.2.args) ∧ Lasting life.env done.2) :
    ∃ K, LivesServed (policyOf flags.maxMemoryPolicy) lives K ∧
      Durable base (policyOf flags.maxMemoryPolicy) ((found flags.appendOnlyFile).getD []) K := by
  induction lived with
  | none =>
    rw [fresh]
    exact ⟨_, .none, .empty base _⟩
  | @next lives found env cfg world last before starts run ih =>
    obtain ⟨K, serves, durable⟩ := ih (fun life listed => program life (List.mem_append_left _ listed))
      fun life listed => fits life (List.mem_append_left _ listed)
    have mine := program _ (List.mem_append_right lives List.mem_cons_self)
    have commands := fits _ (List.mem_append_right lives List.mem_cons_self)
    obtain ⟨named, settings, configured⟩ := startup_needs append starts
    obtain ⟨store, restarts, same⟩ := durable.restart append named mine configured
    rw [starts] at restarts
    cases restarts
    obtain ⟨replies, ran⟩ := ran_returned run
    have unlimited' : cfg.maxMemory ≤ 0 := (configure_settings configured).1 ▸ unlimited
    obtain ⟨left, aof, later, kept, opened⟩ := durable.run (w := ⟨store, _⟩) mine unlimited' same rfl (by
      intro cmd listed
      obtain ⟨done, inside, rfl⟩ := List.mem_map.mp listed
      exact commands done inside) ran
    obtain ⟨left', serving, kept'⟩ := runAll_serving (.refl _ cfg ⟨store, _⟩) same ran
    obtain rfl := kept.unique kept'
    rw [← @served_eq ⟨_, _, _, last⟩ replies last.world ran] at serving
    refine ⟨left, .next serves serving, ?_⟩
    rw [leaves, opened]
    dsimp only
    rw [Function.update_self]
    exact later

/-- What the clients of all the processes see is one keyspace: each process goes on with
what the one before it has left, even if that was killed in the middle of its work. What
was answered is part of it, and the next process will start with it. -/
theorem restarts_invisible (lived : Lives nodeID flags disk lives found) (append : flags.appendOnly = true)
    (unlimited : flags.maxMemory ≤ 0) (fresh : (disk flags.appendOnlyFile).getD [] = [])
    (program : ∀ life ∈ lives, SameProgram base life.env)
    (fits : ∀ life ∈ lives, ∀ done ∈ life.last.ran, Sized (done.2.name :: done.2.args) ∧ Lasting life.env done.2) :
    (∃ K, LivesServed (policyOf flags.maxMemoryPolicy) lives K ∧
      ∀ env cfg, SameProgram base (env.tuned (tuning flags)) → flags.appendOnlyFile ≠ [] → configure nodeID flags found = .ok cfg →
        ∃ world, startup nodeID env flags found = .ok (cfg, world) ∧
          Represents (env.tuned (tuning flags)) (policyOf flags.maxMemoryPolicy) world.store K) ∧
    ∀ life ∈ lives, ∀ i req reply, (i, req, reply) ∈ life.last.received →
      ∃ replies, (commandsOf life.cfg req.body).zip replies <:+: life.served ∧ reply = replyOf life.cfg req.body replies := by
  constructor
  · obtain ⟨K, serves, durable⟩ := lives_durable lived append unlimited fresh program fits
    refine ⟨K, serves, ?_⟩
    intro env cfg program named configured
    obtain ⟨store, starts, same⟩ := durable.restart append named program configured
    exact ⟨_, starts, same⟩
  · intro life listed i req reply received
    clear program fits
    induction lived with
    | none => cases listed
    | next _ _ run ih =>
      rcases List.mem_append.mp listed with earlier | last
      · exact ih earlier
      · cases List.mem_singleton.mp last
        exact answered_served run received

end

/-- A server with a file, and nothing else out of the ordinary. -/
def appending : Flags := { Flags.default with appendOnly := true, appendOnlyFile := ascii "f" }

/-- A server is killed when it has run SET k v, and has not answered it yet. Started again
it goes on from there. -/
theorem killed_server_restarts :
    ∃ life found K, Lives id appending (fun _ => none) [life] found ∧ life.last.ran.map (·.2) = [⟨ascii "SET", [ascii "k", ascii "v"]⟩] ∧
      life.last.executed = [] ∧ LivesServed .noeviction [life] K ∧
      ∃ world, startup id (.still 7) appending found = .ok (.plain, world) ∧ Represents (.still 7) .noeviction world.store K := by
  have starts : startup id (.still 0) appending (fun _ => none) = .ok (.plain, ⟨.new .noeviction, some (newAOF [])⟩) := rfl
  have run : ∃ last, Relation.ReflTransGen (Step ((Env.still 0).tuned (tuning appending)) .plain)
      (.start ⟨.new .noeviction, some (newAOF [])⟩) last ∧ last.ran.map (·.2) = [⟨ascii "SET", [ascii "k", ascii "v"]⟩] ∧ last.executed = [] :=
    ⟨_, .head (.main (.accept rfl)) <|
      .head (.producer (.getNew (i := 1) ⟨⟨ascii "SET", [ascii "k", ascii "v"]⟩, [], []⟩ (by decide) rfl)) <|
      .head (.producer (.send (i := 1) rfl rfl (by decide))) <| .head (.worker (.take rfl rfl)) <|
      .head (.worker (.run rfl rfl)) .refl, rfl, rfl⟩
  obtain ⟨last, run, ran, unanswered⟩ := run
  have lived := Lives.none.next starts run
  have program : ∀ life ∈ [(⟨(Env.still 0).tuned (tuning appending), .plain, ⟨.new .noeviction, some (newAOF [])⟩, last⟩ : Life)],
      SameProgram (.still 0) life.env := by
    intro life listed
    rw [List.mem_singleton.mp listed]
    exact ⟨rfl, rfl, rfl⟩
  obtain ⟨⟨K, serves, restarts⟩, _⟩ := restarts_invisible lived rfl (Int.le_refl 0) rfl program (by
    intro life listed done inside
    rw [List.mem_singleton.mp listed] at inside ⊢
    have only : done.2 ∈ last.ran.map (·.2) := List.mem_map_of_mem inside
    rw [ran] at only
    rw [List.mem_singleton.mp only]
    refine ⟨⟨by decide, by decide⟩, ?_⟩
    intro name request known asked
    cases known
    cases asked
    exact Int.le_refl 0)
  obtain ⟨world, again, same⟩ := restarts (.still 7) .plain ⟨rfl, rfl, rfl⟩ (by decide) rfl
  exact ⟨_, _, K, lived, ran, unanswered, serves, world, again, same⟩

end Rediska.Proofs
