import Rediska.Proofs.KeyspaceRuns
import Rediska.Proofs.Restarts
import Rediska.Proofs.Shutdown

/-! What can bring the whole server down. A goroutine that panics takes the others with it,
so this is about every connection, the worker and the channels between them. -/

namespace Rediska.Proofs
open Go Core Cluster Storage Commands Server Logic Spec

/-! Connections: one fails only at a length it was sent. -/

/-- After whole values, the bytes reach a length that no slice can have. -/
def Attacks (input : Bytes) : Prop := ∃ values bytes rest, Frames values bytes ∧ input = bytes ++ rest ∧ Hostile rest

/-- What was read of the input are whole values. -/
def ReadWhole (input : Bytes) (c : Connection) : Prop := ∃ values bytes, Frames values bytes ∧ input = bytes ++ c.reader.bytes

section
variable {unicode : CaseTable} {cfg : Config} {c after : Connection} {input : Bytes}

theorem ReadWhole.read {frame : Value} {reader : Reader} {scratch : Scratch} (whole : ReadWhole input c)
    (read : decode c.reader c.scratch = (.value frame, reader, scratch)) (moved : after.reader = reader) : ReadWhole input after := by
  obtain ⟨values, bytes, frames, same⟩ := whole
  obtain ⟨last, taken, frame⟩ := read_frame read
  refine ⟨_, _, frames.snoc frame, ?_⟩
  rw [same, taken, moved, List.append_assoc]

theorem ReadWhole.finish (whole : ReadWhole input c) : ReadWhole input c.finish := by
  unfold Connection.finish
  split <;> exact whole

/-- The loop goes on only while all it has read are whole values. -/
abbrev Sane (input : Bytes) : Goroutine → Prop := Dialogue.Ends (fun c => c.phase = .closed ∨ ReadWhole input c) fun _ => Attacks input

theorem finish_sane (whole : ReadWhole input c) : c.finish.phase = .closed ∨ ReadWhole input c.finish := .inr whole.finish

theorem step_sane (whole : ReadWhole input c) : Sane input (c.step unicode cfg) := by
  have how := stepped unicode cfg c
  generalize c.step unicode cfg = program at how
  cases how with
  | stays => exact .done (.inr whole)
  | failed _ read =>
    obtain ⟨values, bytes, frames, same⟩ := whole
    exact .failed ⟨values, bytes, _, frames, same, read_hostile read⟩
  | ended => exact .done (.inl rfl)
  | refused _ read | begun _ read | extended _ _ read => exact .done (.inr (whole.read read rfl))
  | acted _ read => exact action_ends (finish_sane (whole.read read rfl)) (fun _ => finish_sane (whole.read read rfl)) _
  | sent => exact .ask fun _ => .done (finish_sane whole)
  | broken => exact .ask fun _ => .done (.inl rfl)
  | interrupted _ _ read => exact .ask fun _ => .done (finish_sane (whole.read read rfl))
  | switched _ _ read =>
    exact .ask fun _ => action_ends (finish_sane (whole.read read rfl)) (fun _ => finish_sane (whole.read read rfl)) _

theorem talk_sane {chunks : List Bytes} {rounds : Nat} {heard : List (CommandRequest × Bytes)} {program : Goroutine}
    (talk : Talk (Connection.step unicode cfg) Connection.ended (.accept chunks) rounds heard program) : Sane chunks.flatten program := by
  refine talk.ends (.inr ⟨[], [], .nil, rfl⟩) ?_
  intro c read goes
  rcases read with closed | whole
  · simp [Connection.ended, closed] at goes
  · exact step_sane whole

theorem Conversing.sane {chunks : List Bytes} {heard : List (CommandRequest × Bytes)} {p : Producer} {program : Goroutine}
    (talking : Conversing unicode cfg chunks heard p program) : Sane chunks.flatten program := by
  cases talking with
  | between _ talk | asking _ talk | told talk => exact talk_sane talk

end

section
variable {env : Env} {cfg : Config} {initial : World} {s : Process}

theorem spawned_positive {s : System} (run : Relation.ReflTransGen (Step env cfg) (.start initial) s) : expiry < s.spawned := by
  induction run with
  | refl => exact Nat.one_pos
  | tail _ step ih => exact Nat.lt_of_lt_of_le ih (spawned_grows step)

/-- The expiry goroutine is no connection. -/
theorem expiry_no_client (run : Relation.ReflTransGen (ProcessStep env cfg) (.start initial) s) : s.client expiry = .done (.accept []) := by
  induction run with
  | refl => rfl
  | @tail s after run step ih =>
    cases step with
    | apart | ask | send | receive | leave => exact ih
    | accept =>
      dsimp only
      rw [Function.update_of_ne (Nat.ne_of_lt (spawned_positive (reached_system run)))]
      exact ih
    | advance connection | resume connection =>
      dsimp only
      rw [Function.update_of_ne (Ne.symm connection)]
      exact ih

theorem failed_attacked (run : Relation.ReflTransGen (ProcessStep env cfg) (.start initial) s) {i : Nat} {p : Panic}
    (failed : s.client i = .failed p) : Attacks (s.input i).flatten := by
  by_cases connection : i = expiry
  · rw [connection, expiry_no_client run] at failed
    cases failed
  · have sane := ((Conversed.reached run).talking i connection).sane
    rw [failed] at sane
    cases sane with
    | failed attacks => exact attacks

end

/-! The worker. -/

section
variable {nodeID : Bytes → Bytes} {env : Env} {flags : Flags} {disk : Disk} {cfg : Config} {world : World} {policy : Policy}

/-- What the replayed commands keep, reading a file keeps, whatever the file holds. -/
theorem recover_keeps {σ : Type} {fn : List Bytes → σ → Panics σ} {holds : σ → Prop}
    (keeps : ∀ args state after, holds state → fn args state = .ok after → holds after) {file : Bytes} {state after : σ}
    (before : holds state) (recovered : (newAOF file).recover fn state = .ok after) : holds after := by
  unfold AOF.recover at recovered
  generalize (newAOF file).file.length + 1 = fuel at recovered
  generalize (newAOF file).file = reader at recovered
  induction fuel generalizing reader state with
  | zero => cases recovered
  | succ fuel ih =>
    unfold recoverFuel at recovered
    split at recovered
    · obtain ⟨next, called, rest⟩ := bind_ok recovered
      exact ih (keeps _ _ _ before called) _ rest
    · exact ih before _ recovered
    · cases recovered
      exact before
    · cases recovered

theorem replay_represents {s after : Store} {K : Keyspace} {args : List Bytes} (same : Represents env policy s K)
    (replayed : replayAOFCommand env cfg args s = .ok after) : ∃ left, Represents env policy after left := by
  unfold replayAOFCommand at replayed
  split at replayed
  · cases replayed
    exact ⟨K, same⟩
  · unfold replay at replayed
    split at replayed
    · cases replayed
      exact ⟨K, same⟩
    · obtain ⟨⟨reply, _⟩, handled, rfl⟩ := map_ok replayed
      exact handler_keeps same handled

theorem startup_parts (starts : startup nodeID env flags disk = .ok (cfg, world)) :
    configure nodeID flags disk = .ok cfg ∧ restore env flags disk cfg = .ok world := by
  unfold startup at starts
  cases configured : configure nodeID flags disk with
  | error e =>
    rw [configured] at starts
    cases starts
  | ok settings =>
    rw [configured] at starts
    change restore env flags disk settings >>= _ = _ at starts
    cases restored : restore env flags disk settings with
    | error e =>
      rw [restored] at starts
      cases starts
    | ok found =>
      rw [restored] at starts
      cases starts
      exact ⟨rfl, restored⟩

/-- The server starts from a store of a kind that commands lead to. -/
theorem restore_represents (restored : restore env flags disk cfg = .ok world) :
    ∃ K, Represents (env.tuned (tuning flags)) cfg.maxMemoryPolicy world.store K := by
  unfold restore recoverAOF openAOF at restored
  split at restored
  · split at restored
    · cases restored
    · change Except.mapError _ (AOF.recover _ _ (Store.new cfg.maxMemoryPolicy)) >>= _ = _ at restored
      cases recovered : (newAOF ((disk flags.appendOnlyFile).getD [])).recover (replayAOFCommand (env.tuned (tuning flags)) cfg)
          (.new cfg.maxMemoryPolicy) with
      | error p =>
        rw [recovered] at restored
        cases restored
      | ok store =>
        rw [recovered] at restored
        cases restored
        have keeps : ∀ args s after, (∃ K, Represents (env.tuned (tuning flags)) cfg.maxMemoryPolicy s K) →
            replayAOFCommand (env.tuned (tuning flags)) cfg args s = .ok after →
            ∃ K, Represents (env.tuned (tuning flags)) cfg.maxMemoryPolicy after K := by
          intro args s after represents replayed
          obtain ⟨K, same⟩ := represents
          exact replay_represents same replayed
        exact recover_keeps keeps ⟨_, .new _ _⟩ recovered
  · cases restored
    exact ⟨_, .new _ _⟩

theorem configure_loaded (configured : configure nodeID flags disk = .ok cfg) (enabled : cfg.clusterEnabled = true) :
    cfg.current.isSome = true := by
  unfold configure at configured
  cases loaded : clusterLayout nodeID flags disk with
  | error e =>
    rw [loaded] at configured
    cases configured
  | ok current =>
    rw [loaded] at configured
    cases configured
    unfold clusterLayout at loaded
    rw [if_neg (not_not_intro enabled)] at loaded
    split at loaded
    · cases loaded
    · cases read : loadLayout nodeID disk flags.clusterConfigFile flags.port with
      | error e =>
        rw [read] at loaded
        cases loaded
      | ok layout =>
        rw [read] at loaded
        cases loaded
        rfl

/-- The decay time is zero only if the conversion to 32 bits has made it so. -/
theorem tuning_decays (zero : (tuning flags).decayTime = 0) : 0 < flags.lfuDecayTime ∧ 2 ^ 32 ∣ flags.lfuDecayTime := by
  unfold tuning setLFUParams at zero
  dsimp only at zero
  split at zero
  next accepted =>
    have small : (flags.lfuDecayTime % 2 ^ 32).toNat < 2 ^ 32 := by omega
    have none := congrArg UInt32.toNat zero
    rw [UInt32.toNat_ofNat_of_lt' small, UInt32.toNat_zero] at none
    exact ⟨accepted, Int.dvd_of_emod_eq_zero (by omega)⟩
  next => cases zero

variable {s : Process}

/-- The commands that were run have led to a store of the same kind. -/
theorem world_represents {K : Keyspace} (same : Represents env policy world.store K)
    (run : Relation.ReflTransGen (ProcessStep env cfg) (.start world) s) : ∃ left, Represents env policy s.system.world.store left := by
  obtain ⟨replies, ran⟩ := ran_returned (reached_system run)
  obtain ⟨left, _, kept⟩ := runAll_serving (.refl env cfg world) same ran
  exact ⟨left, kept⟩

/-- With any clients and in any order of steps, the server comes down only by a client that
sends a length no slice can have, by a command that appends to a sketch or makes room by a
sample that no slice can hold, or by a decay time that is zero in 32 bits. No goroutine is
brought down by another one, as by a channel that is closed too early. -/
theorem what_brings_server_down (starts : startup nodeID env flags disk = .ok (cfg, world))
    (run : Relation.ReflTransGen (ProcessStep (env.tuned (tuning flags)) cfg) (.start world) s)
    (down : Panicking (env.tuned (tuning flags)) cfg s ∨ s.system.panicked = true) :
    (∃ i, Attacks (s.input i).flatten) ∨
      (∃ req cmd todo replies, s.system.worker = .running req (cmd :: todo) replies ∧
        Breaks (env.tuned (tuning flags)) cfg s.system.world cmd) ∨
      (0 < flags.lfuDecayTime ∧ 2 ^ 32 ∣ flags.lfuDecayTime) := by
  rcases down with panicking | panicked
  · rcases panicking with ⟨req, cmd, todo, replies, p, running, failed⟩ | ⟨i, p, failed⟩
    · by_cases zero : (tuning flags).decayTime = 0
      · exact .inr (.inr (tuning_decays zero))
      · obtain ⟨configured, restored⟩ := startup_parts starts
        obtain ⟨K, same⟩ := restore_represents restored
        obtain ⟨left, kept⟩ := world_represents same run
        have breaks : Breaks (env.tuned (tuning flags)) cfg s.system.world cmd := by
          by_contra unbroken
          obtain ⟨reply, after, returned⟩ := dispatch_unbroken kept zero (configure_loaded configured) unbroken
          rw [failed] at returned
          cases returned
        exact .inr (.inl ⟨req, cmd, todo, replies, running, breaks⟩)
    · exact .inl ⟨i, failed_attacked run failed⟩
  · rw [(Sound.reached (reached_system run)).calm] at panicked
    cases panicked

/-- A client sends the count -1. -/
theorem negative_count_brings_down :
    ∃ s, Relation.ReflTransGen (ProcessStep ((Env.still 0).tuned (tuning .default)) .plain) (.start ⟨.new .noeviction, none⟩) s ∧
      Panicking ((Env.still 0).tuned (tuning .default)) .plain s ∧ ∃ i, Attacks (s.input i).flatten := by
  have run : ∃ s, Relation.ReflTransGen (ProcessStep ((Env.still 0).tuned (tuning .default)) .plain) (.start ⟨.new .noeviction, none⟩) s ∧
      s.client 1 = .failed .makeSlice ∧ s.system.worker = .waiting :=
    ⟨_, .head (.accept [ascii "*-1\r\n"] (.accept rfl) rfl) <| .head (.advance (i := 1) (by decide) rfl rfl rfl) .refl, rfl, rfl⟩
  obtain ⟨s, run, failed, waiting⟩ := run
  have starts : startup id (.still 0) .default (fun _ => none) = .ok (.plain, ⟨.new .noeviction, none⟩) := rfl
  have panicking : Panicking ((Env.still 0).tuned (tuning .default)) .plain s := .inr ⟨1, _, failed⟩
  refine ⟨s, run, panicking, ?_⟩
  rcases what_brings_server_down starts run (.inl panicking) with attacked | ⟨_, _, _, _, running, _⟩ | ⟨_, large⟩
  · exact attacked
  · rw [waiting] at running
    cases running
  · exact absurd large (by decide)

end

end Rediska.Proofs
