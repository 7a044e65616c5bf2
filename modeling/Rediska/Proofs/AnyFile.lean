import Rediska.Proofs.Restarts

/-! Starting from a file of any bytes, be it damaged or written by something else. -/

namespace Rediska.Proofs
open Go Core Storage Commands Server

/-- The commands among some values: the arrays, with the empty string for what is no string. -/
def commandsIn : List Value → List (List Bytes)
  | [] => []
  | .arr items :: rest => items.map stringArg :: commandsIn rest
  | .str _ :: rest | .int _ :: rest => commandsIn rest

/-- No value begins here. -/
def NoFrame (rest : Bytes) : Prop := ∀ value first more, rest = first ++ more → ¬ Frame value first

/-- Any bytes are whole values, as many as there are, and a rest. -/
theorem parted (file : Bytes) : ∃ values bytes rest, Frames values bytes ∧ file = bytes ++ rest ∧ NoFrame rest := by
  induction size : file.length using Nat.strong_induction_on generalizing file with
  | _ n ih =>
    by_cases begins : ∃ value first more, file = first ++ more ∧ Frame value first
    · obtain ⟨value, first, more, rfl, frame⟩ := begins
      have some := List.length_pos_iff.mpr frame.ne_nil
      have shorter : more.length < n := by
        rw [← size, List.length_append]
        omega
      obtain ⟨values, bytes, rest, frames, rfl, ends⟩ := ih more.length shorter more rfl
      exact ⟨value :: values, first ++ bytes, rest, .cons frame frames, (List.append_assoc _ _ _).symm, ends⟩
    · refine ⟨[], [], file, .nil, rfl, ?_⟩
      intro value first more same frame
      exact begins ⟨value, first, more, same, frame⟩

section
variable {σ : Type} (fn : List Bytes → σ → Panics σ)

/-- The values are replayed one after another, and then the rest is tried. -/
theorem recover_frames {values : List Value} {bytes : Bytes} (frames : Frames values bytes) (rest : Bytes) (state : σ) :
    (AOF.mk (bytes ++ rest)).recover fn state = forEach (commandsIn values) fn state >>= (AOF.mk rest).recover fn := by
  induction values generalizing bytes state with
  | nil =>
    cases frames
    rfl
  | cons value values ih =>
    cases frames with
    | cons head tail =>
      rw [List.append_assoc]
      cases value with
      | str | int =>
        rw [recover_skip fn head (by simp), ih tail]
        rfl
      | arr items =>
        rw [recover_array fn head, commandsIn, forEach]
        cases fn (items.map stringArg) state with
        | error p => rfl
        | ok next => exact ih tail next

theorem recover_rest {rest : Bytes} (ends : NoFrame rest) (state : σ) :
    (¬ Hostile rest → (AOF.mk rest).recover fn state = .ok state) ∧ (Hostile rest → ∃ p, (AOF.mk rest).recover fn state = .error p) := by
  have panics := decode_panics_iff rest none
  rcases decoded : decode rest none with ⟨outcome, left, after⟩
  rw [decoded] at panics
  cases outcome with
  | value value =>
    obtain ⟨bytes, same, frame⟩ := (decode_value_iff rest none value left).mp ⟨after, decoded⟩
    exact absurd frame (ends value bytes left same)
  | error e =>
    refine ⟨fun _ => recover_error fn decoded state, ?_⟩
    intro hostile
    obtain ⟨_, other⟩ := panics.mpr hostile
    cases other
  | panic p =>
    refine ⟨fun calm => absurd (panics.mp ⟨p, rfl⟩) calm, ?_⟩
    intro _
    exact ⟨p, by rw [AOF.recover, recoverFuel, decoded]⟩

end

/-- Whatever the file holds, its leading values are replayed, those that are arrays, and
nothing behind them. The server does not start if one of these commands panics, or if the
rest begins with a length that no slice can have. -/
theorem startup_on_any_file {nodeID : Bytes → Bytes} {env : Env} {flags : Flags} {disk : Disk} {cfg : Config} (append : flags.appendOnly = true)
    (named : flags.appendOnlyFile ≠ []) (configured : configure nodeID flags disk = .ok cfg) :
    ∃ values bytes rest, Frames values bytes ∧ (disk flags.appendOnlyFile).getD [] = bytes ++ rest ∧ NoFrame rest ∧
      (∀ p, forEach (commandsIn values) (replayAOFCommand (env.tuned (tuning flags)) cfg) (.new cfg.maxMemoryPolicy) = .error p →
        startup nodeID env flags disk = .error (.panicked p)) ∧
      ∀ store, forEach (commandsIn values) (replayAOFCommand (env.tuned (tuning flags)) cfg) (.new cfg.maxMemoryPolicy) = .ok store →
        (¬ Hostile rest → startup nodeID env flags disk = .ok (cfg, ⟨store, some (newAOF (bytes ++ rest))⟩)) ∧
        (Hostile rest → ∃ p, startup nodeID env flags disk = .error (.panicked p)) := by
  obtain ⟨values, bytes, rest, frames, whole, ends⟩ := parted ((disk flags.appendOnlyFile).getD [])
  refine ⟨values, bytes, rest, frames, whole, ends, ?_, ?_⟩
  · intro p failed
    rw [startup_recovers nodeID env append named configured, whole, newAOF, recover_frames _ frames, failed]
    rfl
  · intro store replayed
    rw [startup_recovers nodeID env append named configured, whole, newAOF, recover_frames _ frames, replayed, ok_bind]
    obtain ⟨calm, hostile⟩ := recover_rest (replayAOFCommand (env.tuned (tuning flags)) cfg) ends store
    constructor
    · intro harmless
      rw [calm harmless]
      rfl
    · intro attacks
      obtain ⟨p, failed⟩ := hostile attacks
      exact ⟨p, by rw [failed]; rfl⟩

/-- A file with a simple string in it, and a byte that begins no value. -/
theorem foreign_file_replayed :
    ∃ values bytes rest, Frames values bytes ∧ ascii "+OK\r\n?" = bytes ++ rest ∧ NoFrame rest ∧
      ∀ store, forEach (commandsIn values) (replayAOFCommand ((Env.still 0).tuned (tuning appending)) .plain) (.new .noeviction) = .ok store →
        ¬ Hostile rest → startup id (.still 0) appending (fun _ => some (ascii "+OK\r\n?")) =
          .ok (.plain, ⟨store, some (newAOF (bytes ++ rest))⟩) := by
  have configured : configure id appending (fun _ => some (ascii "+OK\r\n?")) = .ok .plain := rfl
  obtain ⟨values, bytes, rest, frames, whole, ends, _, starts⟩ := startup_on_any_file rfl (by decide) configured
  exact ⟨values, bytes, rest, frames, whole, ends, fun store replayed => (starts store replayed).1⟩

end Rediska.Proofs
