import Rediska.Logic.Inevitable
import Rediska.Proofs.ConnectionSteps

/-! How much a connection can still do with the input it has. -/

namespace Rediska.Proofs
open Go Core Commands Server Logic

variable {unicode : CaseTable} {cfg : Config} {c : Connection}

/-- The steps a request takes: those of the worker, and those of the connection that sends
it and waits for the reply. -/
def workOf (cfg : Config) (req : CommandRequest) : Nat := (commandsOf cfg req).length + 6

/-- A byte of input pays for the frame it belongs to, a command that is collected or queued
for its own run. -/
def load (c : Connection) : Nat :=
  match c.phase with
  | .closed => 0
  | .reading => 20 * c.reader.bytes.length + c.tx.queued.length + 1
  | .pipelining pipeline => 20 * c.reader.bytes.length + c.tx.queued.length + pipeline.length + 10

theorem load_finish (c : Connection) : load c.finish = 20 * c.reader.bytes.length + c.tx.queued.length + 1 := by
  unfold Connection.finish
  split <;> rfl

theorem workOf_pipeline (cfg : Config) (cmds : List Command) : workOf cfg (pipelineRequest cmds) ≤ cmds.length + 7 := by
  unfold workOf
  match cmds with
  | [] => exact Nat.le_refl _
  | [cmd] => exact Nat.le_succ _
  | first :: second :: rest => exact Nat.le_succ _

theorem workOf_batch (cfg : Config) (cmds : List Command) : workOf cfg (batchRequest cmds) ≤ cmds.length + 7 := by
  unfold workOf commandsOf batchRequest
  split
  · split
    · exact Nat.le_add_left _ _
    · exact Nat.le_succ _
  · simp

/-- A frame takes a byte at least. -/
theorem read_shrinks {frame : Value} {reader : Reader} {scratch : Scratch}
    (read : decode c.reader c.scratch = (.value frame, reader, scratch)) : reader.bytes.length < c.reader.bytes.length := by
  obtain ⟨first, bytes, frame⟩ := read_frame read
  have some := List.length_pos_iff.mpr frame.ne_nil
  rw [bytes, List.length_append]
  omega

/-- The queue of a transaction grows by the command at hand, or goes to the worker. -/
theorem handled_queue {t next : TxState} {cmd : Command} {action : TxAction} (returned : t.handle cfg cmd = (action, next)) :
    (action = .passthrough ∧ next = t) ∨ (∃ reply, action = .reply reply ∧ next.queued.length ≤ t.queued.length + 1) ∨
      (action = .exec t.queued ∧ next.queued = []) := by
  cases handled returned with
  | passed => exact .inl ⟨rfl, rfl⟩
  | executed => exact .inr (.inr ⟨rfl, rfl⟩)
  | nested | opened | notDiscarded | notExecuted | unknown | refused => exact .inr (.inl ⟨_, rfl, Nat.le_succ _⟩)
  | discarded | aborted => exact .inr (.inl ⟨_, rfl, Nat.zero_le _⟩)
  | queued => exact .inr (.inl ⟨_, rfl, by simp⟩)

/-! A program within its bounds, through the parts of an iteration. -/

section
variable {rest : Connection → Goroutine} {n m : Nat}

theorem request_within (req : CommandRequest) (fits : m + workOf cfg req + 1 ≤ n)
    (later : ∀ reply, (rest (c.reply reply)).Within (workOf cfg) load m) : (c.request req >>= rest).Within (workOf cfg) load n :=
  .ask fits later

theorem pipeline_within (pipeline : List Command) (fits : m + pipeline.length + 8 ≤ n)
    (later : ∀ reply, (rest (c.reply reply)).Within (workOf cfg) load m) :
    (c.dispatchPipeline pipeline >>= rest).Within (workOf cfg) load n := by
  have work := workOf_pipeline cfg pipeline
  exact request_within _ (by omega) later

theorem finish_within (fits : 20 * c.reader.bytes.length + c.tx.queued.length + 1 ≤ n) :
    (Dialogue.done c.finish : Goroutine).Within (workOf cfg) load n :=
  .done (by rwa [load_finish])

theorem action_within {t : TxState} {cmd : Command} {action : TxAction} (returned : t.handle cfg cmd = (action, c.tx))
    (fits : 20 * c.reader.bytes.length + t.queued.length + 11 ≤ n) :
    (c.handleAction action >>= fun c => .done c.finish).Within (workOf cfg) load n := by
  rcases handled_queue returned with ⟨rfl, same⟩ | ⟨reply, rfl, longer⟩ | ⟨rfl, empty⟩
  · exact finish_within (by rw [same]; omega)
  · exact finish_within (by simp only [Connection.reply]; omega)
  · have work := workOf_batch cfg t.queued
    refine request_within (m := 20 * c.reader.bytes.length + 1) _ (by omega) ?_
    intro reply
    apply finish_within
    simp only [Connection.reply, empty, List.length_nil]
    omega

end

/-- Whatever the worker answers, an iteration leaves less to do. -/
theorem step_within (goes : c.ended = false) : ∃ n, n < load c ∧ (c.step unicode cfg).Within (workOf cfg) load n := by
  have how := stepped unicode cfg c
  generalize c.step unicode cfg = program at how
  cases how with
  | stays closed => simp [Connection.ended, closed] at goes
  | failed running =>
    refine ⟨0, ?_, .failed _⟩
    unfold load
    split <;> simp_all
  | ended top => exact ⟨0, by simp [load, top], .done (Nat.le_refl 0)⟩
  | @refused frame reader scratch text top read =>
    have less := read_shrinks read
    refine ⟨20 * reader.bytes.length + c.tx.queued.length + 1, by simp only [load, top]; omega, .done ?_⟩
    simp only [load, Connection.reject, top, Nat.le_refl]
  | @begun frame reader scratch cmd top read =>
    have less := read_shrinks read
    exact ⟨20 * reader.bytes.length + c.tx.queued.length + 11, by simp only [load, top]; omega, .done (Nat.le_refl _)⟩
  | @acted frame reader scratch cmd action tx top read parsed returned =>
    have less := read_shrinks read
    exact ⟨20 * reader.bytes.length + c.tx.queued.length + 11, by simp only [load, top]; omega, action_within returned (Nat.le_refl _)⟩
  | @sent pipeline collecting =>
    refine ⟨20 * c.reader.bytes.length + c.tx.queued.length + pipeline.length + 9, by simp only [load, collecting]; omega, ?_⟩
    exact pipeline_within (m := 20 * c.reader.bytes.length + c.tx.queued.length + 1) _ (by omega) fun _ => finish_within (Nat.le_refl _)
  | @broken pipeline _ _ _ collecting =>
    refine ⟨pipeline.length + 8, by simp only [load, collecting]; omega, ?_⟩
    exact pipeline_within (m := 0) _ (by omega) fun _ => .done (Nat.le_refl 0)
  | @interrupted pipeline frame reader scratch text collecting more read =>
    have less := read_shrinks read
    refine ⟨20 * reader.bytes.length + c.tx.queued.length + pipeline.length + 9, by simp only [load, collecting]; omega, ?_⟩
    exact pipeline_within (m := 20 * reader.bytes.length + c.tx.queued.length + 1) _ (by omega) fun _ => finish_within (Nat.le_refl _)
  | @extended pipeline frame reader scratch cmd collecting more read =>
    have less := read_shrinks read
    refine ⟨20 * reader.bytes.length + c.tx.queued.length + pipeline.length + 11, by simp only [load, collecting]; omega, .done ?_⟩
    simp only [load, List.length_append, List.length_singleton]
    omega
  | @switched pipeline frame reader scratch cmd action tx collecting more read parsed returned =>
    have less := read_shrinks read
    refine ⟨20 * reader.bytes.length + c.tx.queued.length + pipeline.length + 19, by simp only [load, collecting]; omega, ?_⟩
    exact pipeline_within (m := 20 * reader.bytes.length + c.tx.queued.length + 11) _ (by omega)
      fun reply => action_within (c := Connection.reply _ reply) returned (Nat.le_refl _)

end Rediska.Proofs
