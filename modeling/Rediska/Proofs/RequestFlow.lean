import Mathlib.Data.List.Range
import Rediska.Server.Run

/-! The worker's side of the command channel: requests are executed one at a time and in
the order they were sent, and what comes of them is what a server that executes whole
requests would give. -/

namespace Rediska.Proofs
open Go Core Commands Server

section
variable (env : Storage.Env) (cfg : Config) (initial : World)

def runs (req : SentRequest) : List (SentRequest × Command) := (commandsOf cfg req.body).map fun cmd => (req, cmd)

/-- The requests done so far are those of a server that executes whole requests, with
its replies. -/
def Serial (executed : List (SentRequest × Bytes)) (world : World) : Prop :=
  runAll (dispatchWorker env cfg) initial (executed.map fun done => done.1.body) = .ok (executed.map (·.2), world)

/-- How far the worker has come. -/
inductive Working (executed : List (SentRequest × Bytes)) (ran : List (SentRequest × Command)) : Worker → World → Prop
  | between {worker : Worker} {world : World} (idle : worker.current = []) (serial : Serial env cfg initial executed world)
      (blocks : ran = executed.flatMap fun done => runs cfg done.1) : Working executed ran worker world
  | within {req : SentRequest} (first : List Command) {todo : List Command} {replies : List Bytes} {before world : World}
      (serial : Serial env cfg initial executed before) (parts : commandsOf cfg req.body = first ++ todo)
      (begun : runAll (dispatch env cfg) before first = .ok (replies, world))
      (blocks : ran = (executed.flatMap fun done => runs cfg done.1) ++ first.map fun cmd => (req, cmd)) :
      Working executed ran (.running req todo replies) world

structure Flow (s : System) : Prop where
  numbers : s.sent.map (·.number) = List.range s.sent.length
  order : s.sent = s.executed.map (·.1) ++ (s.worker.current ++ s.commandCh)
  working : Working env cfg initial s.executed s.ran s.worker s.world

end

section
variable {env : Storage.Env} {cfg : Config} {initial : World} {s after : System}

/-- Run one by one, the commands of a request give what the worker's loop body gives. -/
theorem dispatchWorker_commands {w final : World} {body : CommandRequest} {replies : List Bytes}
    (ran : runAll (dispatch env cfg) w (commandsOf cfg body) = .ok (replies, final)) :
    dispatchWorker env cfg w body = .ok (replyOf cfg body replies, final) := by
  by_cases batch : body.batch = []
  · by_cases pipeline : body.pipeline = []
    · simp only [commandsOf, batch, pipeline, ne_eq, not_true, if_false] at ran
      obtain ⟨⟨reply, next⟩, returned, ran⟩ := bind_ok ran
      cases ran
      simp [dispatchWorker, replyOf, batch, pipeline, returned]
    · simp only [commandsOf, batch, pipeline, ne_eq, not_true, not_false_eq_true, if_false, if_true] at ran
      simp [dispatchWorker, replyOf, batch, pipeline, dispatchPipeline, dispatchAll_eq, ran, ok_bind]
  · cases refused : checkClusterBatch cfg body.batch with
    | some reply =>
      simp only [commandsOf, batch, refused, ne_eq, not_false_eq_true, if_true, Option.isSome_some] at ran
      cases ran
      simp [dispatchWorker, replyOf, batch, dispatchBatch, refused]
    | none =>
      simp only [commandsOf, batch, refused, ne_eq, not_false_eq_true, if_true, Option.isSome_none, Bool.false_eq_true, if_false] at ran
      simp [dispatchWorker, replyOf, batch, dispatchBatch, refused, dispatchAll_eq, ran, ok_bind]

theorem Working.idle {executed : List (SentRequest × Bytes)} {ran : List (SentRequest × Command)} {world : World} {worker : Worker}
    (working : Working env cfg initial executed ran worker world) (idle : worker.current = []) :
    Serial env cfg initial executed world ∧ ran = executed.flatMap fun done => runs cfg done.1 := by
  cases working with
  | between _ serial blocks => exact ⟨serial, blocks⟩
  | within => cases idle

theorem Flow.start (world : World) : Flow env cfg world (.start world) :=
  ⟨rfl, rfl, .between rfl rfl rfl⟩

theorem Flow.worker (flow : Flow env cfg initial s) (step : WorkerStep env cfg s after) : Flow env cfg initial after := by
  obtain ⟨numbers, order, working⟩ := flow
  cases step with
  | take waiting queued =>
    rw [waiting] at order working
    obtain ⟨serial, blocks⟩ := working.idle rfl
    refine ⟨numbers, ?_, .within [] serial rfl rfl ?_⟩
    · rw [order, queued]
      rfl
    · simpa using blocks
  | run running returned =>
    rw [running] at order working
    refine ⟨numbers, order, ?_⟩
    cases working with
    | between idle => cases idle
    | within first serial parts begun blocks =>
      refine .within _ serial ?_ (runAll_snoc begun returned) ?_
      · rw [parts, List.append_assoc, List.singleton_append]
      · rw [blocks, List.map_append, List.append_assoc]
        rfl
  | reply running room =>
    rw [running] at order working
    cases working with
    | between idle => cases idle
    | within first serial parts begun blocks =>
      rw [List.append_nil] at parts
      rw [← parts] at begun blocks
      refine ⟨numbers, ?_, .between rfl ?_ ?_⟩
      · rw [order, List.map_append, List.append_assoc]
        rfl
      · unfold Serial
        rw [List.map_append, List.map_append]
        exact runAll_snoc serial (dispatchWorker_commands begun)
      · rw [blocks, List.flatMap_append]
        simp [runs]
  | finish waiting empty closed =>
    rw [waiting] at order working
    obtain ⟨serial, blocks⟩ := working.idle rfl
    exact ⟨numbers, order, .between rfl serial blocks⟩

theorem Flow.send (flow : Flow env cfg initial s) {req : SentRequest} (numbered : req.number = s.sent.length)
    (producer : Nat → Producer) :
    Flow env cfg initial { s with commandCh := s.commandCh ++ [req], producer := producer, sent := s.sent ++ [req] } := by
  obtain ⟨numbers, order, working⟩ := flow
  refine ⟨?_, ?_, working⟩
  · simp [numbers, numbered, List.range_succ]
  · simp [order]

theorem Flow.step (flow : Flow env cfg initial s) (step : Step env cfg s after) : Flow env cfg initial after := by
  cases step with
  | worker step => exact flow.worker step
  | producer step =>
    cases step with
    | send => exact flow.send rfl _
    | _ => exact ⟨flow.numbers, flow.order, flow.working⟩
  | main step =>
    cases step with
    | _ => exact ⟨flow.numbers, flow.order, flow.working⟩

/-- No request is both done and still to do, or twice in either. -/
theorem Flow.nodup (flow : Flow env cfg initial s) :
    (s.executed.map (·.1) ++ (s.worker.current ++ s.commandCh)).Nodup := by
  rw [← flow.order]
  apply List.Nodup.of_map (·.number)
  rw [flow.numbers]
  exact List.nodup_range

end
end Rediska.Proofs
