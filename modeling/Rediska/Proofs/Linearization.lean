import Rediska.Proofs.RequestService
import Rediska.Server.Histories

/-! The server is linearizable: whatever goroutines run when, the requests take effect one
at a time, each between its send and the receipt of its reply. -/

namespace Rediska.Proofs
open Go Core Commands Server Logic

variable {env : Storage.Env} {cfg : Config} {initial : World} {s after : System} {history : List (HistoryEvent SentRequest Bytes)}

theorem trace_run (trace : Trace env cfg initial history s) : Relation.ReflTransGen (Step env cfg) (.start initial) s := by
  induction trace with
  | start => exact .refl
  | step _ step ih => exact ih.tail step

/-- How a step bears on what is seen and on what is executed. -/
inductive Shown (s after : System) : Prop
  | call {req : SentRequest} (seen : observed s after = [.call req]) (sent : after.sent = s.sent ++ [req]) (same : after.executed = s.executed)
  | ret {i : Nat} {req : SentRequest} {reply : Bytes} (seen : observed s after = [.ret req reply]) (sent : after.sent = s.sent)
      (got : (i, req, reply) ∈ after.received) (same : after.executed = s.executed)
  | effect {req : SentRequest} {reply : Bytes} (quiet : observed s after = []) (sent : after.sent = s.sent) (asked : req ∈ s.worker.current)
      (done : after.executed = s.executed ++ [(req, reply)])
  | hidden (quiet : observed s after = []) (sent : after.sent = s.sent) (same : after.executed = s.executed)

theorem observed_same (sent : after.sent = s.sent) (received : after.received = s.received) : observed s after = [] := by
  rw [observed, sent, received, List.drop_length, List.drop_length]
  rfl

theorem step_shown (step : Step env cfg s after) : Shown s after := by
  cases step with
  | worker step =>
    cases step with
    | take | run | finish => exact .hidden (observed_same rfl rfl) rfl rfl
    | reply running => exact .effect (observed_same rfl rfl) rfl (by simp [running, Worker.current]) rfl
  | producer step =>
    cases step with
    | send => exact .call (by simp [observed]) rfl rfl
    | receive => exact .ret (by simp [observed]) rfl (List.mem_append_right _ (List.mem_singleton.mpr rfl)) rfl
    | get | getNew | drop | sendClosed | put | leave | tick | sweep | rest | stop => exact .hidden (observed_same rfl rfl) rfl rfl
  | main step =>
    cases step with
    | cancel | accept | join | close | stop => exact .hidden (observed_same rfl rfl) rfl rfl

/-- The requests executed so far explain what was seen so far, and all that was sent was
seen. -/
structure Explained (history : List (HistoryEvent SentRequest Bytes)) (s : System) : Prop where
  effect : Linearizes history s.executed
  calls : ∀ req ∈ s.sent, .call req ∈ history

theorem Explained.step (explained : Explained history s) (sound : Sound env cfg initial s) (step : Step env cfg s after) :
    Explained (history ++ observed s after) after := by
  obtain ⟨effect, calls⟩ := explained
  have later := sound.step step
  cases step_shown step with
  | @call req seen sent same =>
    rw [seen]
    constructor
    · rw [same]
      exact effect.see (.call req) nofun
    · intro other inside
      rw [sent] at inside
      rcases List.mem_append.mp inside with earlier | now
      · exact List.mem_append_left _ (calls other earlier)
      · rw [List.mem_singleton.mp now]
        exact List.mem_append_right _ List.mem_cons_self
  | @ret i req reply seen sent got same =>
    rw [seen]
    constructor
    · have done := (later.matched.own i req reply got).2
      rw [same] at done ⊢
      apply effect.see (.ret req reply)
      rintro _ _ ⟨⟩
      exact done
    · intro other inside
      rw [sent] at inside
      exact List.mem_append_left _ (calls other inside)
  | @effect req reply quiet sent asked done =>
    rw [quiet, List.append_nil]
    have known : req ∈ s.sent := by
      rw [sound.flow.order]
      exact List.mem_append_right _ (List.mem_append_left _ asked)
    constructor
    · rw [done]
      exact effect.enter (calls req known) reply
    · rw [sent]
      exact calls
  | hidden quiet sent same =>
    rw [quiet, List.append_nil]
    constructor
    · rw [same]
      exact effect
    · rw [sent]
      exact calls

theorem trace_explained (trace : Trace env cfg initial history s) : Explained history s := by
  induction trace with
  | start => exact ⟨.start, nofun⟩
  | step trace step ih => exact ih.step (Sound.reached (trace_run trace)) step

/-- Whatever the connections, the expiry goroutine, the worker and the shutdown do when,
what is seen of the requests is explained by executing them one at a time on the initial
state. -/
theorem requests_linearizable (trace : Trace env cfg initial history s) :
    Linearizable (fun order => ∃ world, Serial env cfg initial order world) history := by
  have sound := Sound.reached (trace_run trace)
  have once : (s.executed.map (·.1)).Nodup := (List.nodup_append.mp sound.flow.nodup).1
  exact ⟨s.executed, (trace_explained trace).effect.explains sound.served.serial once⟩

/-- Two clients: the second one's PING is sent while the first one's is being run. -/
theorem two_pings_linearizable :
    ∃ s history, Trace (Storage.Env.still 0) .plain ⟨.new .noeviction, none⟩ history s ∧
      history = [.call ⟨0, 1, ⟨⟨ascii "PING", []⟩, [], []⟩, 0⟩, .call ⟨1, 2, ⟨⟨ascii "PING", []⟩, [], []⟩, 1⟩,
        .ret ⟨0, 1, ⟨⟨ascii "PING", []⟩, [], []⟩, 0⟩ (ascii "+PONG\r\n")] ∧
      Linearizable (fun order => ∃ world, Serial (.still 0) .plain ⟨.new .noeviction, none⟩ order world) history := by
  have begun : Trace (Storage.Env.still 0) .plain ⟨.new .noeviction, none⟩ [] (.start ⟨.new .noeviction, none⟩) := .start
  have accepted := (begun.step (.main (.accept rfl))).step (.main (.accept rfl))
  have first := accepted.step (.producer (.getNew (i := 1) ⟨⟨ascii "PING", []⟩, [], []⟩ (by decide) rfl))
  have second := first.step (.producer (.getNew (i := 2) ⟨⟨ascii "PING", []⟩, [], []⟩ (by decide) rfl))
  have sent := (second.step (.producer (.send (i := 1) rfl rfl (by decide)))).step (.worker (.take rfl rfl))
  have waiting := sent.step (.producer (.send (i := 2) rfl rfl (by decide)))
  have replied := (waiting.step (.worker (.run rfl rfl))).step (.worker (.reply rfl rfl))
  have received := replied.step (.producer (.receive (i := 1) rfl rfl))
  exact ⟨_, _, received, rfl, requests_linearizable received⟩

end Rediska.Proofs
