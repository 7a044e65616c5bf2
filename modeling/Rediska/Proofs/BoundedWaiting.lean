import Mathlib.Algebra.Group.Action.Defs
import Mathlib.Algebra.Order.BigOperators.Group.List
import Mathlib.Algebra.Order.Group.Nat
import Rediska.Proofs.Shutdown

/-! How long a request waits. The channel is a queue with a bounded size, so what was sent
later, by however many clients, does not delay what was sent before. -/

namespace Rediska.Proofs
open Go Core Commands Server

variable {env : Storage.Env} {cfg : Config} {initial : World} {s t after : System} {sent : List SentRequest} {left k : Nat}

theorem takes_run (takes : Takes env cfg s k t) : Relation.ReflTransGen (Step env cfg) s t := by
  induction takes with
  | none => exact .refl
  | worker _ step ih => exact ih.tail (.worker step)
  | producer _ step ih => exact ih.tail (.producer step)
  | main _ step ih => exact ih.tail (.main step)

/-- The steps the worker takes for the requests of a queue. -/
def queueWork (cfg : Config) (queue : List SentRequest) : Nat := (queue.map fun req => (commandsOf cfg req.body).length + 2).sum

theorem queueWork_cons (req : SentRequest) (queue : List SentRequest) :
    queueWork cfg (req :: queue) = (commandsOf cfg req.body).length + 2 + queueWork cfg queue := by
  rw [queueWork, List.map_cons, List.sum_cons, queueWork]

theorem queueWork_le {c : Nat} {queue : List SentRequest} (short : ∀ req ∈ queue, (commandsOf cfg req.body).length ≤ c) :
    queueWork cfg queue ≤ queue.length * (c + 2) := by
  have each : ∀ work ∈ queue.map fun req => (commandsOf cfg req.body).length + 2, work ≤ c + 2 := by
    intro work listed
    obtain ⟨req, queued, rfl⟩ := List.mem_map.mp listed
    exact Nat.add_le_add_right (short req queued) 2
  have all := List.sum_le_card_nsmul _ _ each
  rwa [List.length_map, smul_eq_mul] at all

/-- Some requests, the first ones that were sent, need that many more steps of the worker
at most. -/
inductive Ahead (cfg : Config) (sent : List SentRequest) (left : Nat) (s : System) : Prop
  | done (all : sent ⊆ s.executed.map (·.1))
  | queued {queue later : List SentRequest} (waiting : s.worker = .waiting) (channel : s.commandCh = queue ++ later)
      (rest : sent = s.executed.map (·.1) ++ queue) (fits : queueWork cfg queue ≤ left)
  | running {req : SentRequest} {todo : List Command} {replies : List Bytes} {queue later : List SentRequest}
      (running : s.worker = .running req todo replies) (channel : s.commandCh = queue ++ later)
      (rest : sent = s.executed.map (·.1) ++ req :: queue) (fits : todo.length + 1 + queueWork cfg queue ≤ left)

theorem Ahead.of_none (rest : sent = s.executed.map (·.1) ++ []) : Ahead cfg sent left s := by
  apply Ahead.done
  rw [rest, List.append_nil]
  exact List.Subset.refl _

/-- As long as one of them is not executed, the worker has something to do. -/
theorem Ahead.busy (ahead : Ahead cfg sent left s) {req : SentRequest} (asked : req ∈ sent) (undone : req ∉ s.executed.map (·.1)) :
    s.worker.current ++ s.commandCh ≠ [] := by
  cases ahead with
  | done all => exact absurd (all asked) undone
  | queued _ channel rest _ =>
    rw [rest] at asked
    have queued := (List.mem_append.mp asked).resolve_left undone
    rw [channel]
    exact List.ne_nil_of_mem (List.mem_append_right _ (List.mem_append_left _ queued))
  | running running => simp [running, Worker.current]

theorem Ahead.finished (ahead : Ahead cfg sent 0 s) : sent ⊆ s.executed.map (·.1) := by
  cases ahead with
  | done all => exact all
  | @queued queue _ _ _ rest fits =>
    cases queue with
    | nil =>
      rw [rest, List.append_nil]
      exact List.Subset.refl _
    | cons req queue =>
      rw [queueWork_cons] at fits
      omega
  | running _ _ _ fits => omega

/-- A step of the worker leaves it one step less. -/
theorem Ahead.worker (ahead : Ahead cfg sent left s) (step : WorkerStep env cfg s after) : Ahead cfg sent (left - 1) after := by
  cases ahead with
  | done all =>
    apply Ahead.done
    cases step with
    | take | run | finish => exact all
    | reply =>
      dsimp only
      rw [List.map_append]
      exact List.subset_append_of_subset_left _ all
  | @queued queue later waiting channel rest fits =>
    cases step with
    | @take req more _ taken =>
      cases queue with
      | nil => exact .of_none rest
      | cons first queue =>
        rw [channel, List.cons_append] at taken
        cases taken
        rw [queueWork_cons] at fits
        exact .running rfl rfl rest (by omega)
    | run running => cases waiting.symm.trans running
    | reply running => cases waiting.symm.trans running
    | finish _ empty =>
      rw [channel] at empty
      rw [(List.append_eq_nil_iff.mp empty).1] at rest
      exact .of_none rest
  | @running req todo replies queue later working channel rest fits =>
    cases step with
    | take waiting => cases working.symm.trans waiting
    | run running =>
      cases working.symm.trans running
      rw [List.length_cons] at fits
      exact .running rfl channel rest (by omega)
    | reply running =>
      cases working.symm.trans running
      refine .queued rfl channel ?_ (by omega)
      rw [rest, List.map_append, List.append_assoc]
      rfl
    | finish waiting => cases working.symm.trans waiting

/-- What is sent later comes behind. -/
theorem Ahead.beside (ahead : Ahead cfg sent left s) (executed : after.executed = s.executed) (worker : after.worker = s.worker)
    (longer : s.commandCh <+: after.commandCh) : Ahead cfg sent left after := by
  obtain ⟨more, longer⟩ := longer
  cases ahead with
  | done all => exact .done (executed ▸ all)
  | queued waiting channel rest fits =>
    rw [channel, List.append_assoc] at longer
    exact .queued (worker.trans waiting) longer.symm (executed ▸ rest) fits
  | running running channel rest fits =>
    rw [channel, List.append_assoc] at longer
    exact .running (worker.trans running) longer.symm (executed ▸ rest) fits

theorem takes_ahead (takes : Takes env cfg s k t) (ahead : Ahead cfg sent left s) : Ahead cfg sent (left - k) t := by
  induction takes with
  | none => exact ahead
  | worker _ step ih => exact Nat.sub_sub left _ 1 ▸ ih.worker step
  | producer _ step ih =>
    cases step with
    | send => exact ih.beside rfl rfl (List.prefix_append _ _)
    | _ => exact ih.beside rfl rfl (List.prefix_refl _)
  | main _ step ih =>
    cases step with
    | _ => exact ih.beside rfl rfl (List.prefix_refl _)

/-- All that was sent is ahead. -/
theorem Sound.ahead (sound : Sound env cfg initial s) : Ahead cfg s.sent (workLeft cfg s) s := by
  have order := sound.flow.order
  unfold workLeft
  cases working : s.worker with
  | waiting =>
    rw [working] at order
    exact .queued working (List.append_nil _).symm order (Nat.le_refl _)
  | running req todo replies =>
    rw [working] at order
    refine .running working (List.append_nil _).symm order ?_
    rw [queueWork]
    exact Nat.le_of_eq (Nat.add_comm _ _)
  | finished =>
    rw [working, (sound.counted.finished working).2] at order
    exact .of_none order

/-! The size of the channel. -/

theorem channel_bounded (run : Relation.ReflTransGen (Step env cfg) (.start initial) s) : s.commandCh.length ≤ commandChSize := by
  induction run with
  | refl => exact Nat.zero_le _
  | tail _ step ih =>
    cases step with
    | worker step =>
      cases step with
      | take _ queued =>
        rw [queued, List.length_cons] at ih
        exact Nat.le_of_succ_le ih
      | run | reply | finish => exact ih
    | producer step =>
      cases step with
      | send _ _ room =>
        dsimp only
        rw [List.length_append, List.length_singleton]
        exact room
      | _ => exact ih
    | main step =>
      cases step with
      | _ => exact ih

theorem workLeft_le {c : Nat} (run : Relation.ReflTransGen (Step env cfg) (.start initial) s)
    (short : ∀ req ∈ s.worker.current ++ s.commandCh, (commandsOf cfg req.body).length ≤ c) :
    workLeft cfg s ≤ (commandChSize + 1) * (c + 2) := by
  have queue := queueWork_le fun req queued => short req (List.mem_append_right _ queued)
  have bounded := Nat.mul_le_mul_right (c + 2) (channel_bounded run)
  have working := (Sound.reached run).flow.working
  unfold workLeft
  rw [Nat.succ_mul]
  change queueWork cfg s.commandCh + _ ≤ _
  cases busy : s.worker with
  | waiting | finished =>
    dsimp only
    omega
  | running req todo replies =>
    rw [busy] at working short
    have mine := short req List.mem_cons_self
    cases working with
    | between idle => cases idle
    | within first _ parts =>
      rw [parts, List.length_append] at mine
      dsimp only
      omega

/-- A request that was sent is executed while the worker takes a bounded number of steps,
whatever the other goroutines do meanwhile, and the bound does not depend on how many
clients there are. Until then the worker has a step to take, and after that the reply is
there for who waits for it. -/
theorem waiting_bounded {c : Nat} {req : SentRequest} (begun : Relation.ReflTransGen (Step env cfg) (.start initial) s)
    (takes : Takes env cfg s k t) (asked : req ∈ s.sent)
    (short : ∀ other ∈ s.worker.current ++ s.commandCh, (commandsOf cfg other.body).length ≤ c) :
    workLeft cfg s ≤ (commandChSize + 1) * (c + 2) ∧ (workLeft cfg s ≤ k → ∃ reply, (req, reply) ∈ t.executed) ∧
    ((∀ reply, (req, reply) ∉ t.executed) → Crashing env cfg t ∨ ∃ later, WorkerStep env cfg t later) ∧
    ∀ i reply, (req, reply) ∈ t.executed → t.producer i = .awaiting req → t.channels req.replych = some reply := by
  have run := begun.trans (takes_run takes)
  have sound := Sound.reached run
  have ahead := takes_ahead takes (Sound.reached begun).ahead
  refine ⟨workLeft_le begun short, ?_, ?_, ?_⟩
  · intro enough
    rw [Nat.sub_eq_zero_of_le enough] at ahead
    obtain ⟨⟨_, reply⟩, executed, rfl⟩ := List.mem_map.mp (ahead.finished asked)
    exact ⟨reply, executed⟩
  · intro undone
    have missing : req ∉ t.executed.map (·.1) := by
      intro listed
      obtain ⟨⟨_, reply⟩, executed, rfl⟩ := List.mem_map.mp listed
      exact undone reply executed
    rcases sound.works (ahead.busy asked missing) with crash | ⟨later, step, _⟩
    · exact .inl crash
    · exact .inr ⟨later, step⟩
  · intro i reply executed awaiting
    rcases sound.matched.delivered req reply executed with got | ⟨_, stored⟩
    · exact absurd got (Unanswered.reached run i req awaiting reply)
    · exact stored

/-- A PING is executed in three steps of the worker, though another client sends one too. -/
theorem ping_waits_three_steps :
    ∃ s t req reply, Relation.ReflTransGen (Step (Storage.Env.still 0) .plain) (.start ⟨.new .noeviction, none⟩) s ∧
      Takes (.still 0) .plain s 3 t ∧ s.sent = [req] ∧ t.sent.length = 2 ∧ (req, reply) ∈ t.executed := by
  have runs : ∃ s t req, Relation.ReflTransGen (Step (Storage.Env.still 0) .plain) (.start ⟨.new .noeviction, none⟩) s ∧
      Takes (.still 0) .plain s 3 t ∧ s.sent = [req] ∧ s.worker.current ++ s.commandCh = [req] ∧
      (commandsOf .plain req.body).length ≤ 1 ∧ workLeft .plain s = 3 ∧ t.sent.length = 2 := by
    have accepted : Relation.ReflTransGen (Step (Storage.Env.still 0) .plain) (.start ⟨.new .noeviction, none⟩) _ :=
      (Relation.ReflTransGen.refl.tail (.main (.accept rfl))).tail (.main (.accept rfl))
    have held := (accepted.tail (.producer (.getNew (i := 1) ⟨⟨ascii "PING", []⟩, [], []⟩ (by decide) rfl))).tail
      (.producer (.getNew (i := 2) ⟨⟨ascii "PING", []⟩, [], []⟩ (by decide) rfl))
    have sent := held.tail (.producer (.send (i := 1) rfl rfl (by decide)))
    exact ⟨_, _, _, sent, .worker (.worker (.producer (.worker .none (.take rfl rfl)) (.send (i := 2) rfl rfl (Nat.succ_pos 255)))
      (.run rfl rfl)) (.reply rfl rfl), rfl, rfl, by decide, rfl, rfl⟩
  obtain ⟨s, t, req, begun, takes, sent, pending, short, work, both⟩ := runs
  have asked : req ∈ s.sent := sent ▸ List.mem_cons_self
  obtain ⟨_, executed, _⟩ := waiting_bounded begun takes asked (by
    intro other listed
    rw [pending] at listed
    exact List.mem_singleton.mp listed ▸ short)
  obtain ⟨reply, done⟩ := executed (Nat.le_of_eq work)
  exact ⟨s, t, req, reply, begun, takes, sent, both, done⟩

end Rediska.Proofs
