import Rediska.Proofs.ConnectionWork
import Rediska.Proofs.SharedServer

/-! A cancelled server stops: once the accept loop has ended, no order of steps keeps it
going, and nothing that was sent is lost on the way. -/

namespace Rediska.Proofs
open Go Core Commands Server Logic

variable {env : Storage.Env} {cfg : Config} {initial : World}

/-- The worker or a connection has come to a panic, which ends the process. -/
def Panicking (env : Storage.Env) (cfg : Config) (s : Process) : Prop :=
  Crashing env cfg s.system ∨ ∃ i p, s.client i = .failed p

theorem Sound.sent_number {s : System} (sound : Sound env cfg initial s) {req : SentRequest} (sent : req ∈ s.sent) :
    req.number < s.sent.length := by
  have inside : req.number ∈ s.sent.map (·.number) := List.mem_map_of_mem sent
  rw [sound.flow.numbers] at inside
  exact List.mem_range.mp inside

/-- A producer does not wait for a reply it has received. -/
def Unanswered (s : System) : Prop := ∀ i req, s.producer i = .awaiting req → ∀ reply, (req.producer, req, reply) ∉ s.received

theorem Unanswered.move {s : System} (unanswered : Unanswered s) {i : Nat} {next : Producer} (now : ∀ req, next ≠ .awaiting req) (j : Nat)
    (req : SentRequest) (waiting : Function.update s.producer i next j = .awaiting req) (reply : Bytes) :
    (req.producer, req, reply) ∉ s.received := by
  by_cases same : j = i
  · subst same
    rw [Function.update_self] at waiting
    exact absurd waiting (now req)
  · rw [Function.update_of_ne same] at waiting
    exact unanswered j req waiting reply

theorem Unanswered.step {s after : System} (unanswered : Unanswered s) (sound : Sound env cfg initial s) (step : Step env cfg s after) :
    Unanswered after := by
  cases step with
  | worker step =>
    cases step with
    | take | run | reply | finish => exact unanswered
  | main step =>
    cases step with
    | accept => exact unanswered.move (by simp)
    | cancel | join | close | stop => exact unanswered
  | producer step =>
    cases step with
    | drop | sendClosed => exact unanswered
    | get | getNew | put | leave | tick | sweep | rest | stop => exact unanswered.move (by simp)
    | @send i ch body holding =>
      intro j req waiting reply got
      dsimp only at waiting got
      by_cases same : j = i
      · subst same
        rw [Function.update_self] at waiting
        cases waiting
        have done := (sound.matched.own _ _ _ got).2
        have old := List.mem_append_left (s.worker.current ++ s.commandCh) (List.mem_map_of_mem (f := (·.1)) done)
        rw [← sound.flow.order] at old
        exact Nat.lt_irrefl _ (sound.sent_number old)
      · rw [Function.update_of_ne same] at waiting
        exact unanswered j req waiting reply got
    | @receive i req reply awaiting =>
      intro j other waiting said got
      dsimp only at waiting got
      by_cases same : j = i
      · subst same
        rw [Function.update_self] at waiting
        cases waiting
      · rw [Function.update_of_ne same] at waiting
        rcases List.mem_append.mp got with earlier | now
        · exact unanswered j other waiting said earlier
        · cases List.mem_singleton.mp now
          exact same ((sound.matched.asked j _ waiting).1.symm.trans (sound.matched.asked _ _ awaiting).1)

theorem Unanswered.reached {s : System} (run : Relation.ReflTransGen (Step env cfg) (.start initial) s) : Unanswered s := by
  induction run with
  | refl =>
    intro i req _ reply
    exact List.not_mem_nil
  | tail run step ih => exact ih.step (Sound.reached run) step

/-- The work of each connection is bounded by the input it has. -/
def Bounded (cfg : Config) (s : Process) : Prop := ∀ i, ∃ n, (s.client i).Within (workOf cfg) load n

theorem Bounded.step {s after : Process} (bounded : Bounded cfg s) (step : ProcessStep env cfg s after) : Bounded cfg after := by
  have update (i : Nat) {program : Goroutine} (now : ∃ n, program.Within (workOf cfg) load n) (j : Nat) :
      ∃ n, (Function.update s.client i program j).Within (workOf cfg) load n := by
    by_cases same : j = i
    · subst same
      rw [Function.update_self]
      exact now
    · rw [Function.update_of_ne same]
      exact bounded j
  cases step with
  | apart | ask | send | receive | leave => exact bounded
  | accept chunks => exact update _ ⟨_, .done (Nat.le_refl _)⟩
  | advance _ _ _ goes =>
    obtain ⟨n, _, within⟩ := step_within goes
    exact update _ ⟨n, within⟩
  | @resume _ i _ reply _ _ _ asks =>
    obtain ⟨n, within⟩ := bounded i
    rw [asks] at within
    exact update i (within.next reply)

theorem Bounded.reached {s : Process} (run : Relation.ReflTransGen (ProcessStep env cfg) (.start initial) s) : Bounded cfg s := by
  induction run with
  | refl =>
    intro i
    exact ⟨_, .done (Nat.le_refl _)⟩
  | tail _ step ih => exact ih.step step

/-- What a shutdown starts from, and keeps. -/
structure Draining (env : Storage.Env) (cfg : Config) (initial : World) (s : Process) : Prop where
  sound : Sound env cfg initial s.system
  conversed : Conversed env cfg s
  unanswered : Unanswered s.system
  bounded : Bounded cfg s
  cancelled : s.system.cancelled = true
  left : s.system.stage ≠ .accepting

section
variable {s after : Process}

theorem ended_stays {s after : System} (step : Step env cfg s after) (cancelled : s.cancelled = true) (left : s.stage ≠ .accepting) :
    after.cancelled = true ∧ after.stage ≠ .accepting := by
  cases step with
  | worker step =>
    cases step with
    | _ => exact ⟨cancelled, left⟩
  | producer step =>
    cases step with
    | _ => exact ⟨cancelled, left⟩
  | main step =>
    cases step with
    | cancel => exact ⟨rfl, left⟩
    | accept | join => exact ⟨cancelled, by simp_all⟩
    | close | stop => exact ⟨cancelled, by simp⟩

theorem Draining.step (draining : Draining env cfg initial s) (step : ProcessStep env cfg s after) : Draining env cfg initial after := by
  obtain ⟨sound, conversed, unanswered, bounded, cancelled, left⟩ := draining
  have talks := conversed.step sound step
  have bounds := bounded.step step
  rcases processStep_system step with same | moved
  · exact ⟨same ▸ sound, talks, same ▸ unanswered, bounds, same ▸ cancelled, same ▸ left⟩
  · obtain ⟨stays, out⟩ := ended_stays moved cancelled left
    exact ⟨sound.step moved, talks, unanswered.step sound moved, bounds, stays, out⟩

end

section
variable (cfg : Config)

noncomputable def toDo (program : Goroutine) : Nat := program.rank (workOf cfg) load

/-- What a connection owes for the request at hand and for the input it has. -/
noncomputable def owed : Producer → Goroutine → Nat
  | .idle, program => toDo cfg program + 1
  | .holding _ _, program => toDo cfg program
  | .awaiting req, program => toDo cfg program - (commandsOf cfg req.body).length - 3
  | .answered reply _, .ask _ next => toDo cfg (next reply) + 3
  | .answered _ _, _ => 0
  | .gone, _ => 0

def owedByExpiry : Producer → Nat
  | .idle | .holding _ _ => 1
  | .awaiting _ => 4
  | .answered _ _ => 3
  | .gone => 0

noncomputable def owedBy (s : Process) (i : Nat) : Nat :=
  if i = expiry then owedByExpiry (s.system.producer i) else owed cfg (s.system.producer i) (s.client i)

def stagesLeft : Stage → Nat
  | .accepting => 3
  | .joining => 2
  | .draining => 1
  | .stopped => 0

def workerLeft : Worker → Nat
  | .waiting | .running _ _ _ => 1
  | .finished => 0

/-- What the worker and Run itself have to do. The pool counts as well, for the runtime
may drop what it holds at any time. -/
def besides (s : System) : Nat := workLeft cfg s + s.replyChPool.length + workerLeft s.worker + stagesLeft s.stage

noncomputable def stepsLeft (s : Process) : Nat := (∑ i ∈ Finset.range s.system.spawned, owedBy cfg s i) + besides cfg s.system

end

theorem step_less {unicode : CaseTable} {c : Connection} (goes : c.ended = false) : toDo cfg (c.step unicode cfg) < toDo cfg (.done c) := by
  obtain ⟨n, less, within⟩ := step_within goes
  unfold toDo
  rw [Dialogue.rank_done]
  exact Nat.lt_of_le_of_lt (Dialogue.rank_le within) less

/-- What a step of a producer adds to the command channel, and to the pool. -/
def adds (cfg : Config) : Producer → Producer → Nat
  | .holding body _, .awaiting _ => (commandsOf cfg body).length + 2
  | .answered _ _, .idle => 1
  | _, _ => 0

section
variable {s after : System}

theorem worker_less (step : WorkerStep env cfg s after) :
    workLeft cfg after + workerLeft after.worker < workLeft cfg s + workerLeft s.worker := by
  cases step with
  | take waiting queued =>
    simp only [workLeft, workerLeft, waiting, queued, List.map_cons, List.sum_cons]
    omega
  | run running | reply running => simp [workLeft, workerLeft, running]
  | finish waiting => simp [workLeft, workerLeft, waiting]

theorem producerStep_adds (cfg : Config) (step : ProducerStep s after) {i : Nat} (changed : after.producer i ≠ s.producer i) :
    workLeft cfg after + after.replyChPool.length ≤
      workLeft cfg s + s.replyChPool.length + adds cfg (s.producer i) (after.producer i) := by
  have mover {j : Nat} {next : Producer} (moved : Function.update s.producer j next i ≠ s.producer i) : i = j := by
    by_contra other
    exact moved (Function.update_of_ne other _ _)
  cases step with
  | drop | sendClosed => exact absurd rfl changed
  | get => exact Nat.le_add_right_of_le (Nat.add_le_add_left List.length_erase_le _)
  | getNew | receive | leave | tick | sweep | rest | stop => exact Nat.le_add_right _ _
  | send holding =>
    cases mover changed
    dsimp only
    rw [holding, Function.update_self]
    simp only [workLeft, adds, List.map_append, List.sum_append, List.map_cons, List.map_nil, List.sum_cons, List.sum_nil]
    omega
  | put _ answered =>
    cases mover changed
    dsimp only
    rw [answered, Function.update_self]
    exact Nat.le_refl _

theorem producerStep_rest (step : ProducerStep s after) :
    after.spawned = s.spawned ∧ after.worker = s.worker ∧ after.stage = s.stage := by
  cases step with
  | _ => exact ⟨rfl, rfl, rfl⟩

/-- A step of a producer moves one that is there, but for what the pool drops. -/
theorem producerStep_mover (counted : Counted s) (step : ProducerStep s after) :
    (∃ i, s.producer i ≠ .gone ∧ after.producer i ≠ s.producer i) ∨ ∃ ch, after = { s with replyChPool := s.replyChPool.erase ch } := by
  have moves {i : Nat} {p next : Producer} (here : s.producer i = p) (present : p ≠ .gone) (other : next ≠ p) :
      ∃ i', s.producer i' ≠ .gone ∧ Function.update s.producer i next i' ≠ s.producer i' := by
    refine ⟨i, here ▸ present, ?_⟩
    rw [Function.update_self, here]
    exact other
  cases step with
  | drop ch => exact .inr ⟨ch, rfl⟩
  | sendClosed holding closed =>
    have gone := counted.left closed
    simp [gone] at holding
  | get _ _ idle | getNew _ _ idle | leave _ idle | tick idle => exact .inl (moves idle (by simp) (by simp))
  | send holding => exact .inl (moves holding (by simp) (by simp))
  | receive awaiting => exact .inl (moves awaiting (by simp) (by simp))
  | put _ answered | sweep answered | rest answered => exact .inl (moves answered (by simp) (by simp))
  | stop _ selecting =>
    rcases selecting with idle | ⟨_, _, holding⟩
    · exact .inl (moves idle (by simp) (by simp))
    · exact .inl (moves holding (by simp) (by simp))

/-- With the context cancelled, the expiry goroutine comes to its end. -/
theorem expiry_less (cfg : Config) (step : ProducerStep s after) (changed : after.producer expiry ≠ s.producer expiry)
    (stops : ¬ Persists s after) :
    owedByExpiry (after.producer expiry) + adds cfg (s.producer expiry) (after.producer expiry) < owedByExpiry (s.producer expiry) := by
  have elsewhere {i : Nat} {next : Producer} (connection : i ≠ expiry) : Function.update s.producer i next expiry = s.producer expiry :=
    Function.update_of_ne (Ne.symm connection) _ _
  cases step with
  | drop | sendClosed => exact absurd rfl changed
  | get _ connection | getNew _ connection | put connection | leave connection => exact absurd (elsewhere connection) changed
  | @send i ch body holding =>
    by_cases mine : i = expiry
    · subst mine
      exact absurd (.inr ⟨body, ch, ⟨s.sent.length, expiry, body, ch⟩, holding, by simp⟩) stops
    · exact absurd (elsewhere mine) changed
  | @receive i req reply awaiting =>
    by_cases mine : i = expiry
    · subst mine
      dsimp only
      rw [awaiting, Function.update_self]
      simp [owedByExpiry, adds]
    · exact absurd (elsewhere mine) changed
  | tick idle => exact absurd (.inl ⟨idle, expiryRequest, s.made, by simp⟩) stops
  | sweep answered | rest answered =>
    dsimp only
    rw [answered, Function.update_self]
    simp [owedByExpiry, adds]
  | stop _ selecting =>
    dsimp only
    rw [Function.update_self]
    rcases selecting with idle | ⟨_, _, holding⟩
    · rw [idle]
      simp [owedByExpiry, adds]
    · rw [holding]
      simp [owedByExpiry, adds]

end

section
variable {s : Process} {i : Nat}

/-- One producer owes less, by more than it adds to the rest. -/
theorem fewer_at {after : Process} (counted : Counted s.system) (present : s.system.producer i ≠ .gone)
    (born : after.system.spawned = s.system.spawned) (others : ∀ j, j ≠ i → owedBy cfg after j = owedBy cfg s j)
    (less : owedBy cfg after i + besides cfg after.system < owedBy cfg s i + besides cfg s.system) :
    stepsLeft cfg after < stepsLeft cfg s := by
  have inside : i < s.system.spawned := by
    by_contra beyond
    exact present (counted.unborn i (Nat.le_of_not_lt beyond))
  have sums := sum_exchange inside others
  unfold stepsLeft
  rw [born]
  omega

/-- A producer moves, and its program with it. -/
theorem fewer_by {after : System} {program : Goroutine} (counted : Counted s.system) (step : ProducerStep s.system after)
    (present : s.system.producer i ≠ .gone) (changed : after.producer i ≠ s.system.producer i)
    (less : owedBy cfg { s with system := after, client := Function.update s.client i program } i +
      adds cfg (s.system.producer i) (after.producer i) < owedBy cfg s i) :
    stepsLeft cfg { s with system := after, client := Function.update s.client i program } < stepsLeft cfg s := by
  obtain ⟨born, worker, stage⟩ := producerStep_rest step
  have added := producerStep_adds cfg step changed
  refine fewer_at counted present born ?_ ?_
  · intro j other
    unfold owedBy
    dsimp only
    rw [producerStep_others step changed other, Function.update_of_ne other]
  · unfold besides
    dsimp only at less ⊢
    rw [worker, stage]
    omega

theorem fewer_elsewhere {after : System} (born : after.spawned = s.system.spawned) (same : after.producer = s.system.producer)
    (less : besides cfg after < besides cfg s.system) : stepsLeft cfg { s with system := after } < stepsLeft cfg s := by
  have sums : ∑ i ∈ Finset.range s.system.spawned, owedBy cfg { s with system := after } i =
      ∑ i ∈ Finset.range s.system.spawned, owedBy cfg s i := by
    refine Finset.sum_congr rfl ?_
    intro i _
    simp only [owedBy, same]
  unfold stepsLeft
  dsimp only at sums ⊢
  rw [born, sums]
  omega

end

section
variable {s after : Process}

/-- What is not a connection's step. -/
theorem Draining.falls_apart {after : System} (draining : Draining env cfg initial s) (step : Step env cfg s.system after)
    (apart : ∀ i, i ≠ expiry → after.producer i = s.system.producer i) (changed : after ≠ s.system) (stops : ¬ Persists s.system after) :
    stepsLeft cfg { s with system := after } < stepsLeft cfg s := by
  have counted := draining.sound.counted
  cases step with
  | worker step =>
    have less := worker_less step
    cases step with
    | _ =>
      refine fewer_elsewhere rfl rfl ?_
      unfold besides
      dsimp only at less ⊢
      omega
  | main step =>
    cases step with
    | cancel =>
      refine absurd ?_ changed
      rw [← draining.cancelled]
    | accept accepting | join accepting => exact absurd accepting draining.left
    | close joining =>
      refine fewer_elsewhere rfl rfl ?_
      simp [besides, joining, stagesLeft, workLeft]
    | stop finishing =>
      refine fewer_elsewhere rfl rfl ?_
      simp [besides, finishing, stagesLeft, workLeft]
  | producer step =>
    rcases producerStep_mover counted step with ⟨i, present, moved⟩ | ⟨ch, rfl⟩
    · have mine : i = expiry := by
        by_contra connection
        exact moved (apart i connection)
      subst mine
      rw [← Function.update_eq_self expiry s.client]
      exact fewer_by counted step present moved (by simpa [owedBy] using expiry_less cfg step moved stops)
    · have stored : ch ∈ s.system.replyChPool := by
        by_contra missing
        exact changed (by rw [List.erase_of_not_mem missing])
      have shorter := List.length_erase_of_mem stored
      have some := List.length_pos_of_mem stored
      refine fewer_elsewhere rfl rfl ?_
      simp only [besides, workLeft]
      omega

/-- A connection pays for each request before it sends it. -/
theorem Draining.asking (draining : Draining env cfg initial s) {i : Nat} (connection : i ≠ expiry) {body : CommandRequest}
    (wants : (∃ ch, s.system.producer i = .holding body ch) ∨ ∃ req, s.system.producer i = .awaiting req ∧ req.body = body) :
    ∃ next, s.client i = .ask body next ∧ ∀ reply, toDo cfg (next reply) + (commandsOf cfg body).length + 7 ≤ toDo cfg (s.client i) := by
  have talking := draining.conversed.talking i connection
  obtain ⟨n, within⟩ := draining.bounded i
  generalize s.system.producer i = p at talking wants
  generalize s.client i = program at talking within ⊢
  cases talking with
  | between calm =>
    rcases calm with rfl | rfl
    all_goals rcases wants with ⟨_, other⟩ | ⟨_, other, _⟩ <;> cases other
  | told => rcases wants with ⟨_, other⟩ | ⟨_, other, _⟩ <;> cases other
  | @asking _ asked next _ mine =>
    have same : asked = body := by
      rcases wants with ⟨_, rfl⟩ | ⟨_, rfl, rfl⟩
      all_goals
        rcases mine with ⟨_, holding⟩ | ⟨_, awaiting, rfl⟩
        · cases holding <;> rfl
        · cases awaiting <;> rfl
    subst same
    exact ⟨next, rfl, fun reply => Dialogue.rank_next within reply⟩

/-- However a shutdown goes on, less is left to do. -/
theorem Draining.falls (draining : Draining env cfg initial s) (drains : Drains env cfg s after) : stepsLeft cfg after < stepsLeft cfg s := by
  obtain ⟨step, changed, stops⟩ := drains
  have counted := draining.sound.counted
  have unmoved (i : Nat) : Function.update s.client i (s.client i) = s.client := Function.update_eq_self i s.client
  cases step with
  | apart step apart =>
    refine draining.falls_apart step apart ?_ stops
    intro same
    exact changed (by rw [same])
  | accept _ step accepted =>
    cases step with
    | accept accepting => exact absurd accepting draining.left
    | cancel | join | close | stop => exact absurd accepted (Nat.succ_ne_self _).symm
  | @advance i c connection idle top goes =>
    have below : toDo cfg (c.step env.unicode cfg) < toDo cfg (.done c) := step_less goes
    refine fewer_at counted (i := i) (by simp [idle]) rfl ?_ ?_
    · intro j other
      simp only [owedBy, Function.update_of_ne other]
    · simp only [owedBy, connection, if_false, idle, top, owed, Function.update_self]
      omega
  | @ask after i ch body next connection asks step idle holding =>
    rw [← unmoved i]
    refine fewer_by counted step (by simp [idle]) (by simp [idle, holding]) ?_
    simp only [owedBy, connection, if_false, idle, holding, owed, adds, Function.update_self]
    exact Nat.lt_succ_self _
  | @send after i ch body req connection step holding awaiting =>
    obtain ⟨next, asks, paid⟩ := draining.asking connection (.inl ⟨ch, holding⟩)
    have least := paid []
    have same : req.body = body := by
      obtain ⟨news, moves, _⟩ := producerStep_moves step connection
      rw [holding, awaiting] at moves
      cases moves with
      | sends => rfl
    rw [← unmoved i]
    refine fewer_by counted step (by simp [holding]) (by simp [holding, awaiting]) ?_
    simp only [owedBy, connection, if_false, holding, awaiting, owed, adds, same, Function.update_self]
    omega
  | @receive after i ch req reply connection step awaiting answered =>
    obtain ⟨next, asks, paid⟩ := draining.asking connection (.inr ⟨req, awaiting, rfl⟩)
    have least := paid reply
    rw [← unmoved i]
    refine fewer_by counted step (by simp [awaiting]) (by simp [awaiting, answered]) ?_
    simp only [owedBy, connection, if_false, awaiting, answered, asks, owed, adds, Function.update_self] at least ⊢
    omega
  | @resume after i ch reply body next connection asks step answered idle =>
    refine fewer_by counted step (by simp [answered]) (by simp [answered, idle]) ?_
    simp only [owedBy, connection, if_false, answered, idle, asks, owed, adds, Function.update_self]
    omega
  | @leave after i connection _ step idle gone =>
    rw [← unmoved i]
    refine fewer_by counted step (by simp [idle]) (by simp [idle, gone]) ?_
    simp only [owedBy, connection, if_false, idle, gone, owed, adds]
    omega

theorem drains_beside (step : ProcessStep env cfg s after)
    (same : after.system.producer expiry = s.system.producer expiry) (changed : after ≠ s) : Drains env cfg s after := by
  refine ⟨step, changed, ?_⟩
  intro persists
  rcases persists with ⟨idle, _, _, holding⟩ | ⟨_, _, _, holding, awaiting⟩
  · rw [same, idle] at holding
    cases holding
  · rw [same, holding] at awaiting
    cases awaiting

theorem drains_apart {after : System} (step : Step env cfg s.system after) (same : after.producer = s.system.producer)
    (changed : after ≠ s.system) : Drains env cfg s { s with system := after } := by
  refine drains_beside (.apart step fun i _ => congrFun same i) (congrFun same expiry) ?_
  intro all
  exact changed (congrArg Process.system all)

theorem drains_connection {i : Nat} (step : ProcessStep env cfg s after)
    (same : after.system.producer expiry = s.system.producer expiry) (changed : after.system.producer i ≠ s.system.producer i) :
    Drains env cfg s after := by
  refine drains_beside step same ?_
  intro all
  exact changed (by rw [all])

theorem Draining.worker_moves (draining : Draining env cfg initial s) (busy : s.system.worker.current ++ s.system.commandCh ≠ []) :
    Panicking env cfg s ∨ ∃ after, Drains env cfg s after := by
  rcases draining.sound.works busy with crash | ⟨after, step, less⟩
  · exact .inl (.inl crash)
  · refine .inr ⟨_, drains_apart (.worker step) ?_ ?_⟩
    · cases step with
      | _ => rfl
    · intro same
      rw [same] at less
      exact Nat.lt_irrefl _ less

/-- With nothing left for the worker, the reply to a request has come. -/
theorem Draining.reply_there (draining : Draining env cfg initial s) (quiet : s.system.worker.current ++ s.system.commandCh = [])
    {i : Nat} {req : SentRequest} (awaiting : s.system.producer i = .awaiting req) :
    ∃ reply, s.system.channels req.replych = some reply := by
  have sound := draining.sound
  have sent := (sound.matched.asked i req awaiting).2
  rw [sound.flow.order, quiet, List.append_nil] at sent
  obtain ⟨⟨done, reply⟩, executed, rfl⟩ := List.mem_map.mp sent
  rcases sound.matched.delivered done reply executed with got | ⟨_, stored⟩
  · exact absurd got (draining.unanswered i done awaiting reply)
  · exact ⟨reply, stored⟩

theorem Draining.connection_moves (draining : Draining env cfg initial s) (quiet : s.system.worker.current ++ s.system.commandCh = [])
    (opened : s.system.closed = false) {i : Nat} (connection : i ≠ expiry) (present : s.system.producer i ≠ .gone) :
    Panicking env cfg s ∨ ∃ after, Drains env cfg s after := by
  have empty : s.system.commandCh = [] := (List.append_eq_nil_iff.mp quiet).2
  have elsewhere (next : Producer) : Function.update s.system.producer i next expiry = s.system.producer expiry :=
    Function.update_of_ne (Ne.symm connection) _ _
  cases here : s.system.producer i with
  | gone => exact absurd here present
  | idle =>
    cases program : s.client i with
    | failed p => exact .inl (.inr ⟨i, p, program⟩)
    | ask body next =>
      exact .inr ⟨_, drains_connection (i := i) (.ask connection program (.getNew body connection here) here (Function.update_self ..))
        (elsewhere _) (by simp [here])⟩
    | done c =>
      cases goes : c.ended with
      | false =>
        refine .inr ⟨_, drains_beside (.advance connection here program goes) rfl ?_⟩
        intro all
        have same := congrArg (fun s => toDo cfg (s.client i)) all
        dsimp only at same
        rw [Function.update_self, program] at same
        exact Nat.ne_of_lt (step_less goes) same
      | true =>
        refine .inr ⟨_, drains_connection (i := i) (.leave connection ?_ (.leave connection here) here ?_) (elsewhere _) ?_⟩
        · simp [program]
        · exact Function.update_self ..
        · simp [here]
  | holding body ch =>
    refine .inr ⟨_, drains_connection (i := i) (.send connection (.send here opened ?_) here (Function.update_self ..)) (elsewhere _) ?_⟩
    · rw [empty]
      exact Nat.succ_pos _
    · simp [here]
  | awaiting req =>
    obtain ⟨reply, full⟩ := draining.reply_there quiet here
    have step := ProducerStep.receive here full
    exact .inr ⟨_, drains_connection (i := i) (.receive connection step here (Function.update_self ..)) (elsewhere _) (by simp [here])⟩
  | answered reply ch =>
    have talking := draining.conversed.talking i connection
    have asks : ∃ body next, s.client i = .ask body next := by
      rw [here] at talking
      generalize s.client i = program at talking ⊢
      cases talking with
      | between calm => rcases calm with other | other <;> cases other
      | asking => exact ⟨_, _, rfl⟩
      | told => exact ⟨_, _, rfl⟩
    obtain ⟨body, next, asks⟩ := asks
    have step := ProducerStep.put connection here
    exact .inr ⟨_, drains_connection (i := i) (.resume connection asks step here (Function.update_self ..)) (elsewhere _) (by simp [here])⟩

theorem Draining.expiry_moves (draining : Draining env cfg initial s) (quiet : s.system.worker.current ++ s.system.commandCh = [])
    (present : s.system.producer expiry ≠ .gone) : ∃ after, Drains env cfg s after := by
  have drains {next : Producer} {after : System} (moved : after.producer = Function.update s.system.producer expiry next)
      (step : ProducerStep s.system after) (other : next ≠ s.system.producer expiry) (stops : ¬ Persists s.system after) :
      ∃ after, Drains env cfg s after := by
    refine ⟨_, .apart (.producer step) ?_, ?_, stops⟩
    · intro i connection
      rw [moved, Function.update_of_ne connection]
    · intro all
      apply other
      have same := congrArg (fun s => s.system.producer expiry) all
      dsimp only at same
      rw [moved, Function.update_self] at same
      exact same
  cases here : s.system.producer expiry with
  | gone => exact absurd here present
  | idle => exact drains rfl (.stop draining.cancelled (.inl here)) (by simp [here]) (by simp [Persists])
  | holding body ch => exact drains rfl (.stop draining.cancelled (.inr ⟨body, ch, here⟩)) (by simp [here]) (by simp [Persists])
  | awaiting req =>
    obtain ⟨reply, full⟩ := draining.reply_there quiet here
    exact drains rfl (.receive here full) (by simp [here]) (by simp [Persists])
  | answered reply ch =>
    by_cases many : ∃ deletedKeys, decodeInteger reply = some deletedKeys ∧ 5 ≤ deletedKeys
    · obtain ⟨deletedKeys, decoded, many⟩ := many
      exact drains rfl (.sweep here decoded many) (by simp [here]) (by simp [Persists, here])
    · refine drains rfl (.rest here ?_) (by simp [here]) (by simp [Persists])
      intro deletedKeys decoded
      by_contra enough
      exact many ⟨deletedKeys, decoded, Int.not_lt.mp enough⟩

theorem Draining.drained (draining : Draining env cfg initial s) (stopped : s.system.stage = .stopped) : Drained s := by
  have served := draining.sound.served
  refine ⟨stopped, served.all stopped, ?_⟩
  intro req reply done
  rcases served.delivered req reply done with got | ⟨awaiting, _⟩
  · exact got
  · have closed := draining.sound.counted.closing.mpr (.inr stopped)
    rw [served.closed closed] at awaiting
    cases awaiting

theorem Draining.moves (draining : Draining env cfg initial s) :
    (Drained s ∨ Panicking env cfg s) ∨ ∃ after, Drains env cfg s after := by
  have counted := draining.sound.counted
  have works (busy : s.system.worker.current ++ s.system.commandCh ≠ []) :
      (Drained s ∨ Panicking env cfg s) ∨ ∃ after, Drains env cfg s after :=
    (draining.worker_moves busy).imp_left .inr
  by_cases quiet : s.system.worker.current ++ s.system.commandCh = []
  · cases stage : s.system.stage with
    | accepting => exact absurd stage draining.left
    | stopped => exact .inl (.inl (draining.drained stage))
    | draining =>
      have closed := counted.closing.mpr (.inl stage)
      have empty := List.append_eq_nil_iff.mp quiet
      cases worker : s.system.worker with
      | running => simp [worker, Worker.current] at empty
      | waiting =>
        refine .inr ⟨_, drains_apart (.worker (.finish worker empty.2 closed)) rfl ?_⟩
        intro same
        cases worker.symm.trans (congrArg System.worker same).symm
      | finished =>
        refine .inr ⟨_, drains_apart (.main (.stop stage worker)) rfl ?_⟩
        intro same
        cases stage.symm.trans (congrArg System.stage same).symm
    | joining =>
      have opened : s.system.closed = false := by
        rw [← Bool.not_eq_true, counted.closing]
        simp [stage]
      by_cases done : s.system.producers = 0
      · refine .inr ⟨_, drains_apart (.main (.close stage done)) rfl ?_⟩
        intro same
        cases stage.symm.trans (congrArg System.stage same).symm
      · rw [counted.counter, Finset.card_eq_zero] at done
        obtain ⟨i, alive⟩ := Finset.nonempty_iff_ne_empty.mpr done
        have present := (Finset.mem_filter.mp alive).2
        by_cases first : i = expiry
        · subst first
          exact .inr (draining.expiry_moves quiet present)
        · exact (draining.connection_moves quiet opened first present).imp_left .inr
  · exact works quiet

end

/-- Once the context is cancelled and the accept loop has ended, every way of going on
comes to the end of Run after finitely many steps, with each request executed and each
reply received, unless a goroutine panics. -/
theorem shutdown_completes {s : Process} (run : Relation.ReflTransGen (ProcessStep env cfg) (.start initial) s)
    (cancelled : s.system.cancelled = true) (left : s.system.stage ≠ .accepting) :
    Inevitable (Drains env cfg) (fun after => Drained after ∨ Panicking env cfg after) s := by
  have reached := reached_system run
  have start : Draining env cfg initial s :=
    ⟨.reached reached, .reached run, .reached reached, .reached run, cancelled, left⟩
  exact .of_measure (stepsLeft cfg) (fun _ _ draining drains => draining.step drains.1) (fun _ draining => draining.moves)
    (fun _ _ draining drains => draining.falls drains) start

/-- A shutdown in the middle of a client's PING, which is in the command channel. -/
theorem ping_drained :
    ∃ s, Relation.ReflTransGen (ProcessStep (Storage.Env.still 0) .plain) (.start ⟨.new .noeviction, none⟩) s ∧
      s.system.sent.map (·.body.cmd.name) = [ascii "PING"] ∧ s.system.executed = [] ∧
      Inevitable (Drains (.still 0) .plain) (fun after => Drained after ∨ Panicking (.still 0) .plain after) s := by
  have reads : (Connection.accept [ascii "*1\r\n$4\r\nPING\r\n"]).step (Storage.Env.still 0).unicode .plain = .done pingRead := rfl
  have asks : pingRead.step (Storage.Env.still 0).unicode .plain = .ask ⟨⟨ascii "PING", []⟩, [], []⟩ fun reply =>
      .done ({ pingRead with writer := pingRead.writer.write reply } : Connection).finish := rfl
  have run : ∃ s, Relation.ReflTransGen (ProcessStep (Storage.Env.still 0) .plain) (.start ⟨.new .noeviction, none⟩) s ∧
      s.system.sent.map (·.body.cmd.name) = [ascii "PING"] ∧ s.system.executed = [] ∧ s.system.cancelled = true ∧ s.system.stage = .joining :=
    ⟨_, .head (.accept [ascii "*1\r\n$4\r\nPING\r\n"] (.accept rfl) rfl) <| .head (.advance (i := 1) (by decide) rfl rfl rfl) <|
      .head (.advance (i := 1) (by decide) rfl reads rfl) <|
      .head (.ask (i := 1) (by decide) asks (.getNew (i := 1) _ (by decide) rfl) rfl rfl) <|
      .head (.send (i := 1) (by decide) (.send (i := 1) rfl rfl (by decide)) rfl rfl) <|
      .head (.apart (.main .cancel) fun _ _ => rfl) <| .head (.apart (.main (.join rfl rfl)) fun _ _ => rfl) .refl, rfl, rfl, rfl, rfl⟩
  obtain ⟨s, run, sent, executed, cancelled, joining⟩ := run
  exact ⟨s, run, sent, executed, shutdown_completes run cancelled (by simp [joining])⟩

end Rediska.Proofs
