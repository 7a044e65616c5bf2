import Mathlib.Data.Finset.Card
import Mathlib.Logic.Relation
import Rediska.Proofs.ReplyChannels

/-! Producers and worker together, under every interleaving and up to the end of Run. -/

namespace Rediska.Proofs
open Go Core Commands Server

variable {env : Storage.Env} {cfg : Config} {initial : World} {s after : System}

/-- The producers that have not returned. -/
def live (producer : Nat → Producer) (spawned : Nat) : Finset Nat :=
  (Finset.range spawned).filter fun i => producer i ≠ .gone

theorem live_same {producer : Nat → Producer} {spawned i : Nat} {next : Producer} (before : producer i ≠ .gone)
    (now : next ≠ .gone) : live (Function.update producer i next) spawned = live producer spawned := by
  ext j
  by_cases same : j = i
  · subst same
    simp [live, before, now]
  · simp [live, same]

theorem live_gone {producer : Nat → Producer} {spawned i : Nat} :
    live (Function.update producer i .gone) spawned = (live producer spawned).erase i := by
  ext j
  by_cases same : j = i
  · subst same
    simp [live]
  · simp [live, same]

theorem live_spawn {producer : Nat → Producer} {spawned : Nat} :
    live (Function.update producer spawned .idle) (spawned + 1) = insert spawned (live producer spawned) := by
  ext j
  by_cases same : j = spawned
  · subst same
    simp [live]
  · simp only [live, Finset.mem_filter, Finset.mem_range, Finset.mem_insert, Function.update_of_ne same, same, false_or]
    exact and_congr_left fun _ => by omega

/-- The wait group counts the producers, and the command channel is closed behind the
last of them. -/
structure Tally (producer : Nat → Producer) (spawned producers : Nat) (closed : Bool) (stage : Stage) (worker : Worker)
    (commandCh : List SentRequest) : Prop where
  counter : producers = (live producer spawned).card
  unborn : ∀ i, spawned ≤ i → producer i = .gone
  closing : closed = true ↔ stage = .draining ∨ stage = .stopped
  left : closed = true → ∀ i, producer i = .gone
  finished : worker = .finished → closed = true ∧ commandCh = []
  stopped : stage = .stopped → worker = .finished

def Counted (s : System) : Prop :=
  Tally s.producer s.spawned s.producers s.closed s.stage s.worker s.commandCh

theorem Counted.start (world : World) : Counted (.start world) := by
  refine ⟨rfl, ?_, by simp [System.start], nofun, nofun, nofun⟩
  intro i beyond
  have different : i ≠ expiry := by
    intro same
    subst same
    cases beyond
  simp [System.start, different]

section
variable {producer : Nat → Producer} {spawned producers : Nat} {closed : Bool} {stage : Stage} {worker : Worker}
  {commandCh : List SentRequest}

theorem Tally.opened (counts : Tally producer spawned producers closed stage worker commandCh) {i : Nat}
    (present : producer i ≠ .gone) : closed = false := by
  cases closed with
  | false => rfl
  | true => exact absurd (counts.left rfl i) present

theorem Tally.mem_live (counts : Tally producer spawned producers closed stage worker commandCh) {i : Nat}
    (present : producer i ≠ .gone) : i ∈ live producer spawned := by
  have born : i < spawned := by
    by_contra beyond
    exact present (counts.unborn i (Nat.le_of_not_lt beyond))
  simp [live, born, present]

/-- An update of one producer that is still there. -/
theorem Tally.update (counts : Tally producer spawned producers closed stage worker commandCh) {i : Nat} {next : Producer}
    (present : producer i ≠ .gone) (queue : List SentRequest) {now : Nat}
    (counter : now = (live (Function.update producer i next) spawned).card) :
    Tally (Function.update producer i next) spawned now closed stage worker queue := by
  have opened := counts.opened present
  subst opened
  refine ⟨counter, ?_, counts.closing, nofun, ?_, counts.stopped⟩
  · intro j beyond
    have different : j ≠ i := by
      intro same
      exact present (same ▸ counts.unborn j beyond)
    rw [Function.update_of_ne different]
    exact counts.unborn j beyond
  · intro finished
    cases (counts.finished finished).1

theorem Tally.move (counts : Tally producer spawned producers closed stage worker commandCh) {i : Nat} {next : Producer}
    (present : producer i ≠ .gone) (stays : next ≠ .gone) (queue : List SentRequest) :
    Tally (Function.update producer i next) spawned producers closed stage worker queue :=
  counts.update present queue (by rw [live_same present stays, counts.counter])

theorem Tally.leave (counts : Tally producer spawned producers closed stage worker commandCh) {i : Nat}
    (present : producer i ≠ .gone) :
    Tally (Function.update producer i .gone) spawned (producers - 1) closed stage worker commandCh := by
  apply counts.update present
  rw [live_gone, Finset.card_erase_of_mem (counts.mem_live present), counts.counter]

theorem Tally.spawn (counts : Tally producer spawned producers closed stage worker commandCh) (accepting : stage = .accepting) :
    Tally (Function.update producer spawned .idle) (spawned + 1) (producers + 1) closed stage worker commandCh := by
  have opened : closed ≠ true := by simp [counts.closing, accepting]
  refine ⟨?_, ?_, counts.closing, fun closed => absurd closed opened, counts.finished, counts.stopped⟩
  · rw [live_spawn, Finset.card_insert_of_notMem (by simp [live]), counts.counter]
  · intro i beyond
    rw [Function.update_of_ne (by omega)]
    exact counts.unborn i (by omega)

theorem Tally.close (counts : Tally producer spawned producers closed stage worker commandCh) (done : producers = 0)
    (unfinished : worker ≠ .finished) : Tally producer spawned producers true .draining worker commandCh := by
  refine ⟨counts.counter, counts.unborn, by simp, fun _ => ?_, fun finished => absurd finished unfinished, nofun⟩
  intro i
  by_contra present
  have positive := Finset.card_pos.mpr ⟨i, counts.mem_live present⟩
  have counter := counts.counter
  omega

/-- The worker goes on, which it could not behind the end of Run. -/
theorem Tally.work (counts : Tally producer spawned producers closed stage worker commandCh) {next : Worker}
    (before : worker ≠ .finished) (now : next ≠ .finished) (queue : List SentRequest) :
    Tally producer spawned producers closed stage next queue :=
  ⟨counts.counter, counts.unborn, counts.closing, counts.left, fun finished => absurd finished now,
    fun stopped => absurd (counts.stopped stopped) before⟩

end

theorem Counted.worker (counts : Counted s) (step : WorkerStep env cfg s after) : Counted after := by
  unfold Counted at counts ⊢
  cases step with
  | take waiting => exact counts.work (by simp [waiting]) (by simp) _
  | run running | reply running => exact counts.work (by simp [running]) (by simp) _
  | finish waiting empty closed =>
    exact ⟨counts.counter, counts.unborn, counts.closing, counts.left, fun _ => ⟨closed, empty⟩, fun _ => rfl⟩

theorem Counted.producer (counts : Counted s) (step : ProducerStep s after) : Counted after := by
  unfold Counted at counts ⊢
  cases step with
  | drop | sendClosed => exact counts
  | send holding => exact counts.move (by simp [holding]) (by simp) _
  | receive awaiting => exact counts.move (by simp [awaiting]) (by simp) _
  | get _ _ idle | getNew _ _ idle | tick idle => exact counts.move (by simp [idle]) (by simp) _
  | put _ answered | sweep answered | rest answered => exact counts.move (by simp [answered]) (by simp) _
  | leave _ idle => exact counts.leave (by simp [idle])
  | stop _ selecting =>
    apply counts.leave
    rcases selecting with idle | ⟨_, _, holding⟩
    · simp [idle]
    · simp [holding]

theorem Counted.main (counts : Counted s) (step : MainStep s after) : Counted after := by
  unfold Counted at counts ⊢
  cases step with
  | cancel => exact counts
  | accept accepting => exact counts.spawn accepting
  | join accepting =>
    have opened : s.closed ≠ true := by simp [counts.closing, accepting]
    exact ⟨counts.counter, counts.unborn, by simp [opened], counts.left, counts.finished, nofun⟩
  | close joining done =>
    apply counts.close done
    intro finished
    have closed := (counts.finished finished).1
    simp [counts.closing, joining] at closed
  | stop draining workerdone =>
    have closed : s.closed = true := counts.closing.mpr (.inl draining)
    exact ⟨counts.counter, counts.unborn, by simp [closed], counts.left, counts.finished, fun _ => workerdone⟩

/-- What every interleaving preserves. -/
structure Sound (env : Storage.Env) (cfg : Config) (initial : World) (s : System) : Prop where
  flow : Flow env cfg initial s
  owned : Owned s
  matched : Matched s
  counted : Counted s
  calm : s.panicked = false

theorem Sound.start (world : World) : Sound env cfg world (.start world) :=
  ⟨.start world, .start world, .start world, .start world, rfl⟩

theorem Sound.step (sound : Sound env cfg initial s) (step : Step env cfg s after) : Sound env cfg initial after := by
  obtain ⟨flow, owned, matched, counted, calm⟩ := sound
  have flows := flow.step step
  have owns := owned.step step
  cases step with
  | worker step =>
    refine ⟨flows, owns, matched.worker step, counted.worker step, ?_⟩
    cases step with
    | _ => exact calm
  | producer step =>
    refine ⟨flows, owns, matched.producer flow owned step, counted.producer step, ?_⟩
    cases step with
    | sendClosed holding closed =>
      have gone := counted.left closed
      simp [gone] at holding
    | _ => exact calm
  | main step =>
    have matching : Matched after := by
      cases step with
      | accept accepting =>
        apply Replies.move matched
        · intro req waiting
          rw [counted.unborn s.spawned (Nat.le_refl _)] at waiting
          cases waiting
        · simp
      | _ => exact matched
    refine ⟨flows, owns, matching, counted.main step, ?_⟩
    cases step with
    | _ => exact calm

theorem Sound.reached (run : Relation.ReflTransGen (Step env cfg) (.start initial) s) : Sound env cfg initial s := by
  induction run with
  | refl => exact .start initial
  | tail _ step ih => exact ih.step step

/-- Dispatch panics on the command that is next. -/
def Crashing (env : Storage.Env) (cfg : Config) (s : System) : Prop :=
  ∃ req cmd todo replies p, s.worker = .running req (cmd :: todo) replies ∧ dispatch env cfg s.world cmd = .error p

/-- The steps the worker still has to take for the requests sent so far. -/
def workLeft (cfg : Config) (s : System) : Nat :=
  (s.commandCh.map fun req => (commandsOf cfg req.body).length + 2).sum +
    match s.worker with
    | .running _ todo _ => todo.length + 1
    | .waiting | .finished => 0

/-- The worker finds room for the reply, so it is never stuck with work to do. -/
theorem Sound.reply_room (sound : Sound env cfg initial s) {req : SentRequest} {todo : List Command} {replies : List Bytes}
    (running : s.worker = .running req todo replies) : s.channels req.replych = none := by
  have pending : req ∈ s.worker.current ++ s.commandCh := by simp [running, Worker.current]
  have waiting := sound.matched.inFlight req pending
  cases stored : s.channels req.replych with
  | none => rfl
  | some reply =>
    obtain ⟨j, other, awaiting, placed, done⟩ := sound.matched.full _ _ stored
    obtain rfl := awaiting_unique sound.owned.single waiting awaiting placed
    exact absurd pending (List.disjoint_of_nodup_append sound.flow.nodup (List.mem_map_of_mem done))

theorem Sound.works (sound : Sound env cfg initial s) (busy : s.worker.current ++ s.commandCh ≠ []) :
    Crashing env cfg s ∨ ∃ after, WorkerStep env cfg s after ∧ workLeft cfg after < workLeft cfg s := by
  cases working : s.worker with
  | finished =>
    have empty := (sound.counted.finished working).2
    simp [working, empty, Worker.current] at busy
  | waiting =>
    cases queued : s.commandCh with
    | nil => simp [working, queued, Worker.current] at busy
    | cons req rest =>
      refine .inr ⟨_, .take working queued, ?_⟩
      simp only [workLeft, working, queued, List.map_cons, List.sum_cons]
      omega
  | running req todo replies =>
    cases todo with
    | nil =>
      refine .inr ⟨_, .reply working (sound.reply_room working), ?_⟩
      simp [workLeft, working]
    | cons cmd todo =>
      cases returned : dispatch env cfg s.world cmd with
      | error p => exact .inl ⟨req, cmd, todo, replies, p, working, returned⟩
      | ok result =>
        refine .inr ⟨_, .run working returned, ?_⟩
        simp [workLeft, working]

/-- The worker on its own executes whatever has been sent, if Dispatch returns. -/
theorem Sound.executes (sound : Sound env cfg initial s) :
    ∃ after, Relation.ReflTransGen (WorkerStep env cfg) s after ∧
      (after.executed.map (·.1) = s.sent ∨ Crashing env cfg after) := by
  induction left : workLeft cfg s using Nat.strong_induction_on generalizing s with
  | _ n ih =>
    by_cases idle : s.worker.current ++ s.commandCh = []
    · refine ⟨s, .refl, .inl ?_⟩
      rw [sound.flow.order, idle, List.append_nil]
    · rcases sound.works idle with crash | ⟨next, step, less⟩
      · exact ⟨s, .refl, .inr crash⟩
      · obtain ⟨after, run, done⟩ := ih _ (left ▸ less) (sound.step (.worker step)) rfl
        have same : next.sent = s.sent := by
          cases step with
          | _ => rfl
        rw [same] at done
        exact ⟨after, .head step run, done⟩

/-- What the producers and the worker owe each other. A request sent is done, in work or
queued, in one of them and once, and when Run has ended it is done. The replies are those
of a server that executes whole requests, and the commands of a request ran as one block.
What a producer received is the reply to its own request, and no reply gets lost. Behind
the close of the command channel no producer is left to send. -/
structure Served (env : Storage.Env) (cfg : Config) (initial : World) (s : System) : Prop where
  numbers : s.sent.map (·.number) = List.range s.sent.length
  once : s.sent = s.executed.map (·.1) ++ (s.worker.current ++ s.commandCh)
  all : s.stage = .stopped → s.executed.map (·.1) = s.sent
  serial : ∃ world, Serial env cfg initial s.executed world
  contiguous : ∃ begun, begun <+: s.worker.current.flatMap (runs cfg) ∧
    s.ran = (s.executed.flatMap fun done => runs cfg done.1) ++ begun
  own : ∀ i req reply, (i, req, reply) ∈ s.received → req.producer = i ∧ (req, reply) ∈ s.executed
  delivered : ∀ req reply, (req, reply) ∈ s.executed → (req.producer, req, reply) ∈ s.received ∨
    s.producer req.producer = .awaiting req ∧ s.channels req.replych = some reply
  closed : s.closed = true → ∀ i, s.producer i = .gone
  calm : s.panicked = false

theorem Sound.served (sound : Sound env cfg initial s) : Served env cfg initial s := by
  obtain ⟨⟨numbers, order, working⟩, owned, matched, counted, calm⟩ := sound
  refine ⟨numbers, order, ?_, ?_, ?_, matched.own, matched.delivered, counted.left, calm⟩
  · intro stopped
    have finished := counted.stopped stopped
    rw [order, (counted.finished finished).2, finished, Worker.current, List.append_nil, List.append_nil]
  · generalize s.worker = worker at working
    cases working with
    | between _ serial => exact ⟨_, serial⟩
    | within _ serial => exact ⟨_, serial⟩
  · generalize s.worker = worker at working ⊢
    cases working with
    | between idle _ blocks => exact ⟨[], by simp, by simpa using blocks⟩
    | within first _ parts _ blocks =>
      refine ⟨_, ?_, blocks⟩
      simp [Worker.current, runs, parts]

/-- Under every interleaving of the connections, the expiry goroutine, the worker and
the shutdown, each request sent is executed once, alone and in the order sent, and its
reply reaches the producer that sent it. -/
theorem requests_served (run : Relation.ReflTransGen (Step env cfg) (.start initial) s) :
    Served env cfg initial s ∧
      ∃ after, Relation.ReflTransGen (WorkerStep env cfg) s after ∧
        (after.executed.map (·.1) = s.sent ∨ Crashing env cfg after) :=
  have sound := Sound.reached run
  ⟨sound.served, sound.executes⟩

/-- A client's PING from the accepted connection to the end of Run. -/
theorem requests_served_ping :
    ∃ s, Relation.ReflTransGen (Step (Storage.Env.still 0) .plain) (.start ⟨.new .noeviction, none⟩) s ∧ s.stage = .stopped ∧
      s.received = [(1, ⟨0, 1, ⟨⟨ascii "PING", []⟩, [], []⟩, 0⟩, ascii "+PONG\r\n")] ∧
      Served (Storage.Env.still 0) .plain ⟨.new .noeviction, none⟩ s := by
  have run : ∃ s, Relation.ReflTransGen (Step (Storage.Env.still 0) .plain) (.start ⟨.new .noeviction, none⟩) s ∧
      s.stage = .stopped ∧ s.received = [(1, ⟨0, 1, ⟨⟨ascii "PING", []⟩, [], []⟩, 0⟩, ascii "+PONG\r\n")] := by
    refine ⟨_, .head (.main (.accept rfl)) <| .head (.producer (.getNew (i := 1) ⟨⟨ascii "PING", []⟩, [], []⟩ (by decide) rfl)) <|
      .head (.producer (.send (i := 1) rfl rfl (by decide))) <| .head (.worker (.take rfl rfl)) <| .head (.worker (.run rfl rfl)) <|
      .head (.worker (.reply rfl rfl)) <| .head (.producer (.receive (i := 1) rfl rfl)) <|
      .head (.producer (.put (i := 1) (by decide) rfl)) <| .head (.main .cancel) <| .head (.main (.join rfl rfl)) <|
      .head (.producer (.leave (i := 1) (by decide) rfl)) <| .head (.producer (.stop rfl (.inl rfl))) <|
      .head (.main (.close rfl rfl)) <| .head (.worker (.finish rfl rfl rfl)) <| .head (.main (.stop rfl rfl)) .refl, rfl, rfl⟩
  obtain ⟨s, run, stopped, received⟩ := run
  exact ⟨s, run, stopped, received, (requests_served run).1⟩

end Rediska.Proofs
