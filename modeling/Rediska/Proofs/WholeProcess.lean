import Rediska.Proofs.RequestService
import Rediska.Server.Clients

/-! Connections, worker, expiry and shutdown in one process: what the goroutines of Run
owe each other holds for the connections as they are, and each of them is in the middle
of the conversation its replies have led to. -/

namespace Rediska.Proofs
open Go Core Commands Server Logic

variable {env : Storage.Env} {cfg : Config} {initial : World}

theorem processStep_system {s after : Process} (step : ProcessStep env cfg s after) :
    after.system = s.system ∨ Step env cfg s.system after.system := by
  cases step with
  | apart step => exact .inr step
  | accept _ step => exact .inr (.main step)
  | advance => exact .inl rfl
  | send _ step | receive _ step => exact .inr (.producer step)
  | ask _ _ step | resume _ _ step | leave _ _ step => exact .inr (.producer step)

theorem reached_system {s : Process} (run : Relation.ReflTransGen (ProcessStep env cfg) (.start initial) s) :
    Relation.ReflTransGen (Step env cfg) (.start initial) s.system := by
  induction run with
  | refl => exact .refl
  | tail _ step ih =>
    rcases processStep_system step with same | moved
    · exact same ▸ ih
    · exact ih.tail moved

def receivedBy (i : Nat) (received : List (Nat × SentRequest × Bytes)) : List (SentRequest × Bytes) :=
  (received.filter fun got => got.1 = i).map (·.2)

def executedFor (i : Nat) (executed : List (SentRequest × Bytes)) : List (SentRequest × Bytes) :=
  executed.filter fun done => done.1.producer = i

/-- The reply that lies in the channel a producer waits at. -/
def arriving (producer : Producer) (channels : Nat → Option Bytes) : List (SentRequest × Bytes) :=
  match producer with
  | .awaiting req => ((channels req.replych).map fun reply => (req, reply)).toList
  | .idle | .holding _ _ | .answered _ _ | .gone => []

def InTurn (s : System) : Prop :=
  ∀ i, executedFor i s.executed = receivedBy i s.received ++ arriving (s.producer i) s.channels

section
variable {s after : System}

theorem arriving_apart {producer : Producer} (channels : Nat → Option Bytes) (busy : ∀ req, producer ≠ .awaiting req) :
    arriving producer channels = [] := by
  cases producer with
  | awaiting req => exact absurd rfl (busy req)
  | idle | holding | answered | gone => rfl

/-- A producer that neither was waiting for a reply nor is now. -/
theorem InTurn.move (inTurn : InTurn s) {i : Nat} {next : Producer} (before : ∀ req, s.producer i ≠ .awaiting req)
    (now : ∀ req, next ≠ .awaiting req) (j : Nat) :
    executedFor j s.executed = receivedBy j s.received ++ arriving (Function.update s.producer i next j) s.channels := by
  have old := inTurn j
  by_cases same : j = i
  · subst same
    rw [Function.update_self, arriving_apart s.channels now, ← arriving_apart s.channels before]
    exact old
  · rw [Function.update_of_ne same]
    exact old

/-- Another producer's channel is not the one that changes. -/
theorem arriving_elsewhere (owned : Owned s) {i j : Nat} {req : SentRequest} (waiting : s.producer i = .awaiting req) (apart : j ≠ i)
    (content : Option Bytes) :
    arriving (s.producer j) (Function.update s.channels req.replych content) = arriving (s.producer j) s.channels := by
  cases other : s.producer j with
  | awaiting mine =>
    have different : mine.replych ≠ req.replych := by
      intro same
      apply apart
      apply owned.single j i req.replych
      · simp [other, Producer.channel, same]
      · simp [waiting, Producer.channel]
    rw [arriving, arriving, Function.update_of_ne different]
  | idle | holding | answered | gone => rfl

theorem InTurn.worker (inTurn : InTurn s) (sound : Sound env cfg initial s) (step : WorkerStep env cfg s after) : InTurn after := by
  cases step with
  | take | run | finish => exact inTurn
  | @reply req replies running room =>
    have pending : req ∈ s.worker.current ++ s.commandCh := by simp [running, Worker.current]
    have waiting := sound.matched.inFlight req pending
    intro j
    have old := inTurn j
    simp only [executedFor, List.filter_append] at old ⊢
    by_cases mine : req.producer = j
    · subst mine
      rw [waiting, arriving, room] at old
      rw [waiting, arriving, Function.update_self, old]
      simp
    · rw [arriving_elsewhere sound.owned waiting (Ne.symm mine), old]
      simp [mine]

theorem InTurn.producer (inTurn : InTurn s) (sound : Sound env cfg initial s) (step : ProducerStep s after) : InTurn after := by
  cases step with
  | drop | sendClosed => exact inTurn
  | @send i ch body holding =>
    intro j
    have old := inTurn j
    by_cases mine : j = i
    · subst mine
      have empty : s.channels ch = none := by
        cases stored : s.channels ch with
        | none => rfl
        | some reply =>
          obtain ⟨k, other, awaiting, placed, _⟩ := sound.matched.full ch reply stored
          have same := sound.owned.single j k ch (by simp [holding, Producer.channel]) (by simp [awaiting, Producer.channel, placed])
          subst same
          rw [holding] at awaiting
          cases awaiting
      rw [holding, arriving] at old
      dsimp only
      rw [Function.update_self, arriving, empty, old]
      rfl
    · dsimp only
      rw [Function.update_of_ne mine, old]
  | @receive i req reply awaiting full =>
    intro j
    have old := inTurn j
    dsimp only
    by_cases mine : j = i
    · subst mine
      rw [awaiting, arriving, full] at old
      rw [Function.update_self, arriving, old]
      simp [receivedBy]
    · rw [Function.update_of_ne mine, arriving_elsewhere sound.owned awaiting mine, old]
      simp [receivedBy, Ne.symm mine]
  | get _ _ idle | getNew _ _ idle | tick idle | leave _ idle => exact inTurn.move (by simp [idle]) (by simp)
  | put _ answered | sweep answered | rest answered => exact inTurn.move (by simp [answered]) (by simp)
  | stop _ selecting =>
    refine inTurn.move ?_ (by simp)
    intro req waiting
    rcases selecting with idle | ⟨_, _, holding⟩
    · rw [idle] at waiting
      cases waiting
    · rw [holding] at waiting
      cases waiting

theorem InTurn.main (inTurn : InTurn s) (sound : Sound env cfg initial s) (step : MainStep s after) : InTurn after := by
  cases step with
  | accept =>
    refine inTurn.move ?_ (by simp)
    intro req waiting
    rw [sound.counted.unborn s.spawned (Nat.le_refl _)] at waiting
    cases waiting
  | cancel | join | close | stop => exact inTurn

theorem InTurn.start (world : World) : InTurn (.start world) := by
  intro i
  have calm : ∀ req, (System.start world).producer i ≠ .awaiting req := by
    intro req waiting
    by_cases first : i = expiry
    · subst first
      cases waiting
    · simp [System.start, first] at waiting
  rw [arriving_apart _ calm]
  rfl

theorem InTurn.reached (run : Relation.ReflTransGen (Step env cfg) (.start initial) s) : InTurn s := by
  induction run with
  | refl => exact .start initial
  | tail run step ih =>
    have sound := Sound.reached run
    cases step with
    | worker step => exact ih.worker sound step
    | producer step => exact ih.producer sound step
    | main step => exact ih.main sound step

end

/-- How a connection's place among the producers changes, and the replies it receives. -/
inductive Moves (i : Nat) : Producer → Producer → List (SentRequest × Bytes) → Prop
  | stays (p : Producer) : Moves i p p []
  | accepted : Moves i .gone .idle []
  | asks (body : CommandRequest) (ch : Nat) : Moves i .idle (.holding body ch) []
  | sends (number : Nat) (body : CommandRequest) (ch : Nat) : Moves i (.holding body ch) (.awaiting ⟨number, i, body, ch⟩) []
  | hears (req : SentRequest) (reply : Bytes) : Moves i (.awaiting req) (.answered reply req.replych) [(req, reply)]
  | puts (reply : Bytes) (ch : Nat) : Moves i (.answered reply ch) .idle []
  | leaves : Moves i .idle .gone []

theorem Moves.nothing {i : Nat} {p : Producer} {news : List (SentRequest × Bytes)} (moves : Moves i p p news) : news = [] := by
  cases moves with
  | stays => rfl

theorem Moves.update {producer : Nat → Producer} {i : Nat} {next : Producer} (moves : Moves i (producer i) next []) (j : Nat) :
    Moves j (producer j) (Function.update producer i next j) [] := by
  by_cases same : j = i
  · subst same
    rw [Function.update_self]
    exact moves
  · rw [Function.update_of_ne same]
    exact .stays _

section
variable {s after : System}

theorem producerStep_moves (step : ProducerStep s after) {j : Nat} (connection : j ≠ expiry) :
    ∃ news, Moves j (s.producer j) (after.producer j) news ∧ receivedBy j after.received = receivedBy j s.received ++ news := by
  have elsewhere (next : Producer) : Moves j (s.producer j) (Function.update s.producer expiry next j) [] := by
    rw [Function.update_of_ne connection]
    exact .stays _
  cases step with
  | drop | sendClosed => exact ⟨[], .stays _, (List.append_nil _).symm⟩
  | get body _ idle | getNew body _ idle => exact ⟨[], Moves.update (idle ▸ .asks _ _) j, (List.append_nil _).symm⟩
  | send holding => exact ⟨[], Moves.update (holding ▸ .sends _ _ _) j, (List.append_nil _).symm⟩
  | @receive i req reply awaiting =>
    by_cases mine : j = i
    · subst mine
      refine ⟨[(req, reply)], ?_, by simp [receivedBy]⟩
      dsimp only
      rw [Function.update_self, awaiting]
      exact .hears req reply
    · refine ⟨[], ?_, by simp [receivedBy, Ne.symm mine]⟩
      dsimp only
      rw [Function.update_of_ne mine]
      exact .stays _
  | put _ answered => exact ⟨[], Moves.update (answered ▸ .puts _ _) j, (List.append_nil _).symm⟩
  | leave _ idle => exact ⟨[], Moves.update (idle ▸ .leaves) j, (List.append_nil _).symm⟩
  | tick | sweep | rest | stop => exact ⟨[], elsewhere _, (List.append_nil _).symm⟩

theorem step_moves (counted : Counted s) (step : Step env cfg s after) {j : Nat} (connection : j ≠ expiry) :
    ∃ news, Moves j (s.producer j) (after.producer j) news ∧ receivedBy j after.received = receivedBy j s.received ++ news := by
  cases step with
  | producer step => exact producerStep_moves step connection
  | worker step =>
    cases step with
    | take | run | reply | finish => exact ⟨[], .stays _, (List.append_nil _).symm⟩
  | main step =>
    cases step with
    | accept =>
      have unborn := counted.unborn s.spawned (Nat.le_refl _)
      exact ⟨[], Moves.update (unborn ▸ .accepted) j, (List.append_nil _).symm⟩
    | cancel | join | close | stop => exact ⟨[], .stays _, (List.append_nil _).symm⟩

/-- One producer moves at a time. -/
theorem producerStep_one (step : ProducerStep s after) : ∃ i next, after.producer = Function.update s.producer i next := by
  cases step with
  | drop | sendClosed => exact ⟨0, s.producer 0, (Function.update_eq_self 0 s.producer).symm⟩
  | get | getNew | send | receive | put | leave | tick | sweep | rest | stop => exact ⟨_, _, rfl⟩

theorem producerStep_others (step : ProducerStep s after) {i j : Nat} (changed : after.producer i ≠ s.producer i) (apart : j ≠ i) :
    after.producer j = s.producer j := by
  obtain ⟨k, next, one⟩ := producerStep_one step
  rw [one] at changed ⊢
  have mover : i = k := by
    by_contra other
    exact changed (Function.update_of_ne other _ _)
  rw [Function.update_of_ne (mover ▸ apart)]

end

/-- `heard` are the requests of a connection that were answered. Its program has gone on
with all these replies, but for one that it has not put its channel back for. -/
inductive Conversing (unicode : CaseTable) (cfg : Config) (chunks : List Bytes) (heard : List (CommandRequest × Bytes)) :
    Producer → Goroutine → Prop
  | between {p : Producer} {program : Goroutine} {rounds : Nat} (calm : p = .idle ∨ p = .gone)
      (talk : Talk (Connection.step unicode cfg) Connection.ended (.accept chunks) rounds heard program) :
      Conversing unicode cfg chunks heard p program
  | asking {p : Producer} {body : CommandRequest} {next : Bytes → Goroutine} {rounds : Nat}
      (wants : (∃ ch, p = .holding body ch) ∨ ∃ req, p = .awaiting req ∧ req.body = body)
      (talk : Talk (Connection.step unicode cfg) Connection.ended (.accept chunks) rounds heard (.ask body next)) :
      Conversing unicode cfg chunks heard p (.ask body next)
  | told {reply : Bytes} {ch : Nat} {body : CommandRequest} {next : Bytes → Goroutine} {rounds : Nat}
      {before : List (CommandRequest × Bytes)}
      (talk : Talk (Connection.step unicode cfg) Connection.ended (.accept chunks) rounds before (.ask body next))
      (last : heard = before ++ [(body, reply)]) : Conversing unicode cfg chunks heard (.answered reply ch) (.ask body next)

/-- The answered requests of a connection. -/
def exchange (done : List (SentRequest × Bytes)) : List (CommandRequest × Bytes) := done.map fun d => (d.1.body, d.2)

section
variable {unicode : CaseTable} {chunks : List Bytes} {heard : List (CommandRequest × Bytes)}

theorem Conversing.ask {p : Producer} {body : CommandRequest} {next : Bytes → Goroutine} (idle : p = .idle)
    (talking : Conversing unicode cfg chunks heard p (.ask body next)) (ch : Nat) :
    Conversing unicode cfg chunks heard (.holding body ch) (.ask body next) := by
  subst idle
  cases talking with
  | between _ talk => exact .asking (.inl ⟨ch, rfl⟩) talk
  | asking wants =>
    rcases wants with ⟨_, other⟩ | ⟨_, other, _⟩
    all_goals cases other

theorem Conversing.send {body : CommandRequest} {ch : Nat} {program : Goroutine} {req : SentRequest} (same : req.body = body)
    (talking : Conversing unicode cfg chunks heard (.holding body ch) program) :
    Conversing unicode cfg chunks heard (.awaiting req) program := by
  cases talking with
  | between calm => rcases calm with other | other <;> cases other
  | asking wants talk =>
    rcases wants with ⟨_, other⟩ | ⟨_, other, _⟩
    · cases other
      exact .asking (.inr ⟨req, rfl, same⟩) talk
    · cases other

theorem Conversing.receive {req : SentRequest} {program : Goroutine} (reply : Bytes) (ch : Nat)
    (talking : Conversing unicode cfg chunks heard (.awaiting req) program) :
    Conversing unicode cfg chunks (heard ++ [(req.body, reply)]) (.answered reply ch) program := by
  cases talking with
  | between calm => rcases calm with other | other <;> cases other
  | asking wants talk =>
    rcases wants with ⟨_, other⟩ | ⟨_, other, rfl⟩
    · cases other
    · cases other
      exact .told talk rfl

theorem Conversing.resume {reply : Bytes} {ch : Nat} {body : CommandRequest} {next : Bytes → Goroutine}
    (talking : Conversing unicode cfg chunks heard (.answered reply ch) (.ask body next)) :
    Conversing unicode cfg chunks heard .idle (next reply) := by
  cases talking with
  | between calm => rcases calm with other | other <;> cases other
  | asking wants => rcases wants with ⟨_, other⟩ | ⟨_, other, _⟩ <;> cases other
  | told talk last =>
    subst last
    exact .between (.inl rfl) (talk.hear reply)

theorem Conversing.leave {program : Goroutine} (talking : Conversing unicode cfg chunks heard .idle program) :
    Conversing unicode cfg chunks heard .gone program := by
  cases talking with
  | between _ talk => exact .between (.inr rfl) talk
  | asking wants => rcases wants with ⟨_, other⟩ | ⟨_, other, _⟩ <;> cases other

theorem Conversing.advance {c : Connection} (goes : c.ended = false) (talking : Conversing unicode cfg chunks heard .idle (.done c)) :
    Conversing unicode cfg chunks heard .idle (c.step unicode cfg) := by
  cases talking with
  | between _ talk => exact .between (.inl rfl) (talk.again goes)

end

/-- Connections that were not accepted yet have heard nothing. -/
structure Conversed (env : Storage.Env) (cfg : Config) (s : Process) : Prop where
  talking : ∀ i, i ≠ expiry →
    Conversing env.unicode cfg (s.input i) (exchange (receivedBy i s.system.received)) (s.system.producer i) (s.client i)
  silent : ∀ i, s.system.spawned ≤ i → receivedBy i s.system.received = []
  born : expiry < s.system.spawned

theorem spawned_grows {s after : System} (step : Step env cfg s after) : s.spawned ≤ after.spawned := by
  cases step with
  | worker step =>
    cases step with
    | _ => exact Nat.le_refl _
  | producer step =>
    cases step with
    | _ => exact Nat.le_refl _
  | main step =>
    cases step with
    | accept => exact Nat.le_succ _
    | cancel | join | close | stop => exact Nat.le_refl _

theorem Conversed.start (world : World) : Conversed env cfg (.start world) := by
  refine ⟨?_, fun _ _ => rfl, Nat.one_pos⟩
  intro i connection
  refine .between (.inr ?_) .begin
  simp [Process.start, System.start, connection]

section
variable {s : Process} {after : System}

theorem Conversed.silence (conversed : Conversed env cfg s) (sound : Sound env cfg initial s.system) (step : Step env cfg s.system after)
    (i : Nat) (beyond : after.spawned ≤ i) : receivedBy i after.received = [] := by
  have before := Nat.le_trans (spawned_grows step) beyond
  have connection : i ≠ expiry := by
    have born := conversed.born
    omega
  obtain ⟨news, moves, got⟩ := step_moves sound.counted step connection
  rw [sound.counted.unborn i before] at moves
  have nothing : news = [] := by
    generalize after.producer i = p at moves
    cases moves <;> rfl
  rw [got, conversed.silent i before, nothing]
  rfl

/-- A connection whose place does not change has heard nothing new. -/
theorem Conversed.stays (conversed : Conversed env cfg s) (sound : Sound env cfg initial s.system) (step : Step env cfg s.system after)
    {i : Nat} (connection : i ≠ expiry) (same : after.producer i = s.system.producer i) :
    Conversing env.unicode cfg (s.input i) (exchange (receivedBy i after.received)) (after.producer i) (s.client i) := by
  obtain ⟨news, moves, got⟩ := step_moves sound.counted step connection
  rw [same] at moves ⊢
  rw [got, moves.nothing, List.append_nil]
  exact conversed.talking i connection

/-- A step of one connection's goroutine, and what it is to that connection. -/
theorem Conversed.moved (conversed : Conversed env cfg s) (sound : Sound env cfg initial s.system) (step : ProducerStep s.system after)
    {i : Nat} {program : Goroutine} (connection : i ≠ expiry) (changed : after.producer i ≠ s.system.producer i)
    (mine : ∀ news, Moves i (s.system.producer i) (after.producer i) news →
      Conversing env.unicode cfg (s.input i) (exchange (receivedBy i s.system.received ++ news)) (after.producer i) program) :
    Conversed env cfg { s with system := after, client := Function.update s.client i program } := by
  have step' : Step env cfg s.system after := .producer step
  refine ⟨?_, conversed.silence sound step', Nat.lt_of_lt_of_le conversed.born (spawned_grows step')⟩
  intro j other
  dsimp only
  by_cases same : j = i
  · subst same
    obtain ⟨news, moves, got⟩ := producerStep_moves step connection
    rw [Function.update_self, got]
    exact mine news moves
  · rw [Function.update_of_ne same]
    exact conversed.stays sound step' other (producerStep_others step changed same)

end

theorem Conversed.step {s after : Process} (conversed : Conversed env cfg s) (sound : Sound env cfg initial s.system)
    (step : ProcessStep env cfg s after) : Conversed env cfg after := by
  have unmoved (i : Nat) : Function.update s.client i (s.client i) = s.client := Function.update_eq_self i s.client
  cases step with
  | apart step apart =>
    refine ⟨?_, conversed.silence sound step, Nat.lt_of_lt_of_le conversed.born (spawned_grows step)⟩
    intro i connection
    exact conversed.stays sound step connection (apart i connection)
  | @accept after chunks step accepted =>
    have step' : Step env cfg s.system after := .main step
    refine ⟨?_, conversed.silence sound step', Nat.lt_of_lt_of_le conversed.born (spawned_grows step')⟩
    intro i connection
    dsimp only
    by_cases new : i = s.system.spawned
    · subst new
      cases step with
      | accept =>
        dsimp only
        rw [Function.update_self, Function.update_self, Function.update_self, conversed.silent _ (Nat.le_refl _)]
        exact .between (.inl rfl) .begin
      | cancel | join | close | stop => exact absurd accepted (Nat.succ_ne_self _).symm
    · rw [Function.update_of_ne new, Function.update_of_ne new]
      apply conversed.stays sound step' connection
      cases step with
      | accept => exact Function.update_of_ne new _ _
      | cancel | join | close | stop => rfl
  | @advance i c connection idle top goes =>
    refine ⟨?_, conversed.silent, conversed.born⟩
    intro j other
    have talking := conversed.talking j other
    dsimp only
    by_cases same : j = i
    · subst same
      rw [idle, top] at talking
      rw [Function.update_self, idle]
      exact talking.advance goes
    · rw [Function.update_of_ne same]
      exact talking
  | @ask after i ch body next connection asks step idle holding =>
    have talking := conversed.talking i connection
    rw [← unmoved i]
    refine conversed.moved sound step connection (by simp [idle, holding]) ?_
    intro news moves
    rw [idle, holding] at moves
    rw [idle, asks] at talking
    cases moves with
    | asks =>
      rw [List.append_nil, holding, asks]
      exact talking.ask rfl ch
  | @send after i ch body req connection step holding awaiting =>
    have talking := conversed.talking i connection
    rw [← unmoved i]
    refine conversed.moved sound step connection (by simp [holding, awaiting]) ?_
    intro news moves
    rw [holding, awaiting] at moves
    rw [holding] at talking
    cases moves with
    | sends =>
      rw [List.append_nil, awaiting]
      exact talking.send rfl
  | @receive after i ch req reply connection step awaiting answered =>
    have talking := conversed.talking i connection
    rw [← unmoved i]
    refine conversed.moved sound step connection (by simp [awaiting, answered]) ?_
    intro news moves
    rw [awaiting, answered] at moves
    rw [awaiting] at talking
    cases moves with
    | hears =>
      rw [answered, exchange, List.map_append]
      exact talking.receive reply _
  | @resume after i ch reply body next connection asks step answered idle =>
    have talking := conversed.talking i connection
    refine conversed.moved sound step connection (by simp [answered, idle]) ?_
    intro news moves
    rw [answered, idle] at moves
    rw [answered, asks] at talking
    cases moves with
    | puts =>
      rw [List.append_nil, idle]
      exact talking.resume
  | @leave after i connection _ step idle gone =>
    have talking := conversed.talking i connection
    rw [← unmoved i]
    refine conversed.moved sound step connection (by simp [idle, gone]) ?_
    intro news moves
    rw [idle, gone] at moves
    rw [idle] at talking
    cases moves with
    | leaves =>
      rw [List.append_nil, gone]
      exact talking.leave

theorem Conversed.reached {s : Process} (run : Relation.ReflTransGen (ProcessStep env cfg) (.start initial) s) : Conversed env cfg s := by
  induction run with
  | refl => exact .start initial
  | tail run step ih => exact ih.step (Sound.reached (reached_system run)) step

end Rediska.Proofs
