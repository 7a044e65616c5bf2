import Rediska.Proofs.Pipelining
import Rediska.Proofs.WholeProcess
import Rediska.Server.Histories

/-! The server as its clients see it: one order of all the commands of all the clients, in
which each connection's commands stand in the order it sent them. -/

namespace Rediska.Proofs
open Go Core Commands Server Logic

variable {env : Storage.Env} {cfg : Config} {initial w after : World}

theorem dispatchWorker_inv {body : CommandRequest} {reply : Bytes} (ran : dispatchWorker env cfg w body = .ok (reply, after)) :
    ∃ replies, runAll (dispatch env cfg) w (commandsOf cfg body) = .ok (replies, after) ∧ reply = replyOf cfg body replies := by
  have commands : ∃ replies after, runAll (dispatch env cfg) w (commandsOf cfg body) = .ok (replies, after) := by
    by_cases batch : body.batch = []
    · by_cases pipeline : body.pipeline = []
      · simp only [dispatchWorker, batch, pipeline, ne_eq, not_true, if_false] at ran
        simp only [commandsOf, batch, pipeline, ne_eq, not_true, if_false]
        exact ⟨_, _, (runAll_cons ran).mpr ⟨[], rfl, rfl⟩⟩
      · simp only [dispatchWorker, batch, pipeline, ne_eq, not_true, not_false_eq_true, if_false, if_true] at ran
        obtain ⟨⟨replies, last⟩, each, _⟩ := bind_ok ran
        rw [dispatchAll_eq] at each
        simp only [commandsOf, batch, pipeline, ne_eq, not_true, not_false_eq_true, if_false, if_true]
        exact ⟨_, _, each⟩
    · simp only [dispatchWorker, batch, ne_eq, not_false_eq_true, if_true, dispatchBatch] at ran
      cases refused : checkClusterBatch cfg body.batch with
      | some refusal => exact ⟨[], w, by simp [commandsOf, batch, refused, runAll]⟩
      | none =>
        rw [refused] at ran
        obtain ⟨⟨replies, last⟩, each, _⟩ := bind_ok ran
        rw [dispatchAll_eq] at each
        simp only [commandsOf, batch, refused, ne_eq, not_false_eq_true, if_true, Option.isSome_none, Bool.false_eq_true, if_false]
        exact ⟨_, _, each⟩
  obtain ⟨replies, final, each⟩ := commands
  have same := dispatchWorker_commands each
  rw [ran] at same
  cases same
  exact ⟨replies, each, rfl⟩

section
variable {first rest : List (SentRequest × Command)} {replies : List Bytes}

theorem takenFrom_append (ran : runAll (dispatch env cfg) w (first.map (·.2)) = .ok (replies, after)) :
    takenFrom env cfg w (first ++ rest) = takenFrom env cfg w first ++ takenFrom env cfg after rest := by
  induction first generalizing w replies with
  | nil =>
    cases ran
    rfl
  | cons item more ih =>
    obtain ⟨reply, next, others, one, later, _⟩ := runAll_uncons ran
    simp only [List.cons_append, takenFrom, one, ih later]

/-- No command is missing when all of them returned. -/
theorem takenFrom_commands (ran : runAll (dispatch env cfg) w (first.map (·.2)) = .ok (replies, after)) :
    (takenFrom env cfg w first).map (fun t => (t.req, t.cmd)) = first := by
  induction first generalizing w replies with
  | nil => rfl
  | cons item more ih =>
    obtain ⟨reply, next, others, one, later, _⟩ := runAll_uncons ran
    simp only [takenFrom, one, List.map_cons, ih later]

end

section
variable {served : Nat → World} {n : Nat} {cmds : List Command} {replies : List Bytes} {req : SentRequest}

/-- `served` gives the states in which the commands of a request are run. -/
def Meets (served : Nat → World) (n : Nat) (taken : List Taken) : Prop :=
  ∀ j t, taken[j]? = some t → served (n + j) = t.world

theorem Meets.head {t : Taken} {taken : List Taken} (meets : Meets served n (t :: taken)) : served n = t.world :=
  meets 0 t rfl

theorem Meets.tail {t : Taken} {taken : List Taken} (meets : Meets served n (t :: taken)) : Meets served (n + 1) taken := by
  intro j u found
  rw [Nat.add_right_comm, Nat.add_assoc]
  exact meets (j + 1) u found

theorem Meets.left {taken more : List Taken} (meets : Meets served n (taken ++ more)) : Meets served n taken := by
  intro j t found
  apply meets j t
  rw [List.getElem?_append_left (List.getElem?_eq_some_iff.mp found).1]
  exact found

theorem Meets.right {taken more : List Taken} (meets : Meets served n (taken ++ more)) :
    Meets served (n + taken.length) more := by
  intro j t found
  rw [Nat.add_assoc]
  apply meets (taken.length + j) t
  rw [List.getElem?_append_right (Nat.le_add_right _ _), Nat.add_sub_cancel_left]
  exact found

theorem among_runs (ran : runAll (dispatch env cfg) w cmds = .ok (replies, after))
    (meets : Meets served n (takenFrom env cfg w (cmds.map fun cmd => (req, cmd)))) :
    runAll (among env cfg served).run n cmds = .ok (replies, n + cmds.length) := by
  induction cmds generalizing w n replies with
  | nil =>
    cases ran
    rfl
  | cons cmd rest ih =>
    obtain ⟨reply, next, others, one, later, rfl⟩ := runAll_uncons ran
    simp only [List.map_cons, takenFrom, one] at meets
    have here : (among env cfg served).run n cmd = .ok (reply, n + 1) := by
      simp only [among, meets.head, one, ok_bind]
    refine (runAll_cons here).mpr ⟨others, ?_, rfl⟩
    rw [ih later meets.tail, List.length_cons]
    congr 2
    omega

/-- A request is answered as the worker answered it. -/
theorem among_serves {body : CommandRequest} {reply : Bytes} (ran : dispatchWorker env cfg w body = .ok (reply, after))
    (meets : Meets served n (takenFrom env cfg w ((commandsOf cfg body).map fun cmd => (req, cmd)))) :
    (among env cfg served).serve n body = .ok (reply, n + (commandsOf cfg body).length) := by
  obtain ⟨replies, each, rfl⟩ := dispatchWorker_inv ran
  have runs := among_runs each meets
  by_cases batch : body.batch = []
  · by_cases pipeline : body.pipeline = []
    · simp only [commandsOf, batch, pipeline, ne_eq, not_true, if_false] at runs ⊢
      obtain ⟨said, m, _, one, ⟨⟩, rfl⟩ := runAll_uncons runs
      simp [Executor.serve, replyOf, batch, pipeline, one]
    · simp only [commandsOf, batch, pipeline, ne_eq, not_true, not_false_eq_true, if_false, if_true] at runs ⊢
      simp [Executor.serve, replyOf, batch, pipeline, runs, ok_bind]
  · have same : commandsOf cfg body = commandsOf cfg (batchRequest body.batch) := by
      unfold commandsOf batchRequest
      rw [if_pos batch, if_pos batch]
    have answer : ∃ final, dispatchBatch env cfg (served n) body.batch = .ok (replyOf cfg body replies, final) := by
      cases refused : checkClusterBatch cfg body.batch with
      | some refusal => exact ⟨served n, by simp [dispatchBatch, replyOf, refused, batch]⟩
      | none =>
        obtain ⟨cmd, rest, some⟩ := List.exists_cons_of_ne_nil batch
        have here : served n = w := by
          simp only [commandsOf, batch, refused, ne_eq, not_false_eq_true, if_true, Option.isSome_none, Bool.false_eq_true, if_false] at meets
          rw [some, List.map_cons, takenFrom] at meets
          exact meets.head
        rw [here]
        simp only [dispatchWorker, batch, ne_eq, not_false_eq_true, if_true] at ran
        exact ⟨after, ran⟩
    obtain ⟨final, answer⟩ := answer
    simp only [Executor.serve, batch, ne_eq, not_false_eq_true, if_true, among, answer, ok_bind, same]

end

theorem runs_commands (req : SentRequest) : (runs cfg req).map (·.2) = commandsOf cfg req.body := by
  rw [runs, List.map_map]
  exact List.map_id _

theorem takenFrom_mem {log : List (SentRequest × Command)} {t : Taken} (inside : t ∈ takenFrom env cfg w log) : (t.req, t.cmd) ∈ log := by
  induction log generalizing w with
  | nil => cases inside
  | cons item rest ih =>
    rw [takenFrom] at inside
    rcases List.mem_cons.mp inside with rfl | later
    · exact List.mem_cons_self
    · split at later
      · exact List.mem_cons_of_mem _ (ih later)
      · cases later

theorem taken_of_runs {req : SentRequest} {cmds : List Command} {t : Taken}
    (inside : t ∈ takenFrom env cfg w (cmds.map fun cmd => (req, cmd))) : t.req = req := by
  obtain ⟨cmd, _, same⟩ := List.mem_map.mp (takenFrom_mem inside)
  exact (Prod.mk.inj same).1.symm

theorem takenFor_block {i : Nat} {req : SentRequest} {cmds : List Command} (mine : req.producer = i) :
    takenFor i (takenFrom env cfg w (cmds.map fun cmd => (req, cmd))) = takenFrom env cfg w (cmds.map fun cmd => (req, cmd)) := by
  apply List.filter_eq_self.mpr
  intro t inside
  rw [taken_of_runs inside]
  exact decide_eq_true mine

theorem takenFor_other {i : Nat} {req : SentRequest} {cmds : List Command} (other : req.producer ≠ i) :
    takenFor i (takenFrom env cfg w (cmds.map fun cmd => (req, cmd))) = [] := by
  apply List.filter_eq_nil_iff.mpr
  intro t inside
  rw [taken_of_runs inside, decide_eq_true_iff]
  exact other

section
variable {done : List (SentRequest × Bytes)}

theorem serial_commands (serial : Serial env cfg w done after) :
    ∃ replies, runAll (dispatch env cfg) w ((done.flatMap fun d => runs cfg d.1).map (·.2)) = .ok (replies, after) := by
  induction done generalizing w with
  | nil =>
    cases serial
    exact ⟨[], rfl⟩
  | cons d rest ih =>
    obtain ⟨reply, next, others, one, later, all⟩ := runAll_uncons serial
    obtain ⟨rfl, rfl⟩ := List.cons.inj all
    obtain ⟨first, each, _⟩ := dispatchWorker_inv one
    obtain ⟨replies, more⟩ := ih later
    refine ⟨first ++ replies, ?_⟩
    rw [List.flatMap_cons, List.map_append, runs_commands]
    exact runAll_append.mpr ⟨first, replies, next, each, more, rfl⟩

/-- A worker that meets the connection's commands in these states gives the connection the
replies it got. -/
theorem among_answers {i n : Nat} {served : Nat → World} (serial : Serial env cfg w done after)
    (meets : Meets served n (takenFor i (takenFrom env cfg w (done.flatMap fun d => runs cfg d.1)))) :
    runAll (among env cfg served).serve n ((exchange (executedFor i done)).map (·.1)) =
      .ok ((exchange (executedFor i done)).map (·.2), n + (takenFor i (takenFrom env cfg w (done.flatMap fun d => runs cfg d.1))).length) := by
  induction done generalizing w n with
  | nil => rfl
  | cons d rest ih =>
    obtain ⟨reply, next, others, one, later, all⟩ := runAll_uncons serial
    obtain ⟨rfl, rfl⟩ := List.cons.inj all
    obtain ⟨first, each, _⟩ := dispatchWorker_inv one
    have split : takenFor i (takenFrom env cfg w ((d :: rest).flatMap fun d => runs cfg d.1)) =
        takenFor i (takenFrom env cfg w (runs cfg d.1)) ++ takenFor i (takenFrom env cfg next (rest.flatMap fun d => runs cfg d.1)) := by
      rw [List.flatMap_cons, takenFrom_append (by rw [runs_commands]; exact each)]
      exact List.filter_append _ _
    rw [split] at meets ⊢
    by_cases mine : d.1.producer = i
    · have whole : takenFor i (takenFrom env cfg w (runs cfg d.1)) = takenFrom env cfg w (runs cfg d.1) := takenFor_block mine
      have size : (takenFrom env cfg w (runs cfg d.1)).length = (commandsOf cfg d.1.body).length := by
        rw [← runs_commands] at each
        have all := congrArg List.length (takenFrom_commands each)
        rw [List.length_map] at all
        rw [all, ← runs_commands, List.length_map]
      rw [whole] at meets ⊢
      have served' := among_serves one meets.left
      rw [← size] at served'
      have own : exchange (executedFor i (d :: rest)) = (d.1.body, d.2) :: exchange (executedFor i rest) := by
        simp [executedFor, exchange, mine]
      rw [own, List.map_cons, List.map_cons, List.length_append, ← Nat.add_assoc]
      exact (runAll_cons served').mpr ⟨_, ih later meets.right, rfl⟩
    · have none : takenFor i (takenFrom env cfg w (runs cfg d.1)) = [] := takenFor_other mine
      rw [none, List.nil_append] at meets ⊢
      have same : exchange (executedFor i (d :: rest)) = exchange (executedFor i rest) := by
        simp [executedFor, mine]
      rw [same]
      exact ih later meets

end

section
variable {s : Process} {i : Nat} {c : Connection}

/-- A connection that is not waiting for the worker has heard all that was executed for it. -/
theorem heard_all (run : Relation.ReflTransGen (ProcessStep env cfg) (.start initial) s) (connection : i ≠ expiry)
    (top : s.client i = .done c) :
    ∃ rounds, Talk (Connection.step env.unicode cfg) Connection.ended (.accept (s.input i)) rounds (exchange (executedFor i s.system.executed))
      (.done c) ∧ ∀ req, s.system.producer i ≠ .awaiting req := by
  have inTurn := InTurn.reached (reached_system run) i
  have talking := (Conversed.reached run).talking i connection
  rw [top] at talking
  generalize place : s.system.producer i = p at inTurn talking
  cases talking with
  | between calm talk =>
    have apart : ∀ req, p ≠ .awaiting req := by
      intro req waiting
      rcases calm with idle | gone
      · rw [idle] at waiting
        cases waiting
      · rw [gone] at waiting
        cases waiting
    rw [arriving_apart _ apart, List.append_nil] at inTurn
    rw [inTurn]
    exact ⟨_, talk, apart⟩

/-- The commands the worker has run, of whatever request. -/
theorem ran_returned {s : System} (run : Relation.ReflTransGen (Step env cfg) (.start initial) s) :
    ∃ replies, runAll (dispatch env cfg) initial (s.ran.map (·.2)) = .ok (replies, s.world) := by
  have working := (Sound.reached run).flow.working
  generalize s.worker = worker at working
  cases working with
  | between _ serial blocks => exact blocks ▸ serial_commands serial
  | @within req first todo replies before world serial _ begun blocks =>
    obtain ⟨all, each⟩ := serial_commands serial
    refine ⟨all ++ replies, ?_⟩
    rw [blocks, List.map_append]
    refine runAll_append.mpr ⟨all, replies, before, each, ?_, rfl⟩
    rw [List.map_map]
    exact (List.map_id first).symm ▸ begun

/-- While a connection is not waiting, its commands are those of requests that are done. -/
theorem taken_executed {s : System} (run : Relation.ReflTransGen (Step env cfg) (.start initial) s)
    (apart : ∀ req, s.producer i ≠ .awaiting req) :
    ∃ world, Serial env cfg initial s.executed world ∧ takenFor i (takenFrom env cfg initial s.ran) =
      takenFor i (takenFrom env cfg initial (s.executed.flatMap fun d => runs cfg d.1)) := by
  have sound := Sound.reached run
  have working := sound.flow.working
  generalize running : s.worker = worker at working
  cases working with
  | between _ serial blocks => exact ⟨_, serial, by rw [blocks]⟩
  | @within req first todo replies before world serial _ begun blocks =>
    obtain ⟨all, each⟩ := serial_commands serial
    have waiting := sound.matched.inFlight req (by simp [running, Worker.current])
    have other : req.producer ≠ i := by
      intro mine
      exact apart req (mine ▸ waiting)
    refine ⟨before, serial, ?_⟩
    rw [blocks, takenFrom_append each, takenFor, List.filter_append]
    exact (congrArg _ (takenFor_other other)).trans (List.append_nil _)

end

/-- There is one order of all the commands that were run, each on the state the one before
left. A client that has sent commands and is done got the bytes that a loop without
pipelining would have sent it, with its own commands run in the states they have in that
order. -/
theorem clients_share_one_server {s : Process} (run : Relation.ReflTransGen (ProcessStep env cfg) (.start initial) s) :
    (takenFrom env cfg initial s.system.ran).map (fun t => (t.req, t.cmd)) = s.system.ran ∧
      ∀ (i : Nat) (c : Connection) (values : List Value), i ≠ expiry → s.client i = .done c → c.phase = .closed →
        Frames values (s.input i).flatten → (∀ value ∈ values, ∃ cmd, parseCommand env.unicode value = .ok cmd) →
        plainConnection (among env cfg (Taken.states initial (takenFor i (takenFrom env cfg initial s.system.ran)))).serve env.unicode cfg
            (s.input i).flatten 0 =
          .ok (c.writer.wire, (takenFor i (takenFrom env cfg initial s.system.ran)).length) := by
  obtain ⟨replies, returned⟩ := ran_returned (reached_system run)
  refine ⟨takenFrom_commands returned, ?_⟩
  intro i c values connection top closed frames commands
  obtain ⟨rounds, talk, apart⟩ := heard_all run connection top
  obtain ⟨world, serial, same⟩ := taken_executed (reached_system run) apart
  rw [same]
  generalize mine : takenFor i (takenFrom env cfg initial (s.system.executed.flatMap fun d => runs cfg d.1)) = taken
  have meets : Meets (Taken.states initial taken) 0 taken := by
    intro j t found
    simp [Taken.states, found]
  have answers := among_answers serial (mine.symm ▸ meets)
  rw [mine, Nat.zero_add] at answers
  exact returned_plain talk closed answers frames commands

/-- A connection that has read PING, with nothing more at hand. -/
def pingRead : Connection where
  reader := ⟨[], []⟩
  scratch := some (ascii "PING\r\n")
  writer := .empty
  tx := newTxState
  phase := .pipelining [⟨ascii "PING", []⟩]

/-- The same connection once the worker has answered. -/
def pingAnswered : Connection := { pingRead with writer := ⟨[], ascii "+PONG\r\n"⟩, phase := .reading }

/-- One client, whose PING goes through the worker. -/
theorem ping_shared :
    ∃ s c, Relation.ReflTransGen (ProcessStep (Storage.Env.still 0) .plain) (.start ⟨.new .noeviction, none⟩) s ∧ s.client 1 = .done c ∧
      c.writer.wire = ascii "+PONG\r\n" ∧
      plainConnection (among (.still 0) .plain (Taken.states ⟨.new .noeviction, none⟩
          (takenFor 1 (takenFrom (.still 0) .plain ⟨.new .noeviction, none⟩ s.system.ran)))).serve (Storage.Env.still 0).unicode .plain
          (s.input 1).flatten 0 =
        .ok (c.writer.wire, (takenFor 1 (takenFrom (.still 0) .plain ⟨.new .noeviction, none⟩ s.system.ran)).length) := by
  have reads : (Connection.accept [ascii "*1\r\n$4\r\nPING\r\n"]).step (Storage.Env.still 0).unicode .plain = .done pingRead := rfl
  have asks : pingRead.step (Storage.Env.still 0).unicode .plain = .ask ⟨⟨ascii "PING", []⟩, [], []⟩ fun reply =>
      .done (pingRead.reply reply).finish := rfl
  have hears : (pingRead.reply (ascii "+PONG\r\n")).finish = pingAnswered := rfl
  have ends : pingAnswered.step (Storage.Env.still 0).unicode .plain = .done { pingAnswered with phase := .closed } := rfl
  have run : ∃ s, Relation.ReflTransGen (ProcessStep (Storage.Env.still 0) .plain) (.start ⟨.new .noeviction, none⟩) s ∧
      s.client 1 = .done { pingAnswered with phase := .closed } ∧ s.input 1 = [ascii "*1\r\n$4\r\nPING\r\n"] :=
    ⟨_, .head (.accept [ascii "*1\r\n$4\r\nPING\r\n"] (.accept rfl) rfl) <| .head (.advance (i := 1) (by decide) rfl rfl rfl) <|
      .head (.advance (i := 1) (by decide) rfl reads rfl) <|
      .head (.ask (i := 1) (by decide) asks (.getNew (i := 1) _ (by decide) rfl) rfl rfl) <|
      .head (.send (i := 1) (by decide) (.send (i := 1) rfl rfl (by decide)) rfl rfl) <|
      .head (.apart (.worker (.take rfl rfl)) fun _ _ => rfl) <| .head (.apart (.worker (.run rfl rfl)) fun _ _ => rfl) <|
      .head (.apart (.worker (.reply rfl rfl)) fun _ _ => rfl) <|
      .head (.receive (i := 1) (by decide) (.receive (i := 1) rfl rfl) rfl rfl) <|
      .head (.resume (i := 1) (by decide) asks (.put (i := 1) (by decide) rfl) rfl rfl) <|
      .head (.advance (i := 1) (by decide) rfl (congrArg _ hears) rfl) .refl, ends, rfl⟩
  obtain ⟨s, run, top, input⟩ := run
  have frames : Frames [.arr [.str (ascii "PING")]] (s.input 1).flatten := by
    rw [input]
    exact .cons ping_frame .nil
  refine ⟨s, _, run, top, rfl, (clients_share_one_server run).2 1 _ _ (by decide) top rfl frames ?_⟩
  simp only [List.mem_singleton, forall_eq]
  exact ⟨⟨ascii "PING", []⟩, rfl⟩

end Rediska.Proofs
