import Mathlib.Logic.Relation
import Rediska.Proofs.ConnectionSteps

/-! Replies leave a connection in the order of its frames, as long as no error for a
frame that is no command overtakes replies that still wait in the buffered writer. -/

namespace Rediska.Proofs
open Go Core Commands Server Logic

section
variable {σ : Type} (x : Executor σ) (unicode : CaseTable) (cfg : Config)

/-- The replies these frames are due, each at its own turn: in the transaction state, and
by a worker in the state, that the frames before it have left. -/
def Due (start : σ) (turns : List (Value × Bytes)) (tx : TxState) (worker : σ) : Prop :=
  runAll (turn x.serve unicode cfg) (newTxState, start) (turns.map (·.1)) = .ok (turns.map (·.2), tx, worker)

/-- A step of a connection with a worker of which other clients may have requests too. -/
def StepsWith (before after : Connection × σ) : Prop := (before.1.step unicode cfg).run x.serve before.2 = .ok after

end

section
variable {σ : Type} {x : Executor σ} {unicode : CaseTable} {cfg : Config} {start worker last : σ} {turns : List (Value × Bytes)}
variable {tx after : TxState} {later : List (Value × Command)}

theorem Due.snoc {frame : Value} {reply : Bytes} (due : Due x unicode cfg start turns tx worker)
    (answered : turn x.serve unicode cfg (tx, worker) frame = .ok (reply, after, last)) :
    Due x unicode cfg start (turns ++ [(frame, reply)]) after last := by
  unfold Due
  rw [List.map_append, List.map_append]
  exact runAll_snoc due answered

theorem Due.first {frame : Value} {reply : Bytes} (due : Due x unicode cfg start ((frame, reply) :: turns) tx worker) :
    ∃ state, turn x.serve unicode cfg (newTxState, start) frame = .ok (reply, state) := by
  obtain ⟨said, state, others, one, _, same⟩ := runAll_uncons due
  obtain ⟨rfl, _⟩ := List.cons.inj same
  exact ⟨state, one⟩

/-- If all frames are answered in the end, then so are those that come next. -/
theorem Due.ahead {values more rest : List Value} {result : List Bytes × (TxState × σ)} (due : Due x unicode cfg start turns tx worker)
    (all : runAll (turn x.serve unicode cfg) (newTxState, start) values = .ok result) (split : values = turns.map (·.1) ++ more ++ rest) :
    ∃ result, runAll (turn x.serve unicode cfg) (tx, worker) more = .ok result := by
  rw [split] at all
  obtain ⟨_, _, _, before, _⟩ := runAll_append.mp all
  obtain ⟨_, _, _, first, coming, _⟩ := runAll_append.mp before
  rw [due] at first
  cases first
  exact ⟨_, coming⟩

theorem serve_pipeline {cmds : List Command} (begun : cmds ≠ []) (worker : σ) :
    x.serve worker (pipelineRequest cmds) = runAll x.run worker cmds >>= fun result => .ok (result.1.flatten, result.2) := by
  match cmds with
  | [cmd] =>
    have single : x.serve worker (pipelineRequest [cmd]) = x.run worker cmd := rfl
    rw [single, runAll]
    cases x.run worker cmd with
    | error p => rfl
    | ok result => simp [ok_bind, runAll]
  | first :: second :: rest => rfl

/-- Commands that pass through leave the transaction state alone, so the worker runs them
one by one as it runs them together. -/
theorem answer_each {cmds : List Command} (passes : ∀ cmd ∈ cmds, tx.handle cfg cmd = (.passthrough, tx)) (worker : σ) :
    runAll (answer x.serve cfg) (tx, worker) cmds = runAll x.run worker cmds >>= fun result => .ok (result.1, tx, result.2) := by
  induction cmds generalizing worker with
  | nil => rfl
  | cons cmd rest ih =>
    have one : answer x.serve cfg (tx, worker) cmd = x.run worker cmd >>= fun result => .ok (result.1, tx, result.2) := by
      simp only [answer, passes cmd List.mem_cons_self]
      rfl
    rw [runAll, runAll, one]
    cases x.run worker cmd with
    | error p => rfl
    | ok result =>
      simp only [ok_bind, ih (fun cmd inside => passes cmd (.tail _ inside))]
      cases runAll x.run result.2 rest <;> rfl

theorem turn_each (parsed : ∀ pair ∈ later, parseCommand unicode pair.1 = .ok pair.2) (state : TxState × σ) :
    runAll (turn x.serve unicode cfg) state (later.map (·.1)) = runAll (answer x.serve cfg) state (later.map (·.2)) := by
  induction later generalizing state with
  | nil => rfl
  | cons pair rest ih =>
    have one : turn x.serve unicode cfg state pair.1 = answer x.serve cfg state pair.2 := by
      simp only [turn, parsed pair List.mem_cons_self]
    simp only [List.map_cons, runAll, one, ih fun pair inside => parsed pair (.tail _ inside)]

section
variable (passes : ∀ pair ∈ later, parseCommand unicode pair.1 = .ok pair.2 ∧ tx.handle cfg pair.2 = (.passthrough, tx))
include passes

theorem turn_pipeline (worker : σ) : runAll (turn x.serve unicode cfg) (tx, worker) (later.map (·.1)) =
    runAll x.run worker (later.map (·.2)) >>= fun result => .ok (result.1, tx, result.2) := by
  rw [turn_each fun pair inside => (passes pair inside).1, answer_each]
  intro cmd inside
  obtain ⟨pair, among, rfl⟩ := List.mem_map.mp inside
  exact (passes pair among).2

theorem Due.pipeline {reply : Bytes} (due : Due x unicode cfg start turns tx worker) (begun : later ≠ [])
    (served : x.serve worker (pipelineRequest (later.map (·.2))) = .ok (reply, last)) :
    ∃ news, news.map (·.1) = later.map (·.1) ∧ (news.map (·.2)).flatten = reply ∧ Due x unicode cfg start (turns ++ news) tx last := by
  rw [serve_pipeline (by simpa using begun)] at served
  obtain ⟨⟨replies, final⟩, ran, served⟩ := bind_ok served
  cases served
  have lengths := runAll_length ran
  rw [List.length_map] at lengths
  have frames : ((later.map (·.1)).zip replies).map (·.1) = later.map (·.1) := List.map_fst_zip (by simp [lengths])
  have said : ((later.map (·.1)).zip replies).map (·.2) = replies := List.map_snd_zip (by simp [lengths])
  refine ⟨(later.map (·.1)).zip replies, frames, by rw [said], ?_⟩
  unfold Due
  rw [List.map_append, List.map_append, frames, said]
  refine runAll_append.mpr ⟨_, _, _, due, ?_, rfl⟩
  rw [turn_pipeline passes, ran]
  rfl

/-- A pipeline returns if its commands do, each at its turn. -/
theorem pipeline_returns {replies : List Bytes} {state : TxState × σ} (begun : later ≠ [])
    (ran : runAll (turn x.serve unicode cfg) (tx, worker) (later.map (·.1)) = .ok (replies, state)) :
    ∃ reply, x.serve worker (pipelineRequest (later.map (·.2))) = .ok (reply, state.2) ∧ state.1 = tx := by
  rw [turn_pipeline passes] at ran
  obtain ⟨⟨said, final⟩, each, ran⟩ := bind_ok ran
  cases ran
  exact ⟨said.flatten, by rw [serve_pipeline (by simpa using begun), each, ok_bind], rfl⟩

end
end

/-- The commands that are collected and have not run. -/
def pendingOf : Phase → List Command
  | .pipelining pipeline => pipeline
  | .reading | .closed => []

/-- The input begins with these frames. The loop has read no further, or has returned
because no frame comes next. -/
def ReadTo (chunks : List Bytes) (c : Connection) (frames : List Value) : Prop :=
  ∃ bytes rest, chunks.flatten = bytes ++ rest ∧ Frames frames bytes ∧ (c.phase ≠ .closed → c.reader.bytes = rest) ∧
    (c.phase = .closed → Rejected rest)

/-- The frame the next step decodes. -/
def nextFrame (c : Connection) : Option Value :=
  let decodes := match c.phase with
    | .reading => true
    | .pipelining _ => c.reader.buffered ≠ 0
    | .closed => false
  match decodes, (decode c.reader c.scratch).1 with
  | true, .value frame => some frame
  | _, _ => none

/-- What holds between two steps: all frames read had their turns, but those of the
commands collected. `carries` is what the writer has to do with the turns. -/
structure Conducted {σ : Type} (x : Executor σ) (unicode : CaseTable) (cfg : Config) (start : σ) (chunks : List Bytes)
    (carries : List (Value × Bytes) → Writer → Prop) (turns : List (Value × Bytes)) (later : List (Value × Command)) (c : Connection)
    (worker : σ) : Prop where
  due : Due x unicode cfg start turns c.tx worker
  read : ReadTo chunks c (turns.map (·.1) ++ later.map (·.1))
  pending : later.map (·.2) = pendingOf c.phase
  begun : ∀ pipeline, c.phase = .pipelining pipeline → pipeline ≠ []
  passes : ∀ pair ∈ later, parseCommand unicode pair.1 = .ok pair.2 ∧ c.tx.handle cfg pair.2 = (.passthrough, c.tx)
  carried : carries turns c.writer

/-- What is said of the writer stays true when replies to commands are put into it, and
when it is flushed. -/
structure Buffers (unicode : CaseTable) (carries : List (Value × Bytes) → Writer → Prop) : Prop where
  write : ∀ {turns news : List (Value × Bytes)} {w : Writer}, (∀ turn ∈ news, ∃ cmd, parseCommand unicode turn.1 = .ok cmd) →
    carries turns w → carries (turns ++ news) (w.write (news.map (·.2)).flatten)
  flush : ∀ {turns : List (Value × Bytes)} {w : Writer}, carries turns w → carries turns w.flush

section
variable {σ : Type} {x : Executor σ} {unicode : CaseTable} {cfg : Config} {start worker last : σ} {chunks : List Bytes}
variable {carries : List (Value × Bytes) → Writer → Prop} {turns : List (Value × Bytes)} {later : List (Value × Command)} {c : Connection}
variable {frame : Value} {reader : Reader} {scratch : Scratch} {frames : List Value}

theorem ReadTo.next (read : ReadTo chunks c frames) (running : c.phase ≠ .closed)
    (decoded : decode c.reader c.scratch = (.value frame, reader, scratch)) {after : Connection} (moved : after.reader = reader)
    (goes : after.phase ≠ .closed) : ReadTo chunks after (frames ++ [frame]) := by
  obtain ⟨bytes, rest, input, whole, stands, _⟩ := read
  obtain ⟨last, taken, one⟩ := read_frame decoded
  refine ⟨bytes ++ last, reader.bytes, ?_, whole.snoc one, fun _ => by rw [moved], fun closed => absurd closed goes⟩
  rw [input, ← stands running, taken, List.append_assoc]

theorem ReadTo.same (read : ReadTo chunks c frames) {after : Connection} (moved : after.reader = c.reader) (running : c.phase ≠ .closed)
    (goes : after.phase ≠ .closed) : ReadTo chunks after frames := by
  obtain ⟨bytes, rest, input, whole, stands, _⟩ := read
  exact ⟨bytes, rest, input, whole, fun _ => by rw [moved, stands running], fun closed => absurd closed goes⟩

theorem ReadTo.closed {e : DecodeError} (read : ReadTo chunks c frames) (running : c.phase ≠ .closed)
    (failed : decode c.reader c.scratch = (.error e, reader, scratch)) {after : Connection} (closed : after.phase = .closed) :
    ReadTo chunks after frames := by
  obtain ⟨bytes, rest, input, whole, stands, _⟩ := read
  exact ⟨bytes, rest, input, whole, fun goes => absurd closed goes, fun _ => stands running ▸ read_rejected failed⟩

theorem nextFrame_reading (top : c.phase = .reading) (decoded : decode c.reader c.scratch = (.value frame, reader, scratch)) :
    nextFrame c = some frame := by
  simp only [nextFrame, top, decoded]

theorem nextFrame_pipelining {pipeline : List Command} (collecting : c.phase = .pipelining pipeline) (more : c.reader.buffered ≠ 0)
    (decoded : decode c.reader c.scratch = (.value frame, reader, scratch)) : nextFrame c = some frame := by
  simp [nextFrame, collecting, more, decoded]

namespace Conducted

theorem accept (start : σ) (chunks : List Bytes) (empty : carries [] .empty) :
    Conducted x unicode cfg start chunks carries [] [] (.accept chunks) start where
  due := rfl
  read := ⟨[], chunks.flatten, rfl, .nil, fun _ => rfl, by simp [Connection.accept]⟩
  pending := rfl
  begun := by simp [Connection.accept]
  passes := by simp
  carried := empty

/-- With nothing collected there is less to say. -/
theorem settled (due : Due x unicode cfg start turns c.tx worker) (read : ReadTo chunks c (turns.map (·.1)))
    (none : pendingOf c.phase = []) (running : ∀ pipeline, c.phase ≠ .pipelining pipeline) (carried : carries turns c.writer) :
    Conducted x unicode cfg start chunks carries turns [] c worker where
  due := due
  read := by rwa [List.map_nil, List.append_nil]
  pending := none.symm
  begun := fun pipeline collecting => absurd collecting (running pipeline)
  passes := by simp
  carried := carried

theorem finish (buffers : Buffers unicode carries) (due : Due x unicode cfg start turns c.tx worker)
    (read : ReadTo chunks c (turns.map (·.1))) (running : c.phase ≠ .closed) (carried : carries turns c.writer) :
    Conducted x unicode cfg start chunks carries turns [] c.finish worker := by
  unfold Connection.finish
  split
  · exact settled due (read.same rfl running (by simp)) rfl (by simp) (buffers.flush carried)
  · exact settled due (read.same rfl running (by simp)) rfl (by simp) carried

theorem idle (conducted : Conducted x unicode cfg start chunks carries turns later c worker) (top : c.phase = .reading) : later = [] := by
  have none := conducted.pending
  rw [top] at none
  exact List.map_eq_nil_iff.mp none

theorem answered (conducted : Conducted x unicode cfg start chunks carries turns later c worker) (top : c.phase = .reading) :
    ReadTo chunks c (turns.map (·.1)) := by
  have read := conducted.read
  rwa [conducted.idle top, List.map_nil, List.append_nil] at read

theorem collected (conducted : Conducted x unicode cfg start chunks carries turns later c worker) {pipeline : List Command}
    (collecting : c.phase = .pipelining pipeline) : later.map (·.2) = pipeline ∧ later ≠ [] := by
  have same := conducted.pending
  rw [collecting, pendingOf] at same
  refine ⟨same, ?_⟩
  intro none
  rw [none] at same
  exact conducted.begun pipeline collecting same.symm

/-- The reply to a pipeline, with the turns it is made of. -/
theorem dispatched (buffers : Buffers unicode carries) (conducted : Conducted x unicode cfg start chunks carries turns later c worker)
    {pipeline : List Command} (collecting : c.phase = .pipelining pipeline) {reply : Bytes}
    (served : x.serve worker (pipelineRequest pipeline) = .ok (reply, last)) :
    ∃ news, news.map (·.1) = later.map (·.1) ∧ Due x unicode cfg start (turns ++ news) c.tx last ∧
      carries (turns ++ news) (c.writer.write reply) := by
  obtain ⟨same, begun⟩ := conducted.collected collecting
  rw [← same] at served
  obtain ⟨news, frames, said, due⟩ := conducted.due.pipeline conducted.passes begun served
  refine ⟨news, frames, due, ?_⟩
  rw [← said]
  refine buffers.write ?_ conducted.carried
  intro turn inside
  have listed : turn.1 ∈ later.map (·.1) := frames ▸ List.mem_map_of_mem inside
  obtain ⟨pair, among, named⟩ := List.mem_map.mp listed
  exact ⟨pair.2, named ▸ (conducted.passes pair among).1⟩

/-- A frame that the transaction state answers, or that ends a transaction. -/
theorem acts (buffers : Buffers unicode carries) {cmd : Command} {action : TxAction} {tx : TxState} {result : Connection × σ}
    (ran : (c.handleAction action >>= fun c => .done c.finish).run x.serve worker = .ok result)
    (due : Due x unicode cfg start turns tx worker) (carried : carries turns c.writer) (running : c.phase ≠ .closed)
    (read : ReadTo chunks c (turns.map (·.1) ++ [frame])) (parsed : parseCommand unicode frame = .ok cmd)
    (handled : tx.handle cfg cmd = (action, c.tx)) (decided : action ≠ .passthrough) :
    ∃ turns later, Conducted x unicode cfg start chunks carries turns later result.1 result.2 := by
  have answers {reply : Bytes} {final : σ} (said : turn x.serve unicode cfg (tx, worker) frame = .ok (reply, c.tx, final)) :
      Conducted x unicode cfg start chunks carries (turns ++ [(frame, reply)]) [] (c.reply reply).finish final := by
    refine finish buffers (due.snoc said) ?_ running ?_
    · rw [List.map_append]
      exact read.same rfl running running
    · have command : ∀ turn ∈ [(frame, reply)], ∃ cmd, parseCommand unicode turn.1 = .ok cmd :=
        List.forall_mem_singleton.mpr ⟨cmd, parsed⟩
      have wrote := buffers.write command carried
      rwa [List.map_singleton, List.flatten_singleton] at wrote
  cases action with
  | passthrough => exact absurd rfl decided
  | reply reply =>
    cases ran
    exact ⟨_, _, answers (by simp only [turn, answer, parsed, handled])⟩
  | exec batch =>
    obtain ⟨reply, final, served, done⟩ := request_ran ran
    cases done
    exact ⟨_, _, answers (by simp only [turn, answer, parsed, handled, served, ok_bind])⟩

/-- One step, if the error for a frame that is no command leaves true what is said of the
writer. -/
theorem step (buffers : Buffers unicode carries) (conducted : Conducted x unicode cfg start chunks carries turns later c worker)
    (direct : ∀ {turns : List (Value × Bytes)} {writer : Writer} {frame : Value} {text : Bytes}, nextFrame c = some frame →
      parseCommand unicode frame = .error text → (c.phase = .reading → writer = c.writer) → carries turns writer →
      carries (turns ++ [(frame, encodeError (ascii "ERR " ++ text))]) (writer.direct (encodeError (ascii "ERR " ++ text))))
    {result : Connection × σ} (ran : (c.step unicode cfg).run x.serve worker = .ok result) :
    ∃ turns later, Conducted x unicode cfg start chunks carries turns later result.1 result.2 := by
  have rejected {frame : Value} {text : Bytes} {worker : σ} (parsed : parseCommand unicode frame = .error text) (tx : TxState) :
      turn x.serve unicode cfg (tx, worker) frame = .ok (encodeError (ascii "ERR " ++ text), tx, worker) := by
    simp only [turn, parsed]
  have how := stepped unicode cfg c
  generalize c.step unicode cfg = program at how ran
  cases how with
  | stays =>
    cases ran
    exact ⟨turns, later, conducted⟩
  | failed => cases ran
  | ended top read =>
    cases ran
    exact ⟨turns, [], settled conducted.due ((conducted.answered top).closed (by simp [top]) read rfl) rfl (by simp) conducted.carried⟩
  | refused top read parsed =>
    cases ran
    refine ⟨_, [], settled (conducted.due.snoc (rejected parsed _)) ?_ ?_ ?_ ?_⟩
    · rw [List.map_append]
      exact (conducted.answered top).next (by simp [top]) read rfl (by simp [Connection.reject, top])
    · simp only [Connection.reject, top, pendingOf]
    · simp [Connection.reject, top]
    · exact direct (nextFrame_reading top read) parsed (fun _ => rfl) conducted.carried
  | @begun frame reader scratch cmd top read parsed passes =>
    cases ran
    refine ⟨turns, [(frame, cmd)], conducted.due, ?_, rfl, by simp, ?_, conducted.carried⟩
    · exact (conducted.answered top).next (by simp [top]) read rfl (by simp)
    · simpa using ⟨parsed, passes⟩
  | acted top read parsed handled decided =>
    refine acts buffers ran conducted.due conducted.carried (by simp [top]) ?_ parsed handled decided
    exact (conducted.answered top).next (by simp [top]) read rfl (by simp [top])
  | sent collecting =>
    obtain ⟨reply, last, served, done⟩ := request_ran ran
    cases done
    obtain ⟨news, frames, due, carried⟩ := conducted.dispatched buffers collecting served
    refine ⟨_, [], finish buffers due ?_ (by simp [Connection.reply, collecting]) carried⟩
    rw [List.map_append, frames]
    exact conducted.read.same rfl (by simp [collecting]) (by simp [Connection.reply, collecting])
  | broken collecting more read =>
    obtain ⟨reply, last, served, done⟩ := request_ran ran
    cases done
    obtain ⟨news, frames, due, carried⟩ := conducted.dispatched buffers collecting served
    refine ⟨_, [], settled due ?_ rfl (by simp) (buffers.flush carried)⟩
    rw [List.map_append, frames]
    exact conducted.read.closed (by simp [collecting]) read rfl
  | interrupted collecting more read parsed =>
    obtain ⟨reply, last, served, done⟩ := request_ran ran
    cases done
    obtain ⟨news, frames, due, carried⟩ := conducted.dispatched buffers collecting served
    refine ⟨_, [], finish buffers (due.snoc (rejected parsed _)) ?_ (by simp [Connection.reject, Connection.reply, collecting]) ?_⟩
    · rw [List.map_append, List.map_append, frames]
      exact conducted.read.next (by simp [collecting]) read rfl (by simp [Connection.reject, Connection.reply, collecting])
    · exact direct (nextFrame_pipelining collecting more read) parsed (by simp [collecting]) carried
  | @extended pipeline frame reader scratch cmd collecting more read parsed passes =>
    cases ran
    have pending := conducted.pending
    rw [collecting, pendingOf] at pending
    refine ⟨turns, later ++ [(frame, cmd)], conducted.due, ?_, by simp [pending, pendingOf], by simp, ?_, conducted.carried⟩
    · rw [List.map_append, ← List.append_assoc]
      exact conducted.read.next (by simp [collecting]) read rfl (by simp)
    · intro pair inside
      rcases List.mem_append.mp inside with earlier | fresh
      · exact conducted.passes pair earlier
      · cases List.mem_singleton.mp fresh
        exact ⟨parsed, passes⟩
  | switched collecting more read parsed handled decided =>
    obtain ⟨reply, last, served, ran⟩ := request_ran ran
    obtain ⟨news, frames, due, carried⟩ := conducted.dispatched buffers collecting served
    refine acts buffers ran due carried (by simp [Connection.reply, collecting]) ?_ parsed handled decided
    rw [List.map_append, frames]
    exact conducted.read.next (by simp [collecting]) read rfl (by simp [Connection.reply, collecting])

end Conducted
end

section
variable (env : Storage.Env) (cfg : Config) (served : Nat → World)

/-- The bytes on the wire are the beginning of the replies in request order: the turns are
those of the frames the input begins with, and the k-th reply answers the k-th frame. -/
structure InOrder (chunks : List Bytes) (c : Connection × Nat) (turns : List (Value × Bytes)) : Prop where
  due : Due (among env cfg served) env.unicode cfg 0 turns c.1.tx c.2
  frames : ∃ later bytes, Frames (turns.map (·.1) ++ later) bytes ∧ bytes <+: chunks.flatten
  wire : c.1.writer.wire <+: (turns.map (·.2)).flatten

/-- No reply is waiting, neither for the worker nor in the writer, when a frame comes
that is no command. -/
def Clear (unicode : CaseTable) (c : Connection) : Prop :=
  ∀ frame text, nextFrame c = some frame → parseCommand unicode frame = .error text → c.phase = .reading ∧ c.writer.buf = []

def ClearStep (before after : Connection × Nat) : Prop :=
  Clear env.unicode before.1 ∧ StepsWith (among env cfg served) env.unicode cfg before after

end

/-- All replies are in the writer, in order. -/
def AllWritten (turns : List (Value × Bytes)) (w : Writer) : Prop := w.all = (turns.map (·.2)).flatten

theorem AllWritten.buffers (unicode : CaseTable) : Buffers unicode AllWritten where
  write := by
    intro turns news w _ all
    rw [AllWritten, Writer.all_write, all, List.map_append, List.flatten_append]
  flush := by
    intro turns w all
    rw [AllWritten, Writer.all_flush, all]

/-- Only with an empty buffer does the error stand behind all that was replied before. -/
theorem AllWritten.direct {turns : List (Value × Bytes)} {w : Writer} (all : AllWritten turns w) (empty : w.buf = []) (frame : Value)
    (reply : Bytes) : AllWritten (turns ++ [(frame, reply)]) (w.direct reply) := by
  have wire : w.wire = (turns.map (·.2)).flatten := by
    rw [← all, Writer.all, empty, List.append_nil]
  simp [AllWritten, Writer.direct, Writer.all, empty, wire]

section
variable {env : Storage.Env} {cfg : Config} {served : Nat → World} {chunks : List Bytes} {c : Connection × Nat}

theorem Conducted.inOrder {turns : List (Value × Bytes)} {later : List (Value × Command)}
    (conducted : Conducted (among env cfg served) env.unicode cfg 0 chunks AllWritten turns later c.1 c.2) :
    InOrder env cfg served chunks c turns where
  due := conducted.due
  frames := by
    obtain ⟨bytes, rest, input, frames, _, _⟩ := conducted.read
    exact ⟨_, bytes, frames, rest, input.symm⟩
  wire := by
    rw [← conducted.carried]
    exact List.prefix_append _ _

/-- However its input is cut into reads, whatever other clients do, a connection that
meets frames that are no commands only with nothing left to reply keeps its replies in
order. -/
theorem replies_in_order (run : Relation.ReflTransGen (ClearStep env cfg served) (.accept chunks, 0) c) :
    ∃ turns, InOrder env cfg served chunks c turns := by
  have conducted : ∃ turns later, Conducted (among env cfg served) env.unicode cfg 0 chunks AllWritten turns later c.1 c.2 := by
    induction run with
    | refl => exact ⟨[], [], .accept 0 chunks rfl⟩
    | tail _ step ih =>
      obtain ⟨turns, later, conducted⟩ := ih
      refine conducted.step (AllWritten.buffers env.unicode) ?_ step.2
      intro turns writer frame text next refused same all
      obtain ⟨top, empty⟩ := step.1 frame text next refused
      exact all.direct (same top ▸ empty) frame _
  obtain ⟨turns, later, conducted⟩ := conducted
  exact ⟨turns, conducted.inOrder⟩

end

/-- A server on which no other client is active. -/
def idleServer (_ : Nat) : World := ⟨.new .noeviction, none⟩

/-- A connection that has read PING, with more input to come. -/
def pinged (reader : Reader) : Connection :=
  { Connection.accept [] with reader := reader, scratch := some (ascii "PING\r\n"), phase := .pipelining [⟨ascii "PING", []⟩] }

/-- The client waits for its PONG before it sends an empty command. -/
theorem replies_in_order_apart :
    ∃ c turns, Relation.ReflTransGen (ClearStep (Storage.Env.still 0) .plain idleServer)
        (.accept [ascii "*1\r\n$4\r\nPING\r\n", ascii "*0\r\n"], 0) c ∧
      c.1.writer.wire = ascii "+PONG\r\n-ERR empty command\r\n" ∧
      InOrder (Storage.Env.still 0) .plain idleServer [ascii "*1\r\n$4\r\nPING\r\n", ascii "*0\r\n"] c turns := by
  have first : ClearStep (Storage.Env.still 0) .plain idleServer (.accept [ascii "*1\r\n$4\r\nPING\r\n", ascii "*0\r\n"], 0)
      (pinged ⟨[], [ascii "*0\r\n"]⟩, 0) := ⟨fun _ _ _ _ => ⟨rfl, rfl⟩, rfl⟩
  have run : ∃ c, Relation.ReflTransGen (ClearStep (Storage.Env.still 0) .plain idleServer) (pinged ⟨[], [ascii "*0\r\n"]⟩, 0) c ∧
      c.1.writer.wire = ascii "+PONG\r\n-ERR empty command\r\n" :=
    ⟨_, .head ⟨nofun, rfl⟩ (.head ⟨fun _ _ _ _ => ⟨rfl, rfl⟩, rfl⟩ .refl), by decide +kernel⟩
  obtain ⟨c, rest, wire⟩ := run
  obtain ⟨turns, ordered⟩ := replies_in_order (.head first rest)
  exact ⟨c, turns, .head first rest, wire, ordered⟩

/-- In one read with the PING, the error for the empty command comes first. -/
theorem error_overtakes_reply :
    ¬ ∀ (env : Storage.Env) (cfg : Config) (served : Nat → World) (chunks : List Bytes) (c : Connection × Nat),
      Relation.ReflTransGen (StepsWith (among env cfg served) env.unicode cfg) (.accept chunks, 0) c →
      ∃ turns, InOrder env cfg served chunks c turns := by
  intro claim
  have first : StepsWith (among (.still 0) .plain idleServer) (Storage.Env.still 0).unicode .plain
      (.accept [ascii "*1\r\n$4\r\nPING\r\n*0\r\n"], 0) (pinged ⟨ascii "*0\r\n", []⟩, 0) := rfl
  obtain ⟨c, second, wire⟩ : ∃ c, StepsWith (among (.still 0) .plain idleServer) (Storage.Env.still 0).unicode .plain
      (pinged ⟨ascii "*0\r\n", []⟩, 0) c ∧ c.1.writer.wire = ascii "-ERR empty command\r\n+PONG\r\n" := ⟨_, rfl, by decide +kernel⟩
  obtain ⟨turns, due, ⟨later, bytes, frames, rest, input⟩, begins⟩ := claim _ _ _ _ c (.head first (.head second .refl))
  rw [wire] at begins
  cases turns with
  | nil => exact absurd begins (by decide)
  | cons turn turns =>
    obtain ⟨frame, reply⟩ := turn
    cases frames with
    | @cons _ _ head tail one more =>
      rw [List.append_assoc] at input
      obtain ⟨after, decoded⟩ := (decode_value_iff _ (some []) frame _).mpr ⟨head, input.symm, one⟩
      obtain rfl : Value.arr [.str (ascii "PING")] = frame := Outcome.value.inj (congrArg Prod.fst decoded)
      obtain ⟨state, said⟩ := due.first
      obtain rfl : ascii "+PONG\r\n" = reply := congrArg Prod.fst (Except.ok.inj said)
      obtain ⟨unsent, same⟩ := begins
      have heads : some minus = some plus := congrArg List.head? same
      exact absurd heads (by decide)

end Rediska.Proofs
