import Rediska.Proofs.ConnectionWork
import Rediska.Proofs.Pipelining

/-! Replies reach the client: before the server waits for more input, and before it hangs
up on input it cannot read. -/

namespace Rediska.Proofs
open Go Core Commands Server Logic

/-- With no input at hand, nothing waits in the writer. -/
def Flushed (c : Connection) : Prop := c.phase = .reading → c.reader.buffered = 0 → c.writer.buf = []

/-- A frame that is no command does not empty the read buffer while replies wait in the
writer. -/
def Quiet (unicode : CaseTable) (c : Connection) : Prop :=
  ∀ frame reader scratch text, c.phase = .reading → decode c.reader c.scratch = (.value frame, reader, scratch) →
    parseCommand unicode frame = .error text → reader.buffered = 0 → c.writer.buf = []

/-- A step that hangs up: at the top of the loop the writer is left as it is, in the
pipelining loop it is flushed. -/
def HungUp (c after : Connection) : Prop := c.phase = .reading ∧ after.writer = c.writer ∨ c.phase ≠ .reading ∧ after.writer.buf = []

section
variable {unicode : CaseTable} {cfg : Config} {c : Connection}

theorem finish_flushed (c : Connection) : Flushed c.finish := by
  unfold Connection.finish
  split
  · exact fun _ _ => rfl
  next more => exact fun _ none => absurd none more

/-- What an iteration leaves, whatever the worker answers. -/
theorem step_flushed (flushed : Flushed c) (quiet : Quiet unicode c) :
    (c.step unicode cfg).Ends Flushed fun p => (decode c.reader c.scratch).1 = .panic p := by
  have how := stepped unicode cfg c
  generalize c.step unicode cfg = program at how
  cases how with
  | stays => exact .done flushed
  | failed _ read => exact .failed (congrArg Prod.fst read)
  | ended | begun | extended => exact .done nofun
  | refused top read parsed => exact .done fun _ none => quiet _ _ _ _ top read parsed none
  | acted => exact action_ends (finish_flushed _) (fun _ => finish_flushed _) _
  | sent | interrupted => exact .ask fun _ => .done (finish_flushed _)
  | broken => exact .ask fun _ => .done nofun
  | switched => exact .ask fun _ => action_ends (finish_flushed _) (fun _ => finish_flushed _) _

theorem step_hangsUp (running : c.phase ≠ .closed) :
    (c.step unicode cfg).Ends (fun after => after.phase = .closed → HungUp c after) fun _ => True := by
  have stays (c : Connection) {hung : Prop} : c.finish.phase = .closed → hung := by
    rw [finish_phase]
    nofun
  have how := stepped unicode cfg c
  generalize c.step unicode cfg = program at how
  cases how with
  | stays closed => exact absurd closed running
  | failed => exact .failed trivial
  | ended top => exact .done fun _ => .inl ⟨top, rfl⟩
  | begun | extended => exact .done nofun
  | refused => exact .done fun closed => absurd closed running
  | acted => exact action_ends (stays _) (fun _ => stays _) _
  | sent | interrupted => exact .ask fun _ => .done (stays _)
  | broken collecting => exact .ask fun _ => .done fun _ => .inr ⟨by simp [collecting], rfl⟩
  | switched => exact .ask fun _ => action_ends (stays _) (fun _ => stays _) _

end

/-! Before a wait. -/

/-- Some texts, each of them whole, set somewhere between the bytes of a stream. A writer
whose buffer is full sends it wherever it ends, so this may be inside a reply. -/
inductive Spliced : List Bytes → Bytes → Bytes → Prop
  | nil : Spliced [] [] []
  | stream {texts : List Bytes} {stream all : Bytes} (spliced : Spliced texts stream all) (more : Bytes) :
      Spliced texts (stream ++ more) (all ++ more)
  | text {texts : List Bytes} {stream all : Bytes} (spliced : Spliced texts stream all) (text : Bytes) :
      Spliced (texts ++ [text]) stream (all ++ text)

section
variable (unicode : CaseTable)

/-- The frame is no command. -/
def refuses (frame : Value) : Bool :=
  match parseCommand unicode frame with
  | .error _ => true
  | .ok _ => false

/-- The error replies among the turns, which go past the writer. -/
def errorsOf (turns : List (Value × Bytes)) : List Bytes := (turns.filter fun turn => refuses unicode turn.1).map (·.2)

/-- The replies to commands, one after the other. -/
def repliesOf (turns : List (Value × Bytes)) : Bytes := ((turns.filter fun turn => ¬ refuses unicode turn.1).map (·.2)).flatten

/-- What was written stands on the wire and in the buffer: the replies to commands in
order, and between their bytes the errors. -/
def Split (turns : List (Value × Bytes)) (w : Writer) : Prop :=
  ∃ sent, Spliced (errorsOf unicode turns) sent w.wire ∧ sent ++ w.buf = repliesOf unicode turns

end

/-- The input ended before a frame, or inside one. -/
def ranOut : DecodeError → Bool
  | .eof | .bulkBody => true
  | .element _ cause => ranOut cause
  | _ => false

/-- What is left of a read that did not fit into the reader's buffer. -/
def leftover (chunks : List Bytes) (r : Reader) : Bytes := if r.net <:+ chunks then [] else r.net.headD []

/-- The next step decodes a frame. -/
def Decodes (c : Connection) : Prop :=
  match c.phase with
  | .reading => True
  | .pipelining _ => c.reader.buffered ≠ 0
  | .closed => False

/-- The next step has to wait for the client: with the bytes that are there, its decoding
comes to the end of the input. -/
def Waits (chunks : List Bytes) (c : Connection) : Prop :=
  Decodes c ∧ ∃ e, (decode (c.reader.buf ++ leftover chunks c.reader) c.scratch).1 = .error e ∧ ranOut e

/-- Every frame that was read had its turn, and every reply is sent: those to commands in
order, and between their bytes, whole and in order too, the errors for frames that are no
commands. -/
structure Delivered (env : Storage.Env) (cfg : Config) (served : Nat → World) (chunks : List Bytes) (c : Connection × Nat)
    (turns : List (Value × Bytes)) : Prop where
  idle : c.1.phase = .reading
  flushed : c.1.writer.buf = []
  due : Due (among env cfg served) env.unicode cfg 0 turns c.1.tx c.2
  frames : ∃ bytes, chunks.flatten = bytes ++ c.1.reader.bytes ∧ Frames (turns.map (·.1)) bytes
  wire : Spliced (errorsOf env.unicode turns) (repliesOf env.unicode turns) c.1.writer.wire

/-- No read ends inside a frame it did not begin with, and a frame that is no command
does not empty the read buffer while replies wait in the writer. -/
structure Prompt (env : Storage.Env) (chunks : List Bytes) (c : Connection) : Prop where
  whole : Waits chunks c → c.reader.buffered = 0
  quiet : Quiet env.unicode c

def PromptStep (env : Storage.Env) (cfg : Config) (served : Nat → World) (chunks : List Bytes) (before after : Connection × Nat) : Prop :=
  Prompt env chunks before.1 ∧ StepsWith (among env cfg served) env.unicode cfg before after

section
variable {unicode : CaseTable}

theorem Split.buffers (unicode : CaseTable) : Buffers unicode (Split unicode) where
  write := by
    rintro turns news w commands ⟨sent, spliced, rest⟩
    have accepted : ∀ turn ∈ news, refuses unicode turn.1 = false := by
      intro turn inside
      obtain ⟨cmd, parsed⟩ := commands turn inside
      simp only [refuses, parsed]
    have none : news.filter (fun turn => refuses unicode turn.1) = [] := List.filter_eq_nil_iff.mpr (by simpa using accepted)
    have every : news.filter (fun turn => ¬ refuses unicode turn.1) = news := List.filter_eq_self.mpr (by simpa using accepted)
    have errors : errorsOf unicode (turns ++ news) = errorsOf unicode turns := by
      rw [errorsOf, List.filter_append, none, List.append_nil, errorsOf]
    have replies : repliesOf unicode (turns ++ news) = repliesOf unicode turns ++ (news.map (·.2)).flatten := by
      rw [repliesOf, List.filter_append, every, List.map_append, List.flatten_append, repliesOf]
    obtain ⟨out, wire, buf⟩ := w.write_split (news.map (·.2)).flatten
    refine ⟨sent ++ out, ?_, ?_⟩
    · rw [errors, wire]
      exact spliced.stream out
    · rw [List.append_assoc, buf, replies, ← rest, List.append_assoc]
  flush := by
    rintro turns w ⟨sent, spliced, rest⟩
    refine ⟨sent ++ w.buf, spliced.stream w.buf, ?_⟩
    rw [Writer.flush, List.append_nil, rest]

theorem Split.direct {turns : List (Value × Bytes)} {w : Writer} {frame : Value} {text : Bytes} (split : Split unicode turns w)
    (refused : parseCommand unicode frame = .error text) (reply : Bytes) : Split unicode (turns ++ [(frame, reply)]) (w.direct reply) := by
  obtain ⟨sent, spliced, rest⟩ := split
  have refusal : refuses unicode frame = true := by simp only [refuses, refused]
  refine ⟨sent, ?_, ?_⟩
  · simp only [errorsOf, List.filter_append, List.filter_singleton, refusal, List.map_append]
    exact spliced.text reply
  · simp only [repliesOf, List.filter_append, List.filter_singleton, refusal]
    simpa [repliesOf, Writer.direct] using rest

end

section
variable {env : Storage.Env} {cfg : Config} {served : Nat → World} {chunks : List Bytes} {c : Connection × Nat}
variable {turns : List (Value × Bytes)} {later : List (Value × Command)}

theorem Conducted.delivered (conducted : Conducted (among env cfg served) env.unicode cfg 0 chunks (Split env.unicode) turns later c.1 c.2)
    (flushed : Flushed c.1) (decodes : Decodes c.1) (none : c.1.reader.buffered = 0) : Delivered env cfg served chunks c turns := by
  cases phase : c.1.phase with
  | closed => simp [Decodes, phase] at decodes
  | pipelining => simp [Decodes, phase, none] at decodes
  | reading =>
    have empty := flushed phase none
    obtain ⟨sent, spliced, rest⟩ := conducted.carried
    rw [empty, List.append_nil] at rest
    obtain ⟨bytes, left, input, frames, stands, _⟩ := conducted.answered phase
    exact ⟨phase, empty, conducted.due, ⟨bytes, by rw [stands (by simp [phase]), input], frames⟩, rest ▸ spliced⟩

/-- When the connection waits for its client, the client has all of its replies. -/
theorem replies_delivered_before_wait (run : Relation.ReflTransGen (PromptStep env cfg served chunks) (.accept chunks, 0) c)
    (prompt : Prompt env chunks c.1) (waits : Waits chunks c.1) : ∃ turns, Delivered env cfg served chunks c turns := by
  have tracked : (∃ turns later, Conducted (among env cfg served) env.unicode cfg 0 chunks (Split env.unicode) turns later c.1 c.2) ∧
      Flushed c.1 := by
    clear prompt waits
    induction run with
    | refl => exact ⟨⟨[], [], .accept 0 chunks ⟨[], .nil, rfl⟩⟩, fun _ _ => rfl⟩
    | tail _ step ih =>
      obtain ⟨⟨turns, later, conducted⟩, flushed⟩ := ih
      refine ⟨conducted.step (Split.buffers env.unicode) ?_ step.2, (step_flushed flushed step.1.quiet).ran step.2⟩
      exact fun _ refused _ split => split.direct refused _
  obtain ⟨⟨turns, later, conducted⟩, flushed⟩ := tracked
  exact ⟨turns, conducted.delivered flushed waits.1 (prompt.whole waits)⟩

end

/-- A PING, and the wait for the next command. -/
theorem ping_delivered_before_wait :
    ∃ c turns, Relation.ReflTransGen (PromptStep (.still 0) .plain idleServer [ascii "*1\r\n$4\r\nPING\r\n"])
        (.accept [ascii "*1\r\n$4\r\nPING\r\n"], 0) c ∧ c.1.writer.wire = ascii "+PONG\r\n" ∧
      Delivered (.still 0) .plain idleServer [ascii "*1\r\n$4\r\nPING\r\n"] c turns := by
  have first : PromptStep (.still 0) .plain idleServer [ascii "*1\r\n$4\r\nPING\r\n"]
      (.accept [ascii "*1\r\n$4\r\nPING\r\n"], 0) (pinged ⟨[], []⟩, 0) := ⟨⟨fun _ => rfl, fun _ _ _ _ _ _ _ _ => rfl⟩, rfl⟩
  obtain ⟨c, second, wire, prompt, waits⟩ : ∃ c, PromptStep (.still 0) .plain idleServer [ascii "*1\r\n$4\r\nPING\r\n"]
      (pinged ⟨[], []⟩, 0) c ∧ c.1.writer.wire = ascii "+PONG\r\n" ∧ Prompt (.still 0) [ascii "*1\r\n$4\r\nPING\r\n"] c.1 ∧
      Waits [ascii "*1\r\n$4\r\nPING\r\n"] c.1 :=
    ⟨_, ⟨⟨fun _ => rfl, nofun⟩, rfl⟩, by decide +kernel, ⟨fun _ => rfl, fun _ _ _ _ _ _ _ _ => rfl⟩, trivial, .eof, rfl, rfl⟩
  have run := Relation.ReflTransGen.head first (.single second)
  obtain ⟨turns, delivered⟩ := replies_delivered_before_wait run prompt waits
  exact ⟨c, turns, run, wire, delivered⟩

/-- The read that brings a PING and the beginning of another: its reply has to wait for
the rest. -/
theorem reply_withheld_in_wait :
    ¬ ∀ (env : Storage.Env) (cfg : Config) (served : Nat → World) (chunks : List Bytes) (c : Connection × Nat),
      Relation.ReflTransGen (StepsWith (among env cfg served) env.unicode cfg) (.accept chunks, 0) c →
      Waits chunks c.1 → ∃ turns, Delivered env cfg served chunks c turns := by
  intro claim
  have first : StepsWith (among (.still 0) .plain idleServer) (Storage.Env.still 0).unicode .plain
      (.accept [ascii "*1\r\n$4\r\nPING\r\n*1\r\n$4\r\nPI", ascii "NG\r\n"], 0) (pinged ⟨ascii "*1\r\n$4\r\nPI", [ascii "NG\r\n"]⟩, 0) := rfl
  have waits : Waits [ascii "*1\r\n$4\r\nPING\r\n*1\r\n$4\r\nPI", ascii "NG\r\n"]
      (pinged ⟨ascii "*1\r\n$4\r\nPI", [ascii "NG\r\n"]⟩) := ⟨Nat.succ_ne_zero _, .element 0 .bulkBody, rfl, rfl⟩
  obtain ⟨turns, delivered⟩ := claim _ _ _ _ _ (.single first) waits
  exact absurd delivered.idle nofun

/-! Before hanging up. -/

/-- The connection returns by this step. -/
structure HangsUp (env : Storage.Env) (cfg : Config) (served : Nat → World) (chunks : List Bytes) (before after : Connection × Nat) :
    Prop where
  run : Relation.ReflTransGen (StepsWith (among env cfg served) env.unicode cfg) (.accept chunks, 0) before
  running : before.1.phase ≠ .closed
  step : StepsWith (among env cfg served) env.unicode cfg before after
  closed : after.1.phase = .closed

/-- At the top of the loop, with input at hand, and with replies that were not flushed for
that reason. -/
def Stranded (c : Connection) : Prop := c.phase = .reading ∧ c.reader.buffered ≠ 0 ∧ c.writer.buf ≠ []

theorem Rejected.no_frame {tail : Bytes} (rejected : Rejected tail) {value : Value} {bytes rest : Bytes} (split : tail = bytes ++ rest) :
    ¬ Frame value bytes := ((decode_error_iff tail none).mp rejected).1 value bytes rest split

/-- Frames that were read of a stream are the first of those it is made of. -/
theorem Frames.rest {first all : List Value} {read bytes unread tail : Bytes} (frames : Frames first read) (stream : Frames all bytes)
    (rejected : Rejected tail) (same : read ++ unread = bytes ++ tail) :
    ∃ rest left, all = first ++ rest ∧ unread = left ++ tail ∧ Frames rest left := by
  induction first generalizing all read bytes with
  | nil =>
    cases frames
    exact ⟨all, bytes, rfl, same, stream⟩
  | cons value first ih =>
    cases frames with
    | @cons _ _ one more head later =>
      rw [List.append_assoc] at same
      cases stream with
      | nil => exact absurd head (rejected.no_frame same.symm)
      | @cons other _ _ _ next others =>
        rw [List.append_assoc] at same
        obtain ⟨_, found⟩ := (decode_value_iff _ none value _).mpr ⟨_, rfl, head⟩
        obtain ⟨_, given⟩ := (decode_value_iff _ none other _).mpr ⟨_, same, next⟩
        rw [found] at given
        obtain ⟨⟨⟩, place⟩ := Prod.mk.inj given
        obtain ⟨rest, left, rfl, unread, stands⟩ := ih later others (Prod.mk.inj place).1
        exact ⟨rest, left, rfl, unread, stands⟩

section
variable {σ : Type} {x : Executor σ} {unicode : CaseTable} {cfg : Config} {start worker : σ} {chunks : List Bytes} {c : Connection}
variable {carries : List (Value × Bytes) → Writer → Prop} {turns : List (Value × Bytes)} {later : List (Value × Command)}

theorem action_returns {frame : Value} {cmd : Command} {action : TxAction} {tx : TxState} {result : Bytes × (TxState × σ)}
    (parsed : parseCommand unicode frame = .ok cmd) (handled : tx.handle cfg cmd = (action, c.tx))
    (answered : turn x.serve unicode cfg (tx, worker) frame = .ok result) :
    ∃ after, (c.handleAction action >>= fun c => .done c.finish).run x.serve worker = .ok after := by
  cases action with
  | passthrough | reply => exact ⟨_, rfl⟩
  | exec batch =>
    simp only [turn, parsed, answer, handled] at answered
    obtain ⟨⟨reply, last⟩, served, _⟩ := bind_ok answered
    exact ⟨_, by rw [Connection.handleAction, run_request, served]; rfl⟩

/-- A step returns if the frames it has collected, and the one it decodes, are answered at
their turns. -/
theorem Conducted.step_returns (conducted : Conducted x unicode cfg start chunks carries turns later c worker)
    (sound : ∀ p, (decode c.reader c.scratch).1 ≠ .panic p)
    (pending : ∃ result, runAll (turn x.serve unicode cfg) (c.tx, worker) (later.map (·.1)) = .ok result)
    (next : ∀ frame reader scratch, decode c.reader c.scratch = (.value frame, reader, scratch) →
      ∃ result, runAll (turn x.serve unicode cfg) (c.tx, worker) (later.map (·.1) ++ [frame]) = .ok result) :
    ∃ result, (c.step unicode cfg).run x.serve worker = .ok result := by
  have serves {pipeline : List Command} {replies : List Bytes} {state : TxState × σ} (collecting : c.phase = .pipelining pipeline)
      (ran : runAll (turn x.serve unicode cfg) (c.tx, worker) (later.map (·.1)) = .ok (replies, state)) :
      ∃ reply, x.serve worker (pipelineRequest pipeline) = .ok (reply, state.2) ∧ state.1 = c.tx := by
    obtain ⟨rfl, begun⟩ := conducted.collected collecting
    exact pipeline_returns conducted.passes begun ran
  obtain ⟨⟨replies, state⟩, pending⟩ := pending
  have how := stepped unicode cfg c
  generalize c.step unicode cfg = program at how
  cases how with
  | stays | ended | refused | begun | extended => exact ⟨_, rfl⟩
  | failed _ read => exact absurd (congrArg Prod.fst read) (sound _)
  | acted top read parsed handled =>
    obtain ⟨⟨said, final⟩, answered⟩ := next _ _ _ read
    rw [conducted.idle top] at answered
    obtain ⟨_, _, _, one, _⟩ := runAll_uncons answered
    exact action_returns parsed handled one
  | sent collecting | broken collecting | interrupted collecting =>
    obtain ⟨reply, served, _⟩ := serves collecting pending
    exact ⟨_, by rw [Connection.dispatchPipeline, run_request, served]; rfl⟩
  | switched collecting more read parsed handled =>
    obtain ⟨⟨said, final⟩, answered⟩ := next _ _ _ read
    obtain ⟨_, _, ⟨tx, last⟩, first, rest, _⟩ := runAll_append.mp answered
    obtain ⟨reply, served, rfl⟩ := serves collecting first
    obtain ⟨_, _, _, one, _⟩ := runAll_uncons rest
    rw [Connection.dispatchPipeline, run_request, served]
    exact action_returns parsed handled one

end

/-- A stream of commands, and bytes behind them that are no frame. -/
structure CommandStream (unicode : CaseTable) (chunks : List Bytes) (values : List Value) (bytes tail : Bytes) : Prop where
  frames : Frames values bytes
  commands : ∀ value ∈ values, ∃ cmd, parseCommand unicode value = .ok cmd
  rejected : Rejected tail
  stream : chunks.flatten = bytes ++ tail

theorem nextFrame_some {c : Connection} {frame : Value} (next : nextFrame c = some frame) :
    c.phase ≠ .closed ∧ (decode c.reader c.scratch).1 = .value frame := by
  unfold nextFrame at next
  dsimp only at next
  split at next
  next goes decoded =>
    cases next
    refine ⟨?_, decoded⟩
    intro closed
    simp [closed] at goes
  next => cases next

namespace CommandStream

section
variable {unicode : CaseTable} {chunks : List Bytes} {values frames : List Value} {bytes tail : Bytes} {c : Connection}
variable (given : CommandStream unicode chunks values bytes tail)
include given

/-- What was read is the beginning of the stream. -/
theorem ahead (read : ReadTo chunks c frames) : ∃ rest, values = frames ++ rest := by
  obtain ⟨begun, rest, input, whole, _⟩ := read
  rw [given.stream] at input
  obtain ⟨more, left, all, _⟩ := Frames.rest whole given.frames given.rejected input.symm
  exact ⟨more, all⟩

section
variable (read : ReadTo chunks c frames) (running : c.phase ≠ .closed) {frame : Value} {reader : Reader} {scratch : Scratch}
  (decoded : decode c.reader c.scratch = (.value frame, reader, scratch))
include read running decoded

theorem next : ∃ rest, values = frames ++ [frame] ++ rest := by
  have moved : ReadTo chunks { c with reader := reader } (frames ++ [frame]) := read.next running decoded rfl running
  exact given.ahead moved

/-- What is decoded next is a command. -/
theorem next_parsed (text : Bytes) : parseCommand unicode frame ≠ .error text := by
  obtain ⟨more, all⟩ := given.next read running decoded
  obtain ⟨cmd, parsed⟩ := given.commands frame (by simp [all])
  simp [parsed]

end

theorem quiet (read : ReadTo chunks c frames) : Quiet unicode c :=
  fun _ _ _ text top decoded refused _ => absurd refused (given.next_parsed read (by simp [top]) decoded text)

theorem sound (read : ReadTo chunks c frames) (running : c.phase ≠ .closed) (p : Panic) : (decode c.reader c.scratch).1 ≠ .panic p := by
  intro panics
  have hostile := read_hostile (c := c) (Prod.ext panics rfl)
  obtain ⟨begun, rest, input, whole, stands, _⟩ := read
  rw [given.stream, ← stands running] at input
  obtain ⟨more, left, _, unread, coming⟩ := Frames.rest whole given.frames given.rejected input.symm
  rw [unread] at hostile
  cases coming with
  | nil => exact ((decode_error_iff tail none).mp given.rejected).2 hostile
  | @cons value _ first others head =>
    obtain ⟨p, fails⟩ := (decode_panics_iff _ none).mpr hostile
    rw [List.append_assoc] at fails
    obtain ⟨_, found⟩ := (decode_value_iff _ none value _).mpr ⟨first, rfl, head⟩
    rw [found] at fails
    cases fails

/-- A connection that has returned has read all the commands. -/
theorem read_all (read : ReadTo chunks c frames) (closed : c.phase = .closed) : frames = values := by
  obtain ⟨begun, rest, input, whole, _, failed⟩ := read
  rw [given.stream] at input
  obtain ⟨more, left, rfl, unread, coming⟩ := Frames.rest whole given.frames given.rejected input.symm
  cases coming with
  | nil => exact (List.append_nil _).symm
  | cons head =>
    rw [List.append_assoc] at unread
    exact absurd head ((failed closed).no_frame unread)

end

section
variable {env : Storage.Env} {cfg : Config} {served : Nat → World} {chunks : List Bytes} {c after : Connection × Nat}
variable {values : List Value} {bytes tail : Bytes} (given : CommandStream env.unicode chunks values bytes tail)
include given

theorem conducted (run : Relation.ReflTransGen (StepsWith (among env cfg served) env.unicode cfg) (.accept chunks, 0) c) :
    (∃ turns later, Conducted (among env cfg served) env.unicode cfg 0 chunks AllWritten turns later c.1 c.2) ∧ Flushed c.1 := by
  induction run with
  | refl => exact ⟨⟨[], [], .accept 0 chunks rfl⟩, fun _ _ => rfl⟩
  | tail _ step ih =>
    obtain ⟨⟨turns, later, conducted⟩, flushed⟩ := ih
    refine ⟨conducted.step (AllWritten.buffers env.unicode) ?_ step, (step_flushed flushed (given.quiet conducted.read)).ran step⟩
    intro turns writer frame text next refused _ _
    obtain ⟨running, value⟩ := nextFrame_some next
    exact absurd refused (given.next_parsed conducted.read running (Prod.ext value rfl) text)

/-- The last step: with the replies of all commands computed, those in the writer are
flushed in the pipelining loop only. -/
theorem hangs_up (hangs : HangsUp env cfg served chunks c after) :
    ∃ turns, Due (among env cfg served) env.unicode cfg 0 turns after.1.tx after.2 ∧ turns.map (·.1) = values ∧
      (after.1.writer.wire = (turns.map (·.2)).flatten ↔ ¬ Stranded c.1) := by
  obtain ⟨⟨turns, later, conducted⟩, _⟩ := given.conducted (hangs.run.tail hangs.step)
  have flushed := (given.conducted hangs.run).2
  have none : later = [] := by
    have pending := conducted.pending
    rw [hangs.closed] at pending
    exact List.map_eq_nil_iff.mp pending
  have read := conducted.read
  rw [none, List.map_nil, List.append_nil] at read
  refine ⟨turns, conducted.due, given.read_all read hangs.closed, ?_⟩
  rw [← conducted.carried, Writer.all, List.self_eq_append_right]
  rcases (step_hangsUp hangs.running).ran hangs.step hangs.closed with ⟨top, same⟩ | ⟨inside, empty⟩
  · rw [same]
    constructor
    · exact fun empty stranded => stranded.2.2 empty
    · intro free
      by_cases none : c.1.reader.buffered = 0
      · exact flushed top none
      · exact Classical.not_not.mp fun waits => free ⟨top, none, waits⟩
  · exact iff_of_true empty fun stranded => inside stranded.1

/-- A connection whose commands are all answered at their turns comes to its end. -/
theorem comes_to_end {turns : List (Value × Bytes)} {tx : TxState} {n : Nat} (due : Due (among env cfg served) env.unicode cfg 0 turns tx n)
    (whole : turns.map (·.1) = values) (run : Relation.ReflTransGen (StepsWith (among env cfg served) env.unicode cfg) (.accept chunks, 0) c)
    (running : c.1.phase ≠ .closed) : ∃ before after, HangsUp env cfg served chunks before after := by
  induction left : load c.1 using Nat.strong_induction_on generalizing c with
  | _ left ih =>
    obtain ⟨⟨sofar, later, conducted⟩, _⟩ := given.conducted run
    have answered {more : List Value} (coming : ∃ rest, values = sofar.map (·.1) ++ more ++ rest) :
        ∃ result, runAll (turn (among env cfg served).serve env.unicode cfg) (c.1.tx, c.2) more = .ok result := by
      obtain ⟨rest, split⟩ := coming
      exact conducted.due.ahead due (whole ▸ split)
    obtain ⟨next, ran⟩ := conducted.step_returns (given.sound conducted.read running) (answered (given.ahead conducted.read)) <| by
      intro frame reader scratch decoded
      obtain ⟨rest, split⟩ := given.next conducted.read running decoded
      exact answered ⟨rest, by rw [split, List.append_assoc (sofar.map _)]⟩
    by_cases closed : next.1.phase = .closed
    · exact ⟨c, next, run, running, ran, closed⟩
    · obtain ⟨n, less, within⟩ := step_within (ended_of_running running)
      exact ih _ (by have fewer := within.ran ran; omega) (run.tail ran) closed rfl

end
end CommandStream

/-- A client that sends commands, and then bytes that cannot be read, gets the replies to
all of its commands, unless it is hung up on at the top of the loop with replies waiting
for input that is at hand to be handled first. It is hung up on if no command brings the
worker down. -/
theorem replies_survive_rejection_iff {env : Storage.Env} {cfg : Config} {served : Nat → World} {values : List Value} {bytes tail : Bytes}
    {chunks : List Bytes} (frames : Frames values bytes) (commands : ∀ value ∈ values, ∃ cmd, parseCommand env.unicode value = .ok cmd)
    (rejected : Rejected tail) (stream : chunks.flatten = bytes ++ tail) :
    (∀ before after, HangsUp env cfg served chunks before after →
      ∃ turns, Due (among env cfg served) env.unicode cfg 0 turns after.1.tx after.2 ∧ turns.map (·.1) = values ∧
        (after.1.writer.wire = (turns.map (·.2)).flatten ↔ ¬ Stranded before.1)) ∧
    ((∃ turns tx n, Due (among env cfg served) env.unicode cfg 0 turns tx n ∧ turns.map (·.1) = values) →
      ∃ before after, HangsUp env cfg served chunks before after) := by
  have given : CommandStream env.unicode chunks values bytes tail := ⟨frames, commands, rejected, stream⟩
  constructor
  · exact fun before after hangs => given.hangs_up hangs
  · rintro ⟨turns, tx, n, due, whole⟩
    exact given.comes_to_end due whole .refl (by simp [Connection.accept])

/-- A PING with a byte behind it that begins no frame. -/
theorem ping_survives_rejection :
    ∃ before after turns, HangsUp (.still 0) .plain idleServer [ascii "*1\r\n$4\r\nPING\r\n!"] before after ∧
      after.1.writer.wire = ascii "+PONG\r\n" ∧
      Due (among (.still 0) .plain idleServer) (Storage.Env.still 0).unicode .plain 0 turns after.1.tx after.2 ∧
      (after.1.writer.wire = (turns.map (·.2)).flatten ↔ ¬ Stranded before.1) := by
  have first : StepsWith (among (.still 0) .plain idleServer) (Storage.Env.still 0).unicode .plain
      (.accept [ascii "*1\r\n$4\r\nPING\r\n!"], 0) (pinged ⟨ascii "!", []⟩, 0) := rfl
  obtain ⟨after, hangs, wire⟩ : ∃ after, HangsUp (.still 0) .plain idleServer [ascii "*1\r\n$4\r\nPING\r\n!"]
      (pinged ⟨ascii "!", []⟩, 0) after ∧ after.1.writer.wire = ascii "+PONG\r\n" :=
    ⟨_, ⟨.single first, by simp [pinged, Connection.accept], rfl, rfl⟩, by decide +kernel⟩
  have command : ∀ value ∈ [Value.arr [.str (ascii "PING")]], ∃ cmd, parseCommand (Storage.Env.still 0).unicode value = .ok cmd := by
    simp only [List.mem_singleton, forall_eq]
    exact ⟨⟨ascii "PING", []⟩, rfl⟩
  have rejected : Rejected (ascii "!") := ⟨.unknownType 33, rfl⟩
  obtain ⟨turns, due, _, survives⟩ := (replies_survive_rejection_iff (.cons ping_frame .nil) command rejected rfl).1 _ _ hangs
  exact ⟨_, after, turns, hangs, wire, due, survives⟩

/-- After a MULTI, at the top of the loop, with more input at hand. -/
def opened (reader : Reader) : Connection :=
  { Connection.accept [] with
    reader := reader, scratch := some (ascii "MULTI\r\n"), writer := Writer.empty.write (encodeSimpleString (ascii "OK")),
    tx := ⟨true, [], false⟩ }

/-- The reply to a MULTI is lost if a byte comes with it that begins no frame. -/
theorem reply_lost_on_rejection :
    ¬ ∀ (env : Storage.Env) (cfg : Config) (served : Nat → World) (values : List Value) (bytes tail : Bytes) (chunks : List Bytes),
      Frames values bytes → (∀ value ∈ values, ∃ cmd, parseCommand env.unicode value = .ok cmd) → Rejected tail →
      chunks.flatten = bytes ++ tail → ∀ before after, HangsUp env cfg served chunks before after →
      ∃ turns, Due (among env cfg served) env.unicode cfg 0 turns after.1.tx after.2 ∧ turns.map (·.1) = values ∧
        after.1.writer.wire = (turns.map (·.2)).flatten := by
  intro claim
  have decoded : decode (⟨[], [ascii "*1\r\n$5\r\nMULTI\r\n!"]⟩ : Reader) (some []) =
      (.value (.arr [.str (ascii "MULTI")]), ⟨ascii "!", []⟩, some (ascii "MULTI\r\n")) := rfl
  have parsed : parseCommand (Storage.Env.still 0).unicode (.arr [.str (ascii "MULTI")]) = .ok ⟨ascii "MULTI", []⟩ := rfl
  have handled : TxState.handle .plain newTxState ⟨ascii "MULTI", []⟩ =
      (.reply (encodeSimpleString (ascii "OK")), ⟨true, [], false⟩) := rfl
  have first : StepsWith (among (.still 0) .plain idleServer) (Storage.Env.still 0).unicode .plain
      (.accept [ascii "*1\r\n$5\r\nMULTI\r\n!"], 0) (opened ⟨ascii "!", []⟩, 0) := by
    simp only [StepsWith, Connection.step, Connection.accept, Connection.read, decoded, Connection.receive, parsed, handled]
    rfl
  obtain ⟨after, hangs, lost⟩ : ∃ after, HangsUp (.still 0) .plain idleServer [ascii "*1\r\n$5\r\nMULTI\r\n!"]
      (opened ⟨ascii "!", []⟩, 0) after ∧ after.1.writer.wire = [] :=
    ⟨_, ⟨.single first, by simp [opened, Connection.accept], rfl, rfl⟩, by decide +kernel⟩
  have name : Frame (.str (ascii "MULTI")) (ascii "$5\r\nMULTI\r\n") := @Frame.bulk (ascii "5") _ (by decide) rfl (by decide)
  have frame : Frame (.arr [.str (ascii "MULTI")]) (ascii "*1\r\n$5\r\nMULTI\r\n") :=
    @Frame.array (ascii "1") _ _ (by decide) rfl (by decide) (.cons name .nil)
  have command : ∀ value ∈ [Value.arr [.str (ascii "MULTI")]], ∃ cmd, parseCommand (Storage.Env.still 0).unicode value = .ok cmd := by
    simp only [List.mem_singleton, forall_eq]
    exact ⟨_, parsed⟩
  obtain ⟨turns, due, all, sent⟩ :=
    claim _ _ _ _ _ _ _ (.cons frame .nil) command ⟨.unknownType 33, rfl⟩ rfl _ _ hangs
  rw [lost] at sent
  cases turns with
  | nil => cases all
  | cons turn turns =>
    obtain ⟨value, reply⟩ := turn
    obtain rfl : value = .arr [.str (ascii "MULTI")] := (List.cons.inj all).1
    obtain ⟨state, said⟩ := due.first
    obtain rfl : encodeSimpleString (ascii "OK") = reply := by
      simp only [turn, parsed, answer, handled] at said
      exact congrArg Prod.fst (Except.ok.inj said)
    have none := (List.append_eq_nil_iff.mp sent.symm).1
    exact absurd none (by decide)

end Rediska.Proofs
