import Rediska.Proofs.ReplyOrder

/-! Pipelining cannot be seen: commands that are collected before they run leave the same
replies, run in the same order, as commands that are read and answered one by one. -/

namespace Rediska.Proofs
open Go Core Commands Server Logic

section
variable {σ : Type}

section
variable (x : Executor σ) (unicode : CaseTable) (cfg : Config)

/-- What a connection in the middle of an iteration sends until it returns, and what the
worker comes to. -/
def comesTo (fuel : Nat) (program : Goroutine) (worker : σ) : Panics (Bytes × σ) := do
  let (c, worker) ← program.run x.serve worker
  let (c, worker) ← loopWith (Connection.step unicode cfg) Connection.ended x.serve fuel c worker
  .ok (c.writer.wire, worker)

/-- The same for commands that are answered one by one. -/
def answersTo (sent : Bytes) (state : TxState × σ) (cmds : List Command) : Panics (Bytes × σ) := do
  let (replies, state) ← runAll (answer x.serve cfg) state cmds
  .ok (sent ++ replies.flatten, state.2)

end

variable {x : Executor σ} {unicode : CaseTable} {cfg : Config} {c : Connection} {todo : List (Value × Command)} {worker : σ}

theorem answersTo_cons (sent : Bytes) (state : TxState × σ) (cmd : Command) (rest : List Command) :
    answersTo x cfg sent state (cmd :: rest) =
      answer x.serve cfg state cmd >>= fun result => answersTo x cfg (sent ++ result.1) result.2 rest := by
  unfold answersTo
  rw [runAll]
  cases answer x.serve cfg state cmd with
  | error p => rfl
  | ok result =>
    simp only [ok_bind]
    cases runAll (answer x.serve cfg) result.2 rest with
    | error p => rfl
    | ok results => simp [ok_bind]

/-- Commands that pass through, sent to the worker as one pipeline. -/
theorem answersTo_pipeline {pipeline : List Command} {tx : TxState} (sent : Bytes) (begun : pipeline ≠ [])
    (passes : ∀ cmd ∈ pipeline, tx.handle cfg cmd = (.passthrough, tx)) (rest : List Command) :
    answersTo x cfg sent (tx, worker) (pipeline ++ rest) =
      x.serve worker (pipelineRequest pipeline) >>= fun result => answersTo x cfg (sent ++ result.1) (tx, result.2) rest := by
  unfold answersTo
  rw [runAll_append_eq, answer_each passes, serve_pipeline begun]
  cases runAll x.run worker pipeline with
  | error p => rfl
  | ok result =>
    simp only [ok_bind]
    cases runAll (answer x.serve cfg) (tx, result.2) rest with
    | error p => rfl
    | ok results => simp [ok_bind]

theorem comesTo_request {fuel : Nat} {req : CommandRequest} {rest : Connection → Goroutine} :
    comesTo x unicode cfg fuel (c.request req >>= rest) worker =
      x.serve worker req >>= fun result => comesTo x unicode cfg fuel (rest (c.reply result.1)) result.2 := by
  unfold comesTo
  rw [run_request, bind_assoc]

theorem comesTo_step {fuel : Nat} (running : c.ended = false) :
    comesTo x unicode cfg (fuel + 1) (.done c) worker = comesTo x unicode cfg fuel (c.step unicode cfg) worker := by
  simp only [comesTo, Dialogue.run, ok_bind, loopWith, running, Bool.false_eq_true, if_false, bind_assoc]

/-- The frames that are still to come, as commands. -/
structure Coming (unicode : CaseTable) (todo : List (Value × Command)) (bytes : Bytes) : Prop where
  frames : Frames (todo.map (·.1)) bytes
  parsed : ∀ pair ∈ todo, parseCommand unicode pair.1 = .ok pair.2

/-- What holds between two steps: a command that is collected would pass through again,
and with no input at hand nothing waits in the writer. -/
structure Ready (unicode : CaseTable) (cfg : Config) (c : Connection) (todo : List (Value × Command)) : Prop where
  coming : Coming unicode todo c.reader.bytes
  passes : ∀ cmd ∈ pendingOf c.phase, c.tx.handle cfg cmd = (.passthrough, c.tx)
  running : c.phase ≠ .closed
  begun : c.phase ≠ .pipelining []
  flushed : c.phase = .reading → c.reader.buffered = 0 → c.writer.buf = []

theorem Coming.empty (coming : Coming unicode [] c.reader.bytes) : c.reader.buffered = 0 := by
  obtain ⟨frames, _⟩ := coming
  generalize input : c.reader.bytes = bytes at frames
  cases frames
  rw [Reader.bytes, List.append_eq_nil_iff] at input
  rw [Reader.buffered, input.1]
  rfl

/-- The next frame is the next command, until the input ends. -/
theorem Coming.read {outcome : Outcome Value} {reader : Reader} {scratch : Scratch} (coming : Coming unicode todo c.reader.bytes)
    (read : decode c.reader c.scratch = (outcome, reader, scratch)) :
    (todo = [] ∧ outcome = .error .eof) ∨
      ∃ frame cmd rest, todo = (frame, cmd) :: rest ∧ outcome = .value frame ∧ parseCommand unicode frame = .ok cmd ∧
        Coming unicode rest reader.bytes := by
  have refined := decode_refines Reader.refines c.reader c.scratch
  rw [read] at refined
  obtain ⟨frames, parsed⟩ := coming
  generalize c.reader.bytes = bytes at frames refined
  cases todo with
  | nil =>
    cases frames
    exact .inl ⟨rfl, (congrArg Prod.fst refined).symm⟩
  | cons pair rest =>
    cases frames with
    | @cons _ _ first others head tail =>
      obtain ⟨after, decoded⟩ := (decode_value_iff (first ++ others) c.scratch pair.1 others).mpr ⟨first, rfl, head⟩
      rw [refined] at decoded
      obtain ⟨same, left⟩ := Prod.mk.inj decoded
      refine .inr ⟨pair.1, pair.2, rest, rfl, same, parsed pair List.mem_cons_self, ?_, ?_⟩
      · rw [(Prod.mk.inj left).1]
        exact tail
      · exact fun pair inside => parsed pair (.tail _ inside)

/-- A frame that was decoded is the next command. -/
theorem Coming.value {frame : Value} {reader : Reader} {scratch : Scratch} (coming : Coming unicode todo c.reader.bytes)
    (read : decode c.reader c.scratch = (.value frame, reader, scratch)) :
    ∃ cmd rest, todo = (frame, cmd) :: rest ∧ parseCommand unicode frame = .ok cmd ∧ Coming unicode rest reader.bytes := by
  rcases coming.read read with ⟨_, other⟩ | ⟨found, cmd, rest, next, same, parsed, later⟩
  · cases other
  · cases same
    exact ⟨cmd, rest, next, parsed, later⟩

theorem Coming.command {frame : Value} {reader : Reader} {scratch : Scratch} {cmd : Command} (coming : Coming unicode todo c.reader.bytes)
    (read : decode c.reader c.scratch = (.value frame, reader, scratch)) (parsed : parseCommand unicode frame = .ok cmd) :
    ∃ rest, todo = (frame, cmd) :: rest ∧ Coming unicode rest reader.bytes := by
  obtain ⟨other, rest, next, same, later⟩ := coming.value read
  rw [parsed] at same
  cases same
  exact ⟨rest, next, later⟩

theorem Coming.error {e : DecodeError} {reader : Reader} {scratch : Scratch} (coming : Coming unicode todo c.reader.bytes)
    (read : decode c.reader c.scratch = (.error e, reader, scratch)) : todo = [] := by
  rcases coming.read read with ⟨none, _⟩ | ⟨_, _, _, _, other, _⟩
  · exact none
  · cases other

theorem Ready.finish (coming : Coming unicode todo c.reader.bytes) : Ready unicode cfg c.finish todo := by
  unfold Connection.finish
  split
  · exact ⟨coming, by simp [pendingOf], by simp, by simp, fun _ _ => rfl⟩
  next more => exact ⟨coming, by simp [pendingOf], by simp, by simp, fun _ none => absurd none more⟩

theorem finish_all (c : Connection) : c.finish.writer.all = c.writer.all := by
  unfold Connection.finish
  split
  · exact Writer.all_flush _
  · rfl

theorem finish_tx (c : Connection) : c.finish.tx = c.tx := by
  unfold Connection.finish
  split <;> rfl

/-- With this much fuel the loop ends, and as the plain one does. -/
def Follows (x : Executor σ) (unicode : CaseTable) (cfg : Config) (fuel : Nat) : Prop :=
  ∀ (c : Connection) (todo : List (Value × Command)) (worker : σ), Ready unicode cfg c todo →
    2 * todo.length + (pendingOf c.phase).length + 2 ≤ fuel →
    comesTo x unicode cfg fuel (.done c) worker = answersTo x cfg c.writer.all (c.tx, worker) (pendingOf c.phase ++ todo.map (·.2))

namespace Follows
variable {fuel : Nat}

theorem finish (follows : Follows x unicode cfg fuel) (coming : Coming unicode todo c.reader.bytes)
    (enough : 2 * todo.length + 2 ≤ fuel) :
    comesTo x unicode cfg fuel (.done c.finish) worker = answersTo x cfg c.writer.all (c.tx, worker) (todo.map (·.2)) := by
  have none : pendingOf c.finish.phase = [] := by rw [finish_phase, pendingOf]
  have ended := follows c.finish todo worker (.finish coming) (by rw [none]; exact enough)
  rwa [none, finish_all, finish_tx, List.nil_append] at ended

theorem action (follows : Follows x unicode cfg fuel) (coming : Coming unicode todo c.reader.bytes)
    (enough : 2 * todo.length + 2 ≤ fuel) {cmd : Command} {action : TxAction} {tx : TxState}
    (handled : tx.handle cfg cmd = (action, c.tx)) (decided : action ≠ .passthrough) :
    comesTo x unicode cfg fuel (c.handleAction action >>= fun c => .done c.finish) worker =
      answersTo x cfg c.writer.all (tx, worker) (cmd :: todo.map (·.2)) := by
  have later (reply : Bytes) (worker : σ) : comesTo x unicode cfg fuel (.done (c.reply reply).finish) worker =
      answersTo x cfg (c.writer.all ++ reply) (c.tx, worker) (todo.map (·.2)) := by
    rw [← Writer.all_write]
    exact follows.finish coming enough
  rw [answersTo_cons]
  cases action with
  | passthrough => exact absurd rfl decided
  | reply reply =>
    simp only [answer, handled, ok_bind]
    exact later reply worker
  | exec batch =>
    simp only [Connection.handleAction, comesTo_request, answer, handled, later, bind_assoc, ok_bind]

theorem dispatch (follows : Follows x unicode cfg fuel) (coming : Coming unicode todo c.reader.bytes)
    (enough : 2 * todo.length + 2 ≤ fuel) {pipeline : List Command} (begun : pipeline ≠ [])
    (passes : ∀ cmd ∈ pipeline, c.tx.handle cfg cmd = (.passthrough, c.tx)) :
    comesTo x unicode cfg fuel (c.dispatchPipeline pipeline >>= fun c => .done c.finish) worker =
      answersTo x cfg c.writer.all (c.tx, worker) (pipeline ++ todo.map (·.2)) := by
  rw [Connection.dispatchPipeline, comesTo_request, answersTo_pipeline _ begun passes]
  congr 1
  funext result
  rw [← Writer.all_write]
  exact follows.finish coming enough

end Follows

/-- Each step of the loop takes a frame, or ends a pipeline. -/
theorem loop_follows (fuel : Nat) : Follows x unicode cfg fuel := by
  induction fuel with
  | zero =>
    intro c todo worker _ enough
    omega
  | succ fuel ih =>
    intro c todo worker ready enough
    obtain ⟨coming, passes, running, begun, flushed⟩ := ready
    rw [comesTo_step (ended_of_running running)]
    have how := stepped unicode cfg c
    generalize c.step unicode cfg = program at how
    cases how with
    | stays closed => exact absurd closed running
    | failed _ read =>
      rcases coming.read read with ⟨_, other⟩ | ⟨_, _, _, _, other, _⟩
      all_goals cases other
    | ended top read =>
      obtain rfl := coming.error read
      obtain ⟨fuel, rfl⟩ : ∃ more, fuel = more + 1 := ⟨fuel - 1, by omega⟩
      simp [comesTo, answersTo, Dialogue.run, loopWith, Connection.ended, ok_bind, runAll, top, pendingOf, Writer.all,
        flushed top coming.empty]
    | refused _ read refused | interrupted _ _ read refused =>
      obtain ⟨cmd, rest, _, parsed, _⟩ := coming.value read
      rw [refused] at parsed
      cases parsed
    | @begun frame reader scratch cmd top read parsed pass =>
      obtain ⟨rest, rfl, later⟩ := coming.command read parsed
      simp only [top, pendingOf, List.length_nil, List.length_cons] at enough
      have collects := ih { c with reader := reader, scratch := scratch, phase := .pipelining [cmd] } rest worker
        ⟨later, by simpa [pendingOf] using pass, by simp, by simp, by simp⟩ (by simp [pendingOf]; omega)
      rw [collects, top]
      rfl
    | acted top read parsed handled decided =>
      obtain ⟨rest, rfl, later⟩ := coming.command read parsed
      simp only [List.length_cons] at enough
      rw [top]
      exact ih.action later (by omega) handled decided
    | @sent pipeline collecting =>
      have some : pipeline ≠ [] := fun none => begun (none ▸ collecting)
      have length := List.length_pos_iff.mpr some
      have pending : pendingOf c.phase = pipeline := by rw [collecting, pendingOf]
      rw [pending] at passes enough ⊢
      exact ih.dispatch coming (by omega) some passes
    | broken _ more read =>
      obtain rfl := coming.error read
      exact absurd coming.empty more
    | @extended pipeline frame reader scratch cmd collecting more read parsed pass =>
      obtain ⟨rest, rfl, later⟩ := coming.command read parsed
      have pending : pendingOf c.phase = pipeline := by rw [collecting, pendingOf]
      rw [pending, List.length_cons] at enough
      rw [pending] at passes ⊢
      have collects := ih { c with reader := reader, scratch := scratch, phase := .pipelining (pipeline ++ [cmd]) } rest worker
        ⟨later, ?_, by simp, by simp, by simp⟩ (by simp [pendingOf]; omega)
      · rw [collects]
        simp [pendingOf]
      · simp only [pendingOf, List.forall_mem_append, List.forall_mem_singleton]
        exact ⟨passes, pass⟩
    | @switched pipeline frame reader scratch cmd action tx collecting more read parsed handled decided =>
      obtain ⟨rest, rfl, later⟩ := coming.command read parsed
      have some : pipeline ≠ [] := fun none => begun (none ▸ collecting)
      have pending : pendingOf c.phase = pipeline := by rw [collecting, pendingOf]
      simp only [List.length_cons] at enough
      rw [pending] at passes ⊢
      rw [Connection.dispatchPipeline, comesTo_request, answersTo_pipeline _ some passes]
      congr 1
      funext result
      rw [← Writer.all_write]
      exact ih.action (c := Connection.reply { c with reader := reader, scratch := scratch, tx := tx } result.1) later (by omega)
        handled decided

/-- The plain loop answers the commands of its input. -/
theorem plainLoop_answers {bytes : Bytes} (fuel : Nat) (scratch : Scratch) (sent : Bytes) (state : TxState × σ)
    (coming : Coming unicode todo bytes) (enough : todo.length < fuel) :
    plainLoop x.serve unicode cfg fuel bytes scratch sent state = answersTo x cfg sent state (todo.map (·.2)) := by
  induction todo generalizing fuel bytes scratch sent state with
  | nil =>
    obtain ⟨fuel, rfl⟩ := Nat.exists_eq_add_of_lt enough
    obtain ⟨frames, _⟩ := coming
    cases frames
    simp only [List.map_nil, answersTo, runAll, ok_bind, List.flatten_nil, List.append_nil]
    rfl
  | cons pair todo ih =>
    obtain ⟨fuel, rfl⟩ := Nat.exists_eq_add_of_lt enough
    obtain ⟨frames, parsed⟩ := coming
    cases frames with
    | @cons _ _ first rest head tail =>
      obtain ⟨after, decoded⟩ := (decode_value_iff (first ++ rest) scratch pair.1 rest).mpr ⟨first, rfl, head⟩
      have later : Coming unicode todo rest := ⟨tail, fun pair inside => parsed pair (.tail _ inside)⟩
      simp only [plainLoop, decoded, turn, parsed pair List.mem_cons_self, List.map_cons, answersTo_cons]
      exact congrArg _ (funext fun result => ih _ _ _ _ later (by simp only [List.length_cons]; omega))

theorem answer_returns {serve : σ → CommandRequest → Panics (Bytes × σ)}
    (serves : ∀ worker req, ∃ result, serve worker req = .ok result) (cfg : Config) (state : TxState × σ) (cmd : Command) :
    ∃ result, answer serve cfg state cmd = .ok result := by
  unfold answer
  split
  next tx _ =>
    obtain ⟨result, served⟩ := serves state.2 (singleRequest cmd)
    exact ⟨(result.1, tx, result.2), by rw [served]; rfl⟩
  · exact ⟨_, rfl⟩
  next batch tx _ =>
    obtain ⟨result, served⟩ := serves state.2 (batchRequest batch)
    exact ⟨(result.1, tx, result.2), by rw [served]; rfl⟩

theorem commands_of_values {values : List Value} (commands : ∀ value ∈ values, ∃ cmd, parseCommand unicode value = .ok cmd) :
    ∃ todo : List (Value × Command), todo.map (·.1) = values ∧ ∀ pair ∈ todo, parseCommand unicode pair.1 = .ok pair.2 := by
  induction values with
  | nil => exact ⟨[], rfl, by simp⟩
  | cons value values ih =>
    obtain ⟨cmd, parsed⟩ := commands value List.mem_cons_self
    obtain ⟨todo, rfl, others⟩ := ih fun value inside => commands value (.tail _ inside)
    refine ⟨(value, cmd) :: todo, rfl, ?_⟩
    simp only [List.forall_mem_cons]
    exact ⟨parsed, others⟩

/-- With enough fuel, a connection that is sent commands answers them one by one. -/
theorem accept_follows {chunks : List Bytes} (coming : Coming unicode todo chunks.flatten) {fuel : Nat}
    (enough : 2 * chunks.flatten.length + 2 ≤ fuel) (worker : σ) :
    comesTo x unicode cfg fuel (.done (.accept chunks)) worker = answersTo x cfg [] (newTxState, worker) (todo.map (·.2)) := by
  have length := coming.frames.length_le
  rw [List.length_map] at length
  have none : pendingOf (Connection.accept chunks).phase = [] := rfl
  have start : Ready unicode cfg (.accept chunks) todo :=
    ⟨coming, by simp [none], by simp [Connection.accept], by simp [Connection.accept], fun _ _ => rfl⟩
  exact loop_follows fuel _ todo worker start (by rw [none, List.length_nil]; omega)

theorem plainConnection_answers {s : Bytes} (coming : Coming unicode todo s) (worker : σ) :
    plainConnection x.serve unicode cfg s worker = answersTo x cfg [] (newTxState, worker) (todo.map (·.2)) := by
  have length := coming.frames.length_le
  rw [List.length_map] at length
  exact plainLoop_answers _ _ _ _ coming (Nat.lt_succ_of_le length)

theorem handleConnection_comesTo (x : Executor σ) (unicode : CaseTable) (cfg : Config) (chunks : List Bytes) (worker : σ) :
    (handleConnection x.serve unicode cfg chunks worker).map (fun result => (result.1.writer.wire, result.2)) =
      comesTo x unicode cfg (2 * chunks.flatten.length + 2) (.done (.accept chunks)) worker := by
  simp only [handleConnection, comesTo, Dialogue.run, ok_bind]
  cases loopWith _ _ x.serve _ _ worker <;> rfl

/-- For any worker, any commands of a client, and any way their bytes come in: once the
client has closed its side, the connection has run the commands, and sent the replies,
of the loop that answers each command before it reads the next. It gets there unless the
worker panics. -/
theorem pipelining_is_transparent (x : Executor σ) (unicode : CaseTable) (cfg : Config) {values : List Value} {chunks : List Bytes}
    (frames : Frames values chunks.flatten) (commands : ∀ value ∈ values, ∃ cmd, parseCommand unicode value = .ok cmd) (worker : σ) :
    (handleConnection x.recording.serve unicode cfg chunks (worker, [])).map (fun result => (result.1.writer.wire, result.2)) =
      plainConnection x.recording.serve unicode cfg chunks.flatten (worker, []) ∧
    ((∀ worker req, ∃ result, x.serve worker req = .ok result) →
      ∃ result, handleConnection x.serve unicode cfg chunks worker = .ok result) := by
  obtain ⟨todo, rfl, parsed⟩ := commands_of_values commands
  have coming : Coming unicode todo chunks.flatten := ⟨frames, parsed⟩
  constructor
  · rw [handleConnection_comesTo, accept_follows coming (Nat.le_refl _), plainConnection_answers coming]
  · intro serves
    obtain ⟨⟨replies, state⟩, answered⟩ := runAll_returns (answer_returns serves cfg) (newTxState, worker) (todo.map (·.2))
    have comes := handleConnection_comesTo x unicode cfg chunks worker
    rw [accept_follows coming (Nat.le_refl _), answersTo, answered, ok_bind] at comes
    obtain ⟨result, returned, _⟩ := map_ok comes
    exact ⟨result, returned⟩

theorem ping_frame : Frame (.arr [.str (ascii "PING")]) (ascii "*1\r\n$4\r\nPING\r\n") := by
  have name : Frame (.str (ascii "PING")) (ascii "$4\r\nPING\r\n") := @Frame.bulk (ascii "4") _ (by decide) rfl (by decide)
  exact @Frame.array (ascii "1") _ _ (by decide) rfl (by decide) (.cons name .nil)

/-- Two PINGs, the second of them cut by the end of a read. -/
theorem pings_transparent :
    (handleConnection (among (.still 0) .plain idleServer).recording.serve (Storage.Env.still 0).unicode .plain
        [ascii "*1\r\n$4\r\nPING\r\n*1\r\n$4\r\nPI", ascii "NG\r\n"] (0, [])).map (fun result => (result.1.writer.wire, result.2)) =
      plainConnection (among (.still 0) .plain idleServer).recording.serve (Storage.Env.still 0).unicode .plain
        [ascii "*1\r\n$4\r\nPING\r\n*1\r\n$4\r\nPI", ascii "NG\r\n"].flatten (0, []) := by
  refine (pipelining_is_transparent _ _ _ (.cons ping_frame (.cons ping_frame .nil)) ?_ _).1
  simp only [List.mem_cons, List.not_mem_nil, or_false, or_self, forall_eq]
  exact ⟨⟨ascii "PING", []⟩, rfl⟩

/-- The commands of a connection that has returned, answered one by one. -/
theorem returned_plain {chunks : List Bytes} {rounds : Nat} {exchange : List (CommandRequest × Bytes)} {final : σ} {values : List Value}
    (talk : Talk (Connection.step unicode cfg) Connection.ended (.accept chunks) rounds exchange (.done c)) (closed : c.phase = .closed)
    (answers : runAll x.serve worker (exchange.map (·.1)) = .ok (exchange.map (·.2), final))
    (frames : Frames values chunks.flatten) (commands : ∀ value ∈ values, ∃ cmd, parseCommand unicode value = .ok cmd) :
    plainConnection x.serve unicode cfg chunks.flatten worker = .ok (c.writer.wire, final) := by
  obtain ⟨todo, rfl, parsed⟩ := commands_of_values commands
  have coming : Coming unicode todo chunks.flatten := ⟨frames, parsed⟩
  have ended : c.ended = true := by simp only [Connection.ended, closed]
  -- Fuel for the rounds that were made, and for those the comparison asks for.
  have alone := talk.alone answers (2 * chunks.flatten.length + 1 + 1)
  have follows : comesTo x unicode cfg (rounds + (2 * chunks.flatten.length + 1 + 1)) (.done (.accept chunks)) worker =
      answersTo x cfg [] (newTxState, worker) (todo.map (·.2)) := accept_follows coming (by omega) worker
  rw [Dialogue.run, ok_bind, loopWith_ended ended] at alone
  rw [plainConnection_answers coming, ← follows]
  simp only [comesTo, Dialogue.run, ok_bind, alone]

end
end Rediska.Proofs
