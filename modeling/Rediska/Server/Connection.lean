import Rediska.Logic.Dialogue
import Rediska.Server.Worker

/-! One client connection: transaction queuing, and the loop of handleConnection as a
program that decodes one frame a step and asks the worker for its replies. Who answers is
left open, so the same loop runs alone with a worker and among other goroutines. Writes to
the connection do not fail here, and a connection closed by shutdown is one whose input has
ended. -/

namespace Rediska.Server
open Go Core Commands Logic

structure TxState where
  isMulti : Bool
  queued : List Command
  dirty : Bool
deriving DecidableEq, Repr

inductive TxAction
  | passthrough
  | reply (reply : Bytes)
  | exec (batch : List Command)
deriving DecidableEq, Repr

def newTxState : TxState := ⟨false, [], false⟩

def TxState.handle (cfg : Config) (t : TxState) (cmd : Command) : TxAction × TxState :=
  if cmd.name = ascii "MULTI" then
    if t.isMulti then (.reply (errorReply "ERR MULTI calls can not be nested"), t)
    else (.reply (encodeSimpleString (ascii "OK")), { t with isMulti := true })
  else if cmd.name = ascii "DISCARD" then
    if ¬ t.isMulti then (.reply (errorReply "ERR DISCARD without MULTI"), t)
    else (.reply (encodeSimpleString (ascii "OK")), newTxState)
  else if cmd.name = ascii "EXEC" then
    if ¬ t.isMulti then (.reply (errorReply "ERR EXEC without MULTI"), t)
    else if t.dirty then (.reply (errorReply "EXECABORT Transaction discarded because of previous errors."), newTxState)
    else (.exec t.queued, newTxState)
  else if ¬ t.isMulti then (.passthrough, t)
  else if ¬ isKnownCommand cmd.name then
    (.reply (encodeError (ascii "ERR unknown command '" ++ cmd.name ++ ascii "'")), { t with dirty := true })
  else match checkCluster cfg cmd with
    | some reply => (.reply reply, { t with dirty := true })
    | none => (.reply (encodeSimpleString (ascii "QUEUED")), { t with queued := t.queued ++ [cmd] })

/-- Where the loop stands: before a frame, inside the pipelining loop with the commands
collected so far, or returned. -/
inductive Phase
  | reading
  | pipelining (pipeline : List Command)
  | closed

/-- The variables of handleConnection. -/
structure Connection where
  reader : Reader
  scratch : Scratch
  writer : Writer
  tx : TxState
  phase : Phase

/-- A connection in the middle of an iteration: what it asks the worker next, and what it
does with the reply. -/
abbrev Goroutine := Dialogue CommandRequest Bytes Connection

namespace Connection

/-- A new connection, with what its reads will return. -/
def accept (chunks : List Bytes) : Connection where
  reader := ⟨[], chunks⟩
  scratch := some []
  writer := .empty
  tx := newTxState
  phase := .reading

def read (c : Connection) : Outcome Value × Connection :=
  match decode c.reader c.scratch with
  | (outcome, reader, scratch) => (outcome, { c with reader := reader, scratch := scratch })

def reply (c : Connection) (reply : Bytes) : Connection := { c with writer := c.writer.write reply }

/-- The error reply of a frame that is no command goes to the connection itself, past
the buffered writer. -/
def reject (c : Connection) (text : Bytes) : Connection :=
  { c with writer := c.writer.direct (encodeError (ascii "ERR " ++ text)) }

/-- The flush at the end of an iteration, which waits while more input is at hand. -/
def finish (c : Connection) : Connection :=
  if c.reader.buffered = 0 then { c with writer := c.writer.flush, phase := .reading }
  else { c with phase := .reading }

/-- `dispatchSingle`, and what `dispatchPipeline` and `handleAction` have in common. -/
def request (c : Connection) (req : CommandRequest) : Goroutine := .ask req fun reply => .done (c.reply reply)

def dispatchPipeline (c : Connection) (pipeline : List Command) : Goroutine := c.request (pipelineRequest pipeline)

def handleAction (c : Connection) : TxAction → Goroutine
  | .passthrough => .done c
  | .reply reply => .done (c.reply reply)
  | .exec batch => c.request (batchRequest batch)

section
variable (unicode : CaseTable) (cfg : Config)

/-- A frame decoded at the top of the loop. -/
def receive (c : Connection) (frame : Value) : Goroutine :=
  match parseCommand unicode frame with
  | .error text => .done (c.reject text)
  | .ok cmd => match c.tx.handle cfg cmd with
    | (.passthrough, tx) => .done { c with tx := tx, phase := .pipelining [cmd] }
    | (action, tx) => do
      let c ← { c with tx := tx }.handleAction action
      .done c.finish

/-- A frame decoded while a pipeline is collected. -/
def extend (c : Connection) (pipeline : List Command) (frame : Value) : Goroutine :=
  match parseCommand unicode frame with
  | .error text => do
    let c ← c.dispatchPipeline pipeline
    .done (c.reject text).finish
  | .ok cmd => match c.tx.handle cfg cmd with
    | (.passthrough, tx) => .done { c with tx := tx, phase := .pipelining (pipeline ++ [cmd]) }
    | (action, tx) => do
      let c ← { c with tx := tx }.dispatchPipeline pipeline
      let c ← c.handleAction action
      .done c.finish

/-- One iteration of the loop, or of the pipelining loop in it. A panic ends the whole
server: nothing is written any more. -/
def step (c : Connection) : Goroutine :=
  match c.phase with
  | .closed => .done c
  | .reading => match c.read with
    | (.panic p, _) => .failed p
    | (.error _, c) => .done { c with phase := .closed }
    | (.value frame, c) => c.receive unicode cfg frame
  | .pipelining pipeline =>
    if c.reader.buffered = 0 then do
      let c ← c.dispatchPipeline pipeline
      .done c.finish
    else match c.read with
      | (.panic p, _) => .failed p
      | (.error _, c) => do
        let c ← c.dispatchPipeline pipeline
        .done { c with writer := c.writer.flush, phase := .closed }
      | (.value frame, c) => c.extend unicode cfg pipeline frame

end

def ended (c : Connection) : Bool :=
  match c.phase with
  | .closed => true
  | .reading | .pipelining _ => false

end Connection

section
variable {σ : Type} (serve : σ → CommandRequest → Panics (Bytes × σ)) (unicode : CaseTable) (cfg : Config)

/-- The loop alone with a worker. A frame takes at most two steps, and has at least one
byte. -/
def handleConnection (chunks : List Bytes) (worker : σ) : Panics (Connection × σ) :=
  loopWith (Connection.step unicode cfg) Connection.ended serve (2 * chunks.flatten.length + 2) (.accept chunks) worker

/-! The loop without pipelining, for comparison: a frame is decoded, run and answered
before the next one is read. -/

/-- A command, in the state the frames before it have left. -/
def answer (state : TxState × σ) (cmd : Command) : Panics (Bytes × (TxState × σ)) :=
  match state.1.handle cfg cmd with
  | (.passthrough, tx) => do
    let (reply, worker) ← serve state.2 (singleRequest cmd)
    .ok (reply, tx, worker)
  | (.reply reply, tx) => .ok (reply, tx, state.2)
  | (.exec batch, tx) => do
    let (reply, worker) ← serve state.2 (batchRequest batch)
    .ok (reply, tx, worker)

/-- The reply a frame is due when its turn comes. -/
def turn (state : TxState × σ) (frame : Value) : Panics (Bytes × (TxState × σ)) :=
  match parseCommand unicode frame with
  | .error text => .ok (encodeError (ascii "ERR " ++ text), state)
  | .ok cmd => answer serve cfg state cmd

def plainLoop : Nat → Bytes → Scratch → Bytes → TxState × σ → Panics (Bytes × σ)
  | 0, _, _, _, _ => .error .outOfFuel
  | fuel + 1, s, scratch, sent, state => match decode s scratch with
    | (.panic p, _, _) => .error p
    | (.error _, _, _) => .ok (sent, state.2)
    | (.value frame, s, scratch) => do
      let (reply, state) ← turn serve unicode cfg state frame
      plainLoop fuel s scratch (sent ++ reply) state

/-- What is sent to the client, and what the worker has come to. -/
def plainConnection (s : Bytes) (worker : σ) : Panics (Bytes × σ) :=
  plainLoop serve unicode cfg (s.length + 1) s (some []) [] (newTxState, worker)

end
end Rediska.Server
