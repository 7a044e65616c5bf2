import Mathlib.Logic.Function.Basic
import Rediska.Server.Worker

/-! The goroutines of Run and what they share. A step is one action of one goroutine:
sends and receives on the command channel and on the reply channels, gets from and puts
to the pool of reply channels, one command run by the worker, and the shutdown. What a
connection does between two requests is left open, so its requests are arbitrary. -/

namespace Rediska.Server
open Go Core Commands

/-- What is sent on the command channel. `number`, the count of requests sent before,
and `producer`, the sender, are for the proofs only. -/
structure SentRequest where
  number : Nat
  producer : Nat
  body : CommandRequest
  replych : Nat
deriving DecidableEq, Repr

/-- A goroutine that sends requests: busy with something else, about to send, waiting
for the reply, with the reply, or returned. -/
inductive Producer
  | idle
  | holding (body : CommandRequest) (replych : Nat)
  | awaiting (req : SentRequest)
  | answered (reply : Bytes) (replych : Nat)
  | gone
deriving DecidableEq, Repr

def Producer.channel : Producer → Option Nat
  | .holding _ replych | .answered _ replych => some replych
  | .awaiting req => some req.replych
  | .idle | .gone => none

/-- The worker runs the commands of a request one by one. -/
inductive Worker
  | waiting
  | running (req : SentRequest) (todo : List Command) (replies : List Bytes)
  | finished
deriving DecidableEq, Repr

/-- The request in work. -/
def Worker.current : Worker → List SentRequest
  | .running req _ _ => [req]
  | .waiting | .finished => []

/-- Where Run stands: in its accept loop, at `producers.Wait()`, at `<-workerdone`, or
behind it. -/
inductive Stage
  | accepting
  | joining
  | draining
  | stopped
deriving DecidableEq, Repr

/-- A reply channel has room for one reply. `producers` is the counter of the wait
group. `panicked` is set by a send on the closed command channel. The last four fields
record what happened. -/
structure System where
  commandCh : List SentRequest
  closed : Bool
  replyChPool : List Nat
  channels : Nat → Option Bytes
  made : Nat
  producer : Nat → Producer
  spawned : Nat
  producers : Nat
  worker : Worker
  world : World
  stage : Stage
  cancelled : Bool
  panicked : Bool
  sent : List SentRequest
  executed : List (SentRequest × Bytes)
  ran : List (SentRequest × Command)
  received : List (Nat × SentRequest × Bytes)

/-- The goroutine of startActiveExpiry is the first producer, connections follow. -/
def expiry : Nat := 0

def System.start (world : World) : System where
  commandCh := []
  closed := false
  replyChPool := []
  channels _ := none
  made := 0
  producer := Function.update (fun _ => .gone) expiry .idle
  spawned := 1
  producers := 1
  worker := .waiting
  world := world
  stage := .accepting
  cancelled := false
  panicked := false
  sent := []
  executed := []
  ran := []
  received := []

def commandChSize : Nat := 256

def expiryRequest : CommandRequest := ⟨⟨ascii "_EXPIRY", []⟩, [], []⟩

/-- The inner loop of startActiveExpiry while no other request reaches the worker: what
the last round leaves, or `none` when so many rounds were not enough. -/
def expiryRounds (env : Storage.Env) (cfg : Config) : Nat → World → Panics (Option World)
  | 0, _ => .ok none
  | rounds + 1, w => do
    let (reply, w) ← dispatchWorker env cfg w expiryRequest
    match decodeInteger reply with
    | none => .ok (some w)
    | some deletedKeys => if deletedKeys < 5 then .ok (some w) else expiryRounds env cfg rounds w

inductive WorkerStep (env : Storage.Env) (cfg : Config) : System → System → Prop
  | take {s : System} {req : SentRequest} {rest : List SentRequest} (waiting : s.worker = .waiting)
      (queued : s.commandCh = req :: rest) :
      WorkerStep env cfg s { s with commandCh := rest, worker := .running req (commandsOf cfg req.body) [] }
  | run {s : System} {req : SentRequest} {cmd : Command} {todo : List Command} {replies : List Bytes} {reply : Bytes}
      {world : World} (running : s.worker = .running req (cmd :: todo) replies)
      (returned : dispatch env cfg s.world cmd = .ok (reply, world)) :
      WorkerStep env cfg s
        { s with world := world, worker := .running req todo (replies ++ [reply]), ran := s.ran ++ [(req, cmd)] }
  | reply {s : System} {req : SentRequest} {replies : List Bytes} (running : s.worker = .running req [] replies)
      (room : s.channels req.replych = none) :
      WorkerStep env cfg s
        { s with channels := Function.update s.channels req.replych (some (replyOf cfg req.body replies)),
                 worker := .waiting, executed := s.executed ++ [(req, replyOf cfg req.body replies)] }
  | finish {s : System} (waiting : s.worker = .waiting) (empty : s.commandCh = []) (closed : s.closed = true) :
      WorkerStep env cfg s { s with worker := .finished }

/-- Both kinds of producers send and receive alike. A connection, in dispatchSingle,
dispatchPipeline and the EXEC case of handleAction, takes its channel from the pool, which
may have dropped what it stored, and puts it back; the expiry goroutine makes one for each
request and goes on at once while many keys expire. -/
inductive ProducerStep : System → System → Prop
  | get {s : System} {i ch : Nat} (body : CommandRequest) (connection : i ≠ expiry) (idle : s.producer i = .idle)
      (stored : ch ∈ s.replyChPool) :
      ProducerStep s
        { s with replyChPool := s.replyChPool.erase ch, producer := Function.update s.producer i (.holding body ch) }
  | getNew {s : System} {i : Nat} (body : CommandRequest) (connection : i ≠ expiry) (idle : s.producer i = .idle) :
      ProducerStep s { s with made := s.made + 1, producer := Function.update s.producer i (.holding body s.made) }
  | drop {s : System} (ch : Nat) : ProducerStep s { s with replyChPool := s.replyChPool.erase ch }
  | send {s : System} {i ch : Nat} {body : CommandRequest} (holding : s.producer i = .holding body ch)
      (opened : s.closed = false) (room : s.commandCh.length < commandChSize) :
      ProducerStep s
        { s with commandCh := s.commandCh ++ [⟨s.sent.length, i, body, ch⟩],
                 producer := Function.update s.producer i (.awaiting ⟨s.sent.length, i, body, ch⟩),
                 sent := s.sent ++ [⟨s.sent.length, i, body, ch⟩] }
  | sendClosed {s : System} {i ch : Nat} {body : CommandRequest} (holding : s.producer i = .holding body ch)
      (closed : s.closed = true) : ProducerStep s { s with panicked := true }
  | receive {s : System} {i : Nat} {req : SentRequest} {reply : Bytes} (awaiting : s.producer i = .awaiting req)
      (full : s.channels req.replych = some reply) :
      ProducerStep s
        { s with channels := Function.update s.channels req.replych none,
                 producer := Function.update s.producer i (.answered reply req.replych),
                 received := s.received ++ [(i, req, reply)] }
  | put {s : System} {i ch : Nat} {reply : Bytes} (connection : i ≠ expiry) (answered : s.producer i = .answered reply ch) :
      ProducerStep s { s with replyChPool := ch :: s.replyChPool, producer := Function.update s.producer i .idle }
  | leave {s : System} {i : Nat} (connection : i ≠ expiry) (idle : s.producer i = .idle) :
      ProducerStep s { s with producer := Function.update s.producer i .gone, producers := s.producers - 1 }
  | tick {s : System} (idle : s.producer expiry = .idle) :
      ProducerStep s
        { s with made := s.made + 1, producer := Function.update s.producer expiry (.holding expiryRequest s.made) }
  | sweep {s : System} {ch : Nat} {reply : Bytes} {deletedKeys : Int} (answered : s.producer expiry = .answered reply ch)
      (decoded : decodeInteger reply = some deletedKeys) (many : 5 ≤ deletedKeys) :
      ProducerStep s
        { s with made := s.made + 1, producer := Function.update s.producer expiry (.holding expiryRequest s.made) }
  | rest {s : System} {ch : Nat} {reply : Bytes} (answered : s.producer expiry = .answered reply ch)
      (few : ∀ deletedKeys, decodeInteger reply = some deletedKeys → deletedKeys < 5) :
      ProducerStep s { s with producer := Function.update s.producer expiry .idle }
  | stop {s : System} (cancelled : s.cancelled = true)
      (selecting : s.producer expiry = .idle ∨ ∃ body ch, s.producer expiry = .holding body ch) :
      ProducerStep s { s with producer := Function.update s.producer expiry .gone, producers := s.producers - 1 }

/-- The context is cancelled from outside, at any time. A connection may still be
accepted after that. -/
inductive MainStep : System → System → Prop
  | cancel {s : System} : MainStep s { s with cancelled := true }
  | accept {s : System} (accepting : s.stage = .accepting) :
      MainStep s
        { s with producer := Function.update s.producer s.spawned .idle, spawned := s.spawned + 1,
                 producers := s.producers + 1 }
  | join {s : System} (accepting : s.stage = .accepting) (cancelled : s.cancelled = true) :
      MainStep s { s with stage := .joining }
  | close {s : System} (joining : s.stage = .joining) (done : s.producers = 0) :
      MainStep s { s with closed := true, stage := .draining }
  | stop {s : System} (draining : s.stage = .draining) (workerdone : s.worker = .finished) :
      MainStep s { s with stage := .stopped }

inductive Step (env : Storage.Env) (cfg : Config) : System → System → Prop
  | worker {before after : System} (step : WorkerStep env cfg before after) : Step env cfg before after
  | producer {before after : System} (step : ProducerStep before after) : Step env cfg before after
  | main {before after : System} (step : MainStep before after) : Step env cfg before after

end Rediska.Server
