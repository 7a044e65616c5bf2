import Rediska.Server.Connection
import Rediska.Server.Run

/-! The whole server: the goroutines of Run, each connection among them as the program of
handleConnection. A connection asks the worker and goes on with the reply, and between
its requests the other goroutines move. -/

namespace Rediska.Server
open Go Core Commands Logic

/-- `input` records what the reads of a connection return, up to its end or to the moment
the shutdown closes it. -/
structure Process where
  system : System
  client : Nat → Goroutine
  input : Nat → List Bytes

def Process.start (world : World) : Process where
  system := .start world
  client _ := .done (.accept [])
  input _ := []

/-- A connection moves by itself, asks for a reply channel when it has something to ask,
sends and waits, and goes on with the reply when it has put the channel back. It returns
when its loop has, or when a write to the client fails, for which any moment between two
requests is possible here. A panic of its own ends the server: there is no step for it. -/
inductive ProcessStep (env : Storage.Env) (cfg : Config) : Process → Process → Prop
  | apart {s : Process} {after : System} (step : Step env cfg s.system after)
      (apart : ∀ i, i ≠ expiry → after.producer i = s.system.producer i) : ProcessStep env cfg s { s with system := after }
  | accept {s : Process} {after : System} (chunks : List Bytes) (step : MainStep s.system after)
      (accepted : after.spawned = s.system.spawned + 1) :
      ProcessStep env cfg s
        { s with system := after, client := Function.update s.client s.system.spawned (.done (.accept chunks)),
                 input := Function.update s.input s.system.spawned chunks }
  | advance {s : Process} {i : Nat} {c : Connection} (connection : i ≠ expiry) (idle : s.system.producer i = .idle)
      (top : s.client i = .done c) (goes : c.ended = false) :
      ProcessStep env cfg s { s with client := Function.update s.client i (c.step env.unicode cfg) }
  | ask {s : Process} {after : System} {i ch : Nat} {body : CommandRequest} {next : Bytes → Goroutine} (connection : i ≠ expiry)
      (asks : s.client i = .ask body next) (step : ProducerStep s.system after) (idle : s.system.producer i = .idle)
      (holding : after.producer i = .holding body ch) : ProcessStep env cfg s { s with system := after }
  | send {s : Process} {after : System} {i ch : Nat} {body : CommandRequest} {req : SentRequest} (connection : i ≠ expiry)
      (step : ProducerStep s.system after) (holding : s.system.producer i = .holding body ch)
      (awaiting : after.producer i = .awaiting req) : ProcessStep env cfg s { s with system := after }
  | receive {s : Process} {after : System} {i ch : Nat} {req : SentRequest} {reply : Bytes} (connection : i ≠ expiry)
      (step : ProducerStep s.system after) (awaiting : s.system.producer i = .awaiting req)
      (answered : after.producer i = .answered reply ch) : ProcessStep env cfg s { s with system := after }
  | resume {s : Process} {after : System} {i ch : Nat} {reply : Bytes} {body : CommandRequest} {next : Bytes → Goroutine}
      (connection : i ≠ expiry) (asks : s.client i = .ask body next) (step : ProducerStep s.system after)
      (answered : s.system.producer i = .answered reply ch) (idle : after.producer i = .idle) :
      ProcessStep env cfg s { s with system := after, client := Function.update s.client i (next reply) }
  | leave {s : Process} {after : System} {i : Nat} (connection : i ≠ expiry) (alive : ∀ p, s.client i ≠ .failed p)
      (step : ProducerStep s.system after) (idle : s.system.producer i = .idle) (gone : after.producer i = .gone) :
      ProcessStep env cfg s { s with system := after }

/-- The expiry goroutine takes up another round, or sends its request, although the
context is cancelled. Both of its selects pick at random among the cases that are ready. -/
def Persists (s after : System) : Prop :=
  (s.producer expiry = .idle ∧ ∃ body ch, after.producer expiry = .holding body ch) ∨
    ∃ body ch req, s.producer expiry = .holding body ch ∧ after.producer expiry = .awaiting req

/-- The steps of a shutdown, in which the selects of the expiry goroutine see that the
context is cancelled. A step that changes nothing is none. -/
def Drains (env : Storage.Env) (cfg : Config) (s after : Process) : Prop :=
  ProcessStep env cfg s after ∧ after ≠ s ∧ ¬ Persists s.system after.system

/-- Run has returned. Every request was executed, and its reply was received. -/
structure Drained (s : Process) : Prop where
  stopped : s.system.stage = .stopped
  executed : s.system.executed.map (·.1) = s.system.sent
  received : ∀ req reply, (req, reply) ∈ s.system.executed → (req.producer, req, reply) ∈ s.system.received

end Rediska.Server
