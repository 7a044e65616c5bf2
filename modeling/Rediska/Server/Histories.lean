import Mathlib.Logic.Relation
import Rediska.Logic.Linearizability
import Rediska.Server.Run

/-! What is seen of running servers: the requests and replies of one of them in the order
of time, the commands its worker has run, and several servers of one cluster. These never
talk to each other: each has its own process, settings, store and clients. -/

namespace Rediska.Server
open Go Core Storage Commands Logic

/-- What a step shows to those outside: a request sent, or a reply received. -/
def observed (s after : System) : List (HistoryEvent SentRequest Bytes) :=
  (after.sent.drop s.sent.length).map .call ++ (after.received.drop s.received.length).map fun got => .ret got.2.1 got.2.2

/-- A run of the server, and what is seen of it, in the order of time. -/
inductive Trace (env : Env) (cfg : Config) (initial : World) : List (HistoryEvent SentRequest Bytes) → System → Prop
  | start : Trace env cfg initial [] (.start initial)
  | step {history : List (HistoryEvent SentRequest Bytes)} {s after : System} (trace : Trace env cfg initial history s)
      (step : Step env cfg s after) : Trace env cfg initial (history ++ observed s after) after

/-- Runs in which the worker takes a number of steps, with any other steps in between. -/
inductive Takes (env : Env) (cfg : Config) (s : System) : Nat → System → Prop
  | none : Takes env cfg s 0 s
  | worker {k : Nat} {t after : System} (before : Takes env cfg s k t) (step : WorkerStep env cfg t after) : Takes env cfg s (k + 1) after
  | producer {k : Nat} {t after : System} (before : Takes env cfg s k t) (step : ProducerStep t after) : Takes env cfg s k after
  | main {k : Nat} {t after : System} (before : Takes env cfg s k t) (step : MainStep t after) : Takes env cfg s k after

/-- A command that was run, with the request it came in and the state it was run in. -/
structure Taken where
  req : SentRequest
  cmd : Command
  world : World

/-- Commands run one after the other. -/
def takenFrom (env : Env) (cfg : Config) : World → List (SentRequest × Command) → List Taken
  | _, [] => []
  | w, (req, cmd) :: rest =>
    ⟨req, cmd, w⟩ :: match dispatch env cfg w cmd with
      | .ok done => takenFrom env cfg done.2 rest
      | .error _ => []

/-- The commands of one connection, each with the state it was run in. -/
def takenFor (i : Nat) (taken : List Taken) : List Taken := taken.filter fun t => t.req.producer = i

/-- The states the commands of one connection are run in. -/
def Taken.states (initial : World) (mine : List Taken) (n : Nat) : World := (mine[n]?.map Taken.world).getD initial

section
variable {ι : Type}

/-- One node runs a command, by itself or out of a pipeline or a transaction. -/
def ClusterStep (env : ι → Env) (cfg : ι → Config) (before after : ι → World) : Prop :=
  ∃ (i : ι) (cmd : Command) (reply : Bytes), dispatch (env i) (cfg i) (before i) cmd = .ok (reply, after i) ∧
    ∀ j, j ≠ i → after j = before j

/-- One node serves a request of a client, whatever its form. -/
def ClusterServes (env : ι → Env) (cfg : ι → Config) (before after : ι → World) : Prop :=
  ∃ (i : ι) (req : CommandRequest) (reply : Bytes), dispatchWorker (env i) (cfg i) (before i) req = .ok (reply, after i) ∧
    ∀ j, j ≠ i → after j = before j

/-- The operations of a node, among those of all nodes. -/
def atNode (i : ι) : HistoryEvent SentRequest Bytes → HistoryEvent (ι × SentRequest) Bytes
  | .call req => .call (i, req)
  | .ret req reply => .ret (i, req) reply

/-- One node takes a step at a time, and none of them knows of the others. -/
inductive ClusterTrace [DecidableEq ι] (env : ι → Env) (cfg : ι → Config) (initial : ι → World) :
    List (HistoryEvent (ι × SentRequest) Bytes) → (ι → System) → Prop
  | start : ClusterTrace env cfg initial [] fun i => .start (initial i)
  | step {history : List (HistoryEvent (ι × SentRequest) Bytes)} {s : ι → System} {i : ι} {after : System}
      (trace : ClusterTrace env cfg initial history s) (step : Step (env i) (cfg i) (s i) after) :
      ClusterTrace env cfg initial (history ++ (observed (s i) after).map (atNode i)) (Function.update s i after)

end
end Rediska.Server
