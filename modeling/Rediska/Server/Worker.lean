import Rediska.Commands.Dispatch

/-! What the server package hands to the commands package: the file replayed at startup,
and the requests of the dispatch worker. -/

namespace Rediska.Server
open Go Core Storage Commands

def replayAOFCommand (env : Env) (cfg : Config) (args : List Bytes) (s : Store) : Panics Store :=
  match args with
  | [] => .ok s
  | name :: args => replay env cfg s ⟨toUpper env.unicode name, args⟩

/-- Only one of the three forms is filled in. A slice that is not nil has been appended
to, so the empty list stands for nil. -/
structure CommandRequest where
  cmd : Command
  batch : List Command
  pipeline : List Command
  deriving DecidableEq, Repr

def singleRequest (cmd : Command) : CommandRequest := ⟨cmd, [], []⟩

def batchRequest (batch : List Command) : CommandRequest := ⟨⟨[], []⟩, batch, []⟩

/-- A pipeline of one is sent like a single command. -/
def pipelineRequest : List Command → CommandRequest
  | [cmd] => singleRequest cmd
  | pipeline => ⟨⟨[], []⟩, [], pipeline⟩

/-- The commands a request makes the worker run. -/
def commandsOf (cfg : Config) (req : CommandRequest) : List Command :=
  if req.batch ≠ [] then
    if (checkClusterBatch cfg req.batch).isSome then [] else req.batch
  else if req.pipeline ≠ [] then req.pipeline
  else [req.cmd]

/-- The reply to a request, from the replies to its commands. -/
def replyOf (cfg : Config) (req : CommandRequest) (replies : List Bytes) : Bytes :=
  if req.batch ≠ [] then (checkClusterBatch cfg req.batch).getD (encodeRawArray replies)
  else replies.flatten

/-- The body of the worker's loop. A transaction of no commands is no batch, and is
answered like a command without a name. -/
def dispatchWorker (env : Env) (cfg : Config) (w : World) (req : CommandRequest) : Panics (Bytes × World) :=
  if req.batch ≠ [] then dispatchBatch env cfg w req.batch
  else if req.pipeline ≠ [] then dispatchPipeline env cfg w req.pipeline
  else dispatch env cfg w req.cmd

/-- How a worker runs a command, and a transaction. -/
structure Executor (σ : Type) where
  run : σ → Command → Panics (Bytes × σ)
  batch : σ → List Command → Panics (Bytes × σ)

namespace Executor
variable {σ : Type}

/-- The body of the worker's loop, for any worker. -/
def serve (x : Executor σ) (worker : σ) (req : CommandRequest) : Panics (Bytes × σ) :=
  if req.batch ≠ [] then x.batch worker req.batch
  else if req.pipeline ≠ [] then do
    let (replies, worker) ← runAll x.run worker req.pipeline
    .ok (replies.flatten, worker)
  else x.run worker req.cmd

/-- A worker that also keeps the commands it has run. -/
def recording (x : Executor σ) : Executor (σ × List Command) where
  run worker cmd := do
    let (reply, after) ← x.run worker.1 cmd
    .ok (reply, after, worker.2 ++ [cmd])
  batch worker cmds := do
    let (reply, after) ← x.batch worker.1 cmds
    .ok (reply, after, worker.2 ++ cmds)

end Executor

/-- The worker as one connection meets it, with other clients' commands in between:
`served n` is the state its command with number n is run in. -/
def among (env : Env) (cfg : Config) (served : Nat → World) : Executor Nat where
  run n cmd := do
    let (reply, _) ← dispatch env cfg (served n) cmd
    .ok (reply, n + 1)
  batch n cmds := do
    let (reply, _) ← dispatchBatch env cfg (served n) cmds
    .ok (reply, n + (commandsOf cfg (batchRequest cmds)).length)

end Rediska.Server
