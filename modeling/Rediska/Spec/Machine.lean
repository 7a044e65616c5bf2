import Rediska.Server.Startup
import Rediska.Spec.Deadlines

/-! The server as its clients see it: a keyspace, on which commands act one after another.
Between two commands nothing happens to it. A command may find that dead items have gone,
and that others have, if there is a memory limit and it was reached. -/

namespace Rediska.Spec
open Go Core Storage Commands Server

/-- The commands that other keys may have to give way to. -/
def EvictsFor (cfg : Config) (cmd : Command) : Prop :=
  ∃ name, lookupCommand cmd.name = some name ∧ denyOOMCommands name = true ∧ 0 < cfg.maxMemory ∧ Evicts cfg.maxMemoryPolicy

/-- `OBJECT FREQ` reads a stamp, of which the keyspace knows nothing. -/
def AsksFreq (env : Env) (name : CommandName) (args : List Bytes) : Prop :=
  name = .object ∧ ∃ sub key rest, args = sub :: key :: rest ∧ toUpper env.unicode sub = ascii "FREQ"

section
-- A keyspace has no sizes and stamps. `stores` relates it to the stores that have it for
-- their contents.
variable (env : Env) (cfg : Config) (rules : Rules) (stores : Keyspace → Store → Prop)

/-- The contents take more memory than the limit allows. -/
def Full (K : Keyspace) : Prop := ∃ s, stores K s ∧ OverLimit cfg s

/-- Only a command that keys have to give way to finds fewer of them, and only when the
limit was reached. -/
def MadeRoom (cmd : Command) (K room : Keyspace) : Prop := room = K ∨ EvictsFor cfg cmd ∧ Full cfg stores K ∧ Thinned K room

/-- A command that has made no request: it was turned away, or is about something else than
the keys and their values. What it is answered is fixed in each case. -/
inductive Passed (ended : Int) (K : Keyspace) (cmd : Command) : Bytes → Keyspace → Prop
  | unknown (unknown : lookupCommand cmd.name = none) :
      Passed ended K cmd (encodeError (ascii "ERR unknown command '" ++ cmd.name ++ ascii "'")) K
  | elsewhere {reply : Bytes} (refused : checkCluster cfg cmd = some reply) : Passed ended K cmd reply K
  | full {name : CommandName} {room : Keyspace} (known : lookupCommand cmd.name = some name) (here : checkCluster cfg cmd = none)
      (grows : denyOOMCommands name = true) (made : MadeRoom cfg stores cmd K room) (full : Full cfg stores room) :
      Passed ended K cmd (errorReply "OOM command not allowed when used memory > 'maxmemory'.") room
  | malformed {name : CommandName} {room : Keyspace} {reply : Bytes} (known : lookupCommand cmd.name = some name)
      (here : checkCluster cfg cmd = none) (unasked : requestOf env name cmd.args = none) (made : MadeRoom cfg stores cmd K room)
      (error : isErrorReply reply = true) (rejects : ∀ s, runHandler env cfg name s cmd.args = .ok (reply, s)) :
      Passed ended K cmd reply room
  | shown {name : CommandName} {s after : Store} {left : Keyspace} {reply : Bytes} (known : lookupCommand cmd.name = some name)
      (here : checkCluster cfg cmd = none) (beyond : isData name = false ∨ AsksFreq env name cmd.args) (stored : stores K s)
      (ran : runHandler env cfg name s cmd.args = .ok (reply, after)) (shrunk : ShrunkAt ended K left) (kept : stores left after) :
      Passed ended K cmd reply left

/-- A command that ran between two moments. Either it made its request, for keys that are
served here, and all readings of the clock were made in between, or it was passed over. -/
inductive Serves (began ended : Int) (K : Keyspace) (cmd : Command) : Bytes → Keyspace → Prop
  | answered {name : CommandName} {request : Request} {clock : Nat → Int} {room left : Keyspace} {reply : Bytes}
      (known : lookupCommand cmd.name = some name) (asked : requestOf env name cmd.args = some request)
      (here : checkCluster cfg cmd = none) (made : MadeRoom cfg stores cmd K room)
      (readings : ∀ i, began ≤ clock i ∧ clock i ≤ ended) (runs : request.run rules clock room = .ok (reply, left)) :
      Serves began ended K cmd reply left
  | passed {reply : Bytes} {left : Keyspace} (passed : Passed env cfg stores ended K cmd reply left) : Serves began ended K cmd reply left

/-- Commands with their replies, one after another. -/
inductive Serving : Int → Keyspace → List (Command × Bytes) → Int → Keyspace → Prop
  | nil (now : Int) (K : Keyspace) : Serving now K [] now K
  | cons {began ended final : Int} {K middle left : Keyspace} {cmd : Command} {reply : Bytes} {rest : List (Command × Bytes)}
      (serves : Serves env cfg rules stores began ended K cmd reply middle) (forward : began ≤ ended)
      (serving : Serving ended middle rest final left) : Serving began K ((cmd, reply) :: rest) final left

/-- Whole requests with their replies, one after another: the commands of each follow
directly on each other. -/
inductive Answering : Int → Keyspace → List (CommandRequest × Bytes) → Int → Keyspace → Prop
  | nil (now : Int) (K : Keyspace) : Answering now K [] now K
  | cons {began ended final : Int} {K middle left : Keyspace} {body : CommandRequest} {replies : List Bytes}
      {rest : List (CommandRequest × Bytes)} (each : replies.length = (commandsOf cfg body).length)
      (serving : Serving env cfg rules stores began K ((commandsOf cfg body).zip replies) ended middle)
      (answering : Answering ended middle rest final left) :
      Answering began K ((body, replyOf cfg body replies) :: rest) final left

end

/-- The commands of several processes, one process after another. Each goes on with the
keyspace that the one before it has left. -/
inductive ServesLives (rules : Life → Rules) (stores : Life → Keyspace → Store → Prop) (start : Keyspace) : List Life → Keyspace → Prop
  | none : ServesLives rules stores start [] start
  | next {lives : List Life} {life : Life} {K left : Keyspace} {began ended : Int} (before : ServesLives rules stores start lives K)
      (serving : Serving life.env life.cfg (rules life) (stores life) began K life.served ended left) :
      ServesLives rules stores start (lives ++ [life]) left

section
variable {env : Env} {cfg : Config} {stores : Keyspace → Store → Prop} {K room left : Keyspace} {cmd : Command} {ended : Int} {reply : Bytes}

theorem MadeRoom.thinned (made : MadeRoom cfg stores cmd K room) : Thinned K room := by
  rcases made with rfl | ⟨_, _, thinned⟩
  · exact fun _ => .inl rfl
  · exact thinned

theorem MadeRoom.stays (made : MadeRoom cfg stores cmd K room) (never : ¬ EvictsFor cfg cmd) : room = K := by
  rcases made with same | ⟨evicts, _⟩
  · exact same
  · exact absurd evicts never

/-- What a command takes that makes no request: keys for others to give way, and dead items. -/
theorem Passed.shrinks (passed : Passed env cfg stores ended K cmd reply left) :
    ∃ room, MadeRoom cfg stores cmd K room ∧ ShrunkAt ended room left := by
  cases passed with
  | unknown | elsewhere => exact ⟨K, .inl rfl, .refl ended K⟩
  | full _ _ _ made => exact ⟨left, made, .refl ended left⟩
  | malformed _ _ _ made => exact ⟨left, made, .refl ended left⟩
  | shown _ _ _ _ _ shrunk => exact ⟨K, .inl rfl, shrunk⟩

end

end Rediska.Spec
