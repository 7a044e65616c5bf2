import Rediska.Commands.Handlers
import Rediska.Core.Aof

/-! Running commands: one at a time, as a transaction, or as a pipeline. -/

namespace Rediska.Commands
open Go Core Storage

/-- The store, and the append-only file if there is one. Writing to the file does not
fail here. -/
structure World where
  store : Store
  aof : Option AOF

def isErrorReply (reply : Bytes) : Bool := reply.head? = some minus

section
variable (env : Env) (cfg : Config)

def runHandler (name : CommandName) (s : Store) (args : List Bytes) : Panics (Bytes × Store) :=
  match name with
  | .get => handleGet env s args
  | .set => handleSet env s args
  | .expire => handleExpire env s args
  | .ttl => handleTTL env s args
  | .incr => handleIncr env s args
  | .append => handleAppend env s args
  | .pfadd => handlePFAdd env s args
  | .pfcount => handlePFCount env s args
  | .pfmerge => handlePFMerge env s args
  | .del => handleDel env s args
  | .object => handleObject env s args
  | .ping => .ok (handlePing args, s)
  | .info => .ok (handleInfo env s args cfg, s)
  | .debug => .ok (handleDebug env s args, s)
  | .cluster => (handleCluster env cfg args).map (·, s)
  | .expiry =>
    let (deleted, s) := s.deleteExpired env
    .ok (encodeInteger deleted, s)

/-- Eviction before a command that can grow memory, for the policies that evict. -/
def makeRoom (s : Store) (maxBytes : Int) : Panics Store :=
  match cfg.maxMemoryPolicy with
  | .allkeysLRU | .allkeysLFU | .volatileLFU => s.performEvictions env cfg.maxMemorySamples maxBytes
  | .noeviction | .other _ => .ok s

/-- The policies for which Dispatch makes room. -/
def Evicts : Policy → Prop
  | .allkeysLRU | .allkeysLFU | .volatileLFU => True
  | .noeviction | .other _ => False

theorem makeRoom_evicts {cfg : Config} {s : Store} {maxBytes : Int} (evicts : Evicts cfg.maxMemoryPolicy) :
    makeRoom env cfg s maxBytes = s.performEvictions env cfg.maxMemorySamples maxBytes := by
  unfold makeRoom
  cases chosen : cfg.maxMemoryPolicy with
  | allkeysLRU | allkeysLFU | volatileLFU => rfl
  | noeviction | other =>
    rw [chosen] at evicts
    exact evicts.elim

theorem makeRoom_stays {cfg : Config} {s : Store} {maxBytes : Int} (stays : ¬ Evicts cfg.maxMemoryPolicy) :
    makeRoom env cfg s maxBytes = .ok s := by
  unfold makeRoom
  cases chosen : cfg.maxMemoryPolicy with
  | allkeysLRU | allkeysLFU | volatileLFU =>
    rw [chosen] at stays
    exact absurd trivial stays
  | noeviction | other => rfl

/-- The store the handler runs on, and whether memory allows it to run. -/
def checkMemory (name : CommandName) (s : Store) : Panics (Store × Bool) :=
  if denyOOMCommands name ∧ 0 < cfg.maxMemory then do
    let maxBytes := wrap64 (cfg.maxMemory * 2 ^ 20)
    let s ← makeRoom env cfg s maxBytes
    .ok (s, ! s.overMemory maxBytes)
  else .ok (s, true)

/-- More is in use than the limit allows. -/
def OverLimit (cfg : Config) (s : Store) : Prop := 0 < cfg.maxMemory ∧ s.overMemory (wrap64 (cfg.maxMemory * 2 ^ 20)) = true

theorem checkMemory_limited {cfg : Config} {s : Store} {name : CommandName} (grows : denyOOMCommands name = true)
    (limited : 0 < cfg.maxMemory) :
    checkMemory env cfg name s = makeRoom env cfg s (wrap64 (cfg.maxMemory * 2 ^ 20)) >>= fun room =>
      .ok (room, ! room.overMemory (wrap64 (cfg.maxMemory * 2 ^ 20))) := by
  rw [checkMemory, if_pos ⟨grows, limited⟩]

/-- How the check of the memory can have come out. -/
inductive MemoryChecked (name : CommandName) (s : Store) : Store → Bool → Prop
  | free (free : ¬ (denyOOMCommands name = true ∧ 0 < cfg.maxMemory)) : MemoryChecked name s s true
  | stayed {fits : Bool} (grows : denyOOMCommands name = true) (limited : 0 < cfg.maxMemory) (stays : ¬ Evicts cfg.maxMemoryPolicy)
      (weighed : fits = ! s.overMemory (wrap64 (cfg.maxMemory * 2 ^ 20))) : MemoryChecked name s s fits
  | evicted {room : Store} {fits : Bool} (grows : denyOOMCommands name = true) (limited : 0 < cfg.maxMemory)
      (evicts : Evicts cfg.maxMemoryPolicy)
      (ran : s.performEvictions env cfg.maxMemorySamples (wrap64 (cfg.maxMemory * 2 ^ 20)) = .ok room)
      (weighed : fits = ! room.overMemory (wrap64 (cfg.maxMemory * 2 ^ 20))) : MemoryChecked name s room fits

theorem memoryChecked {env : Env} {cfg : Config} {name : CommandName} {s room : Store} {fits : Bool}
    (checked : checkMemory env cfg name s = .ok (room, fits)) : MemoryChecked env cfg name s room fits := by
  by_cases limited : denyOOMCommands name = true ∧ 0 < cfg.maxMemory
  · rw [checkMemory_limited env limited.1 limited.2] at checked
    obtain ⟨after, made, checked⟩ := bind_ok checked
    cases checked
    by_cases evicts : Evicts cfg.maxMemoryPolicy
    · rw [makeRoom_evicts env evicts] at made
      exact .evicted limited.1 limited.2 evicts made rfl
    · rw [makeRoom_stays env evicts] at made
      cases made
      exact .stayed limited.1 limited.2 evicts rfl
  · rw [checkMemory, if_neg limited] at checked
    cases checked
    exact .free limited

def appendAOF (w : World) (name : CommandName) (cmd : Command) (reply : Bytes) : World :=
  match w.aof with
  | some aof =>
    if writeCommands name ∧ ¬ isErrorReply reply then { w with aof := some (aof.write (cmd.name :: cmd.args)) }
    else w
  | none => w

theorem appendAOF_store (w : World) (name : CommandName) (cmd : Command) (reply : Bytes) :
    (appendAOF w name cmd reply).store = w.store := by
  unfold appendAOF
  split
  · split <;> rfl
  · rfl

theorem checkMemory_unlimited {cfg : Config} (unlimited : cfg.maxMemory ≤ 0) (name : CommandName) (s : Store) :
    checkMemory env cfg name s = .ok (s, true) := by
  rw [checkMemory, if_neg (fun limited => absurd limited.2 (by omega))]

def dispatch (w : World) (cmd : Command) : Panics (Bytes × World) :=
  match lookupCommand cmd.name with
  | none => .ok (encodeError (ascii "ERR unknown command '" ++ cmd.name ++ ascii "'"), w)
  | some name =>
    match checkCluster cfg cmd with
    | some reply => .ok (reply, w)
    | none => do
      let (s, fits) ← checkMemory env cfg name w.store
      if ¬ fits then .ok (errorReply "OOM command not allowed when used memory > 'maxmemory'.", { w with store := s })
      else
        let (reply, s) ← runHandler env cfg name s cmd.args
        .ok (reply, appendAOF { w with store := s } name cmd reply)

theorem dispatch_checked {env : Env} {cfg : Config} {w : World} {cmd : Command} {name : CommandName} {room : Store} {fits : Bool}
    (known : lookupCommand cmd.name = some name) (passed : checkCluster cfg cmd = none)
    (checked : checkMemory env cfg name w.store = .ok (room, fits)) :
    dispatch env cfg w cmd =
      if fits then runHandler env cfg name room cmd.args >>= fun result =>
        .ok (result.1, appendAOF { w with store := result.2 } name cmd result.1)
      else .ok (errorReply "OOM command not allowed when used memory > 'maxmemory'.", { w with store := room }) := by
  simp only [dispatch, known, passed, checked, ok_bind]
  cases fits <;> rfl

theorem dispatch_unlimited {env : Env} {cfg : Config} {cmd : Command} {name : CommandName} (unlimited : cfg.maxMemory ≤ 0)
    (known : lookupCommand cmd.name = some name) (passed : checkCluster cfg cmd = none) (w : World) :
    dispatch env cfg w cmd = runHandler env cfg name w.store cmd.args >>= fun result =>
      .ok (result.1, appendAOF { w with store := result.2 } name cmd result.1) :=
  dispatch_checked known passed (checkMemory_unlimited env unlimited name w.store)

/-- How a command can have returned. -/
inductive Dispatched (env : Env) (cfg : Config) (w : World) (cmd : Command) : Bytes → World → Prop
  | unknown (unknown : lookupCommand cmd.name = none) :
      Dispatched env cfg w cmd (encodeError (ascii "ERR unknown command '" ++ cmd.name ++ ascii "'")) w
  | refused {reply : Bytes} (refused : checkCluster cfg cmd = some reply) : Dispatched env cfg w cmd reply w
  | full {name : CommandName} {room : Store} (known : lookupCommand cmd.name = some name) (passed : checkCluster cfg cmd = none)
      (checked : checkMemory env cfg name w.store = .ok (room, false)) :
      Dispatched env cfg w cmd (errorReply "OOM command not allowed when used memory > 'maxmemory'.") { w with store := room }
  | ran {name : CommandName} {room s : Store} {reply : Bytes} (known : lookupCommand cmd.name = some name)
      (passed : checkCluster cfg cmd = none) (checked : checkMemory env cfg name w.store = .ok (room, true))
      (ran : runHandler env cfg name room cmd.args = .ok (reply, s)) :
      Dispatched env cfg w cmd reply (appendAOF { w with store := s } name cmd reply)

theorem dispatched {env : Env} {cfg : Config} {w after : World} {cmd : Command} {reply : Bytes}
    (returned : dispatch env cfg w cmd = .ok (reply, after)) : Dispatched env cfg w cmd reply after := by
  cases known : lookupCommand cmd.name with
  | none =>
    simp only [dispatch, known] at returned
    cases returned
    exact .unknown known
  | some name =>
    cases passed : checkCluster cfg cmd with
    | some refusal =>
      simp only [dispatch, known, passed] at returned
      cases returned
      exact .refused passed
    | none =>
      cases checked : checkMemory env cfg name w.store with
      | error p =>
        simp only [dispatch, known, passed, checked] at returned
        cases returned
      | ok result =>
        obtain ⟨room, fits⟩ := result
        rw [dispatch_checked known passed checked] at returned
        cases fits with
        | false =>
          cases returned
          exact .full known passed checked
        | true =>
          obtain ⟨⟨said, s⟩, ran, returned⟩ := bind_ok returned
          cases returned
          exact .ran known passed checked ran

/-- Neither the cluster nor the memory check, and nothing is written. -/
def replay (s : Store) (cmd : Command) : Panics Store :=
  match lookupCommand cmd.name with
  | none => .ok s
  | some name => (runHandler env cfg name s cmd.args).map (·.2)

def dispatchAll (w : World) : List Command → Panics (List Bytes × World)
  | [] => .ok ([], w)
  | cmd :: rest => do
    let (reply, w) ← dispatch env cfg w cmd
    let (replies, w) ← dispatchAll w rest
    .ok (reply :: replies, w)

theorem dispatchAll_eq (w : World) (cmds : List Command) : dispatchAll env cfg w cmds = runAll (dispatch env cfg) w cmds := by
  induction cmds generalizing w with
  | nil => rfl
  | cons cmd rest ih => simp only [dispatchAll, runAll, ih]

theorem dispatchAll_cons {env : Env} {cfg : Config} {w after : World} {cmd : Command} {rest : List Command} {replies : List Bytes}
    (ran : dispatchAll env cfg w (cmd :: rest) = .ok (replies, after)) :
    ∃ reply next others, dispatch env cfg w cmd = .ok (reply, next) ∧ dispatchAll env cfg next rest = .ok (others, after) ∧
      replies = reply :: others := by
  obtain ⟨⟨reply, next⟩, first, ran⟩ := bind_ok ran
  obtain ⟨⟨others, last⟩, later, ran⟩ := bind_ok ran
  cases ran
  exact ⟨reply, next, others, first, later, rfl⟩

theorem dispatchAll_length {env : Env} {cfg : Config} {w after : World} {cmds : List Command} {replies : List Bytes}
    (ran : dispatchAll env cfg w cmds = .ok (replies, after)) : replies.length = cmds.length := by
  induction cmds generalizing w replies with
  | nil =>
    cases ran
    rfl
  | cons cmd rest ih =>
    obtain ⟨reply, next, others, _, others_ran, rfl⟩ := dispatchAll_cons ran
    rw [List.length_cons, List.length_cons, ih others_ran]

def dispatchBatch (w : World) (cmds : List Command) : Panics (Bytes × World) :=
  match checkClusterBatch cfg cmds with
  | some reply => .ok (reply, w)
  | none => do
    let (replies, w) ← dispatchAll env cfg w cmds
    .ok (encodeRawArray replies, w)

def dispatchPipeline (w : World) (cmds : List Command) : Panics (Bytes × World) := do
  let (replies, w) ← dispatchAll env cfg w cmds
  .ok (replies.flatten, w)

end
end Rediska.Commands
