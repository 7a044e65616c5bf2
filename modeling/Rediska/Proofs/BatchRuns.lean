import Rediska.Proofs.DispatchSafety
import Rediska.Proofs.Transactions

/-! What becomes of a transaction: DispatchBatch runs all of it, or none of it, and EXEC is
answered with the array of the replies. -/

namespace Rediska.Proofs
open Go Core Storage Cluster Commands Server Logic

/-- While the commands run one after the other from `w`, `cmd` comes to its turn in
`here` and `rest` is still to come. -/
inductive Turn (env : Env) (cfg : Config) : World → List Command → Command → World → List Command → Prop
  | first (w : World) (cmd : Command) (rest : List Command) : Turn env cfg w (cmd :: rest) cmd w rest
  | later {w next here : World} {ran cmd : Command} {others rest : List Command} {reply : Bytes}
      (returned : dispatch env cfg w ran = .ok (reply, next)) (turn : Turn env cfg next others cmd here rest) :
      Turn env cfg w (ran :: others) cmd here rest

variable {env : Env} {cfg : Config} {policy : Policy} {w here after : World} {cmds rest : List Command} {cmd : Command}
  {replies : List Bytes} {reply : Bytes}

theorem Turn.mem (turn : Turn env cfg w cmds cmd here rest) : cmd ∈ cmds := by
  induction turn with
  | first => exact List.mem_cons_self
  | later _ _ ih => exact List.mem_cons_of_mem _ ih

/-- What every dispatched command keeps holds at every turn. -/
theorem Turn.keeps (holds : World → Prop)
    (step : ∀ {w next cmd reply}, holds w → dispatch env cfg w cmd = .ok (reply, next) → holds next)
    (start : holds w) (turn : Turn env cfg w cmds cmd here rest) : holds here := by
  induction turn with
  | first => exact start
  | later returned _ ih => exact ih (step start returned)

theorem Turn.represents {K : Spec.Keyspace} (same : Represents env policy w.store K) (turn : Turn env cfg w cmds cmd here rest) :
    ∃ left, Represents env policy here.store left := by
  apply turn.keeps fun w => ∃ left, Represents env policy w.store left
  · rintro w next cmd reply ⟨left, kept⟩ returned
    exact dispatch_keeps kept returned
  · exact ⟨K, same⟩

theorem dispatchAll_reply (ran : dispatchAll env cfg w cmds = .ok (replies, after)) (said : reply ∈ replies) :
    ∃ cmd here rest next, Turn env cfg w cmds cmd here rest ∧ dispatch env cfg here cmd = .ok (reply, next) := by
  induction cmds generalizing w replies with
  | nil =>
    cases ran
    cases said
  | cons first others ih =>
    obtain ⟨answer, next, answers, returned, others_ran, rfl⟩ := dispatchAll_cons ran
    rcases List.mem_cons.mp said with rfl | later
    · exact ⟨first, w, others, next, .first w first others, returned⟩
    · obtain ⟨cmd, here, rest, final, turn, said⟩ := ih others_ran later
      exact ⟨cmd, here, rest, final, .later returned turn, said⟩

/-- A run of commands returns if each returns when its turn comes. -/
theorem dispatchAll_returns_iff : (∃ replies after, dispatchAll env cfg w cmds = .ok (replies, after)) ↔
    ∀ cmd here rest, Turn env cfg w cmds cmd here rest → ∃ reply next, dispatch env cfg here cmd = .ok (reply, next) := by
  induction cmds generalizing w with
  | nil => exact iff_of_true ⟨[], w, rfl⟩ nofun
  | cons first others ih =>
    constructor
    · rintro ⟨replies, after, ran⟩ cmd here rest turn
      obtain ⟨answer, next, answers, returned, others_ran, _⟩ := dispatchAll_cons ran
      cases turn with
      | first => exact ⟨answer, next, returned⟩
      | later returned' turn =>
        rw [returned] at returned'
        cases returned'
        exact ih.mp ⟨answers, after, others_ran⟩ cmd here rest turn
    · intro each
      obtain ⟨answer, next, returned⟩ := each first w others (.first w first others)
      obtain ⟨answers, last, others_ran⟩ := ih.mpr fun cmd here rest turn => each cmd here rest (.later returned turn)
      exact ⟨answer :: answers, last, by simp only [dispatchAll, returned, others_ran, ok_bind]⟩

theorem dispatchAll_returns_unless {K : Spec.Keyspace} (same : Represents env policy w.store K) (decays : env.lfuDecayTime ≠ 0)
    (loaded : cfg.clusterEnabled = true → cfg.current.isSome = true) :
    (∃ replies after, dispatchAll env cfg w cmds = .ok (replies, after)) ↔
      ∀ cmd here rest, Turn env cfg w cmds cmd here rest → ¬ Breaks env cfg here cmd := by
  rw [dispatchAll_returns_iff]
  refine forall_congr' fun cmd => forall_congr' fun here => forall_congr' fun rest => forall_congr' fun turn => ?_
  obtain ⟨left, kept⟩ := turn.represents same
  exact dispatch_returns_unless kept decays loaded

/-! The three checks of a transaction's keys. -/

/-- The command was answered QUEUED, in whatever state its connection was. -/
def Queued (cfg : Config) (cmd : Command) : Prop :=
  ∃ t next, TxState.handle cfg t cmd = (.reply (encodeSimpleString (ascii "QUEUED")), next)

theorem Queued.passed (queued : Queued cfg cmd) : (∃ name, lookupCommand cmd.name = some name) ∧ checkCluster cfg cmd = none := by
  obtain ⟨t, next, returned⟩ := queued
  have outcome := handled returned
  generalize action : TxAction.reply (encodeSimpleString (ascii "QUEUED")) = answer at outcome
  cases outcome with
  | queued ordinary inside known passed => exact ⟨Option.isSome_iff_exists.mp known, passed⟩
  | nested | opened | notDiscarded | discarded | notExecuted | aborted => exact absurd (TxAction.reply.inj action) (by decide)
  | executed | passed => cases action
  | unknown => exact absurd (TxAction.reply.inj action).symm (encodeError_not_queued _)
  | refused _ _ _ refused =>
    obtain ⟨text, _, rfl⟩ := checkKeys_wellFormed refused
    exact absurd (TxAction.reply.inj action).symm (encodeError_not_queued _)

/-- Commands that pass one by one pass together if their keys are in one slot. -/
theorem checkClusterBatch_none {layout : Layout} (loaded : cfg.current = some layout)
    (each : ∀ cmd ∈ cmds, checkCluster cfg cmd = none) : checkClusterBatch cfg cmds = none ↔ OneSlot (cmds.flatMap keysOf) := by
  unfold checkClusterBatch
  rw [checkKeys_none loaded]
  refine and_iff_left ?_
  intro key named
  obtain ⟨cmd, inside, named⟩ := List.mem_flatMap.mp named
  exact checkKeys_passed loaded (each cmd inside) named

theorem ClusterError.refusal (refused : ClusterError reply) : Refusal reply := by
  have listed := refused.take
  simp only [List.mem_cons, List.not_mem_nil, or_false] at listed
  rcases listed with begins | begins | begins
  · exact ⟨ascii "CRO", by decide, begins⟩
  · exact ⟨ascii "CLU", by decide, begins⟩
  · exact ⟨ascii "MOV", by decide, begins⟩

/-- A command of this node is never told to go elsewhere. -/
theorem dispatch_not_clusterError {name : CommandName} (known : lookupCommand cmd.name = some name)
    (passed : checkCluster cfg cmd = none) (returned : dispatch env cfg w cmd = .ok (reply, after)) : ¬ ClusterError reply := by
  cases dispatched returned with
  | unknown unknown =>
    rw [unknown] at known
    cases known
  | refused refused =>
    rw [refused] at passed
    cases passed
  | full => decide
  | ran known _ _ handled => exact fun refused => (runHandler_said known handled).not_refusal refused.refusal

/-- The transaction is refused as a whole and nothing changes, or it returns the array of
the replies that its commands give one after another, none of which is refused; and it
runs if its keys are in one slot. -/
def AllOrNothing (env : Env) (cfg : Config) (w : World) (cmds : List Command) : Prop :=
  (∃ reply, dispatchBatch env cfg w cmds = .ok (reply, w) ∧ ClusterError reply) ∧ ¬ OneSlot (cmds.flatMap keysOf) ∨
    (∃ replies after, dispatchAll env cfg w cmds = .ok (replies, after) ∧
      dispatchBatch env cfg w cmds = .ok (encodeRawArray replies, after) ∧ ∀ reply ∈ replies, ¬ ClusterError reply) ∧
      OneSlot (cmds.flatMap keysOf)

theorem dispatchBatch_checked (env : Env) (passed : checkClusterBatch cfg cmds = none) (w : World) :
    dispatchBatch env cfg w cmds =
      dispatchAll env cfg w cmds >>= fun result => .ok (encodeRawArray result.1, result.2) := by
  rw [dispatchBatch, passed]

/-- Commands that were queued run all or not at all, unless one of them breaks the worker
when its turn comes. -/
theorem all_or_nothing_iff {layout : Layout} {K : Spec.Keyspace} (loaded : cfg.current = some layout)
    (same : Represents env policy w.store K) (decays : env.lfuDecayTime ≠ 0) (queued : ∀ cmd ∈ cmds, Queued cfg cmd) :
    AllOrNothing env cfg w cmds ↔
      (OneSlot (cmds.flatMap keysOf) → ∀ cmd here rest, Turn env cfg w cmds cmd here rest → ¬ Breaks env cfg here cmd) := by
  have passed := checkClusterBatch_none loaded fun cmd inside => (queued cmd inside).passed.2
  by_cases one : OneSlot (cmds.flatMap keysOf)
  · have batch := dispatchBatch_checked env (passed.mpr one) w
    rw [AllOrNothing, ← dispatchAll_returns_unless same decays fun _ => by rw [loaded]; rfl]
    constructor
    · rintro (⟨_, apart⟩ | ⟨⟨replies, after, ran, _⟩, _⟩)
      · exact absurd one apart
      · exact fun _ => ⟨replies, after, ran⟩
    · intro runs
      obtain ⟨replies, after, ran⟩ := runs one
      refine .inr ⟨⟨replies, after, ran, by rw [batch, ran]; rfl, ?_⟩, one⟩
      intro reply said
      obtain ⟨cmd, here, rest, next, turn, returned⟩ := dispatchAll_reply ran said
      obtain ⟨⟨name, known⟩, passed⟩ := (queued cmd turn.mem).passed
      exact dispatch_not_clusterError known passed returned
  · refine iff_of_true ?_ fun impossible => absurd impossible one
    obtain ⟨reply, refused⟩ := Option.ne_none_iff_exists'.mp (mt passed.mp one)
    exact .inl ⟨⟨reply, by rw [dispatchBatch, refused], checkKeys_clusterError refused⟩, one⟩

/-- The layout of a cluster of one node. -/
def oneNode : Layout :=
  { nodes := [⟨ascii "a", ascii "h:1", 1, [], [], by decide, by decide⟩], self := ⟨0, by decide⟩, slotOwner := fun _ => some ⟨0, by decide⟩ }

def settingsOfOne : Config := { Config.plain with clusterEnabled := true, current := some oneNode }

theorem all_or_nothing_set :
    AllOrNothing (.still 0) settingsOfOne ⟨.new .noeviction, none⟩ [⟨ascii "SET", [ascii "k", ascii "v"]⟩] := by
  have queued : Queued settingsOfOne ⟨ascii "SET", [ascii "k", ascii "v"]⟩ :=
    ⟨⟨true, [], false⟩, ⟨true, [⟨ascii "SET", [ascii "k", ascii "v"]⟩], false⟩, by decide +kernel⟩
  refine (all_or_nothing_iff rfl (.new _ _) (by decide) (List.forall_mem_singleton.mpr queued)).mpr ?_
  intro _ cmd here rest turn breaks
  have named := breaks.appends id
  rw [List.mem_singleton.mp turn.mem] at named
  exact absurd named (by decide)

/-- A transaction in one slot that has an answer for none of its commands: it appends to
a sketch that was there before. -/
theorem all_or_nothing_sketch :
    ¬ ∀ (env : Env) (cfg : Config) (layout : Layout) (policy : Policy) (w : World) (cmds : List Command), env.lfuDecayTime ≠ 0 →
      cfg.current = some layout → Reachable env cfg policy w → (∀ cmd ∈ cmds, Queued cfg cmd) → AllOrNothing env cfg w cmds := by
  intro claim
  have queued : Queued settingsOfOne ⟨ascii "APPEND", [ascii "k", ascii "v"]⟩ :=
    ⟨⟨true, [], false⟩, ⟨true, [⟨ascii "APPEND", [ascii "k", ascii "v"]⟩], false⟩, by decide +kernel⟩
  have created : ∃ reply after, dispatch (.still 0) settingsOfOne ⟨.new .noeviction, none⟩ ⟨ascii "PFADD", [ascii "k"]⟩ = .ok (reply, after) ∧
      dispatchBatch (.still 0) settingsOfOne after [⟨ascii "APPEND", [ascii "k", ascii "v"]⟩] = .error .nilDereference := ⟨_, _, rfl, rfl⟩
  obtain ⟨reply, after, ran, failed⟩ := created
  rcases claim (.still 0) settingsOfOne oneNode .noeviction after [⟨ascii "APPEND", [ascii "k", ascii "v"]⟩] (by decide) rfl
    (.step (.start none) ran) (List.forall_mem_singleton.mpr queued) with ⟨⟨_, returned, _⟩, _⟩ | ⟨⟨_, _, _, returned, _⟩, _⟩
  · rw [failed] at returned
    cases returned
  · rw [failed] at returned
    cases returned

/-! EXEC, from the queue to the worker and back. -/

/-- What EXEC is for: the commands run in order, and the array written to the client has
the reply to each. -/
def AnswersAll (env : Env) (cfg : Config) (w : World) (c : Connection) (action : TxAction) (cmds : List Command) : Prop :=
  ∃ replies after, dispatchAll env cfg w cmds = .ok (replies, after) ∧ replies.length = cmds.length ∧
    (c.handleAction action).run (dispatchWorker env cfg) w =
      .ok (c.reply ([asterisk] ++ itoa cmds.length ++ crlf ++ replies.flatten), after)

theorem handle_exec {t : TxState} (exec : cmd.name = ascii "EXEC") (inside : t.isMulti = true) (clean : t.dirty = false) :
    t.handle cfg cmd = (.exec t.queued, newTxState) := by
  unfold TxState.handle
  rw [if_neg (by rw [exec]; decide), if_neg (by rw [exec]; decide), if_pos exec, if_neg (by rw [inside]; decide),
    if_neg (by rw [clean]; decide)]

/-- A request without commands goes to the worker as the command without a name. -/
theorem exec_none (env : Env) (cfg : Config) (w : World) (c : Connection) :
    (c.handleAction (.exec [])).run (dispatchWorker env cfg) w = .ok (c.reply (ascii "-ERR unknown command ''\r\n"), w) := rfl

theorem exec_some {c : Connection} (off : cfg.current = none) (some : cmds ≠ [])
    (ran : dispatchAll env cfg w cmds = .ok (replies, after)) :
    (c.handleAction (.exec cmds)).run (dispatchWorker env cfg) w =
      .ok (c.reply ([asterisk] ++ itoa cmds.length ++ crlf ++ replies.flatten), after) := by
  have passed : checkClusterBatch cfg cmds = none := by rw [checkClusterBatch, checkKeys_off off]
  have served : dispatchWorker env cfg w (batchRequest cmds) = .ok (encodeRawArray replies, after) := by
    rw [dispatchWorker, batchRequest, if_pos some, dispatchBatch_checked env passed, ran]
    rfl
  have array : encodeRawArray replies = [asterisk] ++ itoa cmds.length ++ crlf ++ replies.flatten := by
    rw [encodeRawArray, dispatchAll_length ran]
  simp only [Connection.handleAction, Connection.request, Dialogue.run, served, ok_bind, array]

theorem reply_injective {c : Connection} {a b : Bytes} (same : c.reply a = c.reply b) : a = b := by
  have all : (c.writer.write a).all = (c.writer.write b).all := congrArg (·.writer.all) same
  rw [Writer.all_write, Writer.all_write] at all
  exact List.append_cancel_left all

/-- EXEC runs the commands that were queued and answers with the array of their replies,
unless there are none, or one of them breaks the worker when its turn comes. -/
theorem exec_runs_queue_iff {K : Spec.Keyspace} {earlier : List Command} {history events : List Event} {t : TxState} {exec : Command}
    (off : cfg.clusterEnabled = false ∧ cfg.current = none) (same : Represents env policy w.store K) (decays : env.lfuDecayTime ≠ 0)
    (sent : handleAll cfg newTxState earlier = (history, t)) (since : sinceMulti history = some events)
    (clean : ∀ event ∈ events, ¬ event.refused cfg) (name : exec.name = ascii "EXEC") (c : Connection) :
    AnswersAll env cfg w c (t.handle cfg exec).1 (queuedCommands events) ↔
      queuedCommands events ≠ [] ∧ ∀ cmd here rest, Turn env cfg w (queuedCommands events) cmd here rest → ¬ Breaks env cfg here cmd := by
  have holds := remembers_history sent
  rw [since] at holds
  cases holds with
  | inside multi queued dirty =>
    rw [← List.any_eq_false, ← dirty] at clean
    rw [handle_exec name multi clean, queued]
    have loaded : cfg.clusterEnabled = true → cfg.current.isSome = true := by simp [off.1]
    rw [← dispatchAll_returns_unless same decays loaded]
    constructor
    · rintro ⟨replies, after, ran, _, answered⟩
      refine ⟨?_, replies, after, ran⟩
      intro none
      rw [none] at ran answered
      cases ran
      rw [exec_none] at answered
      exact absurd (reply_injective (Prod.mk.inj (Except.ok.inj answered)).1) (by decide)
    · rintro ⟨some, replies, after, ran⟩
      exact ⟨replies, after, ran, dispatchAll_length ran, exec_some off.2 some ran⟩

theorem exec_runs_queued_ping :
    AnswersAll (.still 0) .plain ⟨.new .noeviction, none⟩ (.accept [])
      (TxState.handle .plain ⟨true, [⟨ascii "PING", []⟩], false⟩ ⟨ascii "EXEC", []⟩).1 [⟨ascii "PING", []⟩] := by
  have sent : handleAll .plain newTxState [⟨ascii "MULTI", []⟩, ⟨ascii "PING", []⟩] = (_, ⟨true, [⟨ascii "PING", []⟩], false⟩) := rfl
  have since : sinceMulti (handleAll .plain newTxState [⟨ascii "MULTI", []⟩, ⟨ascii "PING", []⟩]).1 =
      some [(⟨ascii "PING", []⟩, .reply (encodeSimpleString (ascii "QUEUED")))] := by decide
  refine (exec_runs_queue_iff ⟨rfl, rfl⟩ (.new _ _) (by decide) sent since (by decide) rfl _).mpr ⟨by decide, ?_⟩
  intro cmd here rest turn breaks
  have ping : cmd = ⟨ascii "PING", []⟩ := List.mem_singleton.mp turn.mem
  have named := breaks.appends id
  rw [ping] at named
  exact absurd named (by decide)

/-- MULTI and EXEC alone are answered with an error, where the array of no replies is due. -/
theorem exec_of_nothing_is_an_error :
    ¬ ∀ (env : Env) (cfg : Config) (policy : Policy) (w : World) (earlier : List Command) (events : List Event) (c : Connection),
      env.lfuDecayTime ≠ 0 → cfg.clusterEnabled = false ∧ cfg.current = none → Reachable env cfg policy w →
      sinceMulti (handleAll cfg newTxState earlier).1 = some events → (∀ event ∈ events, ¬ event.refused cfg) →
      AnswersAll env cfg w c ((handleAll cfg newTxState earlier).2.handle cfg ⟨ascii "EXEC", []⟩).1 (queuedCommands events) := by
  intro claim
  obtain ⟨replies, after, ran, _, answered⟩ :=
    claim (.still 0) .plain .noeviction ⟨.new .noeviction, none⟩ [⟨ascii "MULTI", []⟩] [] (.accept []) (by decide) ⟨rfl, rfl⟩ (.start none)
      (by decide) (by simp)
  cases ran
  have replied := (Prod.mk.inj (Except.ok.inj answered)).1
  have array : ascii "-ERR unknown command ''\r\n" = ascii "*0\r\n" := reply_injective replied
  exact absurd array (by decide)

end Rediska.Proofs
