import Rediska.Proofs.ReplyFraming
import Rediska.Server.Connection

/-! Transactions: what the queue holds at any moment, and what EXEC makes of it. -/

namespace Rediska.Proofs
open Go Core Commands Server

/-- Not one of the commands that control transactions. -/
abbrev Ordinary (cmd : Command) : Prop :=
  cmd.name ≠ ascii "MULTI" ∧ cmd.name ≠ ascii "DISCARD" ∧ cmd.name ≠ ascii "EXEC"

/-- How a command can have been handled. -/
inductive Handled (cfg : Config) (t : TxState) (cmd : Command) : TxAction → TxState → Prop
  | nested (multi : cmd.name = ascii "MULTI") (inside : t.isMulti = true) :
      Handled cfg t cmd (.reply (errorReply "ERR MULTI calls can not be nested")) t
  | opened (multi : cmd.name = ascii "MULTI") (outside : t.isMulti = false) :
      Handled cfg t cmd (.reply (encodeSimpleString (ascii "OK"))) { t with isMulti := true }
  | notDiscarded (discard : cmd.name = ascii "DISCARD") (outside : t.isMulti = false) :
      Handled cfg t cmd (.reply (errorReply "ERR DISCARD without MULTI")) t
  | discarded (discard : cmd.name = ascii "DISCARD") (inside : t.isMulti = true) :
      Handled cfg t cmd (.reply (encodeSimpleString (ascii "OK"))) newTxState
  | notExecuted (exec : cmd.name = ascii "EXEC") (outside : t.isMulti = false) :
      Handled cfg t cmd (.reply (errorReply "ERR EXEC without MULTI")) t
  | aborted (exec : cmd.name = ascii "EXEC") (inside : t.isMulti = true) (dirty : t.dirty = true) :
      Handled cfg t cmd (.reply (errorReply "EXECABORT Transaction discarded because of previous errors.")) newTxState
  | executed (exec : cmd.name = ascii "EXEC") (inside : t.isMulti = true) (clean : t.dirty = false) :
      Handled cfg t cmd (.exec t.queued) newTxState
  | passed (ordinary : Ordinary cmd) (outside : t.isMulti = false) :
      Handled cfg t cmd .passthrough t
  | unknown (ordinary : Ordinary cmd) (inside : t.isMulti = true)
      (unknown : isKnownCommand cmd.name = false) :
      Handled cfg t cmd (.reply (encodeError (ascii "ERR unknown command '" ++ cmd.name ++ ascii "'"))) { t with dirty := true }
  | refused {reply : Bytes} (ordinary : Ordinary cmd)
      (inside : t.isMulti = true) (known : isKnownCommand cmd.name = true) (refused : checkCluster cfg cmd = some reply) :
      Handled cfg t cmd (.reply reply) { t with dirty := true }
  | queued (ordinary : Ordinary cmd) (inside : t.isMulti = true)
      (known : isKnownCommand cmd.name = true) (passed : checkCluster cfg cmd = none) :
      Handled cfg t cmd (.reply (encodeSimpleString (ascii "QUEUED"))) { t with queued := t.queued ++ [cmd] }

variable {cfg : Config} {t next : TxState} {cmd : Command} {action : TxAction}

theorem handled (returned : t.handle cfg cmd = (action, next)) : Handled cfg t cmd action next := by
  unfold TxState.handle at returned
  split at returned
  next multi =>
    split at returned
    next inside => cases returned; exact .nested multi inside
    next outside => cases returned; exact .opened multi (Bool.eq_false_iff.mpr outside)
  next notMulti =>
    split at returned
    next discard =>
      split at returned
      next outside => cases returned; exact .notDiscarded discard (Bool.eq_false_iff.mpr outside)
      next inside => cases returned; exact .discarded discard (Classical.not_not.mp inside)
    next notDiscard =>
      split at returned
      next exec =>
        split at returned
        next outside => cases returned; exact .notExecuted exec (Bool.eq_false_iff.mpr outside)
        next inside =>
          split at returned
          next dirty => cases returned; exact .aborted exec (Classical.not_not.mp inside) dirty
          next clean => cases returned; exact .executed exec (Classical.not_not.mp inside) (Bool.eq_false_iff.mpr clean)
      next notExec =>
        have ordinary : Ordinary cmd := ⟨notMulti, notDiscard, notExec⟩
        split at returned
        next outside => cases returned; exact .passed ordinary (Bool.eq_false_iff.mpr outside)
        next inside =>
          have inside := Classical.not_not.mp inside
          split at returned
          next unknown => cases returned; exact .unknown ordinary inside (Bool.eq_false_iff.mpr unknown)
          next known =>
            have known := Classical.not_not.mp known
            split at returned
            next reply refused => cases returned; exact .refused ordinary inside known refused
            next passed => cases returned; exact .queued ordinary inside known passed

/-- A command and what was done with it. -/
abbrev Event := Command × TxAction

/-- Commands fed to one connection's transaction state. -/
def handleAll (cfg : Config) (t : TxState) : List Command → List Event × TxState
  | [] => ([], t)
  | cmd :: rest =>
    let (action, t) := t.handle cfg cmd
    let (events, t) := handleAll cfg t rest
    ((cmd, action) :: events, t)

def Event.opens (event : Event) : Bool := event.1.name = ascii "MULTI" ∧ event.2 = .reply (encodeSimpleString (ascii "OK"))

def Event.closes (event : Event) : Bool := event.1.name = ascii "EXEC" ∨ event.1.name = ascii "DISCARD"

def Event.queues (event : Event) : Bool := event.2 = .reply (encodeSimpleString (ascii "QUEUED"))

/-- Refused while queuing: not a command, or not one for this node. -/
def Event.refused (cfg : Config) (event : Event) : Bool :=
  Ordinary event.1 ∧ (isKnownCommand event.1.name = false ∨ (checkCluster cfg event.1).isSome)

/-- What an event makes of the open transaction, given as the events since its MULTI. -/
def follow (current : Option (List Event)) (event : Event) : Option (List Event) :=
  if event.opens then some [] else if event.closes then none else current.map (· ++ [event])

/-- The events since the most recent successful MULTI, while its transaction is open. -/
def sinceMulti (history : List Event) : Option (List Event) := history.foldl follow none

def queuedCommands (events : List Event) : List Command := (events.filter Event.queues).map (·.1)

/-- The state holds what the history says, and nothing of a transaction that is over. -/
inductive Remembers (cfg : Config) : Option (List Event) → TxState → Prop
  | outside : Remembers cfg none newTxState
  | inside {events : List Event} {t : TxState} (multi : t.isMulti = true) (queued : t.queued = queuedCommands events)
      (dirty : t.dirty = events.any (Event.refused cfg)) : Remembers cfg (some events) t

theorem queues_iff {reply : Bytes} : Event.queues (cmd, .reply reply) ↔ reply = encodeSimpleString (ascii "QUEUED") := by
  simp only [Event.queues, TxAction.reply.injEq, decide_eq_true_eq]

theorem encodeError_not_queued (text : Bytes) : encodeError text ≠ encodeSimpleString (ascii "QUEUED") := by
  intro same
  injection same with head
  exact absurd head (by decide)

theorem follow_closing (closing : cmd.name = ascii "DISCARD" ∨ cmd.name = ascii "EXEC") (current : Option (List Event)) :
    follow current (cmd, action) = none := by
  have notOpens : Event.opens (cmd, action) = false := by
    rcases closing with name | name <;> simp only [Event.opens, name, decide_eq_false_iff_not] <;> exact fun opens => absurd opens.1 (by decide)
  have closes : Event.closes (cmd, action) = true := by
    simpa only [Event.closes, decide_eq_true_eq] using closing.symm
  rw [follow, notOpens, closes]
  rfl

theorem follow_ordinary (ordinary : Ordinary cmd) (current : Option (List Event)) :
    follow current (cmd, action) = current.map (· ++ [(cmd, action)]) := by
  have notOpens : Event.opens (cmd, action) = false := decide_eq_false fun opens => ordinary.1 opens.1
  have notCloses : Event.closes (cmd, action) = false :=
    decide_eq_false fun closes => closes.elim ordinary.2.2 ordinary.2.1
  rw [follow, notOpens, notCloses]
  rfl

namespace Remembers
variable {current : Option (List Event)} {events : List Event}

theorem of_outside (holds : Remembers cfg current t) (outside : t.isMulti = false) : current = none ∧ t = newTxState := by
  cases holds with
  | outside => exact ⟨rfl, rfl⟩
  | inside multi => exact absurd multi (by rw [outside]; decide)

theorem of_inside (holds : Remembers cfg current t) (inside : t.isMulti = true) :
    ∃ events, current = some events ∧ t.queued = queuedCommands events ∧ t.dirty = events.any (Event.refused cfg) := by
  cases holds with
  | outside => exact absurd inside (by decide)
  | inside _ queued dirty => exact ⟨_, rfl, queued, dirty⟩

theorem after {event : Event} (holds : Remembers cfg (some events) t) (multi : next.isMulti = true)
    (queued : next.queued = t.queued ++ if event.queues then [event.1] else [])
    (dirty : next.dirty = (t.dirty || event.refused cfg)) : Remembers cfg (some (events ++ [event])) next := by
  cases holds with
  | inside _ earlier spoiled =>
    refine .inside multi ?_ ?_
    · rw [queued, earlier, queuedCommands, queuedCommands, List.filter_append, List.map_append, List.filter_singleton]
      cases event.queues <;> rfl
    · rw [dirty, spoiled, List.any_append, List.any_cons, List.any_nil, Bool.or_false]

theorem step (holds : Remembers cfg current t) (how : Handled cfg t cmd action next) :
    Remembers cfg (follow current (cmd, action)) next := by
  cases how with
  | opened multi outside =>
    obtain ⟨rfl, rfl⟩ := holds.of_outside outside
    have opens : Event.opens (cmd, .reply (encodeSimpleString (ascii "OK"))) = true := decide_eq_true ⟨multi, rfl⟩
    rw [follow, if_pos opens]
    exact .inside rfl rfl rfl
  | nested multi inside =>
    obtain ⟨events, rfl, _⟩ := holds.of_inside inside
    have kept : follow (some events) (cmd, .reply (errorReply "ERR MULTI calls can not be nested")) =
        some (events ++ [(cmd, .reply (errorReply "ERR MULTI calls can not be nested"))]) := by
      simp only [follow, Event.opens, Event.closes, multi]
      rfl
    rw [kept]
    refine holds.after inside ?_ ?_
    · rw [if_neg (by rw [queues_iff]; exact encodeError_not_queued _), List.append_nil]
    · rw [Event.refused, decide_eq_false (fun refused => refused.1.1 multi), Bool.or_false]
  | notDiscarded discard outside =>
    obtain ⟨_, rfl⟩ := holds.of_outside outside
    rw [follow_closing (.inl discard)]
    exact .outside
  | discarded discard inside =>
    rw [follow_closing (.inl discard)]
    exact .outside
  | notExecuted exec outside =>
    obtain ⟨_, rfl⟩ := holds.of_outside outside
    rw [follow_closing (.inr exec)]
    exact .outside
  | aborted exec inside dirty =>
    rw [follow_closing (.inr exec)]
    exact .outside
  | executed exec inside clean =>
    rw [follow_closing (.inr exec)]
    exact .outside
  | passed ordinary outside =>
    obtain ⟨rfl, rfl⟩ := holds.of_outside outside
    rw [follow_ordinary ordinary]
    exact .outside
  | unknown ordinary inside unknown =>
    obtain ⟨events, rfl, _⟩ := holds.of_inside inside
    rw [follow_ordinary ordinary]
    refine holds.after inside ?_ ?_
    · rw [if_neg (by rw [queues_iff]; exact encodeError_not_queued _), List.append_nil]
    · rw [Event.refused, decide_eq_true ⟨ordinary, .inl unknown⟩, Bool.or_true]
  | refused ordinary inside known refused =>
    obtain ⟨events, rfl, _⟩ := holds.of_inside inside
    obtain ⟨text, _, rfl⟩ := checkKeys_wellFormed refused
    rw [follow_ordinary ordinary]
    refine holds.after inside ?_ ?_
    · rw [if_neg (by rw [queues_iff]; exact encodeError_not_queued _), List.append_nil]
    · rw [Event.refused, decide_eq_true ⟨ordinary, .inr (by rw [refused]; rfl)⟩, Bool.or_true]
  | queued ordinary inside known passed =>
    obtain ⟨events, rfl, _⟩ := holds.of_inside inside
    rw [follow_ordinary ordinary]
    refine holds.after inside ?_ ?_
    · rw [if_pos (queues_iff.mpr rfl)]
    · have notRefused : ¬ (Ordinary cmd ∧ (isKnownCommand cmd.name = false ∨ (checkCluster cfg cmd).isSome = true)) := by
        rw [known, passed]
        simp
      rw [Event.refused, decide_eq_false notRefused, Bool.or_false]

end Remembers

theorem handleAll_remembers {current : Option (List Event)} (holds : Remembers cfg current t) (cmds : List Command) :
    Remembers cfg ((handleAll cfg t cmds).1.foldl follow current) (handleAll cfg t cmds).2 := by
  induction cmds generalizing t current with
  | nil => exact holds
  | cons cmd rest ih => exact ih (holds.step (handled rfl))

theorem remembers_history {earlier : List Command} {history : List Event} (sent : handleAll cfg newTxState earlier = (history, t)) :
    Remembers cfg (sinceMulti history) t := by
  have run := handleAll_remembers (.outside : Remembers cfg none newTxState) earlier
  rwa [sent] at run

theorem Handled.of_exec {batch : List Command} (how : Handled cfg t cmd (.exec batch) next) :
    t.isMulti = true ∧ t.dirty = false ∧ batch = t.queued := by
  cases how with
  | executed _ inside clean => exact ⟨inside, clean, rfl⟩

theorem Handled.of_passthrough (how : Handled cfg t cmd .passthrough next) : t.isMulti = false ∧ next = t := by
  cases how with
  | passed _ outside => exact ⟨outside, rfl⟩

/-- A transaction is made of the commands queued since its MULTI and of nothing else. It
runs only if none was refused, and nothing of it is left when it is over. -/
theorem transaction_is_what_was_queued (cfg : Config) {earlier : List Command} {history : List Event} {t next : TxState}
    {cmd : Command} {action : TxAction} (sent : handleAll cfg newTxState earlier = (history, t))
    (returned : t.handle cfg cmd = (action, next)) :
    (∀ batch, action = .exec batch → ∃ events, sinceMulti history = some events ∧ batch = queuedCommands events ∧
      ∀ event ∈ events, ¬ event.refused cfg) ∧
    (∀ events, sinceMulti history = some events → action ≠ .passthrough) ∧
    (cmd.name = ascii "EXEC" ∨ cmd.name = ascii "DISCARD" → next = newTxState) := by
  have holds := remembers_history sent
  have how := handled returned
  refine ⟨?_, ?_, ?_⟩
  · rintro batch rfl
    obtain ⟨inside, clean, rfl⟩ := how.of_exec
    obtain ⟨events, since, queued, dirty⟩ := holds.of_inside inside
    refine ⟨events, since, queued, ?_⟩
    rw [clean, eq_comm, List.any_eq_false] at dirty
    exact dirty
  · rintro events since rfl
    rw [since] at holds
    cases holds with
    | inside multi _ _ => exact absurd multi (by rw [how.of_passthrough.1]; decide)
  · intro closing
    have after := holds.step how
    rw [follow_closing closing.symm] at after
    cases after
    rfl

theorem set_in_transaction_queued :
    ∃ events, sinceMulti (handleAll .plain newTxState [⟨ascii "MULTI", []⟩, ⟨ascii "SET", [ascii "k", ascii "v"]⟩]).1 = some events ∧
      [⟨ascii "SET", [ascii "k", ascii "v"]⟩] = queuedCommands events ∧ ∀ event ∈ events, ¬ event.refused .plain :=
  have sent : handleAll .plain newTxState [⟨ascii "MULTI", []⟩, ⟨ascii "SET", [ascii "k", ascii "v"]⟩] =
      (_, ⟨true, [⟨ascii "SET", [ascii "k", ascii "v"]⟩], false⟩) := rfl
  have returned : TxState.handle .plain ⟨true, [⟨ascii "SET", [ascii "k", ascii "v"]⟩], false⟩ ⟨ascii "EXEC", []⟩ =
      (.exec [⟨ascii "SET", [ascii "k", ascii "v"]⟩], newTxState) := rfl
  (transaction_is_what_was_queued .plain sent returned).1 _ rfl

end Rediska.Proofs
