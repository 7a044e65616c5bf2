import Rediska.Proofs.ClusterCheck
import Rediska.Proofs.HandlerReplies

/-! Replies are single RESP values, unless client text with a line break in it is echoed
in an error line. -/

namespace Rediska.Proofs
open Go Core Storage Cluster Commands Spec

variable {env : Env} {cfg : Config} {s after : Store} {args : List Bytes} {reply : Bytes}

/-- Only commands on keys are refused. -/
theorem not_echoes_of_refused {cmd : Command} (refused : checkCluster cfg cmd = some reply) : ¬ EchoesBreak cfg cmd := by
  have keys : keysOf cmd ≠ [] := by
    intro none
    rw [checkCluster, none, checkKeys_nil] at refused
    cases refused
  unfold EchoesBreak
  split
  next unknown => exact absurd (by rw [keysOf, unknown]) keys
  next debug => exact absurd (by rw [keysOf, debug]; rfl) keys
  next cluster => exact absurd (by rw [keysOf, cluster]; rfl) keys
  next => exact id

theorem dispatch_wellFormed {w final : World} {cmd : Command} (returned : dispatch env cfg w cmd = .ok (reply, final)) :
    WellFormed reply ↔ ¬ EchoesBreak cfg cmd := by
  cases dispatched returned with
  | unknown unknown =>
    simp only [EchoesBreak, unknown, Classical.not_not]
    exact Said.wellFormed (.echo (by decide) (by decide) .rfl)
  | refused refused =>
    refine iff_of_true ?_ (not_echoes_of_refused refused)
    obtain ⟨text, oneLine, rfl⟩ := checkKeys_wellFormed refused
    exact encodeError_wellFormed.mpr oneLine
  | @full name room known _ checked =>
    refine iff_of_true (encodeError_wellFormed.mpr (oneLine_literal (by decide))) ?_
    -- Only a command that can grow memory is turned away, and those echo nothing.
    have grows : denyOOMCommands name = true := by
      cases memoryChecked checked with
      | stayed grows | evicted grows => exact grows
    unfold EchoesBreak
    rw [known]
    cases name <;> first | exact id | cases grows
  | ran known _ _ ran => exact (runHandler_said known ran).wellFormed

theorem dispatchAll_wellFormed {w final : World} {cmds : List Command} {replies : List Bytes}
    (clean : ∀ cmd ∈ cmds, ¬ EchoesBreak cfg cmd) (returned : dispatchAll env cfg w cmds = .ok (replies, final)) :
    replies.length = cmds.length ∧ ∀ reply ∈ replies, WellFormed reply := by
  induction cmds generalizing w replies with
  | nil =>
    cases returned
    exact ⟨rfl, fun _ impossible => nomatch impossible⟩
  | cons cmd rest ih =>
    obtain ⟨reply, middle, others, first, more, rfl⟩ := dispatchAll_cons returned
    obtain ⟨count, each⟩ := ih (fun cmd inside => clean cmd (.tail _ inside)) more
    refine ⟨congrArg (· + 1) count, ?_⟩
    intro said inside
    rcases List.mem_cons.mp inside with rfl | later
    · exact (dispatch_wellFormed first).mpr (clean cmd List.mem_cons_self)
    · exact each said later

/-- A reply is one RESP value exactly if no text with a line break is echoed in it, and
then a pipeline of `n` commands returns `n` of them, told apart in one way only, and a
transaction one: an array of `n`, or an error. -/
theorem replies_are_values (env : Env) (cfg : Config) (w final : World) (reply : Bytes) :
    (∀ cmd, dispatch env cfg w cmd = .ok (reply, final) → (WellFormed reply ↔ ¬ EchoesBreak cfg cmd)) ∧
    (∀ cmds, (∀ cmd ∈ cmds, ¬ EchoesBreak cfg cmd) → dispatchPipeline env cfg w cmds = .ok (reply, final) →
      ∃ values, dispatchAll env cfg w cmds = .ok (values, final) ∧ values.length = cmds.length ∧ reply = values.flatten ∧
        (∀ value ∈ values, WellFormed value) ∧
        ∀ others : List Bytes, reply = others.flatten → (∀ value ∈ others, WellFormed value) → others = values) ∧
    (∀ cmds, (∀ cmd ∈ cmds, ¬ EchoesBreak cfg cmd) → dispatchBatch env cfg w cmds = .ok (reply, final) →
      WellFormed reply ∧ ((∃ text, OneLine text ∧ reply = encodeError text) ∨
        ∃ values, values.length = cmds.length ∧ (∀ value ∈ values, WellFormed value) ∧ reply = encodeRawArray values)) := by
  refine ⟨fun cmd returned => dispatch_wellFormed returned, ?_, ?_⟩
  · intro cmds clean returned
    obtain ⟨⟨values, last⟩, all, returned⟩ := bind_ok returned
    cases returned
    obtain ⟨count, each⟩ := dispatchAll_wellFormed clean all
    refine ⟨values, all, count, rfl, each, ?_⟩
    intro others same formed
    exact flatten_wellFormed_injective formed each same.symm
  · intro cmds clean returned
    unfold dispatchBatch at returned
    split at returned
    next refused =>
      cases returned
      obtain ⟨text, oneLine, rfl⟩ := checkKeys_wellFormed refused
      exact ⟨encodeError_wellFormed.mpr oneLine, .inl ⟨text, oneLine, rfl⟩⟩
    next =>
      obtain ⟨⟨values, last⟩, all, returned⟩ := bind_ok returned
      cases returned
      obtain ⟨count, each⟩ := dispatchAll_wellFormed clean all
      exact ⟨encodeRawArray_wellFormed each, .inr ⟨values, count, each, rfl⟩⟩

theorem replies_are_values_ping :
    WellFormed (encodeSimpleString (ascii "PONG")) ↔ ¬ EchoesBreak .plain ⟨ascii "PING", []⟩ :=
  (replies_are_values (Env.still 0) .plain ⟨.new .noeviction, none⟩ ⟨.new .noeviction, none⟩ _).1 ⟨ascii "PING", []⟩ rfl

theorem unknown_command_splits_reply :
    ¬ ∀ (env : Env) (cfg : Config) (w final : World) (cmd : Command) (reply : Bytes),
      dispatch env cfg w cmd = .ok (reply, final) → WellFormed reply := by
  intro claim
  have formed := claim (Env.still 0) .plain ⟨.new .noeviction, none⟩ ⟨.new .noeviction, none⟩ ⟨ascii "X\r\n+OK", []⟩ _ rfl
  have oneLine := (Said.wellFormed (.echo (by decide) (by decide) .rfl)).mp formed
  exact absurd oneLine (by decide)

end Rediska.Proofs
