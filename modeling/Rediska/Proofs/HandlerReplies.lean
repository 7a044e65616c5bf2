import Rediska.Commands.Dispatch
import Rediska.Spec.Reply

/-! What the handlers say, in one form for all of them. -/

namespace Rediska.Proofs
open Go Core Storage Cluster Commands Spec

/-- How the replies of the checks before the handlers begin: those of the cluster, and
that of the memory limit. -/
def refusalCodes : List Bytes := [ascii "CRO", ascii "CLU", ascii "MOV", ascii "OOM"]

def Refusal (reply : Bytes) : Prop := ∃ code ∈ refusalCodes, reply.take 4 = minus :: code

/-- Text of the source that may stand in an error line and begins like no refusal. -/
def Tidy (text : Bytes) : Prop := OneLine text ∧ 3 ≤ text.length ∧ text.take 3 ∉ refusalCodes

instance (text : Bytes) : Decidable (Tidy text) := inferInstanceAs (Decidable (_ ∧ _ ∧ _))

/-- The characters of a literal, as bytes. -/
abbrev bytesOf (chars : List Char) : Bytes := chars.map fun c => UInt8.ofNat c.toNat

theorem ascii_ofList (chars : List Char) : ascii (String.ofList chars) = bytesOf chars := by
  rw [ascii, String.toList_ofList]

/-- The replies of handlers. `clean` says that client text that is echoed in an error, if
there is any, has no line break in it. -/
inductive Said (clean : Prop) : Bytes → Prop
  | value {reply : Bytes} (formed : WellFormed reply) (noError : reply.head? ≠ some minus) (free : clean) : Said clean reply
  | error {chars : List Char} (tidy : Tidy (bytesOf chars)) (free : clean) : Said clean (errorReply (String.ofList chars))
  | echo {before after : List Char} {text : Bytes} (tidy : Tidy (bytesOf before)) (oneLine : OneLine (bytesOf after))
      (same : OneLine text ↔ clean) : Said clean (encodeError (ascii (String.ofList before) ++ text ++ ascii (String.ofList after)))

namespace Said
variable {clean : Prop} {reply : Bytes}

theorem wellFormed (said : Said clean reply) : WellFormed reply ↔ clean := by
  cases said with
  | value formed _ free => exact iff_of_true formed free
  | error tidy free =>
    refine iff_of_true (encodeError_wellFormed.mpr ?_) free
    rw [ascii_ofList]
    exact tidy.1
  | echo tidy oneLine same =>
    rw [encodeError_wellFormed, OneLine.append, OneLine.append, ascii_ofList, ascii_ofList, ← same]
    exact ⟨fun all => all.1.2, fun free => ⟨⟨tidy.1, free⟩, oneLine⟩⟩

theorem mono {clean' : Prop} (said : Said clean reply) (same : clean ↔ clean') : Said clean' reply := propext same ▸ said

theorem error_append {before after : List Char} (tidy : Tidy (bytesOf before)) (oneLine : OneLine (bytesOf after)) :
    Said True (errorReply (String.ofList before ++ String.ofList after)) := by
  have parts : errorReply (String.ofList before ++ String.ofList after) =
      encodeError (ascii (String.ofList before) ++ [] ++ ascii (String.ofList after)) := by simp [errorReply, ascii]
  rw [parts]
  exact .echo tidy oneLine (iff_of_true (by simp [OneLine]) trivial)

theorem tidy_error {text : Bytes} (tidy : Tidy text) (rest : Bytes) : ¬ Refusal (encodeError (text ++ rest)) := by
  obtain ⟨_, long, other⟩ := tidy
  have start : (encodeError (text ++ rest)).take 4 = minus :: text.take 3 := by
    rw [encodeError, List.append_assoc, List.append_assoc, List.singleton_append, List.take_succ_cons,
      List.take_append_of_le_length long]
  rintro ⟨code, known, same⟩
  rw [start] at same
  exact other ((List.cons.inj same).2 ▸ known)

theorem not_refusal (said : Said clean reply) : ¬ Refusal reply := by
  cases said with
  | value _ noError _ =>
    rintro ⟨code, _, same⟩
    have head := congrArg List.head? same
    rw [List.head?_take] at head
    exact noError head
  | @error chars tidy free =>
    rw [errorReply, ascii_ofList, ← List.append_nil (bytesOf chars)]
    exact tidy_error tidy []
  | echo tidy =>
    rw [ascii_ofList, List.append_assoc]
    exact tidy_error tidy _

theorem bulk (text : Bytes) (free : clean) : Said clean (encodeBulkString text) :=
  .value (encodeBulkString_wellFormed text) (by simp [encodeBulkString]; decide) free

theorem null (free : clean) : Said clean encodeNullBulkString := .value encodeNullBulkString_wellFormed (by decide) free

theorem integer (n : Int) (free : clean) : Said clean (encodeInteger n) :=
  .value (encodeInteger_wellFormed n) (by simp [encodeInteger]; decide) free

theorem simple {chars : List Char} (oneLine : OneLine (bytesOf chars)) (free : clean) :
    Said clean (encodeSimpleString (ascii (String.ofList chars))) := by
  refine .value (encodeSimpleString_wellFormed ?_) (by simp [encodeSimpleString]; decide) free
  rw [ascii_ofList]
  exact oneLine

theorem array {items : List Bytes} (each : ∀ item ∈ items, WellFormed item) (free : clean) : Said clean (encodeRawArray items) :=
  .value (encodeRawArray_wellFormed each) (by simp [encodeRawArray]; decide) free

end Said

variable {env : Env} {cfg : Config} {s after : Store} {args : List Bytes} {reply : Bytes}

/-! The handlers of data commands. -/

theorem handleGet_said (ran : handleGet env s args = .ok (reply, after)) : Said True reply := by
  unfold handleGet at ran
  split at ran
  · obtain ⟨⟨value, _⟩, _, ran⟩ := bind_ok ran
    cases value with
    | none => cases ran; exact .null trivial
    | some value => cases ran; exact .bulk value trivial
  · cases ran
    exact .error (by decide) trivial

theorem setDuration_said {option amount : Bytes} (failed : setDuration env option amount = .error reply) :
    Said True reply := by
  have invalid : Said True (errorReply "ERR invalid expire time in 'set' command") := .error (by decide) trivial
  unfold setDuration at failed
  split at failed
  · cases failed
    exact invalid
  · split at failed
    · cases failed
      exact invalid
    · split at failed
      · cases failed
      · split at failed
        · cases failed
        · cases failed
          exact .error (by decide) trivial

theorem handleSet_said (ran : handleSet env s args = .ok (reply, after)) : Said True reply := by
  unfold handleSet at ran
  split at ran
  · cases ran
    exact .simple (by decide) trivial
  · split at ran
    next refused =>
      cases ran
      exact setDuration_said refused
    next =>
      cases ran
      exact .simple (by decide) trivial
  · cases ran
    exact .error (by decide) trivial

theorem handleExpire_said (ran : handleExpire env s args = .ok (reply, after)) : Said True reply := by
  unfold handleExpire at ran
  split at ran
  · split at ran
    · cases ran
      exact .error (by decide) trivial
    · obtain ⟨⟨value, _⟩, _, ran⟩ := bind_ok ran
      cases value with
      | none => cases ran; exact .error (by decide) trivial
      | some value => cases ran; exact .integer 1 trivial
  · cases ran
    exact .error (by decide) trivial

theorem handleTTL_said (ran : handleTTL env s args = .ok (reply, after)) : Said True reply := by
  unfold handleTTL at ran
  split at ran
  · cases ran
    exact .integer _ trivial
  · cases ran
    exact .error (by decide) trivial

theorem handleIncr_said (ran : handleIncr env s args = .ok (reply, after)) : Said True reply := by
  unfold handleIncr at ran
  split at ran
  · obtain ⟨⟨read, _⟩, _, ran⟩ := bind_ok ran
    cases read with
    | notInteger => cases ran; exact .error (by decide) trivial
    | absent => cases ran; exact .integer 1 trivial
    | value n expiry =>
      obtain ⟨rfl, _⟩ := Prod.mk.inj (Except.ok.inj ran)
      exact .integer _ trivial
  · cases ran
    exact .error (by decide) trivial

theorem handleAppend_said (ran : handleAppend env s args = .ok (reply, after)) : Said True reply := by
  unfold handleAppend at ran
  split at ran
  · obtain ⟨⟨newLen, _⟩, _, ran⟩ := bind_ok ran
    cases ran
    exact .integer newLen trivial
  · cases ran
    exact .error (by decide) trivial

theorem handlePFAdd_said (ran : handlePFAdd env s args = .ok (reply, after)) : Said True reply := by
  unfold handlePFAdd at ran
  split at ran
  · cases ran
    exact .error (by decide) trivial
  · obtain ⟨⟨changed, _⟩, _, ran⟩ := bind_ok ran
    rcases changed with _ | _ | _
    · cases ran
      exact .error (by decide) trivial
    · cases ran
      exact .integer 0 trivial
    · cases ran
      exact .integer 1 trivial

theorem handlePFCount_said (ran : handlePFCount env s args = .ok (reply, after)) : Said True reply := by
  unfold handlePFCount at ran
  split at ran
  · obtain ⟨⟨count, _⟩, _, ran⟩ := bind_ok ran
    cases ran
    exact .integer count trivial
  · cases ran
    exact .error (by decide) trivial

theorem handlePFMerge_said (ran : handlePFMerge env s args = .ok (reply, after)) : Said True reply := by
  unfold handlePFMerge at ran
  split at ran
  · cases ran
    exact .error (by decide) trivial
  · obtain ⟨_, _, ran⟩ := bind_ok ran
    cases ran
    exact .simple (by decide) trivial

theorem handleDel_said (ran : handleDel env s args = .ok (reply, after)) : Said True reply := by
  unfold handleDel at ran
  split at ran
  · cases ran
    exact .error (by decide) trivial
  · cases ran
    exact .integer _ trivial

theorem encodingReply_said (encoding : Option Encoding) : Said True (encodingReply encoding) := by
  rcases encoding with _ | _ | _ | _ | _
  · exact .error (by decide) trivial
  · exact .bulk _ trivial
  · exact .bulk _ trivial
  · exact .bulk _ trivial
  · exact .error (by decide) trivial

theorem freqReply_said (freq : Store.FreqRead) : Said True (freqReply freq) := by
  cases freq with
  | policyNotLFU => exact .error_append (by decide) (by decide)
  | absent => exact .error (by decide) trivial
  | freq counter => exact .integer _ trivial

theorem handleObject_said (ran : handleObject env s args = .ok (reply, after)) : Said True reply := by
  unfold handleObject at ran
  split at ran
  · dsimp only at ran
    split at ran
    · cases ran
      exact encodingReply_said _
    · split at ran
      · cases ran
        exact freqReply_said _
      · cases ran
        exact .error (by decide) trivial
  · cases ran
    exact .error (by decide) trivial

theorem handlePing_said (args : List Bytes) : Said True (handlePing args) := by
  unfold handlePing
  split
  · exact .simple (by decide) trivial
  · exact .bulk _ trivial
  · exact .error (by decide) trivial

theorem handleInfo_said (env : Env) (s : Store) (args : List Bytes) (cfg : Config) :
    Said True (handleInfo env s args cfg) := by
  simp only [handleInfo]
  cases args <;> (repeat' split) <;> exact .bulk _ trivial

/-! Subcommands that are echoed. A word of the source has no line break, so text with
one is never such a word, however its case is changed. -/

theorem oneLine_toUpper (env : Env) (text : Bytes) : OneLine (toUpper env.unicode text) ↔ OneLine text := by
  unfold OneLine
  rw [(line_mem_toUpper env.unicode text).1, (line_mem_toUpper env.unicode text).2]

theorem oneLine_toLower (env : Env) (text : Bytes) : OneLine (toLower env.unicode text) ↔ OneLine text := by
  unfold OneLine
  rw [(line_mem_toLower env.unicode text).1, (line_mem_toLower env.unicode text).2]

theorem oneLine_of_word {text : Bytes} {word : List Char} (oneLine : OneLine (word.map fun c => UInt8.ofNat c.toNat))
    (same : toUpper env.unicode text = ascii (String.ofList word)) : OneLine text := by
  rw [← oneLine_toUpper env, same]
  exact oneLine_literal oneLine

/-- The first argument has no line break. -/
def CleanHead (args : List Bytes) : Prop := ∀ sub rest, args = sub :: rest → OneLine sub

theorem cleanHead_cons {sub : Bytes} {rest : List Bytes} : CleanHead (sub :: rest) ↔ OneLine sub := by
  constructor
  · intro clean
    exact clean sub rest rfl
  · rintro oneLine _ _ ⟨rfl, rfl⟩
    exact oneLine

theorem cleanHead_nil : CleanHead [] := fun _ _ impossible => nomatch impossible

theorem handleDebug_said (env : Env) (s : Store) (args : List Bytes) : Said (CleanHead args) (handleDebug env s args) := by
  unfold handleDebug
  split
  · exact .error (by decide) cleanHead_nil
  next sub rest =>
    rw [cleanHead_cons]
    split
    next memory => exact .integer _ (oneLine_of_word (by decide) memory)
    next =>
      split
      next keys => exact .integer _ (oneLine_of_word (by decide) keys)
      next => exact .echo (by decide) (by decide) .rfl

theorem slotEntryReply_wellFormed {entry : SlotRange × Node} (ran : slotEntryReply entry = .ok reply) : WellFormed reply := by
  obtain ⟨⟨host, port⟩, _, ran⟩ := bind_ok ran
  cases ran
  refine encodeRawArray_wellFormed ?_
  have owner : WellFormed (encodeRawArray
      [encodeBulkString host, encodeInteger port, encodeBulkString entry.2.id, encodeRawArray []]) := by
    refine encodeRawArray_wellFormed ?_
    simp only [List.forall_mem_cons, List.not_mem_nil, false_implies, implies_true, and_true]
    exact ⟨encodeBulkString_wellFormed _, encodeInteger_wellFormed _, encodeBulkString_wellFormed _,
      encodeRawArray_wellFormed (fun _ impossible => nomatch impossible)⟩
  simp only [List.forall_mem_cons, List.not_mem_nil, false_implies, implies_true, and_true]
  exact ⟨encodeInteger_wellFormed _, encodeInteger_wellFormed _, owner⟩

theorem clusterSlots_said {l : Layout} {clean : Prop} (ran : clusterSlots l = .ok reply) (free : clean) : Said clean reply := by
  obtain ⟨out, replies, ran⟩ := bind_ok ran
  cases ran
  exact .array (mapM_all (fun _ _ => slotEntryReply_wellFormed) replies) free

theorem handleCluster_said (ran : handleCluster env cfg args = .ok reply) :
    Said (cfg.clusterEnabled = true → CleanHead args) reply := by
  unfold handleCluster at ran
  split at ran
  next disabled =>
    cases ran
    exact .error (by decide) fun enabled => absurd enabled disabled
  next enabled =>
    have enabled := Classical.not_not.mp enabled
    simp only [enabled, forall_const]
    split at ran
    · cases ran
      exact .error (by decide) cleanHead_nil
    next first rest =>
      rw [cleanHead_cons]
      dsimp only at ran
      split at ran
      · cases ran
        rw [← oneLine_toUpper env, ← oneLine_toLower env]
        exact .echo (by decide) (by decide) .rfl
      · split at ran
        next word =>
          have free := oneLine_of_word (by decide) word
          split at ran
          · cases ran
            exact .integer _ free
          · cases ran
            exact .error (by decide) free
        · split at ran
          next word =>
            obtain ⟨l, _, ran⟩ := bind_ok ran
            cases ran
            exact .bulk _ (oneLine_of_word (by decide) word)
          · split at ran
            next word =>
              obtain ⟨l, _, ran⟩ := bind_ok ran
              exact clusterSlots_said ran (oneLine_of_word (by decide) word)
            · split at ran
              next word =>
                obtain ⟨l, _, ran⟩ := bind_ok ran
                obtain ⟨text, _, ran⟩ := bind_ok ran
                cases ran
                exact .bulk _ (oneLine_of_word (by decide) word)
              · split at ran
                next word =>
                  obtain ⟨l, _, ran⟩ := bind_ok ran
                  cases ran
                  exact .bulk _ (oneLine_of_word (by decide) word)
                · cases ran
                  exact .echo (by decide) (by decide) .rfl

/-- The command makes the server echo text of the client that has a line break in it. -/
def EchoesBreak (cfg : Config) (cmd : Command) : Prop :=
  match lookupCommand cmd.name with
  | none => ¬ OneLine cmd.name
  | some .debug => ¬ CleanHead cmd.args
  | some .cluster => cfg.clusterEnabled = true ∧ ¬ CleanHead cmd.args
  | some _ => False

theorem runHandler_said {cmd : Command} {name : CommandName} (known : lookupCommand cmd.name = some name)
    (ran : runHandler env cfg name s cmd.args = .ok (reply, after)) : Said (¬ EchoesBreak cfg cmd) reply := by
  unfold EchoesBreak
  rw [known]
  unfold runHandler at ran
  cases name with
  | debug =>
    cases ran
    exact (handleDebug_said env _ _).mono Classical.not_not.symm
  | cluster =>
    obtain ⟨answer, answered, returned⟩ := map_ok ran
    cases returned
    exact (handleCluster_said answered).mono (by rw [not_and, Classical.not_not])
  | get => exact (handleGet_said ran).mono not_false_iff.symm
  | set => exact (handleSet_said ran).mono not_false_iff.symm
  | expire => exact (handleExpire_said ran).mono not_false_iff.symm
  | ttl => exact (handleTTL_said ran).mono not_false_iff.symm
  | incr => exact (handleIncr_said ran).mono not_false_iff.symm
  | append => exact (handleAppend_said ran).mono not_false_iff.symm
  | pfadd => exact (handlePFAdd_said ran).mono not_false_iff.symm
  | pfcount => exact (handlePFCount_said ran).mono not_false_iff.symm
  | pfmerge => exact (handlePFMerge_said ran).mono not_false_iff.symm
  | del => exact (handleDel_said ran).mono not_false_iff.symm
  | object => exact (handleObject_said ran).mono not_false_iff.symm
  | ping => cases ran; exact (handlePing_said _).mono not_false_iff.symm
  | info => cases ran; exact (handleInfo_said _ _ _ _).mono not_false_iff.symm
  | expiry => cases ran; exact .integer _ id

end Rediska.Proofs
