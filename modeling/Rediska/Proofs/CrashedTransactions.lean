import Rediska.Proofs.AofReplay
import Rediska.Proofs.BatchRuns

/-! A crash while a transaction is being written to the file. Its commands are written
one by one, so the file can end between any two of them. -/

namespace Rediska.Proofs
open Go Core Storage Commands Server Spec

variable {env env' : Env} {cfg cfg' : Config} {policy : Policy} {s : Store} {K : Keyspace} {w after : World}
  {cmds : List Command} {log : List (List Bytes)} {file whole : Bytes}

/-- A file that ends within the next command is replayed up to that command. -/
theorem Rebuilt.recover_torn (rebuilt : Rebuilt env env' cfg' policy w log K s) {cmd : List Bytes} (sized : Sized cmd)
    {torn more : Bytes} (piece : encodeArray cmd = torn ++ more) (cut : more ≠ []) :
    (AOF.mk (log.flatMap encodeArray ++ torn)).recover (replayAOFCommand env' cfg') (.new policy) = .ok s := by
  rw [recover_commands _ rebuilt.sized, rebuilt.replayed, ok_bind]
  obtain ⟨e, rest, after, decoded⟩ := decode_torn (piece ▸ encodeArray_frame sized) cut
  exact recover_error _ decoded s

/-- However the file is cut behind what was there, its replay leads to the contents after
some of the commands that followed. -/
theorem Rebuilt.cut (program : SameProgram env env') (unlimited : cfg.maxMemory ≤ 0) (rebuilt : Rebuilt env env' cfg' policy w log K s)
    (sized : ∀ cmd ∈ cmds, Sized (cmd.name :: cmd.args)) (run : Run env cfg w cmds after) (behind : after.aof = some ⟨whole⟩)
    (kept : log.flatMap encodeArray <+: file) (cut : file <+: whole) :
    ∃ done rest middle final, cmds = done ++ rest ∧ Run env cfg w done middle ∧
      (AOF.mk file).recover (replayAOFCommand env' cfg') (.new policy) = .ok final ∧ SameContents middle.store final ∧
      (file = whole → rest = []) := by
  induction run generalizing log K s with
  | nil w =>
    rw [rebuilt.written] at behind
    cases behind
    obtain rfl := kept.eq_of_length_le cut.length_le
    exact ⟨[], [], w, s, rfl, .nil w, rebuilt.logged.recover, rebuilt.store.sameContents rebuilt.same, fun _ => rfl⟩
  | @cons w middle after cmd rest reply first none others ih =>
    obtain ⟨one, K', s', rebuilt', logged⟩ := rebuilt.step program (evictionStep_unlimited unlimited _ _) (sized _ List.mem_cons_self) first none
    have sized' : ∀ cmd ∈ rest, Sized (cmd.name :: cmd.args) := fun cmd inside => sized cmd (.tail _ inside)
    by_cases all : (log ++ one).flatMap encodeArray <+: file
    · obtain ⟨done, left, last, final, split, ran, replayed, same, finished⟩ := ih rebuilt' sized' behind all
      exact ⟨cmd :: done, left, last, final, by rw [split, List.cons_append], .cons first none ran, replayed, same, finished⟩
    · -- The command was written, and the file ends within it.
      obtain ⟨more, _, _, rebuilt''⟩ := rebuilt'.run program (.unlimited unlimited _ _) sized' others
      have longer : (log ++ one).flatMap encodeArray <+: whole := by
        have written := rebuilt''.written
        rw [behind] at written
        cases written
        exact ⟨more.flatMap encodeArray, List.flatMap_append.symm⟩
      rcases logged with rfl | rfl
      · exact absurd (by rw [List.append_nil]; exact kept) all
      · obtain ⟨torn, rfl⟩ := kept
        have piece := (List.prefix_or_prefix_of_prefix cut longer).resolve_right all
        rw [List.flatMap_append, List.flatMap_singleton, List.prefix_append_right_inj] at piece
        obtain ⟨missing, piece⟩ := piece
        refine ⟨[], cmd :: rest, w, s, rfl, .nil w, rebuilt.recover_torn (sized _ List.mem_cons_self) piece.symm ?_,
          rebuilt.store.sameContents rebuilt.same, ?_⟩
        · rintro rfl
          apply all
          rw [List.flatMap_append, List.flatMap_singleton, ← piece, List.append_nil]
        · rintro rfl
          exact absurd longer all

theorem Run.of_dispatchAll {replies : List Bytes} (ran : dispatchAll env cfg w cmds = .ok (replies, after))
    (endless : ∀ cmd here rest, Turn env cfg w cmds cmd here rest → NoDeadlines here.store) (final : NoDeadlines after.store) :
    Run env cfg w cmds after := by
  induction cmds generalizing w replies with
  | nil =>
    cases ran
    exact .nil _
  | cons cmd rest ih =>
    obtain ⟨reply, next, others, returned, others_ran, _⟩ := dispatchAll_cons ran
    have run := ih others_ran fun cmd here rest turn => endless cmd here rest (.later returned turn)
    refine .cons returned ?_ run
    cases rest with
    | nil =>
      cases others_ran
      exact final
    | cons other rest => exact endless other next rest (.later returned (.first next other rest))

theorem Run.dispatchAll (run : Run env cfg w cmds after) : ∃ replies, dispatchAll env cfg w cmds = .ok (replies, after) := by
  induction run with
  | nil w => exact ⟨[], rfl⟩
  | @cons w middle after cmd rest reply first _ _ ih =>
    obtain ⟨replies, ran⟩ := ih
    exact ⟨reply :: replies, by simp only [Commands.dispatchAll, first, ran, ok_bind]⟩

/-- A crash leaves the contents after some first commands of the transaction, and after
all of them only if everything that was written is there. -/
theorem crash_leaves_first_commands {earlier : List Command} {reply logged : Bytes} (program : SameProgram env env') (cfg' : Config)
    (unlimited : cfg.maxMemory ≤ 0) (sized : ∀ cmd ∈ earlier ++ cmds, Sized (cmd.name :: cmd.args))
    (history : Run env cfg ⟨.new policy, some (newAOF [])⟩ earlier w) (ran : dispatchBatch env cfg w cmds = .ok (reply, after))
    (endless : ∀ cmd here rest, Turn env cfg w cmds cmd here rest → NoDeadlines here.store) (endless' : NoDeadlines after.store)
    (before : w.aof = some ⟨logged⟩) (behind : after.aof = some ⟨whole⟩) (kept : logged <+: file) (cut : file <+: whole) :
    ∃ done rest replies middle final, cmds = done ++ rest ∧ Commands.dispatchAll env cfg w done = .ok (replies, middle) ∧
      (AOF.mk file).recover (replayAOFCommand env' cfg') (.new policy) = .ok final ∧ SameContents middle.store final ∧
      (file = whole → SameContents after.store final) := by
  obtain ⟨log, K, s, rebuilt⟩ := (Rebuilt.start env env' cfg' policy).run program (.unlimited unlimited _ _)
    (fun cmd inside => sized cmd (List.mem_append_left _ inside)) history
  rw [rebuilt.written] at before
  cases before
  cases checked : checkClusterBatch cfg cmds with
  | some refusal =>
    rw [dispatchBatch, checked] at ran
    cases ran
    rw [rebuilt.written] at behind
    cases behind
    obtain rfl := kept.eq_of_length_le cut.length_le
    have same := rebuilt.store.sameContents rebuilt.same
    exact ⟨[], cmds, [], w, s, rfl, rfl, rebuilt.logged.recover, same, fun _ => same⟩
  | none =>
    rw [dispatchBatch_checked env checked] at ran
    obtain ⟨⟨replies, last⟩, all_ran, returned⟩ := bind_ok ran
    cases returned
    have run := Run.of_dispatchAll all_ran endless endless'
    obtain ⟨done, rest, middle, final, split, some, replayed, same, finished⟩ := rebuilt.cut program unlimited
      (fun cmd inside => sized cmd (List.mem_append_right _ inside)) run behind kept cut
    obtain ⟨said, some⟩ := some.dispatchAll
    refine ⟨done, rest, said, middle, final, split, some, replayed, same, ?_⟩
    intro everything
    rw [finished everything, List.append_nil] at split
    rw [split, some] at all_ran
    cases all_ran
    exact same

/-! Two writes. -/

def setK : Command := ⟨ascii "SET", [ascii "k", ascii "v"]⟩
def setM : Command := ⟨ascii "SET", [ascii "m", ascii "v"]⟩

def emptyWorld : World := ⟨.new .noeviction, some (newAOF [])⟩
def worldK : World := ⟨(Store.new .noeviction).set (.still 0) (ascii "k") (ascii "v") 0, some ⟨encodeArray (setK.name :: setK.args)⟩⟩
def worldKM : World :=
  ⟨worldK.store.set (.still 0) (ascii "m") (ascii "v") 0,
    some ⟨encodeArray (setK.name :: setK.args) ++ encodeArray (setM.name :: setM.args)⟩⟩

theorem worldK_endless : NoDeadlines worldK.store := (NoDeadlines.new .noeviction).set _ _ _

theorem worldKM_endless : NoDeadlines worldKM.store := worldK_endless.set _ _ _

theorem set_both : dispatchBatch (.still 0) .plain emptyWorld [setK, setM] = .ok (ascii "*2\r\n+OK\r\n+OK\r\n", worldKM) := rfl

theorem set_both_endless {cmd : Command} {here : World} {rest : List Command}
    (turn : Turn (.still 0) .plain emptyWorld [setK, setM] cmd here rest) : NoDeadlines here.store := by
  have first : dispatch (.still 0) .plain emptyWorld setK = .ok (ascii "+OK\r\n", worldK) := rfl
  cases turn with
  | first => exact .new .noeviction
  | later returned turn =>
    rw [first] at returned
    cases returned
    cases turn with
    | first => exact worldK_endless
    | later _ turn => cases turn

theorem set_both_sized : ∀ cmd ∈ [] ++ [setK, setM], Sized (cmd.name :: cmd.args) := by
  have sized : Sized (setK.name :: setK.args) ∧ Sized (setM.name :: setM.args) := ⟨⟨by decide, by decide⟩, by decide, by decide⟩
  exact List.forall_mem_cons.mpr ⟨sized.1, List.forall_mem_singleton.mpr sized.2⟩

theorem crash_leaves_first_set :
    ∃ done rest replies middle final, [setK, setM] = done ++ rest ∧
      dispatchAll (.still 0) .plain emptyWorld done = .ok (replies, middle) ∧
      (AOF.mk (encodeArray (setK.name :: setK.args))).recover (replayAOFCommand (.still 7) .plain) (.new .noeviction) = .ok final ∧
      SameContents middle.store final ∧
      (encodeArray (setK.name :: setK.args) = encodeArray (setK.name :: setK.args) ++ encodeArray (setM.name :: setM.args) →
        SameContents worldKM.store final) := by
  have program : SameProgram (.still 0) (.still 7) := ⟨rfl, rfl, rfl⟩
  have history : Run (.still 0) .plain ⟨.new .noeviction, some (newAOF [])⟩ [] emptyWorld := .nil emptyWorld
  have before : emptyWorld.aof = some ⟨[]⟩ := rfl
  have behind : worldKM.aof = some ⟨encodeArray (setK.name :: setK.args) ++ encodeArray (setM.name :: setM.args)⟩ := rfl
  exact crash_leaves_first_commands program .plain (Int.le_refl 0) set_both_sized history set_both
    (fun _ _ _ turn => set_both_endless turn) worldKM_endless before behind List.nil_prefix (List.prefix_append _ _)

theorem half_replayed :
    ((AOF.mk (encodeArray (setK.name :: setK.args))).recover (replayAOFCommand (.still 7) .plain) (.new .noeviction)).map
      (fun s => ((s.data.lookup (ascii "k")).isSome, (s.data.lookup (ascii "m")).isSome)) = .ok (true, false) := by
  decide +kernel

/-- The crash comes between the two writes of a transaction, and only the first is there
after the restart. -/
theorem transaction_half_replayed :
    ¬ ∀ (env env' : Env) (cfg cfg' : Config) (policy : Policy) (earlier cmds : List Command) (w after : World)
      (reply logged whole file : Bytes), SameProgram env env' → cfg.maxMemory ≤ 0 →
      (∀ cmd ∈ earlier ++ cmds, Sized (cmd.name :: cmd.args)) → Run env cfg ⟨.new policy, some (newAOF [])⟩ earlier w →
      dispatchBatch env cfg w cmds = .ok (reply, after) →
      (∀ cmd here rest, Turn env cfg w cmds cmd here rest → NoDeadlines here.store) → NoDeadlines after.store →
      w.aof = some ⟨logged⟩ → after.aof = some ⟨whole⟩ → logged <+: file → file <+: whole →
      ∃ final, (AOF.mk file).recover (replayAOFCommand env' cfg') (.new policy) = .ok final ∧
        (SameContents w.store final ∨ SameContents after.store final) := by
  intro claim
  obtain ⟨final, replayed, same⟩ := claim (.still 0) (.still 7) .plain .plain .noeviction [] [setK, setM] emptyWorld worldKM
    (ascii "*2\r\n+OK\r\n+OK\r\n") [] (encodeArray (setK.name :: setK.args) ++ encodeArray (setM.name :: setM.args))
    (encodeArray (setK.name :: setK.args)) ⟨rfl, rfl, rfl⟩ (Int.le_refl 0) set_both_sized (.nil emptyWorld) set_both
    (fun _ _ _ turn => set_both_endless turn) worldKM_endless rfl rfl List.nil_prefix (List.prefix_append _ _)
  have half := half_replayed
  rw [replayed] at half
  obtain ⟨there, missing⟩ := Prod.mk.inj (Except.ok.inj half)
  obtain ⟨e, held⟩ := Option.isSome_iff_exists.mp there
  have absent := Option.not_isSome_iff_eq_none.mp (Bool.eq_false_iff.mp missing)
  rcases same with same | same
  · have values := same (ascii "k")
    have nothing : emptyWorld.store.data.lookup (ascii "k") = none := rfl
    rw [nothing, held] at values
    cases values
  · have values := same (ascii "m")
    rw [absent] at values
    have stored : (worldKM.store.data.lookup (ascii "m")).isSome = true := by decide +kernel
    obtain ⟨e', held'⟩ := Option.isSome_iff_exists.mp stored
    rw [held'] at values
    cases values

end Rediska.Proofs
