import Rediska.Commands.Dispatch
import Rediska.Proofs.StoreAccounting

/-! Commands act on the store by its operations only, so what those keep holds after
every command. -/

namespace Rediska.Proofs
open Go Core Storage Commands

variable {env : Env} {cfg : Config} {s after : Store} {args : List Bytes} {reply : Bytes}

/-! What a handler that has returned has done. -/

/-- The command was answered with an error and did nothing. -/
structure Refused (s : Store) (reply : Bytes) (after : Store) : Prop where
  same : after = s
  error : isErrorReply reply = true

theorem Refused.not_answered (refused : Refused s reply after) (answered : isErrorReply reply = false) : False := by
  rw [refused.error] at answered
  cases answered

theorem handleGet_cases (ran : handleGet env s args = .ok (reply, after)) :
    Refused s reply after ∨ ∃ key value, args = [key] ∧ s.get env key = .ok (value, after) := by
  unfold handleGet at ran
  split at ran
  next key =>
    obtain ⟨⟨value, middle⟩, got, ran⟩ := bind_ok ran
    cases value <;> (cases ran; exact .inr ⟨key, _, rfl, got⟩)
  next =>
    cases ran
    exact .inl ⟨rfl, rfl⟩

theorem setDuration_error {option amount reply : Bytes} (failed : setDuration env option amount = .error reply) :
    isErrorReply reply = true := by
  unfold setDuration at failed
  split at failed
  · cases failed
    rfl
  · split at failed
    · cases failed
      rfl
    · split at failed
      · cases failed
      · split at failed
        · cases failed
        · cases failed
          rfl

theorem handleSet_cases (ran : handleSet env s args = .ok (reply, after)) :
    Refused s reply after ∨ ∃ key value options ttl, args = key :: value :: options ∧ after = s.set env key value ttl := by
  unfold handleSet at ran
  split at ran
  next key value =>
    cases ran
    exact .inr ⟨key, value, [], 0, rfl, rfl⟩
  next key value option amount =>
    split at ran
    next refusal failed =>
      cases ran
      exact .inl ⟨rfl, setDuration_error failed⟩
    next ttl _ =>
      cases ran
      exact .inr ⟨key, value, [option, amount], ttl, rfl, rfl⟩
  next =>
    cases ran
    exact .inl ⟨rfl, rfl⟩

/-- EXPIRE sets what it has read, if anything. -/
theorem handleExpire_cases (ran : handleExpire env s args = .ok (reply, after)) :
    Refused s reply after ∨ ∃ key amount n value middle, args = [key, amount] ∧ atoi amount = some n ∧
      s.get env key = .ok (value, middle) ∧ (value = none ∧ after = middle ∧ isErrorReply reply = true ∨
        ∃ text, value = some text ∧ after = middle.set env key text (wrap64 (n * second))) := by
  unfold handleExpire at ran
  split at ran
  next key amount =>
    split at ran
    next =>
      cases ran
      exact .inl ⟨rfl, rfl⟩
    next n read =>
      obtain ⟨⟨value, middle⟩, got, ran⟩ := bind_ok ran
      refine .inr ⟨key, amount, n, value, middle, rfl, read, got, ?_⟩
      cases value with
      | none =>
        cases ran
        exact .inl ⟨rfl, rfl, rfl⟩
      | some text =>
        cases ran
        exact .inr ⟨text, rfl, rfl⟩
  next =>
    cases ran
    exact .inl ⟨rfl, rfl⟩

theorem handleTTL_cases (ran : handleTTL env s args = .ok (reply, after)) :
    Refused s reply after ∨ ∃ key, args = [key] ∧ after = (s.ttl env key).2 := by
  unfold handleTTL at ran
  split at ran
  next key =>
    cases ran
    exact .inr ⟨key, rfl, rfl⟩
  next =>
    cases ran
    exact .inl ⟨rfl, rfl⟩

/-- INCR reads the clock between its two operations. -/
theorem handleIncr_cases (ran : handleIncr env s args = .ok (reply, after)) :
    Refused s reply after ∨ ∃ key read middle, args = [key] ∧ s.getInt env key = .ok (read, middle) ∧
      (read = .notInteger ∧ after = middle ∧ isErrorReply reply = true ∨ read = .absent ∧ after = middle.set env key (itoa 1) 0 ∨
        ∃ n expiry, read = .value n expiry ∧
          after = (untilExpiry env middle expiry).2.set env key (itoa (wrap64 (n + 1))) (untilExpiry env middle expiry).1) := by
  unfold handleIncr at ran
  split at ran
  next key =>
    obtain ⟨⟨read, middle⟩, got, ran⟩ := bind_ok ran
    refine .inr ⟨key, read, middle, rfl, got, ?_⟩
    cases read with
    | notInteger =>
      cases ran
      exact .inl ⟨rfl, rfl, rfl⟩
    | absent =>
      cases ran
      exact .inr (.inl ⟨rfl, rfl⟩)
    | value n expiry =>
      cases ran
      exact .inr (.inr ⟨n, expiry, rfl, rfl⟩)
  next =>
    cases ran
    exact .inl ⟨rfl, rfl⟩

theorem handleAppend_cases (ran : handleAppend env s args = .ok (reply, after)) :
    Refused s reply after ∨ ∃ key value newLen, args = [key, value] ∧ s.append env key value = .ok (newLen, after) := by
  unfold handleAppend at ran
  split at ran
  next key value =>
    obtain ⟨⟨newLen, middle⟩, appended, ran⟩ := bind_ok ran
    cases ran
    exact .inr ⟨key, value, newLen, rfl, appended⟩
  next =>
    cases ran
    exact .inl ⟨rfl, rfl⟩

/-- PFADD answers an error for a key of another type as well. -/
theorem handlePFAdd_cases (ran : handlePFAdd env s args = .ok (reply, after)) :
    Refused s reply after ∨ ∃ key values changed, args = key :: values ∧ s.pfAdd env key values = .ok (changed, after) ∧
      isErrorReply reply = changed.isNone := by
  unfold handlePFAdd at ran
  split at ran
  next =>
    cases ran
    exact .inl ⟨rfl, rfl⟩
  next key values =>
    obtain ⟨⟨changed, middle⟩, added, ran⟩ := bind_ok ran
    rcases changed with _ | (_ | _) <;> (cases ran; exact .inr ⟨key, values, _, rfl, added, rfl⟩)

theorem handlePFCount_cases (ran : handlePFCount env s args = .ok (reply, after)) :
    Refused s reply after ∨ ∃ key count, args = [key] ∧ s.pfCount env key = .ok (count, after) ∧ reply = encodeInteger count := by
  unfold handlePFCount at ran
  split at ran
  next key =>
    obtain ⟨⟨count, middle⟩, counted, ran⟩ := bind_ok ran
    cases ran
    exact .inr ⟨key, count, rfl, counted, rfl⟩
  next =>
    cases ran
    exact .inl ⟨rfl, rfl⟩

theorem handlePFMerge_cases (ran : handlePFMerge env s args = .ok (reply, after)) :
    Refused s reply after ∨ ∃ dest sources, args = dest :: sources ∧ s.pfMerge env dest sources = .ok after ∧
      reply = encodeSimpleString (ascii "OK") := by
  unfold handlePFMerge at ran
  split at ran
  next =>
    cases ran
    exact .inl ⟨rfl, rfl⟩
  next dest sources =>
    obtain ⟨middle, merged, ran⟩ := bind_ok ran
    cases ran
    exact .inr ⟨dest, sources, rfl, merged, rfl⟩

theorem handleDel_cases (ran : handleDel env s args = .ok (reply, after)) :
    Refused s reply after ∨ after = (s.delete env args).2 := by
  unfold handleDel at ran
  split at ran
  next =>
    cases ran
    exact .inl ⟨rfl, rfl⟩
  next =>
    cases ran
    exact .inr rfl

theorem handleObject_cases (ran : handleObject env s args = .ok (reply, after)) :
    Refused s reply after ∨ ∃ key, after = (s.getEncoding env key).2 ∨ after = (s.getFreq env key).2 := by
  unfold handleObject at ran
  split at ran
  next sub key _ =>
    dsimp only at ran
    split at ran
    · cases ran
      exact .inr ⟨key, .inl rfl⟩
    · split at ran
      · cases ran
        exact .inr ⟨key, .inr rfl⟩
      · cases ran
        exact .inl ⟨rfl, rfl⟩
  next =>
    cases ran
    exact .inl ⟨rfl, rfl⟩

/-! Every command edits the store. -/

theorem Refused.edits (refused : Refused s reply after) : Altered s after := by
  rw [refused.same]
  exact .start

theorem handleExpire_edits (ran : handleExpire env s args = .ok (reply, after)) : Altered s after := by
  rcases handleExpire_cases ran with refused | ⟨key, amount, n, value, middle, _, _, got, ⟨_, rfl, _⟩ | ⟨text, _, rfl⟩⟩
  · exact refused.edits
  · exact get_edits got
  · exact (get_edits got).trans (set_edits env middle key text (wrap64 (n * second)))

theorem untilExpiry_edits (env : Env) (s : Store) (expiry : Option Int) : Altered s (untilExpiry env s expiry).2 := by
  cases expiry with
  | none => exact .start
  | some deadline => exact now_edits env s

theorem handleIncr_edits (ran : handleIncr env s args = .ok (reply, after)) : Altered s after := by
  rcases handleIncr_cases ran with refused | ⟨key, read, middle, _, got, ⟨_, rfl, _⟩ | ⟨_, rfl⟩ | ⟨n, expiry, _, rfl⟩⟩
  · exact refused.edits
  · exact getInt_edits got
  · exact (getInt_edits got).trans (set_edits env middle key (itoa 1) 0)
  · exact ((getInt_edits got).trans (untilExpiry_edits env middle expiry)).trans (set_edits env _ key _ _)

theorem handleObject_edits (ran : handleObject env s args = .ok (reply, after)) : Altered s after := by
  rcases handleObject_cases ran with refused | ⟨key, rfl | rfl⟩
  · exact refused.edits
  · exact getEncoding_edits env s key
  · exact getFreq_edits env s key

theorem runHandler_edits {name : CommandName} (ran : runHandler env cfg name s args = .ok (reply, after)) : Altered s after := by
  cases name with
  | set =>
    rcases handleSet_cases ran with refused | ⟨key, value, options, ttl, _, rfl⟩
    · exact refused.edits
    · exact set_edits env s key value ttl
  | expire => exact handleExpire_edits ran
  | object => exact handleObject_edits ran
  | incr => exact handleIncr_edits ran
  | get =>
    rcases handleGet_cases ran with refused | ⟨key, value, _, got⟩
    · exact refused.edits
    · exact get_edits got
  | ttl =>
    rcases handleTTL_cases ran with refused | ⟨key, _, rfl⟩
    · exact refused.edits
    · exact ttl_edits env s key
  | append =>
    rcases handleAppend_cases ran with refused | ⟨key, value, newLen, _, appended⟩
    · exact refused.edits
    · exact append_edits appended
  | pfadd =>
    rcases handlePFAdd_cases ran with refused | ⟨key, values, changed, _, added, _⟩
    · exact refused.edits
    · exact pfAdd_edits added
  | pfcount =>
    rcases handlePFCount_cases ran with refused | ⟨key, count, _, counted, _⟩
    · exact refused.edits
    · exact pfCount_edits counted
  | pfmerge =>
    rcases handlePFMerge_cases ran with refused | ⟨dest, sources, _, merged, _⟩
    · exact refused.edits
    · exact pfMerge_edits merged
  | del =>
    rcases handleDel_cases ran with refused | rfl
    · exact refused.edits
    · exact deleteFrom_edits env (0, s) args
  | ping | info | debug =>
    cases ran
    exact .start
  | cluster =>
    obtain ⟨_, _, same⟩ := map_ok ran
    cases same
    exact .start
  | expiry =>
    cases ran
    exact deleteExpired_edits env s

/-- The memory check leaves the store alone, or evicts. -/
theorem checkMemory_evicts {name : CommandName} {fits : Bool} (checked : checkMemory env cfg name s = .ok (after, fits)) :
    after = s ∨ ∃ samples maxBytes, s.performEvictions env samples maxBytes = .ok after := by
  cases memoryChecked checked with
  | free | stayed => exact .inl rfl
  | evicted _ _ _ ran => exact .inr ⟨_, _, ran⟩

theorem checkMemory_moves {name : CommandName} {fits : Bool} (checked : checkMemory env cfg name s = .ok (after, fits)) :
    Moved s after := by
  rcases checkMemory_evicts checked with rfl | ⟨samples, maxBytes, evicted⟩
  · exact .start
  · exact performEvictions_moves evicted

theorem dispatch_moves {w final : World} {cmd : Command} (ran : dispatch env cfg w cmd = .ok (reply, final)) :
    Moved w.store final.store := by
  cases dispatched ran with
  | unknown | refused => exact .start
  | full _ _ checked => exact checkMemory_moves checked
  | ran _ _ checked handled =>
    rw [appendAOF_store]
    exact (checkMemory_moves checked).trans (runHandler_edits handled).moved

end Rediska.Proofs
