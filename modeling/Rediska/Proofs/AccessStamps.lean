import Rediska.Proofs.KeyFootprint
import Rediska.Proofs.LfuCounters
import Rediska.Proofs.Lifetimes
import Rediska.Proofs.SketchTypes

/-! The stamps commands leave at the keys they use: which commands count as an access,
which write the entry anew, and which forget to stamp it. -/

namespace Rediska.Proofs
open Go Core Hll Storage Commands

variable {env : Env} {cfg : Config} {s middle after : Store} {key reply : Bytes} {e : Entry} {args rest : List Bytes}
  {name : CommandName} {current stamp : UInt32}

theorem Renewed.earlier (renewed : Renewed env middle after stamp) (later : s.tick ≤ middle.tick) (policy : middle.isLFU = s.isLFU) :
    Renewed env s after stamp := by
  obtain ⟨i, start, stop, written⟩ := renewed
  rw [policy] at written
  exact ⟨i, Nat.le_trans later start, stop, written⟩

theorem stampAccess_restamps {drawn : Store} (ran : middle.stampAccess env current = .ok (stamp, drawn)) (later : s.tick ≤ middle.tick)
    (policy : middle.isLFU = s.isLFU) (last : after.tick = drawn.tick) : Restamped env s after current stamp := by
  have access := stampAccess_stamp ran
  have ticks := stampAccess_ticks ran
  rw [policy] at access
  refine ⟨middle.tick, later, ?_, access⟩
  rw [last, ticks]
  apply Nat.lt_add_of_pos_right
  split <;> decide

theorem readTick_later (s : Store) (e : Entry) : s.tick ≤ readTick s e :=
  Nat.le_trans (Nat.le_add_right _ _) (Nat.le_add_right _ _)

theorem handleGet_restamps (held : s.data.lookup key = some e) (alive : expiredAt (env.clock s.tick) e = false)
    (ran : handleGet env s (key :: rest) = .ok (reply, after)) (answered : isErrorReply reply = false) :
    ∃ next, after.data.lookup key = some next ∧ Restamped env s after e.lru next.lru := by
  rcases handleGet_cases ran with refused | ⟨_, value, same, got⟩
  · exact (refused.not_answered answered).elim
  · cases same
    obtain ⟨_, stamp, access, data⟩ := get_live held alive got
    refine ⟨{ e with lru := stamp }, ?_, access⟩
    rw [data]
    exact AList.lookup_insert _

/-- APPEND looks at no deadline. -/
theorem handleAppend_restamps (held : s.data.lookup key = some e) (ran : handleAppend env s (key :: rest) = .ok (reply, after))
    (answered : isErrorReply reply = false) : ∃ next, after.data.lookup key = some next ∧ Restamped env s after e.lru next.lru := by
  rcases handleAppend_cases ran with refused | ⟨_, value, newLen, same, appended⟩
  · exact (refused.not_answered answered).elim
  · cases same
    simp only [Store.append, held] at appended
    split at appended
    · cases appended
    · obtain ⟨⟨stamp, drawn⟩, stamped, appended⟩ := bind_ok appended
      cases appended
      refine ⟨_, AList.lookup_insert _, ?_⟩
      exact stampAccess_restamps stamped (Nat.le_refl s.tick) rfl rfl

theorem handlePFAdd_restamps (held : s.data.lookup key = some e) (alive : expiredAt (env.clock s.tick) e = false)
    (ran : handlePFAdd env s (key :: rest) = .ok (reply, after)) (answered : isErrorReply reply = false) :
    ∃ next, after.data.lookup key = some next ∧ Restamped env s after e.lru next.lru := by
  rcases handlePFAdd_cases ran with refused | ⟨_, values, changed, same, added, error⟩
  · exact (refused.not_answered answered).elim
  · cases same
    rw [← isExpired_expiredAt] at alive
    simp only [Store.pfAdd, held, alive, Bool.false_eq_true, if_false] at added
    split at added
    · -- a key of another type is an error
      cases added
      rw [error] at answered
      cases answered
    · obtain ⟨⟨stamp, drawn⟩, stamped, added⟩ := bind_ok added
      obtain ⟨⟨h, grew⟩, _, added⟩ := bind_ok added
      cases added
      refine ⟨_, AList.lookup_insert _, ?_⟩
      refine stampAccess_restamps stamped (isExpired_tick env s e) ?_ rfl
      rw [isExpired_ticks]
      rfl

theorem handleSet_renews (ran : handleSet env s (key :: rest) = .ok (reply, after)) (answered : isErrorReply reply = false) :
    ∃ next, after.data.lookup key = some next ∧ Renewed env s after next.lru := by
  rcases handleSet_cases ran with refused | ⟨_, value, options, ttl, same, rfl⟩
  · exact (refused.not_answered answered).elim
  · cases same
    exact set_renews env s key value ttl

theorem handleExpire_renews (held : s.data.lookup key = some e) (alive : expiredAt (env.clock s.tick) e = false)
    (ran : handleExpire env s (key :: rest) = .ok (reply, after)) (answered : isErrorReply reply = false) :
    ∃ next, after.data.lookup key = some next ∧ Renewed env s after next.lru := by
  rcases handleExpire_cases ran with refused | ⟨_, amount, n, value, middle, same, _, got, ⟨_, _, error⟩ | ⟨text, _, rfl⟩⟩
  · exact (refused.not_answered answered).elim
  · rw [error] at answered
    cases answered
  · cases same
    obtain ⟨_, stamp, _, rfl⟩ := get_live held alive got
    obtain ⟨next, found, renewed⟩ := set_renews env
      { s with tick := readTick s e, data := s.data.insert key { e with lru := stamp } } key text (wrap64 (n * second))
    exact ⟨next, found, renewed.earlier (readTick_later s e) rfl⟩

theorem handleIncr_renews (held : s.data.lookup key = some e) (alive : expiredAt (env.clock s.tick) e = false)
    (ran : handleIncr env s (key :: rest) = .ok (reply, after)) (answered : isErrorReply reply = false) :
    ∃ next, after.data.lookup key = some next ∧ Renewed env s after next.lru := by
  rcases handleIncr_cases ran with refused | ⟨_, read, middle, same, got, ⟨_, _, error⟩ | ⟨absent, _⟩ | ⟨n, expiry, _, rfl⟩⟩
  · exact (refused.not_answered answered).elim
  · rw [error] at answered
    cases answered
  · cases same
    -- a live key is not absent
    obtain ⟨value, _⟩ := getInt_live held alive got
    rw [absent] at value
    split at value <;> cases value
  · cases same
    obtain ⟨_, stamp, _, restamped⟩ := getInt_live held alive got
    have start : s.tick ≤ middle.tick := by
      rw [restamped]
      exact readTick_later s e
    have later : middle.tick ≤ (untilExpiry env middle expiry).2.tick := (untilExpiry_edits env middle expiry).tick
    obtain ⟨_, m, moved⟩ := untilExpiry_ticked env middle expiry
    obtain ⟨next, found, renewed⟩ := set_renews env (untilExpiry env middle expiry).2 key (itoa (wrap64 (n + 1)))
      (untilExpiry env middle expiry).1
    refine ⟨next, found, renewed.earlier (Nat.le_trans start later) ?_⟩
    rw [moved, restamped]
    rfl

theorem Restamped.counter (restamped : Restamped env s after e.lru stamp) (frequency : s.isLFU = true)
    (minute : ∀ i, s.tick ≤ i → i < after.tick → lfuClock (env.clock i) = lfuDecodeLdt e.lru) :
    lfuDecodeCounter e.lru ≤ lfuDecodeCounter stamp := by
  obtain ⟨i, start, stop, access⟩ := restamped
  rw [accessStamp, if_pos frequency, minute i start stop] at access
  exact lfuTouch_same_minute access

theorem Renewed.counter (renewed : Renewed env s after stamp) (frequency : s.isLFU = true) :
    lfuDecodeCounter stamp = lfuInitVal := by
  obtain ⟨i, _, _, written⟩ := renewed
  rw [written, newStamp, if_pos frequency, lfuNew]
  exact lfuDecodeCounter_encode _ _

/-- After the command the key is there, and its counter is no lower. -/
def StaysWarm (e : Entry) (key : Bytes) (after : Store) : Prop :=
  ∃ next, after.data.lookup key = some next ∧ lfuDecodeCounter e.lru ≤ lfuDecodeCounter next.lru

/-- The commands that use the value of one live key. -/
def keyUses : List CommandName := [.get, .append, .pfadd, .incr, .expire]

/-- A command on a live key, within the minute of the last access, keeps the key's counter
from falling exactly if it is not INCR or EXPIRE, which set the key anew, or if the counter
is not above the one a new key starts with. -/
theorem use_stays_warm_iff (frequency : s.isLFU = true) (held : s.data.lookup key = some e)
    (alive : expiredAt (env.clock s.tick) e = false) (used : name ∈ keyUses) (named : args.head? = some key)
    (ran : runHandler env cfg name s args = .ok (reply, after)) (answered : isErrorReply reply = false)
    (minute : ∀ i, s.tick ≤ i → i < after.tick → lfuClock (env.clock i) = lfuDecodeLdt e.lru) :
    StaysWarm e key after ↔ (name ≠ .incr ∧ name ≠ .expire) ∨ lfuDecodeCounter e.lru ≤ lfuInitVal := by
  obtain ⟨rest, rfl⟩ := List.head?_eq_some_iff.mp named
  have warm (access : ∃ next, after.data.lookup key = some next ∧ Restamped env s after e.lru next.lru) : StaysWarm e key after := by
    obtain ⟨next, found, restamped⟩ := access
    exact ⟨next, found, restamped.counter frequency minute⟩
  have anew (write : ∃ next, after.data.lookup key = some next ∧ Renewed env s after next.lru) :
      StaysWarm e key after ↔ lfuDecodeCounter e.lru ≤ lfuInitVal := by
    obtain ⟨next, found, renewed⟩ := write
    rw [← renewed.counter frequency]
    constructor
    · intro ⟨other, same, le⟩
      rw [found] at same
      cases same
      exact le
    · intro le
      exact ⟨next, found, le⟩
  simp only [keyUses, List.mem_cons, List.not_mem_nil, or_false] at used
  rcases used with rfl | rfl | rfl | rfl | rfl
  · exact iff_of_true (warm (handleGet_restamps held alive ran answered)) (.inl ⟨nofun, nofun⟩)
  · exact iff_of_true (warm (handleAppend_restamps held ran answered)) (.inl ⟨nofun, nofun⟩)
  · exact iff_of_true (warm (handlePFAdd_restamps held alive ran answered)) (.inl ⟨nofun, nofun⟩)
  · rw [anew (handleIncr_renews held alive ran answered)]
    simp
  · rw [anew (handleExpire_renews held alive ran answered)]
    simp

/-- A counter as SET leaves it, under a policy that counts accesses. -/
def coldStore : Store := (Store.new .allkeysLFU).set (.still 0) (ascii "n") (ascii "1") 0

theorem get_stays_warm :
    ∃ e reply after, coldStore.data.lookup (ascii "n") = some e ∧
      runHandler (.still 0) .plain .get coldStore [ascii "n"] = .ok (reply, after) ∧ StaysWarm e (ascii "n") after := by
  have held : coldStore.data.lookup (ascii "n") = some ⟨.int, 1, none, none, none, lfuEncode 0 5⟩ := rfl
  have got : ∃ after, runHandler (.still 0) .plain .get coldStore [ascii "n"] = .ok (encodeBulkString (ascii "1"), after) := ⟨_, rfl⟩
  obtain ⟨after, got⟩ := got
  refine ⟨_, _, after, held, got, ?_⟩
  apply (use_stays_warm_iff rfl held rfl (by decide) rfl got rfl _).mpr
  · exact .inl ⟨nofun, nofun⟩
  · intro i _ _
    rfl

/-- SET n 1, GET n, INCR n: the access raises the counter to six, and INCR puts it back
to five. -/
theorem incr_cools_key :
    ¬ ∀ (env : Env) (cfg : Config) (policy : Policy) (w : World) (key reply : Bytes) (e : Entry) (name : CommandName)
      (args : List Bytes) (after : Store), Reachable env cfg policy w → w.store.isLFU = true → w.store.data.lookup key = some e →
      expiredAt (env.clock w.store.tick) e = false → name ∈ keyUses → args.head? = some key →
      runHandler env cfg name w.store args = .ok (reply, after) → isErrorReply reply = false →
      (∀ i, w.store.tick ≤ i → i < after.tick → lfuClock (env.clock i) = lfuDecodeLdt e.lru) → StaysWarm e key after := by
  intro claim
  have set : dispatch (.still 0) .plain ⟨.new .allkeysLFU, none⟩ ⟨ascii "SET", [ascii "n", ascii "1"]⟩ =
      .ok (encodeSimpleString (ascii "OK"), ⟨coldStore, none⟩) := rfl
  have got : ∃ w, dispatch (.still 0) .plain ⟨coldStore, none⟩ ⟨ascii "GET", [ascii "n"]⟩ = .ok (encodeBulkString (ascii "1"), w) ∧
      w.store.isLFU = true ∧ w.store.data.lookup (ascii "n") = some ⟨.int, 1, none, none, none, lfuEncode 0 6⟩ ∧
      ∃ after, runHandler (.still 0) .plain .incr w.store [ascii "n"] = .ok (encodeInteger 2, after) ∧
        after.data.lookup (ascii "n") = some ⟨.int, 2, none, none, none, lfuEncode 0 5⟩ :=
    ⟨_, rfl, rfl, rfl, _, rfl, rfl⟩
  obtain ⟨w, got, frequency, held, after, ran, left⟩ := got
  have reached := (Reachable.start none).step set |>.step got
  obtain ⟨next, found, warm⟩ := claim _ _ _ w (ascii "n") _ _ .incr [ascii "n"] after reached frequency held rfl (by decide) rfl ran rfl
    (fun i _ _ => rfl)
  rw [left] at found
  cases found
  exact absurd warm (by decide)

end Rediska.Proofs
