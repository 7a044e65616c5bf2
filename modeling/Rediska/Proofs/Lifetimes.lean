import Rediska.Proofs.ExpiryTransparency
import Rediska.Proofs.TextFidelity

/-! Deadlines under SET, EXPIRE and INCR. Each of them hands the store a duration of 64
bits, which the store adds to a reading of the clock; a duration that is not positive means
no deadline. -/

namespace Rediska.Proofs
open Go Core Hll Storage Spec Commands

variable {env : Env} {s after : Store} {key reply : Bytes} {e : Entry}

/-- How far the clock and the draws have come when an entry has been read: the deadline, if
any, and the access are one reading each, and a counting policy draws. -/
def readTick (s : Store) (e : Entry) : Nat := s.tick + (if e.expiresAt = none then 0 else 1) + if s.isLFU then 2 else 1

/-- An access changes the stamp and nothing else. -/
theorem touch_live (ran : (s.isExpired env e).2.touch env key e = .ok after) :
    ∃ stamp, Restamped env s after e.lru stamp ∧
      after = { s with tick := readTick s e, data := s.data.insert key { e with lru := stamp } } := by
  rw [isExpired_ticks] at ran
  obtain ⟨⟨stamp, stamped⟩, drawn, ran⟩ := bind_ok ran
  cases ran
  have access := stampAccess_stamp drawn
  have ticks : stamped.tick = readTick s e := stampAccess_ticks drawn
  obtain ⟨n, rfl⟩ := stampAccess_ticked drawn
  dsimp only at ticks
  refine ⟨stamp, ⟨_, Nat.le_add_right _ _, ?_, access⟩, by rw [ticks]⟩
  dsimp only
  rw [ticks, readTick]
  apply Nat.lt_add_of_pos_right
  split <;> decide

/-- A read of a live entry. -/
theorem readKey_live {α : Type} {absent result : α} {seen : Entry → Panics α} (held : s.data.lookup key = some e)
    (alive : expiredAt (env.clock s.tick) e = false) (ran : readKey env s key absent seen = .ok (result, after)) :
    seen e = .ok result ∧ ∃ stamp, Restamped env s after e.lru stamp ∧
      after = { s with tick := readTick s e, data := s.data.insert key { e with lru := stamp } } := by
  simp only [readKey, held, isExpired_expiredAt, alive, Bool.false_eq_true, if_false] at ran
  obtain ⟨v, touched, ran⟩ := bind_ok ran
  obtain ⟨found, looked, ran⟩ := map_ok ran
  cases ran
  exact ⟨looked, touch_live touched⟩

theorem get_live {result : Option Bytes} (held : s.data.lookup key = some e) (alive : expiredAt (env.clock s.tick) e = false)
    (ran : s.get env key = .ok (result, after)) :
    entryText e = .ok result ∧ ∃ stamp, Restamped env s after e.lru stamp ∧
      after = { s with tick := readTick s e, data := s.data.insert key { e with lru := stamp } } := by
  rw [get_eq] at ran
  exact readKey_live held alive ran

theorem getInt_live {result : Store.IntRead} (held : s.data.lookup key = some e) (alive : expiredAt (env.clock s.tick) e = false)
    (ran : s.getInt env key = .ok (result, after)) :
    (result = if e.encoding = .int then .value e.intVal e.expiresAt else .notInteger) ∧
      ∃ stamp, Restamped env s after e.lru stamp ∧
        after = { s with tick := readTick s e, data := s.data.insert key { e with lru := stamp } } := by
  rw [getInt_eq] at ran
  obtain ⟨looked, restamped⟩ := readKey_live held alive ran
  refine ⟨?_, restamped⟩
  simp only [← Except.ok.inj looked, entryInt, ne_eq, ite_not]

/-- The options of SET that give a key a deadline. -/
inductive SetUnit where
  | ex | px
  deriving DecidableEq, Repr

def SetUnit.text : SetUnit → Bytes
  | .ex => ascii "EX"
  | .px => ascii "PX"

def SetUnit.length : SetUnit → Int
  | .ex => second
  | .px => millisecond

theorem setDuration_unit {option amount : Bytes} {n : Int} {unit : SetUnit} (parsed : atoi amount = some n) (positive : 0 < n)
    (chosen : toUpper env.unicode option = unit.text) : setDuration env option amount = .ok (wrap64 (n * unit.length)) := by
  simp only [setDuration, parsed, if_neg (Int.not_le.mpr positive), chosen]
  cases unit <;> rfl

theorem handleSet_unit (s : Store) (key value : Bytes) {option amount : Bytes} {n : Int} {unit : SetUnit} (parsed : atoi amount = some n)
    (positive : 0 < n) (chosen : toUpper env.unicode option = unit.text) :
    handleSet env s [key, value, option, amount] =
      .ok (encodeSimpleString (ascii "OK"), s.set env key value (wrap64 (n * unit.length))) := by
  simp only [handleSet, setDuration_unit parsed positive chosen]

/-- A duration taken into 64 bits gives the deadline it would have without them exactly if
it fits. -/
theorem wrapped_deadline_iff (now : Int) {duration : Int} (positive : 0 < duration) :
    (if 0 < wrap64 duration then some (now + wrap64 duration) else none) = some (now + duration) ↔ duration ≤ maxInt64 := by
  have fits : IsInt64 duration ↔ duration ≤ maxInt64 := by
    simp only [IsInt64, minInt64]
    omega
  rw [← fits, ← wrap64_eq_self_iff]
  constructor
  · intro same
    split at same
    · have sum := Option.some.inj same
      omega
    · cases same
  · intro whole
    rw [whole, if_pos positive]

/-- SET answers OK and the key expires the given time from now. -/
def SetsDeadline (env : Env) (s : Store) (key value option amount : Bytes) (duration : Int) : Prop :=
  ∃ after e, handleSet env s [key, value, option, amount] = .ok (encodeSimpleString (ascii "OK"), after) ∧
    after.data.lookup key = some e ∧ e.expiresAt = some (env.clock s.tick + duration)

/-- SET gives the deadline it is asked for exactly if the nanoseconds fit in 64 bits. -/
theorem set_deadline_iff (s : Store) (key value : Bytes) {option amount : Bytes} {n : Int} {unit : SetUnit}
    (parsed : atoi amount = some n) (positive : 0 < n) (chosen : toUpper env.unicode option = unit.text) :
    SetsDeadline env s key value option amount (n * unit.length) ↔ n * unit.length ≤ maxInt64 := by
  have long : 0 < n * unit.length := Int.mul_pos positive (by cases unit <;> decide)
  obtain ⟨⟨stamp, written⟩, _⟩ := set_writes env s key value (wrap64 (n * unit.length))
  rw [← wrapped_deadline_iff (env.clock s.tick) long]
  constructor
  · intro ⟨after, e, ran, held, expires⟩
    rw [handleSet_unit s key value parsed positive chosen] at ran
    cases ran
    rw [written] at held
    cases held
    rwa [newEntry_expiresAt] at expires
  · intro expires
    exact ⟨_, _, handleSet_unit s key value parsed positive chosen, written, (newEntry_expiresAt _ _ _).trans expires⟩

theorem set_ten_seconds : SetsDeadline (.still 0) (.new .noeviction) (ascii "k") (ascii "v") (ascii "ex") (ascii "10") (10 * second) := by
  have chosen : toUpper (Env.still 0).unicode (ascii "ex") = SetUnit.ex.text := by decide
  have parsed : atoi (ascii "10") = some 10 := by decide
  exact (set_deadline_iff (.new .noeviction) (ascii "k") (ascii "v") parsed (by decide) chosen).mpr (by decide)

/-- The most seconds EX can be given are minus one second in nanoseconds of 64 bits: the
key never expires. -/
theorem set_longest_is_permanent :
    ¬ ∀ (env : Env) (s : Store) (key value option amount : Bytes) (n : Int) (unit : SetUnit), atoi amount = some n → 0 < n →
      toUpper env.unicode option = unit.text → SetsDeadline env s key value option amount (n * unit.length) := by
  intro claim
  have chosen : toUpper (Env.still 0).unicode (ascii "EX") = SetUnit.ex.text := by decide
  have parsed : atoi (ascii "9223372036854775807") = some 9223372036854775807 := by decide
  obtain ⟨after, e, ran, held, expires⟩ :=
    claim (.still 0) (.new .noeviction) (ascii "k") (ascii "v") (ascii "EX") (ascii "9223372036854775807") _ .ex parsed (by decide) chosen
  rw [handleSet_unit _ _ _ parsed (by decide) chosen] at ran
  cases ran
  have wrapped : wrap64 (9223372036854775807 * SetUnit.ex.length) = -1000000000 := by decide
  obtain ⟨⟨stamp, written⟩, _⟩ := set_writes (.still 0) (.new .noeviction) (ascii "k") (ascii "v") (-1000000000)
  rw [wrapped, written] at held
  cases held
  rw [newEntry_expiresAt] at expires
  cases expires

theorem expire_live {text amount : Bytes} {n : Int} (held : s.data.lookup key = some e)
    (alive : expiredAt (env.clock s.tick) e = false) (read : entryText e = .ok (some text)) (parsed : atoi amount = some n)
    (ran : handleExpire env s [key, amount] = .ok (reply, after)) :
    reply = encodeInteger 1 ∧
      (∃ stamp, after.data.lookup key = some (Store.newEntry text
        (if 0 < wrap64 (n * second) then some (env.clock (readTick s e) + wrap64 (n * second)) else none) stamp)) ∧
      ∀ other, other ≠ key → after.data.lookup other = s.data.lookup other := by
  simp only [handleExpire, parsed] at ran
  obtain ⟨⟨value, v⟩, got, ran⟩ := bind_ok ran
  obtain ⟨same, stamp, _, rfl⟩ := get_live held alive got
  rw [read] at same
  cases same
  cases ran
  obtain ⟨written, frame⟩ := set_writes env { s with tick := readTick s e, data := s.data.insert key { e with lru := stamp } } key text
    (wrap64 (n * second))
  refine ⟨rfl, written, ?_⟩
  intro other different
  rw [frame other different, lookup_insert_if, if_neg different]

/-- EXPIRE answers 1. A positive number of seconds is from then on the life of the key,
which keeps its text; any other ends it. The other keys stay as they are. -/
structure ExpiresOnly (env : Env) (s : Store) (key : Bytes) (e : Entry) (n : Int) (reply : Bytes) (after : Store) : Prop where
  one : reply = encodeInteger 1
  lives : 0 < n → ∃ next, after.data.lookup key = some next ∧ entryText next = entryText e ∧
    next.expiresAt = some (env.clock (readTick s e) + n * second)
  ends : n ≤ 0 → ∀ next, after.data.lookup key = some next → expiredAt (env.clock (readTick s e)) next = true
  others : ∀ other, other ≠ key → after.data.lookup other = s.data.lookup other

/-- EXPIRE changes the deadline only, and to the one it is asked for, exactly if the
number of seconds is positive, fits in 64 bits as nanoseconds, and the text is not a number
that is stored in another form. -/
theorem expire_changes_only_deadline_iff {text amount : Bytes} {n : Int} (held : s.data.lookup key = some e)
    (alive : expiredAt (env.clock s.tick) e = false) (read : entryText e = .ok (some text)) (parsed : atoi amount = some n)
    (ran : handleExpire env s [key, amount] = .ok (reply, after)) :
    ExpiresOnly env s key e n reply after ↔ 0 < n ∧ n * second ≤ maxInt64 ∧ ¬ Padded text := by
  obtain ⟨one, ⟨stamp, written⟩, others⟩ := expire_live held alive read parsed ran
  have long (positive : 0 < n) : 0 < n * second := Int.mul_pos positive (by decide)
  constructor
  · intro only
    have positive : 0 < n := by
      -- what EXPIRE writes has no deadline or a later one
      by_contra other
      have gone := only.ends (Int.not_lt.mp other) _ written
      rw [expiredAt, newEntry_expiresAt] at gone
      split at gone
      next => cases gone
      next deadline limited =>
        split at limited
        · cases limited
          simp only [decide_eq_true_eq] at gone
          omega
        · cases limited
    obtain ⟨next, found, same, expires⟩ := only.lives positive
    rw [written] at found
    cases found
    rw [newEntry_expiresAt] at expires
    rw [read] at same
    exact ⟨positive, (wrapped_deadline_iff _ (long positive)).mp expires, (entryText_newEntry _ _ _).mp same⟩
  · intro given
    obtain ⟨positive, short, plain⟩ := given
    have expires := (wrapped_deadline_iff (env.clock (readTick s e)) (long positive)).mpr short
    refine ⟨one, ?_, fun other => absurd positive (Int.not_lt.mpr other), others⟩
    intro _
    refine ⟨_, written, ?_, (newEntry_expiresAt _ _ _).trans expires⟩
    rw [read]
    exact (entryText_newEntry _ _ _).mpr plain

/-- A store with a counter that is never to expire. -/
def counterStore : Store := (Store.new .noeviction).set (.still 0) (ascii "n") (ascii "5") 0

theorem expire_ten_seconds :
    ∃ e reply after, counterStore.data.lookup (ascii "n") = some e ∧
      handleExpire (.still 0) counterStore [ascii "n", ascii "10"] = .ok (reply, after) ∧
      ExpiresOnly (.still 0) counterStore (ascii "n") e 10 reply after := by
  have parsed : atoi (ascii "10") = some 10 := by decide
  refine ⟨_, _, _, rfl, rfl, (expire_changes_only_deadline_iff rfl rfl rfl parsed rfl).mpr ?_⟩
  exact ⟨by decide, by decide, itoa_not_padded 5⟩

/-- EXPIRE n 0 answers 1 and the key stays for good. -/
theorem expire_zero_keeps_key :
    ¬ ∀ (env : Env) (s after : Store) (key amount text reply : Bytes) (e : Entry) (n : Int), s.data.lookup key = some e →
      expiredAt (env.clock s.tick) e = false → entryText e = .ok (some text) → atoi amount = some n →
      handleExpire env s [key, amount] = .ok (reply, after) → ExpiresOnly env s key e n reply after := by
  intro claim
  have parsed : atoi (ascii "0") = some 0 := by decide
  have only := claim (.still 0) counterStore _ (ascii "n") (ascii "0") _ _ _ 0 rfl rfl rfl parsed rfl
  have gone := only.ends (Int.le_refl 0) _ rfl
  cases gone

/-- The deadline INCR gives back to a key. -/
def renewed (env : Env) (s : Store) (e : Entry) : Option Int :=
  e.expiresAt.bind fun deadline =>
    let ttl := Store.sub deadline (env.clock (readTick s e))
    if 0 < ttl then some (env.clock (readTick s e + 1) + ttl) else none

theorem incr_live (held : s.data.lookup key = some e) (alive : expiredAt (env.clock s.tick) e = false) (int : e.encoding = .int)
    (ran : handleIncr env s [key] = .ok (reply, after)) :
    reply = encodeInteger (wrap64 (e.intVal + 1)) ∧
      ∃ stamp, after.data.lookup key = some (Store.newEntry (itoa (wrap64 (e.intVal + 1))) (renewed env s e) stamp) := by
  obtain ⟨⟨result, v⟩, got, ran⟩ := bind_ok ran
  obtain ⟨rfl, stamp, _, rfl⟩ := getInt_live held alive got
  simp only [if_pos int] at ran
  cases ran
  refine ⟨rfl, ?_⟩
  cases limited : e.expiresAt with
  | none =>
    obtain ⟨written, _⟩ := set_writes env { s with tick := readTick s e, data := s.data.insert key { e with lru := stamp } } key
      (itoa (wrap64 (e.intVal + 1))) 0
    simpa [untilExpiry, renewed, limited] using written
  | some deadline =>
    obtain ⟨written, _⟩ := set_writes env { s with tick := readTick s e + 1, data := s.data.insert key { e with lru := stamp } } key
      (itoa (wrap64 (e.intVal + 1))) (Store.sub deadline (env.clock (readTick s e)))
    simpa [untilExpiry, renewed, limited, Store.now] using written

theorem newEntry_itoa {n : Int} (fits : IsInt64 n) (expiresAt : Option Int) (stamp : UInt32) :
    Store.newEntry (itoa n) expiresAt stamp = ⟨.int, n, none, none, expiresAt, stamp⟩ := by
  simp [Store.newEntry, detectEncoding, parseInt_itoa fits]

/-- The key holds an integer and expires at the deadline. -/
def CountsUntil (key : Bytes) (deadline : Int) (s : Store) : Prop :=
  ∃ e, s.data.lookup key = some e ∧ e.encoding = .int ∧ e.expiresAt = some deadline

/-- Of the readings INCR takes one after the other, for the time that is left and for the
time it starts from, the first is before the deadline and the second no later, or as much
later as a duration falls short of what is left. -/
def SteadyReadings (env : Env) (deadline : Int) (s : Store) : Prop :=
  let i := s.tick + if s.isLFU then 3 else 2
  env.clock i < deadline ∧ env.clock (i + 1) = max (env.clock i) (deadline - maxInt64)

theorem renewed_iff {deadline : Int} (limited : e.expiresAt = some deadline) :
    renewed env s e = some deadline ↔ SteadyReadings env deadline s := by
  have tick : readTick s e = s.tick + if s.isLFU then 3 else 2 := by
    simp only [readTick, limited, reduceCtorEq, if_false]
    split <;> rfl
  have left : 0 < Store.sub deadline (env.clock (readTick s e)) ↔ env.clock (readTick s e) < deadline := by
    simp only [Store.sub, minInt64, maxInt64]
    omega
  simp only [renewed, limited, Option.bind_some, left, SteadyReadings, ← tick]
  split
  next early =>
    simp only [Option.some.injEq, Store.sub, minInt64, maxInt64, early, true_and]
    omega
  next late => exact iff_of_false (by simp) fun steady => late steady.1

/-- INCR of a key that has not expired keeps its deadline exactly if the readings it takes
are steady. -/
theorem CountsUntil.incr {deadline : Int} (counts : CountsUntil key deadline s) (early : env.clock s.tick < deadline)
    (ran : handleIncr env s [key] = .ok (reply, after)) : CountsUntil key deadline after ↔ SteadyReadings env deadline s := by
  obtain ⟨e, held, int, limited⟩ := counts
  have alive : expiredAt (env.clock s.tick) e = false := by
    simp only [expiredAt, limited, decide_eq_false_iff_not]
    omega
  obtain ⟨_, stamp, written⟩ := incr_live held alive int ran
  rw [newEntry_itoa (isInt64_wrap64 _)] at written
  rw [← renewed_iff limited, CountsUntil, written]
  constructor
  · intro kept
    obtain ⟨next, found, _, expires⟩ := kept
    cases found
    exact expires
  · intro kept
    exact ⟨_, rfl, rfl, kept⟩

/-- However many INCRs find a key before its deadline, it keeps the deadline all along
exactly if each of them takes steady readings. -/
theorem incr_keeps_deadline_iff {deadline : Int} {k : Nat} {replies : List Bytes} (counts : CountsUntil key deadline s)
    (early : Before (handleIncr env) (fun s => env.clock s.tick < deadline) s (List.replicate k [key]))
    (ran : runAll (handleIncr env) s (List.replicate k [key]) = .ok (replies, after)) :
    Throughout (handleIncr env) (CountsUntil key deadline) s (List.replicate k [key]) ↔
      Before (handleIncr env) (SteadyReadings env deadline) s (List.replicate k [key]) := by
  refine throughout_iff_before ?_ counts early ran
  intro item inside state result next holds given returned
  cases List.eq_of_mem_replicate inside
  exact holds.incr given returned

/-- A store with a counter that expires at five nanoseconds. -/
def timedStore : Store := (Store.new .noeviction).set (.still 0) (ascii "n") (ascii "7") 5

theorem two_incrs_keep_deadline :
    ∃ replies after, runAll (handleIncr (.still 0)) timedStore (List.replicate 2 [ascii "n"]) = .ok (replies, after) ∧
      Throughout (handleIncr (.still 0)) (CountsUntil (ascii "n") 5) timedStore (List.replicate 2 [ascii "n"]) := by
  have soon : (0 : Int) < 5 := by decide
  have early : Before (handleIncr (.still 0)) (fun s => (Env.still 0).clock s.tick < 5) timedStore (List.replicate 2 [ascii "n"]) :=
    ⟨soon, fun _ _ _ => ⟨soon, fun _ _ _ => trivial⟩⟩
  have steady (s : Store) : SteadyReadings (.still 0) 5 s := ⟨soon, rfl⟩
  refine ⟨_, _, rfl, (incr_keeps_deadline_iff ⟨_, rfl, rfl, rfl⟩ early rfl).mpr ?_⟩
  exact ⟨steady _, fun _ _ _ => ⟨steady _, fun _ _ _ => trivial⟩⟩

/-- The deadline passes between two readings of INCR, and the key stays for good. -/
theorem incr_makes_permanent :
    ¬ ∀ (env : Env) (s after : Store) (key reply : Bytes) (e : Entry) (deadline : Int), s.data.lookup key = some e → e.encoding = .int →
      e.expiresAt = some deadline → env.clock s.tick < deadline → handleIncr env s [key] = .ok (reply, after) →
      ∃ next, after.data.lookup key = some next ∧ next.expiresAt = some deadline := by
  intro claim
  -- the store has taken two readings, and INCR takes its first before the deadline
  have late : ∀ i j : Nat, i ≤ j → (if i < 3 then (0 : Int) else 9) ≤ if j < 3 then 0 else 9 := by
    intro i j order
    split <;> split <;> omega
  have soon : (0 : Int) < 5 := by decide
  let env : Env := { Env.still 0 with clock := fun i => if i < 3 then 0 else 9, forward := late }
  obtain ⟨next, found, expires⟩ := claim env timedStore _ (ascii "n") _ _ 5 rfl rfl rfl soon rfl
  cases found
  cases expires

end Rediska.Proofs
