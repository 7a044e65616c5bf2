import Rediska.Proofs.HandlerSteps
import Rediska.Proofs.StoreRefinement
import Rediska.Spec.Deadlines

/-! Every data command does to the store what its request does to the keyspace. -/

namespace Rediska.Proofs
open Go Core Hll Storage Commands Spec

variable {env : Env} {cfg : Config} {policy : Policy} {s : Store} {K : Keyspace}

/-- Three readings are enough for every request but a deletion. -/
def readings (first second third : Int) : Nat → Int
  | 0 => first
  | 1 => second
  | _ => third

/-- The readings are the clock's, and made while the command ran. -/
def Located (env : Env) (s : Store) (result : Panics (Bytes × Store)) (clock : Nat → Int) : Prop :=
  Readings env clock ∧ ∀ reply after, result = .ok (reply, after) → ReadingsBetween env s after clock

theorem readings_located {result : Panics (Bytes × Store)} {i j k : Nat}
    (within : ∀ reply after, result = .ok (reply, after) → ∀ n ∈ [i, j, k], s.tick ≤ n ∧ n ≤ after.tick) :
    Located env s result (readings (env.clock i) (env.clock j) (env.clock k)) := by
  have one (n : Nat) : ∃ m ∈ [i, j, k], readings (env.clock i) (env.clock j) (env.clock k) n = env.clock m := by
    match n with
    | 0 => exact ⟨i, by simp, rfl⟩
    | 1 => exact ⟨j, by simp, rfl⟩
    | _ + 2 => exact ⟨k, by simp, rfl⟩
  constructor
  · intro n
    obtain ⟨m, _, read⟩ := one n
    exact ⟨m, read⟩
  · intro reply after returned n
    obtain ⟨m, listed, read⟩ := one n
    obtain ⟨first, last⟩ := within reply after returned m listed
    rw [read]
    exact ⟨env.forward _ _ first, env.forward _ _ last⟩

/-- A single reading, as the command starts. -/
theorem readings_first {result : Panics (Bytes × Store)} (later : ∀ reply after, result = .ok (reply, after) → s.tick ≤ after.tick) :
    Located env s result (readings (env.clock s.tick) (env.clock s.tick) (env.clock s.tick)) := by
  apply readings_located
  intro reply after returned n listed
  have same : n = s.tick := by simpa using listed
  rw [same]
  exact ⟨Nat.le_refl _, later reply after returned⟩

theorem handleGet_refines (same : Represents env policy s K) (key : Bytes) (clock : Nat → Int)
    (first : clock 0 = env.clock s.tick) :
    Refines env policy (handleGet env s [key]) ((Request.get key).run (rulesOf env policy) clock K) := by
  simp only [handleGet, Request.run, first]
  refine (get_refines same key).bind ?_
  intro value s K same
  cases value <;> exact .ok same

/-- The readings depend on where the first half of the command left the tick, so they
are chosen once it has returned. -/
theorem handleExpire_refines (same : Represents env policy s K) (key : Bytes) {amount : Bytes} {n : Int}
    (read : atoi amount = some n) :
    ∃ clock, Located env s (handleExpire env s [key, amount]) clock ∧ Refines env policy (handleExpire env s [key, amount])
      ((Request.expire key (wrap64 (n * second))).run (rulesOf env policy) clock K) := by
  rcases (get_refines same key).outcomes with ⟨p, ran, spec⟩ | ⟨value, middle, kept, ran, spec, same'⟩
  · have failed : handleExpire env s [key, amount] = .error p := by simp only [handleExpire, read, ran, bind_error]
    rw [failed]
    refine ⟨_, readings_first nofun, ?_⟩
    simp only [Request.run, readings, spec, bind_error]
    exact .error
  · have first := (get_edits ran).tick
    have last {reply : Bytes} {after : Store} (returned : handleExpire env s [key, amount] = .ok (reply, after)) :
        middle.tick ≤ after.tick := by
      simp only [handleExpire, read, ran, ok_bind] at returned
      cases value with
      | none => cases returned; exact Nat.le_refl _
      | some value => cases returned; exact (set_edits env middle key value _).tick
    refine ⟨readings (env.clock s.tick) (env.clock middle.tick) (env.clock s.tick), readings_located ?_, ?_⟩
    · intro reply after returned n listed
      have later := last returned
      simp only [List.mem_cons, List.not_mem_nil, or_false] at listed
      omega
    · simp only [handleExpire, Request.run, readings, read, ran, spec, ok_bind]
      cases value with
      | none => exact .ok same'
      | some value => exact .ok (set_refines same' key value _)

theorem untilExpiry_ticked (env : Env) (s : Store) (expiry : Option Int) :
    (untilExpiry env s expiry).1 = timeLeft expiry (env.clock s.tick) ∧ Ticked s (untilExpiry env s expiry).2 := by
  unfold untilExpiry
  cases expiry with
  | none => exact ⟨rfl, .refl s⟩
  | some deadline => exact ⟨rfl, now_ticked env s⟩

theorem handleIncr_refines (same : Represents env policy s K) (key : Bytes) :
    ∃ clock, Located env s (handleIncr env s [key]) clock ∧
      Refines env policy (handleIncr env s [key]) ((Request.incr key).run (rulesOf env policy) clock K) := by
  rcases (getInt_refines same key).outcomes with ⟨p, ran, spec⟩ | ⟨read, middle, kept, ran, spec, same'⟩
  · have failed : handleIncr env s [key] = .error p := by simp only [handleIncr, ran, bind_error]
    rw [failed]
    refine ⟨_, readings_first nofun, ?_⟩
    simp only [Request.run, readings, spec, bind_error]
    exact .error
  · have first := (getInt_edits ran).tick
    cases read with
    | notInteger =>
      have returns : handleIncr env s [key] = .ok (errorReply "ERR while incrementing", middle) := by
        simp only [handleIncr, ran, ok_bind]
      rw [returns]
      refine ⟨_, readings_first ?_, ?_⟩
      · rintro reply after ⟨⟩
        exact first
      · simp only [Request.run, readings, spec, ok_bind]
        exact .ok same'
    | absent =>
      have returns : handleIncr env s [key] = .ok (encodeInteger 1, middle.set env key (itoa 1) 0) := by
        simp only [handleIncr, ran, ok_bind]
      rw [returns]
      refine ⟨readings (env.clock s.tick) (env.clock s.tick) (env.clock middle.tick), readings_located ?_, ?_⟩
      · rintro reply after ⟨⟩ n listed
        have last := (set_edits env middle key (itoa 1) 0).tick
        simp only [List.mem_cons, List.not_mem_nil, or_false] at listed
        omega
      · simp only [Request.run, readings, spec, ok_bind]
        exact .ok (set_refines same' key _ 0)
    | value n deadline =>
      obtain ⟨duration, ticked⟩ := untilExpiry_ticked env middle deadline
      have returns : handleIncr env s [key] = .ok (encodeInteger (wrap64 (n + 1)),
          (untilExpiry env middle deadline).2.set env key (itoa (wrap64 (n + 1))) (untilExpiry env middle deadline).1) := by
        simp only [handleIncr, ran, ok_bind]
      rw [returns]
      refine ⟨readings (env.clock s.tick) (env.clock middle.tick) (env.clock (untilExpiry env middle deadline).2.tick),
        readings_located ?_, ?_⟩
      · rintro reply after ⟨⟩ m listed
        have second := (untilExpiry_edits env middle deadline).tick
        have last := (set_edits env (untilExpiry env middle deadline).2 key (itoa (wrap64 (n + 1))) (untilExpiry env middle deadline).1).tick
        simp only [List.mem_cons, List.not_mem_nil, or_false] at listed
        omega
      · simp only [Request.run, readings, spec, ok_bind]
        rw [← duration]
        exact .ok (set_refines (same'.ticked ticked) key _ _)

/-- One request, one handler: same reply, same panic, same contents. -/
theorem handler_refines (cfg : Config) (same : Represents env policy s K) {name : CommandName} {args : List Bytes} {request : Request}
    (asked : requestOf env name args = some request) :
    ∃ clock, Located env s (runHandler env cfg name s args) clock ∧
      Refines env policy (runHandler env cfg name s args) (request.run (rulesOf env policy) clock K) := by
  have plain : Located env s (runHandler env cfg name s args) (readings (env.clock s.tick) (env.clock s.tick) (env.clock s.tick)) :=
    readings_first fun _ _ returned => (runHandler_edits returned).tick
  unfold requestOf at asked
  split at asked
  case h_1 key => cases asked; exact ⟨_, plain, handleGet_refines same key _ rfl⟩
  case h_2 key value => cases asked; exact ⟨_, plain, .ok (set_refines same key value 0)⟩
  case h_3 key value option amount =>
    split at asked
    · cases asked
    next duration parsed =>
      cases asked
      refine ⟨_, plain, ?_⟩
      simp only [runHandler, handleSet, parsed]
      exact .ok (set_refines same key value duration)
  case h_4 key amount =>
    cases read : atoi amount with
    | none => rw [read] at asked; cases asked
    | some n => rw [read] at asked; cases asked; exact handleExpire_refines same key read
  case h_5 key =>
    cases asked
    obtain ⟨reply, kept⟩ := ttl_refines same key
    refine ⟨_, plain, ?_⟩
    simp only [runHandler, handleTTL, Request.run, readings, ← reply]
    exact .ok kept
  case h_6 key => cases asked; exact handleIncr_refines same key
  case h_7 key value =>
    cases asked
    exact ⟨_, plain, (append_refines same key value).bind fun _ _ _ kept => .ok kept⟩
  case h_8 key values =>
    cases asked
    refine ⟨_, plain, (pfAdd_refines same key values).bind ?_⟩
    intro changed s K kept
    rcases changed with _ | _ | _ <;> exact .ok kept
  case h_9 key =>
    cases asked
    rcases (pfCount_refines same key).outcomes with ⟨p, _, impossible⟩ | ⟨count, after, _, ran, spec, kept⟩
    · cases impossible
    · refine ⟨_, plain, ?_⟩
      obtain ⟨rfl, rfl⟩ := Prod.mk.inj (Except.ok.inj spec)
      simp only [runHandler, handlePFCount, ran, ok_bind]
      exact .ok kept
  case h_10 dest sources =>
    cases asked
    obtain ⟨after, merged, kept⟩ := pfMerge_refines same dest sources
    refine ⟨_, plain, ?_⟩
    simp only [runHandler, handlePFMerge, merged, ok_bind]
    exact .ok kept
  case h_11 key keys =>
    cases asked
    obtain ⟨clock, ⟨read, between⟩, removed, kept⟩ := delete_refines same (key :: keys)
    refine ⟨clock, ⟨read, ?_⟩, ?_⟩
    · rintro reply after ⟨⟩
      exact between
    simp only [runHandler, handleDel, Request.run, ← removed]
    exact .ok kept
  case h_12 sub key rest =>
    split at asked
    next encoding =>
      cases asked
      obtain ⟨reply, kept⟩ := getEncoding_refines same key
      refine ⟨_, plain, ?_⟩
      simp only [runHandler, handleObject, encoding, if_true, Request.run, readings, ← reply]
      exact .ok kept
    · cases asked
  case h_13 => cases asked

/-- A data command that makes no request is refused and changes nothing, but for
`OBJECT FREQ`, which reads a stamp. -/
theorem handler_rejects (cfg : Config) {name : CommandName} {args : List Bytes} (data : isData name = true)
    (asked : requestOf env name args = none) :
    (∃ reply, isErrorReply reply = true ∧ ∀ s, runHandler env cfg name s args = .ok (reply, s)) ∨
      ∃ sub key rest, name = .object ∧ args = sub :: key :: rest ∧ toUpper env.unicode sub = ascii "FREQ" := by
  cases name with
  | get =>
    match args with
    | [] | _ :: _ :: _ => exact .inl ⟨_, rfl, fun _ => rfl⟩
    | [key] => cases asked
  | set =>
    match args with
    | [] | [_] | [_, _, _] | _ :: _ :: _ :: _ :: _ :: _ => exact .inl ⟨_, rfl, fun _ => rfl⟩
    | [_, _] => cases asked
    | [key, value, option, amount] =>
      cases parsed : setDuration env option amount with
      | ok duration => simp only [requestOf, parsed] at asked; cases asked
      | error reply => exact .inl ⟨reply, setDuration_error parsed, fun s => by simp only [runHandler, handleSet, parsed]⟩
  | expire =>
    match args with
    | [] | [_] | _ :: _ :: _ :: _ => exact .inl ⟨_, rfl, fun _ => rfl⟩
    | [key, amount] =>
      cases read : atoi amount with
      | none =>
        refine .inl ⟨errorReply "ERR invalid expire time for EXPIRE command", rfl, fun s => ?_⟩
        simp only [runHandler, handleExpire, read]
      | some n => simp only [requestOf, read] at asked; cases asked
  | ttl =>
    match args with
    | [] | _ :: _ :: _ => exact .inl ⟨_, rfl, fun _ => rfl⟩
    | [key] => cases asked
  | incr =>
    match args with
    | [] | _ :: _ :: _ => exact .inl ⟨_, rfl, fun _ => rfl⟩
    | [key] => cases asked
  | append =>
    match args with
    | [] | [_] | _ :: _ :: _ :: _ => exact .inl ⟨_, rfl, fun _ => rfl⟩
    | [key, value] => cases asked
  | pfadd =>
    match args with
    | [] => exact .inl ⟨_, rfl, fun _ => rfl⟩
    | key :: values => cases asked
  | pfcount =>
    match args with
    | [] | _ :: _ :: _ => exact .inl ⟨_, rfl, fun _ => rfl⟩
    | [key] => cases asked
  | pfmerge =>
    match args with
    | [] => exact .inl ⟨_, rfl, fun _ => rfl⟩
    | dest :: sources => cases asked
  | del =>
    match args with
    | [] => exact .inl ⟨_, rfl, fun _ => rfl⟩
    | key :: keys => cases asked
  | object =>
    match args with
    | [] | [_] => exact .inl ⟨_, rfl, fun _ => rfl⟩
    | sub :: key :: rest =>
      by_cases encoding : toUpper env.unicode sub = ascii "ENCODING"
      · simp only [requestOf, encoding, if_true] at asked
        cases asked
      · by_cases freq : toUpper env.unicode sub = ascii "FREQ"
        · exact .inr ⟨sub, key, rest, rfl, rfl, freq⟩
        · refine .inl ⟨errorReply "ERR unknown subcommand for 'object'", rfl, fun s => ?_⟩
          simp only [runHandler, handleObject, encoding, freq, if_false]
  | ping | info | debug | cluster | expiry => cases data

theorem object_freq {sub key : Bytes} {rest : List Bytes} (freq : toUpper env.unicode sub = ascii "FREQ") :
    runHandler env cfg .object s (sub :: key :: rest) = .ok (freqReply (s.getFreq env key).1, (s.getFreq env key).2) := by
  have other : toUpper env.unicode sub ≠ ascii "ENCODING" := by rw [freq]; decide
  simp only [runHandler, handleObject, if_neg other, if_pos freq]

/-! What else may happen to the keyspace: dead items go. -/

theorem getFreq_shrinks (same : Represents env policy s K) (key : Bytes) :
    ∃ after, Represents env policy (s.getFreq env key).2 after ∧ ShrunkAt (env.clock (s.getFreq env key).2.tick) K after := by
  have later := (getFreq_edits env s key).tick
  unfold Store.getFreq at later ⊢
  split
  · exact ⟨K, same, .refl _ K⟩
  next lfu =>
    rcases same.at key with ⟨absent, nothing⟩ | ⟨e, item, held, found, shows⟩
    · rw [absent]
      exact ⟨K, same, .refl _ K⟩
    · rw [if_neg lfu] at later
      simp only [held, isExpired_dead shows] at later ⊢
      have kept := same.ticked (isExpired_ticked env s e)
      cases dead : item.dead (env.clock s.tick) with
      | true =>
        rw [dead] at later
        exact ⟨K.drop key, kept.removeKey key, .drop found dead (env.forward _ _ later)⟩
      | false => exact ⟨K, kept, .refl _ K⟩

theorem deleteExpiredFrom_shrinks (same : Represents env policy s K) (keys : List Bytes) (checked : Nat) (deleted : Int) :
    ∃ after, Represents env policy (Store.deleteExpiredFrom env keys checked deleted s).2 after ∧
      ShrunkAt (env.clock (Store.deleteExpiredFrom env keys checked deleted s).2.tick) K after := by
  induction keys generalizing s K checked deleted with
  | nil => exact ⟨K, same, .refl _ K⟩
  | cons key rest ih =>
    have later := (deleteExpiredFrom_edits env (key :: rest) checked deleted s).tick
    unfold Store.deleteExpiredFrom at later ⊢
    split
    · exact ⟨K, same, .refl _ K⟩
    next more =>
      rw [if_neg more] at later
      rcases same.at key with ⟨absent, nothing⟩ | ⟨e, item, held, found, shows⟩
      · rw [absent]
        exact ih same checked deleted
      · simp only [held, isExpired_dead shows] at later ⊢
        split
        · exact ih same checked deleted
        next timed =>
          rw [if_neg timed] at later
          have kept := same.ticked (isExpired_ticked env s e)
          cases dead : item.dead (env.clock s.tick) with
          | true =>
            rw [dead, if_pos rfl] at later
            obtain ⟨after, final, shrunk⟩ := ih (kept.removeKey key) (checked + 1) (deleted + 1)
            exact ⟨after, final, (ShrunkAt.drop found dead (env.forward _ _ later)).trans shrunk⟩
          | false => exact ih kept (checked + 1) deleted

theorem deleteExpired_shrinks (same : Represents env policy s K) :
    ∃ after, Represents env policy (s.deleteExpired env).2 after ∧ ShrunkAt (env.clock (s.deleteExpired env).2.tick) K after :=
  deleteExpiredFrom_shrinks (same.ticked ⟨s.tick + 1, rfl⟩) _ 0 0

/-- All that a command can be: a request, one that at most lets dead items go, or one
about the cluster. -/
theorem handler_cases (cfg : Config) (same : Represents env policy s K) (name : CommandName) (args : List Bytes) :
    (∃ request clock, requestOf env name args = some request ∧ Located env s (runHandler env cfg name s args) clock ∧
      Refines env policy (runHandler env cfg name s args) (request.run (rulesOf env policy) clock K)) ∨
    (requestOf env name args = none ∧ ∃ reply after left, runHandler env cfg name s args = .ok (reply, after) ∧
      Represents env policy after left ∧ ShrunkAt (env.clock after.tick) K left ∧ (writeCommands name = true → isErrorReply reply = true)) ∨
    name = .cluster ∧ runHandler env cfg name s args = (handleCluster env cfg args).map (·, s) := by
  cases asked : requestOf env name args with
  | some request =>
    obtain ⟨clock, read, refines⟩ := handler_refines cfg same asked
    exact .inl ⟨request, clock, rfl, read, refines⟩
  | none =>
    cases data : isData name with
    | true =>
      refine .inr (.inl ⟨rfl, ?_⟩)
      rcases handler_rejects cfg data asked with ⟨reply, refused, ran⟩ | ⟨sub, key, rest, rfl, rfl, freq⟩
      · exact ⟨reply, s, K, ran s, same, .refl _ K, fun _ => refused⟩
      · obtain ⟨left, kept, shrunk⟩ := getFreq_shrinks same key
        exact ⟨_, _, left, object_freq freq, kept, shrunk, fun impossible => nomatch impossible⟩
    | false =>
      cases name with
      | ping | info | debug =>
        exact .inr (.inl ⟨rfl, _, s, K, rfl, same, .refl _ K, fun impossible => nomatch impossible⟩)
      | expiry =>
        obtain ⟨left, kept, shrunk⟩ := deleteExpired_shrinks same
        exact .inr (.inl ⟨rfl, _, _, left, rfl, kept, shrunk, fun impossible => nomatch impossible⟩)
      | cluster => exact .inr (.inr ⟨rfl, rfl⟩)
      | get | set | expire | ttl | incr | append | pfadd | pfcount | pfmerge | del | object => cases data

/-- What a command was that returned: a request, or it let dead items go at most. -/
theorem handler_returned {name : CommandName} {args : List Bytes} {reply : Bytes} {after : Store} (same : Represents env policy s K)
    (ran : runHandler env cfg name s args = .ok (reply, after)) :
    (∃ request clock left, requestOf env name args = some request ∧ Located env s (runHandler env cfg name s args) clock ∧
      request.run (rulesOf env policy) clock K = .ok (reply, left) ∧ Represents env policy after left) ∨
    requestOf env name args = none ∧ ∃ left, Represents env policy after left ∧ ShrunkAt (env.clock after.tick) K left ∧
      (writeCommands name = true → isErrorReply reply = true) := by
  rcases handler_cases cfg same name args with
    ⟨request, clock, asked, located, refines⟩ | ⟨unasked, reply', after', left, ran', kept, shrunk, refused⟩ | ⟨rfl, cluster⟩
  · obtain ⟨left, spec, kept⟩ := refines.of_ok ran
    exact .inl ⟨request, clock, left, asked, located, spec, kept⟩
  · rw [ran] at ran'
    cases ran'
    exact .inr ⟨unasked, left, kept, shrunk, refused⟩
  · rw [ran] at cluster
    obtain ⟨_, _, returned⟩ := map_ok cluster.symm
    cases returned
    exact .inr ⟨rfl, K, same, .refl _ K, fun impossible => nomatch impossible⟩

end Rediska.Proofs
