import Rediska.Proofs.Lifetimes

/-! Counting with INCR. The sum is taken in 64 bits, written as text, and read again as
the integer it is. -/

namespace Rediska.Proofs
open Go Core Hll Storage Spec Commands

variable {env : Env} {s after : Store} {key reply : Bytes} {n : Int}

/-- The integer INCR counts on from: zero if no live key is there, and none if the key is of
another kind. -/
def counter (env : Env) (s : Store) (key : Bytes) : Option Int :=
  match s.data.lookup key with
  | none => some 0
  | some e =>
    if expiredAt (env.clock s.tick) e then some 0
    else if e.encoding = .int then some e.intVal else none

theorem counter_live {e : Entry} (held : s.data.lookup key = some e) (alive : expiredAt (env.clock s.tick) e = false) :
    counter env s key = if e.encoding = .int then some e.intVal else none := by
  simp only [counter, held, alive, Bool.false_eq_true, if_false]

/-- Without a live key the count starts at one, for good. -/
theorem incr_missing (missing : ∀ e, s.data.lookup key = some e → expiredAt (env.clock s.tick) e = true)
    (ran : handleIncr env s [key] = .ok (reply, after)) :
    reply = encodeInteger 1 ∧ ∃ stamp, after.data.lookup key = some (Store.newEntry (itoa 1) none stamp) := by
  obtain ⟨⟨result, v⟩, got, ran⟩ := bind_ok ran
  have absent : result = .absent := by
    unfold Store.getInt at got
    split at got
    next =>
      cases got
      rfl
    next e held =>
      have expired : (s.isExpired env e).1 = true := (isExpired_expiredAt env s e).trans (missing e held)
      simp only [expired, if_true] at got
      cases got
      rfl
  subst absent
  cases ran
  obtain ⟨written, _⟩ := set_writes env v key (itoa 1) 0
  exact ⟨rfl, written⟩

theorem incr_counts (counts : counter env s key = some n) (ran : handleIncr env s [key] = .ok (reply, after)) :
    reply = encodeInteger (wrap64 (n + 1)) ∧
      ∃ expiresAt stamp, after.data.lookup key = some ⟨.int, wrap64 (n + 1), none, none, expiresAt, stamp⟩ := by
  by_cases live : ∃ e, s.data.lookup key = some e ∧ expiredAt (env.clock s.tick) e = false
  · obtain ⟨e, held, alive⟩ := live
    rw [counter_live held alive] at counts
    split at counts
    next int =>
      cases counts
      obtain ⟨answered, stamp, written⟩ := incr_live held alive int ran
      rw [newEntry_itoa (isInt64_wrap64 _)] at written
      exact ⟨answered, _, stamp, written⟩
    next => cases counts
  · have missing : ∀ e, s.data.lookup key = some e → expiredAt (env.clock s.tick) e = true := by
      intro e held
      by_contra alive
      exact live ⟨e, held, Bool.eq_false_iff.mpr alive⟩
    have zero : n = 0 := by
      unfold counter at counts
      split at counts
      next =>
        cases counts
        rfl
      next e held =>
        rw [if_pos (missing e held)] at counts
        cases counts
        rfl
    subst zero
    obtain ⟨answered, stamp, written⟩ := incr_missing missing ran
    rw [newEntry_itoa (by decide)] at written
    exact ⟨answered, _, stamp, written⟩

/-- A key of another kind keeps all but its stamp. -/
theorem incr_refuses (refuses : counter env s key = none) (ran : handleIncr env s [key] = .ok (reply, after)) :
    reply = errorReply "ERR while incrementing" ∧
      ∃ e stamp, s.data.lookup key = some e ∧ after.data.lookup key = some { e with lru := stamp } := by
  unfold counter at refuses
  split at refuses
  next => cases refuses
  next e held =>
    split at refuses
    next => cases refuses
    next alive =>
      split at refuses
      next => cases refuses
      next other =>
        obtain ⟨⟨result, v⟩, got, ran⟩ := bind_ok ran
        obtain ⟨rfl, stamp, _, rfl⟩ := getInt_live held (Bool.eq_false_iff.mpr alive) got
        simp only [if_neg other] at ran
        cases ran
        exact ⟨rfl, e, stamp, held, by rw [lookup_insert_if, if_pos rfl]⟩

theorem incr_returns (decays : env.lfuDecayTime ≠ 0) (s : Store) (key : Bytes) :
    ∃ reply after, handleIncr env s [key] = .ok (reply, after) := by
  have read : ∃ result v, s.getInt env key = .ok (result, v) := by
    unfold Store.getInt
    split
    · exact ⟨_, _, rfl⟩
    next e held =>
      obtain ⟨stamp, stamped⟩ := stampAccess_returns decays (s.isExpired env e).2 e.lru
      dsimp only
      split
      · exact ⟨_, _, rfl⟩
      · rw [Store.touch, stamped, ok_bind, ok_bind]
        split <;> exact ⟨_, _, rfl⟩
  obtain ⟨result, v, got⟩ := read
  simp only [handleIncr, got, ok_bind]
  cases result <;> exact ⟨_, _, rfl⟩

/-- INCR answers the next integer, and its text is what the key holds; or it answers an
error, and the key keeps its value and its deadline. -/
def CountsOn (env : Env) (s : Store) (key reply : Bytes) (after : Store) : Prop :=
  (∃ n e, counter env s key = some n ∧ reply = encodeInteger (n + 1) ∧ after.data.lookup key = some e ∧
    entryText e = .ok (some (itoa (n + 1)))) ∨
  (isErrorReply reply = true ∧ ∃ e stamp, s.data.lookup key = some e ∧ after.data.lookup key = some { e with lru := stamp })

theorem countsOn_iff (ran : handleIncr env s [key] = .ok (reply, after)) :
    CountsOn env s key reply after ↔ ∀ n, counter env s key = some n → IsInt64 (n + 1) := by
  cases counts : counter env s key with
  | none =>
    obtain ⟨rfl, kept⟩ := incr_refuses counts ran
    exact iff_of_true (.inr ⟨rfl, kept⟩) nofun
  | some n =>
    obtain ⟨rfl, expiresAt, stamp, written⟩ := incr_counts counts ran
    simp only [Option.some.injEq, forall_eq', ← wrap64_eq_self_iff]
    constructor
    · rintro (⟨m, _, same, answered, _⟩ | ⟨wrong, _⟩)
      · rw [counts] at same
        cases same
        exact encodeInteger_injective answered
      · cases wrong
    · intro whole
      exact .inl ⟨n, _, counts, by rw [whole], written, by rw [entryText, whole]⟩

/-- Every INCR after the first finds the key before its deadline. -/
def StaysLive (env : Env) (key : Bytes) (s : Store) (k : Nat) : Prop :=
  ∀ first middle, handleIncr env s [key] = .ok (first, middle) →
    Before (handleIncr env) (fun t => ∃ e, t.data.lookup key = some e ∧ expiredAt (env.clock t.tick) e = false) middle
      (List.replicate k [key])

/-- In a run of INCRs each adds one in 64 bits. -/
theorem incrs_count {k : Nat} {replies : List Bytes} (counts : counter env s key = some n) (live : StaysLive env key s k)
    (ran : runAll (handleIncr env) s (List.replicate (k + 1) [key]) = .ok (replies, after)) :
    replies = (List.range (k + 1)).map (fun j : Nat => encodeInteger (wrap64 (n + 1 + j))) ∧
      ∃ expiresAt stamp, after.data.lookup key = some ⟨.int, wrap64 (n + 1 + k), none, none, expiresAt, stamp⟩ := by
  induction k generalizing s n replies with
  | zero =>
    obtain ⟨first, middle, others, one, rest, rfl⟩ := runAll_uncons ran
    cases rest
    obtain ⟨rfl, written⟩ := incr_counts counts one
    refine ⟨by simp, ?_⟩
    simpa using written
  | succ k ih =>
    obtain ⟨first, middle, others, one, rest, rfl⟩ := runAll_uncons ran
    obtain ⟨rfl, expiresAt, stamp, written⟩ := incr_counts counts one
    obtain ⟨⟨e, held, alive⟩, later⟩ := live _ middle one
    have next : counter env middle key = some (wrap64 (n + 1)) := by
      rw [counter_live held alive]
      rw [written] at held
      cases held
      rfl
    obtain ⟨rfl, last⟩ := ih next later rest
    have shift (j : Nat) : wrap64 (wrap64 (n + 1) + 1 + j) = wrap64 (n + 1 + (j + 1 : Nat)) := by
      rw [Int.add_assoc, wrap64_add, Nat.cast_succ, Int.add_comm 1]
    rw [shift] at last
    refine ⟨?_, last⟩
    simp only [shift]
    rw [List.range_succ_eq_map (n := k + 1), List.map_cons, List.map_map, Nat.cast_zero, Int.add_zero]
    rfl

/-- The replies to a run of INCRs are the integers after `n`, and the last is what the key
holds. -/
def CountsUp (key : Bytes) (n : Int) (k : Nat) (replies : List Bytes) (after : Store) : Prop :=
  replies = (List.range k).map (fun j : Nat => encodeInteger (n + 1 + j)) ∧
    ∃ e, after.data.lookup key = some e ∧ entryText e = .ok (some (itoa (n + k)))

theorem countsUp_iff {k : Nat} {replies : List Bytes} (counts : counter env s key = some n) (fits : IsInt64 n)
    (live : StaysLive env key s k) (ran : runAll (handleIncr env) s (List.replicate (k + 1) [key]) = .ok (replies, after)) :
    CountsUp key n (k + 1) replies after ↔ n + k < maxInt64 := by
  obtain ⟨rfl, expiresAt, stamp, written⟩ := incrs_count counts live ran
  have sum : n + (k + 1 : Nat) = n + 1 + k := by
    push_cast
    omega
  constructor
  · intro ⟨answered, _⟩
    -- the last reply alone would have wrapped around
    have last := List.map_inj_left.mp answered k (List.mem_range.mpr (Nat.lt_succ_self k))
    have whole := wrap64_eq_self_iff.mp (encodeInteger_injective last)
    have upper := whole.2
    omega
  · intro room
    have whole (j : Nat) (inside : j ≤ k) : wrap64 (n + 1 + j) = n + 1 + j := by
      apply wrap64_of_isInt64
      have lower := fits.1
      constructor <;> omega
    refine ⟨?_, _, written, ?_⟩
    · apply List.map_congr_left
      intro j inside
      rw [whole j (Nat.lt_succ_iff.mp (List.mem_range.mp inside))]
    · simp only [entryText, whole k (Nat.le_refl k), sum]

/-- INCR counts exactly as long as the next integer has 64 bits. It returns, and counts on
or refuses unless it would pass the largest integer; a run of INCRs in which the key does
not expire counts up one by one exactly if it ends at or before it. -/
theorem incr_exact_iff (env : Env) (s : Store) (key : Bytes) :
    (env.lfuDecayTime ≠ 0 → ∃ reply after, handleIncr env s [key] = .ok (reply, after)) ∧
    (∀ reply after, handleIncr env s [key] = .ok (reply, after) →
      (CountsOn env s key reply after ↔ ∀ n, counter env s key = some n → IsInt64 (n + 1))) ∧
    ∀ n k replies after, counter env s key = some n → IsInt64 n → StaysLive env key s k →
      runAll (handleIncr env) s (List.replicate (k + 1) [key]) = .ok (replies, after) →
      (CountsUp key n (k + 1) replies after ↔ n + k < maxInt64) := by
  refine ⟨fun decays => incr_returns decays s key, ?_, ?_⟩
  · intro reply after ran
    exact countsOn_iff ran
  · intro n k replies after counts fits live ran
    exact countsUp_iff counts fits live ran

theorem two_incrs_count_up :
    ∃ replies after, runAll (handleIncr (.still 0)) (Store.new .noeviction) (List.replicate 2 [ascii "n"]) = .ok (replies, after) ∧
      CountsUp (ascii "n") 0 2 replies after := by
  have live : StaysLive (.still 0) (ascii "n") (Store.new .noeviction) 1 := by
    intro first middle ran
    cases ran
    exact ⟨⟨_, rfl, rfl⟩, fun _ _ _ => trivial⟩
  refine ⟨_, _, rfl, ((incr_exact_iff (.still 0) (Store.new .noeviction) (ascii "n")).2.2 0 1 _ _ rfl ?_ live rfl).mpr ?_⟩
  · decide
  · decide

/-- INCR after SET n 9223372036854775807 answers the smallest integer. -/
theorem incr_wraps_around :
    ¬ ∀ (env : Env) (s after : Store) (key reply : Bytes), handleIncr env s [key] = .ok (reply, after) →
      CountsOn env s key reply after := by
  intro claim
  have counted := claim (.still 0) ((Store.new .noeviction).set (.still 0) (ascii "n") (itoa maxInt64) 0) _ (ascii "n") _ rfl
  have fits := (countsOn_iff rfl).mp counted maxInt64 (by decide)
  exact absurd fits (by decide)

end Rediska.Proofs
