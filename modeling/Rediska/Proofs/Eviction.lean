import Rediska.Proofs.StoreSteps

/-! What an eviction round can do, and that the rounds come to an end. -/

namespace Rediska.Proofs
open Go Core Storage

variable {env : Env}

theorem evictionScore_ticked (env : Env) (s : Store) (e : Entry) : Ticked s (s.evictionScore env e).2 := by
  unfold Store.evictionScore
  split
  · exact .refl s
  · exact now_ticked env s

theorem evictionScore_tick (env : Env) (s : Store) (e : Entry) : s.tick ≤ (s.evictionScore env e).2.tick := by
  unfold Store.evictionScore
  split
  · exact Nat.le_refl _
  · exact Nat.le_succ _

/-- Some slot of the pool still names a key of the map. -/
def Fresh (s : Store) (pool : List Candidate) : Prop := ∃ cand ∈ pool, cand.key ∈ s.data

theorem not_fresh_nil (s : Store) : ¬ Fresh s [] := by
  rintro ⟨_, inside, _⟩
  cases inside

theorem refresh_keys (pool : List Candidate) (key : Bytes) (score : UInt32) :
    (Store.refresh pool key score).map Candidate.key = pool.map Candidate.key := by
  induction pool with
  | nil => rfl
  | cons cand rest ih =>
    unfold Store.refresh
    split
    next same => rw [List.map_cons, List.map_cons, same]
    next => rw [List.map_cons, List.map_cons, ih]

/-- What becomes of a pool that a candidate is offered to. -/
inductive Offered (env : Env) (cand : Candidate) : List Candidate → List Candidate → Prop
  | refreshed {pool : List Candidate} (known : cand.key ∈ pool.map Candidate.key) :
      Offered env cand pool (env.sort (Store.refresh pool cand.key cand.score))
  | added {pool : List Candidate} (new : cand.key ∉ pool.map Candidate.key) (room : pool.length < evictionPoolSize) :
      Offered env cand pool (env.sort (pool ++ [cand]))
  | rejected {first : Candidate} {rest : List Candidate} (full : evictionPoolSize ≤ (first :: rest).length)
      (worse : cand.score ≤ first.score) : Offered env cand (first :: rest) (first :: rest)
  | displaced {first : Candidate} {rest : List Candidate} (new : cand.key ∉ (first :: rest).map Candidate.key)
      (better : first.score < cand.score) : Offered env cand (first :: rest) (env.sort (cand :: rest))

/-- Offering a key changes the pool only. -/
theorem poolInsert_offered (env : Env) (s : Store) (key : Bytes) (score : UInt32) :
    ∃ pool, s.poolInsert env key score = { s with evPool := pool } ∧ Offered env ⟨key, score⟩ s.evPool pool := by
  have known : s.evPool.any (fun cand => cand.key = key) = true ↔ key ∈ s.evPool.map Candidate.key := by
    simp
  unfold Store.poolInsert
  split
  next present => exact ⟨_, rfl, .refreshed (known.mp present)⟩
  next absent =>
    have new : key ∉ s.evPool.map Candidate.key := fun present => absent (known.mpr present)
    split
    next room => exact ⟨_, rfl, .added new room⟩
    next full =>
      split
      next empty => exact absurd (by rw [empty]; decide) full
      next first rest held =>
        rw [held] at new full
        split
        next worse => exact ⟨s.evPool, rfl, held ▸ .rejected (Nat.le_of_not_lt full) worse⟩
        next better => exact ⟨_, rfl, held ▸ .displaced new (UInt32.not_le.mp better)⟩

/-- The keys of a sample with the scores they are offered at. -/
def offers (env : Env) (s : Store) : List Bytes → List Candidate
  | [] => []
  | key :: rest =>
    let (score, s) := s.evictionScore env ((s.data.lookup key).getD ⟨.int, 0, none, none, none, 0⟩)
    ⟨key, score⟩ :: offers env (s.poolInsert env key score) rest

theorem offers_keys (env : Env) (s : Store) (keys : List Bytes) : (offers env s keys).map Candidate.key = keys := by
  induction keys generalizing s with
  | nil => rfl
  | cons key rest ih => rw [offers, List.map_cons, ih]

/-- Sampling changes the pool and the tick, and what each offer carries on holds of the
pool in the end. -/
theorem poolSample_run (env : Env) (keys : List Bytes) (s : Store) (holds : List Candidate → List Candidate → Prop)
    (start : holds [] s.evPool)
    (step : ∀ seen cand rest pool next, offers env s keys = seen ++ cand :: rest → holds seen pool → Offered env cand pool next →
      holds (seen ++ [cand]) next) :
    ∃ pool n, s.tick ≤ n ∧ Store.poolSample env keys s = { s with evPool := pool, tick := n } ∧ holds (offers env s keys) pool := by
  induction keys generalizing s holds with
  | nil => exact ⟨s.evPool, s.tick, Nat.le_refl _, rfl, start⟩
  | cons key rest ih =>
    have sampled : Store.poolSample env (key :: rest) s =
        let scored := s.evictionScore env ((s.data.lookup key).getD ⟨.int, 0, none, none, none, 0⟩)
        Store.poolSample env rest (scored.2.poolInsert env key scored.1) := rfl
    rw [offers] at step ⊢
    rw [sampled]
    dsimp only at step ⊢
    generalize (s.data.lookup key).getD _ = e at step ⊢
    have first := evictionScore_tick env s e
    obtain ⟨m, ticked⟩ := evictionScore_ticked env s e
    generalize (s.evictionScore env e).1 = score at step ⊢
    rw [ticked] at step first ⊢
    obtain ⟨middle, inserted, offered⟩ := poolInsert_offered env { s with tick := m } key score
    rw [inserted] at step ⊢
    obtain ⟨pool, n, later, run, final⟩ := ih { s with tick := m, evPool := middle } (fun seen pool => holds (⟨key, score⟩ :: seen) pool)
      (step [] _ _ _ _ rfl start offered)
      (fun seen cand rest pool next list before => step (_ :: seen) cand rest pool next (by rw [list]; rfl) before)
    exact ⟨pool, n, Nat.le_trans first later, run, final⟩

/-- A pool has a key that was offered to it, unless it was full of better ones. -/
theorem Offered.has {cand : Candidate} {pool next : List Candidate} (offered : Offered env cand pool next) :
    (∃ slot ∈ next, slot.key = cand.key) ∨ next = pool ∧ pool ≠ [] := by
  have sorted (list : List Candidate) (named : cand.key ∈ list.map Candidate.key) : ∃ slot ∈ env.sort list, slot.key = cand.key := by
    obtain ⟨slot, inside, same⟩ := List.mem_map.mp named
    exact ⟨slot, (env.sort_perm list).mem_iff.mpr inside, same⟩
  cases offered with
  | refreshed known => exact .inl (sorted _ (by rw [refresh_keys]; exact known))
  | added => exact .inl (sorted _ (by simp))
  | rejected => exact .inr ⟨rfl, List.cons_ne_nil _ _⟩
  | displaced => exact .inl (sorted _ (by simp))

/-- The keys that a round samples, with the scores they have then. -/
def roundOffers (env : Env) (samples : Nat) (s : Store) : List Candidate :=
  let (keys, s) := s.firstKeys env samples
  offers env s keys

theorem roundOffers_present (env : Env) (samples : Nat) (s : Store) : ∀ cand ∈ roundOffers env samples s, cand.key ∈ s.data := by
  intro cand offered
  have sampled : cand.key ∈ (roundOffers env samples s).map Candidate.key := List.mem_map_of_mem offered
  rw [roundOffers, Store.firstKeys, offers_keys] at sampled
  exact AList.mem_keys.mp ((env.order_perm s.tick s.data.keys).mem_iff.mp (List.mem_of_mem_take sampled))

theorem roundOffers_nodup (env : Env) (samples : Nat) (s : Store) : ((roundOffers env samples s).map Candidate.key).Nodup := by
  rw [roundOffers, Store.firstKeys, offers_keys]
  exact ((env.order_perm s.tick s.data.keys).nodup_iff.mpr s.data.keys_nodup).sublist (List.take_sublist _ _)

theorem roundOffers_ne_nil (env : Env) {samples : Nat} (some : 0 < samples) {s : Store} (filled : s.data.keys ≠ []) :
    roundOffers env samples s ≠ [] := by
  intro none
  have sampled := congrArg (List.map Candidate.key) none
  rw [roundOffers, Store.firstKeys, offers_keys] at sampled
  rcases List.take_eq_nil_iff.mp sampled with zero | nothing
  · omega
  · have perm := env.order_perm s.tick s.data.keys
    rw [nothing] at perm
    exact filled perm.nil_eq.symm

/-- The pool that a round evicts from. -/
def roundPool (env : Env) (samples : Nat) (s : Store) : List Candidate :=
  let (keys, s) := s.firstKeys env samples
  (Store.poolSample env keys s).evPool

/-- What each offer carries on holds of the pool a round evicts from. -/
theorem roundPool_run (env : Env) (samples : Nat) (s : Store) (holds : List Candidate → List Candidate → Prop)
    (start : holds [] s.evPool)
    (step : ∀ seen cand rest pool next, roundOffers env samples s = seen ++ cand :: rest → holds seen pool →
      Offered env cand pool next → holds (seen ++ [cand]) next) : holds (roundOffers env samples s) (roundPool env samples s) := by
  obtain ⟨pool, _, _, sampled, final⟩ := poolSample_run env (s.firstKeys env samples).1 (s.firstKeys env samples).2 holds start step
  have left : roundPool env samples s = pool := congrArg Store.evPool sampled
  rw [left]
  exact final

/-- Slots are dropped up to the first whose key is in the map. -/
theorem evictFrom_cases (s : Store) (slots : List Candidate) :
    (∃ dead cand rest, slots = dead ++ cand :: rest ∧ ¬ Fresh s dead ∧ cand.key ∈ s.data ∧
      Store.evictFrom slots s = Store.removeKey { s with evPool := rest.reverse } cand.key) ∨
      ¬ Fresh s slots ∧ Store.evictFrom slots s = { s with evPool := [] } := by
  induction slots with
  | nil => exact .inr ⟨not_fresh_nil s, rfl⟩
  | cons cand rest ih =>
    unfold Store.evictFrom
    split
    next absent =>
      have stale {slots : List Candidate} (others : ¬ Fresh s slots) : ¬ Fresh s (cand :: slots) := by
        rintro ⟨slot, inside, present⟩
        rcases List.mem_cons.mp inside with rfl | later
        · exact AList.lookup_eq_none.mp absent present
        · exact others ⟨slot, later, present⟩
      rcases ih with ⟨dead, last, others, rfl, gone, present, removed⟩ | ⟨none, cleared⟩
      · exact .inl ⟨cand :: dead, last, others, rfl, stale gone, present, removed⟩
      · exact .inr ⟨stale none, cleared⟩
    next held =>
      refine .inl ⟨[], cand, rest, rfl, not_fresh_nil s, ?_, rfl⟩
      exact AList.lookup_isSome.mp (Option.isSome_iff_ne_none.mpr held)

theorem Fresh.reverse {s : Store} {slots : List Candidate} : Fresh s slots.reverse ↔ Fresh s slots := by
  simp only [Fresh, List.mem_reverse]

theorem sampleKeys_returns (env : Env) {samples : Nat} (fits : CanMake 16 samples) (s : Store) :
    s.sampleKeys env samples = .ok (s.firstKeys env samples) := by
  rw [Store.sampleKeys, if_neg (not_not_intro fits)]

/-- A sample that no slice can hold stops the first round. -/
theorem evictionRound_refused (env : Env) {samples : Nat} (refused : ¬ CanMake 16 samples) (s : Store) :
    Store.evictionRound env samples s = .error .makeSlice := by
  rw [Store.evictionRound, Store.sampleKeys, if_pos refused]
  rfl

theorem evictionRound_returns (env : Env) {samples : Nat} (fits : CanMake 16 samples) (s : Store) :
    ∃ next, Store.evictionRound env samples s = .ok next := by
  rw [Store.evictionRound, sampleKeys_returns env fits]
  exact ⟨_, rfl⟩

section
variable {samples : Nat} {s next : Store}

theorem evictionRound_fits (ran : Store.evictionRound env samples s = .ok next) : CanMake 16 samples := by
  by_contra refused
  rw [evictionRound_refused env refused] at ran
  cases ran

/-- A round removes the key of the last slot in its pool that has one, or clears the pool. -/
theorem evictionRound_choice (ran : Store.evictionRound env samples s = .ok next) :
    ∃ n, s.tick ≤ n ∧
      ((∃ front cand dead, roundPool env samples s = front ++ cand :: dead ∧ ¬ Fresh s dead ∧ cand.key ∈ s.data ∧
        next = Store.removeKey { s with evPool := front, tick := n } cand.key) ∨
      ¬ Fresh s (roundPool env samples s) ∧ next = { s with evPool := [], tick := n }) := by
  obtain ⟨pool, n, later, sampled, _⟩ := poolSample_run env (s.firstKeys env samples).1 (s.firstKeys env samples).2
    (fun _ _ => True) trivial (fun _ _ _ _ _ _ _ _ => trivial)
  have left : roundPool env samples s = pool := congrArg Store.evPool sampled
  have round : next = Store.evictFrom pool.reverse { s with evPool := pool, tick := n } := by
    simp only [Store.evictionRound, sampleKeys_returns env (evictionRound_fits ran), ok_bind, sampled] at ran
    exact (Except.ok.inj ran).symm
  refine ⟨n, Nat.le_of_succ_le later, ?_⟩
  rw [left, round]
  rcases evictFrom_cases { s with evPool := pool, tick := n } pool.reverse with
    ⟨dead, cand, rest, slots, stale, present, removed⟩ | ⟨stale, cleared⟩
  · refine .inl ⟨rest.reverse, cand, dead.reverse, ?_, fun fresh => stale (Fresh.reverse.mp fresh), present, removed⟩
    rw [← List.reverse_reverse pool, slots]
    simp
  · exact .inr ⟨fun fresh => stale (Fresh.reverse.mpr fresh), cleared⟩

/-- A round removes a key, or clears a pool that was not empty. -/
theorem evictionRound_cases (ran : Store.evictionRound env samples s = .ok next) :
    (∃ key pool n, s.tick ≤ n ∧ key ∈ s.data ∧ next = Store.removeKey { s with evPool := pool, tick := n } key) ∨
      ∃ n, s.tick ≤ n ∧ next = { s with evPool := [], tick := n } ∧ (0 < samples → s.data.keys ≠ [] → s.evPool ≠ []) := by
  obtain ⟨n, later, ⟨front, cand, _, _, _, present, removed⟩ | ⟨stale, cleared⟩⟩ := evictionRound_choice ran
  · exact .inl ⟨cand.key, front, n, later, present, removed⟩
  · refine .inr ⟨n, later, cleared, ?_⟩
    intro some filled empty
    -- An empty pool takes the first key that is offered, and has a key of the map from then on.
    have fresh := roundPool_run env samples s (fun seen pool => Fresh s pool ∨ pool = [] ∧ seen = []) (.inr ⟨empty, rfl⟩) ?_
    · rcases fresh with fresh | ⟨_, none⟩
      · exact stale fresh
      · exact roundOffers_ne_nil env some filled none
    · intro seen cand rest pool next list before offered
      refine .inl ?_
      rcases offered.has with ⟨slot, inside, named⟩ | ⟨rfl, filled⟩
      · exact ⟨slot, inside, named ▸ roundOffers_present env samples s cand (by rw [list]; simp)⟩
      · rcases before with fresh | ⟨none, _⟩
        · exact fresh
        · exact absurd none filled

theorem removeKey_length {s : Store} {key : Bytes} (present : key ∈ s.data) :
    (s.removeKey key).data.keys.length + 1 = s.data.keys.length := by
  obtain ⟨e, held⟩ := Option.isSome_iff_exists.mp (AList.lookup_isSome.mpr present)
  have fewer := total_erase (fun _ _ => 1) held
  rw [total_one, total_one] at fewer
  simp only [Store.removeKey, held]
  omega

/-- Rounds that are left at most. -/
def roundsLeft (s : Store) : Nat := 2 * s.data.keys.length + if s.evPool = [] then 0 else 1

theorem evictionRound_lowers (ran : Store.evictionRound env samples s = .ok next) (some : 0 < samples) (filled : s.data.keys ≠ []) :
    roundsLeft next < roundsLeft s := by
  unfold roundsLeft
  rcases evictionRound_cases ran with ⟨key, pool, n, _, present, rfl⟩ | ⟨n, _, rfl, before⟩
  · have fewer := removeKey_length (s := { s with evPool := pool, tick := n }) present
    dsimp only at fewer
    split <;> split <;> omega
  · rw [if_neg (before some filled)]
    simp only [if_true]
    omega

end

theorem evictionLoop_returns (env : Env) {samples : Nat} (some : 0 < samples) (fits : CanMake 16 samples) (maxBytes : Int) {fuel : Nat}
    {s : Store} (enough : roundsLeft s ≤ fuel) : ∃ after, Store.evictionLoop env samples maxBytes fuel s = .ok after := by
  induction fuel generalizing s with
  | zero =>
    have empty : s.data.keys = [] := by
      unfold roundsLeft at enough
      exact List.eq_nil_of_length_eq_zero (by omega)
    simp only [Store.evictionLoop, empty, if_true, ite_self]
    exact ⟨s, rfl⟩
  | succ fuel ih =>
    unfold Store.evictionLoop
    split
    · exact ⟨s, rfl⟩
    · split
      · exact ⟨s, rfl⟩
      next filled =>
        obtain ⟨next, ran⟩ := evictionRound_returns env fits s
        have fewer := evictionRound_lowers ran some filled
        simp only [ran, ok_bind]
        exact ih (by omega)

/-- The number of keys that a round samples: five for a setting that is not positive. -/
theorem canMake_samples {samples : Int} (fits : 16 * samples ≤ maxAlloc) :
    CanMake 16 ((if samples ≤ 0 then 5 else samples.toNat : Nat) : Int) := by
  split
  · decide
  · exact ⟨by omega, by omega⟩

theorem performEvictions_returns (env : Env) (s : Store) {samples : Int} (fits : 16 * samples ≤ maxAlloc) (maxBytes : Int) :
    ∃ after, s.performEvictions env samples maxBytes = .ok after := by
  unfold Store.performEvictions
  split
  · exact ⟨s, rfl⟩
  · refine evictionLoop_returns env ?_ (canMake_samples fits) maxBytes ?_
    · split <;> omega
    · unfold roundsLeft
      split <;> omega

theorem performEvictions_fits (env : Env) {s : Store} {samples maxBytes : Int} (fits : ¬ s.overMemory maxBytes = true) :
    s.performEvictions env samples maxBytes = .ok s := by
  unfold Store.performEvictions
  split
  · rfl
  next limited =>
    simp only [Store.overMemory, Bool.and_eq_true, decide_eq_true_eq] at fits
    have within : s.usedMemory ≤ maxBytes := by omega
    unfold Store.evictionLoop
    rw [if_pos within]

/-- With something to free, a sample that no slice can hold is a panic. -/
theorem performEvictions_refused (env : Env) {s : Store} {samples maxBytes : Int} (refused : maxAlloc < 16 * samples)
    (above : s.overMemory maxBytes = true) (filled : s.data.keys ≠ []) :
    s.performEvictions env samples maxBytes = .error .makeSlice := by
  simp only [Store.overMemory, Bool.and_eq_true, decide_eq_true_eq] at above
  have positive : ¬ samples ≤ 0 := by
    simp only [maxAlloc] at refused
    omega
  have large : ¬ CanMake 16 (samples.toNat : Int) := by
    intro made
    have small := made.2
    omega
  unfold Store.performEvictions
  rw [if_neg (by omega)]
  unfold Store.evictionLoop
  simp only [if_neg positive, if_neg (Int.not_le.mpr above.2), if_neg filled, evictionRound_refused env large, bind_error]

/-- What each round carries on holds in the end, which comes when the rest fits or nothing
is left. Rounds are made only while memory is over the limit. -/
theorem evictionLoop_run (holds : Store → Prop) {samples fuel : Nat} {maxBytes : Int} {s after : Store}
    (step : ∀ s next, maxBytes < s.usedMemory → holds s → Store.evictionRound env samples s = .ok next → holds next) (start : holds s)
    (ran : Store.evictionLoop env samples maxBytes fuel s = .ok after) :
    holds after ∧ (after.usedMemory ≤ maxBytes ∨ after.data.keys = []) := by
  induction fuel generalizing s with
  | zero =>
    unfold Store.evictionLoop at ran
    split at ran
    next fits => cases ran; exact ⟨start, .inl fits⟩
    next =>
      split at ran
      next empty => cases ran; exact ⟨start, .inr empty⟩
      next => cases ran
  | succ fuel ih =>
    unfold Store.evictionLoop at ran
    split at ran
    next fits => cases ran; exact ⟨start, .inl fits⟩
    next full =>
      split at ran
      next empty => cases ran; exact ⟨start, .inr empty⟩
      next =>
        obtain ⟨next, round, ran⟩ := bind_ok ran
        exact ih (step s next (Int.not_le.mp full) start round) ran

theorem performEvictions_run (holds : Store → Prop) {samples maxBytes : Int} {s after : Store}
    (step : ∀ (samples : Nat) s next, maxBytes < s.usedMemory → holds s → Store.evictionRound env samples s = .ok next → holds next)
    (start : holds s) (ran : s.performEvictions env samples maxBytes = .ok after) :
    holds after ∧ (0 < maxBytes → after.usedMemory ≤ maxBytes ∨ after.data.keys = []) := by
  unfold Store.performEvictions at ran
  split at ran
  next unlimited =>
    cases ran
    exact ⟨start, fun limited => absurd limited (Int.not_lt.mpr unlimited)⟩
  next =>
    obtain ⟨final, stops⟩ := evictionLoop_run holds (step _) start ran
    exact ⟨final, fun _ => stops⟩

/-- What every removal and every change of pool and tick keeps, eviction keeps. -/
theorem performEvictions_keeps (holds : Store → Prop) (pool : ∀ s pool n, s.tick ≤ n → holds s → holds { s with evPool := pool, tick := n })
    (remove : ∀ s key, holds s → holds (s.removeKey key)) {s after : Store} {samples maxBytes : Int} (start : holds s)
    (ran : s.performEvictions env samples maxBytes = .ok after) : holds after := by
  refine (performEvictions_run holds ?_ start ran).1
  intro samples s next _ before round
  rcases evictionRound_cases round with ⟨key, left, n, later, _, rfl⟩ | ⟨n, later, rfl, _⟩
  · exact remove _ key (pool s left n later before)
  · exact pool s [] n later before

end Rediska.Proofs
