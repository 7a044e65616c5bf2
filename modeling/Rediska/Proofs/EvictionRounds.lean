import Rediska.Proofs.MemoryLimit

/-! What eviction comes to from any store a server can have: it ends within the limit, and
its pool of candidates never makes it choose worse than a fresh sample would. -/

namespace Rediska.Proofs
open Go Core Storage Commands

/-- The stores a server can come to: by calls from other packages, by commands, and by
the commands replayed at startup, each in an environment of its own. -/
inductive Reached (policy : Policy) : Store → Prop
  | start : Reached policy (.new policy)
  | call {env : Env} {s after : Store} {call : Call} (before : Reached policy s) (ran : call.run env s = .ok after) :
      Reached policy after
  | command {env : Env} {cfg : Config} {w after : World} {cmd : Command} {reply : Bytes} (before : Reached policy w.store)
      (ran : dispatch env cfg w cmd = .ok (reply, after)) : Reached policy after.store
  | replayed {env : Env} {cfg : Config} {s after : Store} {cmd : Command} (before : Reached policy s)
      (ran : replay env cfg s cmd = .ok after) : Reached policy after

variable {env : Env} {policy : Policy} {s after : Store}

section
variable (holds : Store → Prop) (edit : ∀ {s after : Store}, Altered s after → holds s → holds after)
  (evict : ∀ {env : Env} {s after : Store} {samples maxBytes : Int}, s.performEvictions env samples maxBytes = .ok after →
    holds s → holds after)
include edit evict

theorem Call.preserves {call : Call} (ran : call.run env s = .ok after) (before : holds s) : holds after := by
  rcases Call.edits ran with edited | ⟨samples, maxBytes, evicted⟩
  · exact edit edited before
  · exact evict evicted before

theorem dispatch_preserves {cfg : Config} {w next : World} {cmd : Command} {reply : Bytes}
    (ran : dispatch env cfg w cmd = .ok (reply, next)) (before : holds w.store) : holds next.store := by
  have checks {name : CommandName} {room : Store} {fits : Bool} (checked : checkMemory env cfg name w.store = .ok (room, fits)) :
      holds room := by
    rcases checkMemory_evicts checked with rfl | ⟨samples, maxBytes, evicted⟩
    · exact before
    · exact evict evicted before
  cases dispatched ran with
  | unknown | refused => exact before
  | full _ _ checked => exact checks checked
  | ran _ _ checked handled =>
    rw [appendAOF_store]
    exact edit (runHandler_edits handled) (checks checked)

omit evict in
theorem replay_preserves {cfg : Config} {cmd : Command} (ran : replay env cfg s cmd = .ok after) (before : holds s) : holds after := by
  unfold replay at ran
  split at ran
  · cases ran
    exact before
  · obtain ⟨⟨reply, after⟩, handled, rfl⟩ := map_ok ran
    exact edit (runHandler_edits handled) before

/-- What holds of an empty store and is kept by edits and by eviction holds of every store. -/
theorem Reached.invariant (start : holds (.new policy)) (reached : Reached policy s) : holds s := by
  induction reached with
  | start => exact start
  | call _ ran ih => exact Call.preserves holds edit evict ran ih
  | command _ ran ih => exact dispatch_preserves holds edit evict ran ih
  | replayed _ ran ih => exact replay_preserves holds edit ran ih

end

theorem Reached.accounted (reached : Reached policy s) : Accounted s := by
  refine Reached.invariant Accounted ?_ ?_ (.new policy) reached
  · intro s after edited accounted
    exact accounted.moved edited.moved
  · intro env s after samples maxBytes evicted accounted
    exact accounted.moved (performEvictions_moves evicted)

/-! Which keys go. -/

/-- Keys went one after the other, each while more was in use than the limit. Between
removals only the pool and the tick change. -/
inductive EvictedTo (maxBytes : Int) (s : Store) : List Bytes → Store → Prop
  | start : EvictedTo maxBytes s [] s
  | sampled {removed : List Bytes} {after : Store} (before : EvictedTo maxBytes s removed after) (pool : List Candidate) (n : Nat) :
      EvictedTo maxBytes s removed { after with evPool := pool, tick := n }
  | evict {removed : List Bytes} {after : Store} {key : Bytes} (before : EvictedTo maxBytes s removed after)
      (full : maxBytes < after.usedMemory) (present : key ∈ after.data) :
      EvictedTo maxBytes s (removed ++ [key]) (after.removeKey key)

/-- Every other key keeps its entry. -/
theorem EvictedTo.lookup {maxBytes : Int} {removed : List Bytes} (evicted : EvictedTo maxBytes s removed after) (key : Bytes) :
    after.data.lookup key = if key ∈ removed then none else s.data.lookup key := by
  induction evicted with
  | start => simp
  | sampled _ _ _ ih => exact ih
  | @evict removed after gone _ _ _ ih =>
    rw [lookup_removeKey, ih]
    by_cases last : key = gone
    · simp [last]
    · simp [last]

theorem performEvictions_evicts {samples maxBytes : Int} (ran : s.performEvictions env samples maxBytes = .ok after) :
    ∃ removed, EvictedTo maxBytes s removed after := by
  refine (performEvictions_run (fun after => ∃ removed, EvictedTo maxBytes s removed after) ?_ ⟨[], .start⟩ ran).1
  intro samples there next full ⟨removed, before⟩ round
  rcases evictionRound_cases round with ⟨key, pool, n, _, present, rfl⟩ | ⟨n, _, rfl, _⟩
  · exact ⟨removed ++ [key], (before.sampled pool n).evict full present⟩
  · exact ⟨removed, before.sampled [] n⟩

/-- A store with one key. -/
def storeOfOne : Store := (Store.new .allkeysLRU).set (.still 0) (ascii "k") (ascii "v") 0

theorem storeOfOne_reached : Reached .allkeysLRU storeOfOne := by
  have ran : (Call.set (ascii "k") (ascii "v") 0).run (.still 0) (Store.new .allkeysLRU) = .ok storeOfOne := rfl
  exact .call .start ran

/-- Eviction ended with no more in use than allowed. It removed keys only while there was
more, and left the other entries as they were. -/
def EndsWithin (env : Env) (s : Store) (samples maxBytes : Int) : Prop :=
  ∃ after removed, s.performEvictions env samples maxBytes = .ok after ∧ after.usedMemory ≤ maxBytes ∧
    EvictedTo maxBytes s removed after ∧ ∀ key, after.data.lookup key = if key ∈ removed then none else s.data.lookup key

theorem Accounted.filled {maxBytes : Int} (accounted : Accounted s) (limited : 0 < maxBytes) (above : maxBytes < s.usedMemory) :
    s.data.keys ≠ [] := by
  intro empty
  have nothing : s.data.entries = [] := List.map_eq_nil_iff.mp empty
  rw [accounted.memory, total, nothing] at above
  exact absurd (limited.trans above) (lt_irrefl 0)

theorem Accounted.endsWithin_iff {samples maxBytes : Int} (accounted : Accounted s) (env : Env) (limited : 0 < maxBytes) :
    EndsWithin env s samples maxBytes ↔ s.usedMemory ≤ maxBytes ∨ 16 * samples ≤ maxAlloc := by
  constructor
  · intro ⟨after, removed, ran, _⟩
    by_contra refused
    simp only [not_or, Int.not_le] at refused
    have above : s.overMemory maxBytes = true := by
      simp only [Store.overMemory, limited, refused.1, decide_true, Bool.and_self]
    rw [performEvictions_refused env refused.2 above (accounted.filled limited refused.1)] at ran
    cases ran
  · intro fits
    have returns : ∃ after, s.performEvictions env samples maxBytes = .ok after := by
      rcases fits with below | modest
      · refine ⟨s, performEvictions_fits env ?_⟩
        simp only [Store.overMemory, Int.not_lt.mpr below, decide_false, Bool.and_false, Bool.false_eq_true, not_false_eq_true]
      · exact performEvictions_returns env s modest maxBytes
    obtain ⟨after, ran⟩ := returns
    obtain ⟨removed, evicted⟩ := performEvictions_evicts ran
    exact ⟨after, removed, ran, accounted.evicted_fits limited ran, evicted, evicted.lookup⟩

/-- Eviction comes to an end, with no more in use than allowed, unless there is something
to evict and the sample is of more keys than a slice can be made for. A policy that evicts
turns no command away. -/
theorem eviction_ends_within_limit_iff (reached : Reached policy s) (env : Env) (samples : Int) {maxBytes : Int}
    (limited : 0 < maxBytes) :
    (EndsWithin env s samples maxBytes ↔ s.usedMemory ≤ maxBytes ∨ 16 * samples ≤ maxAlloc) ∧
    ∀ (cfg : Config) (aof : Option AOF) (cmd : Command) (reply : Bytes) (next : World), Evicts cfg.maxMemoryPolicy →
      dispatch env cfg ⟨s, aof⟩ cmd = .ok (reply, next) → ¬ MemoryError reply := by
  refine ⟨reached.accounted.endsWithin_iff env limited, ?_⟩
  intro cfg aof cmd reply next evicts returned refused
  have accounted : Accounted (World.mk s aof).store := reached.accounted
  obtain ⟨_, _, _, _, stays, _⟩ := (dispatch_memoryError_iff accounted).mp ⟨reply, next, returned, refused⟩
  exact stays evicts

theorem eviction_of_one_key : EndsWithin (.still 0) storeOfOne 5 10 :=
  (eviction_ends_within_limit_iff storeOfOne_reached (.still 0) 5 (by decide)).1.mpr (.inr (by decide))

/-- `PerformEvictions(17592186044417, 10)` with one key, of more than 10 bytes -/
theorem eviction_of_one_key_panics :
    ¬ ∀ (env : Env) (policy : Policy) (s : Store) (samples maxBytes : Int), Reached policy s → 0 < maxBytes →
      EndsWithin env s samples maxBytes := by
  intro claim
  obtain ⟨after, _, ran, _⟩ := claim (.still 0) .allkeysLRU storeOfOne (2 ^ 44 + 1) 10 storeOfOne_reached (by decide)
  rw [performEvictions_refused (.still 0) (by decide) (by decide) (by decide)] at ran
  cases ran

/-! Which key goes first. -/

theorem mem_refresh_self {pool : List Candidate} {key : Bytes} (known : key ∈ pool.map Candidate.key) (score : UInt32) :
    ⟨key, score⟩ ∈ Store.refresh pool key score := by
  induction pool with
  | nil => cases known
  | cons slot rest ih =>
    unfold Store.refresh
    split
    next => exact List.mem_cons_self
    next other =>
      rcases List.mem_cons.mp known with here | later
      · exact absurd here.symm other
      · exact List.mem_cons_of_mem _ (ih later)

theorem mem_refresh_other {pool : List Candidate} {slot : Candidate} (inside : slot ∈ pool) {key : Bytes} (other : slot.key ≠ key)
    (score : UInt32) : slot ∈ Store.refresh pool key score := by
  induction pool with
  | nil => cases inside
  | cons first rest ih =>
    unfold Store.refresh
    rcases List.mem_cons.mp inside with rfl | later
    · rw [if_neg other]
      exact List.mem_cons_self
    · split
      · exact List.mem_cons_of_mem _ later
      · exact List.mem_cons_of_mem _ (ih later)

section
variable {cand slot : Candidate} {pool next : List Candidate} (offered : Offered env cand pool next)
include offered

/-- A slot stays in the pool, unless the candidate is better and takes its place. -/
theorem Offered.keeps (inside : slot ∈ pool) (other : slot.key ≠ cand.key) : slot ∈ next ∨ slot.score < cand.score ∧ cand ∈ next := by
  cases offered with
  | refreshed => exact .inl ((env.sort_perm _).mem_iff.mpr (mem_refresh_other inside other _))
  | added => exact .inl ((env.sort_perm _).mem_iff.mpr (List.mem_append_left _ inside))
  | rejected => exact .inl inside
  | displaced _ better =>
    rcases List.mem_cons.mp inside with rfl | later
    · exact .inr ⟨better, (env.sort_perm _).mem_iff.mpr List.mem_cons_self⟩
    · exact .inl ((env.sort_perm _).mem_iff.mpr (List.mem_cons_of_mem _ later))

/-- A candidate gets into the pool, unless that is full of others at least as good. -/
theorem Offered.lands : cand ∈ next ∨
    next = pool ∧ evictionPoolSize ≤ pool.length ∧ (pool.Pairwise (fun a b => a.score ≤ b.score) → ∀ slot ∈ pool, cand.score ≤ slot.score) := by
  cases offered with
  | refreshed known => exact .inl ((env.sort_perm _).mem_iff.mpr (mem_refresh_self known _))
  | added => exact .inl ((env.sort_perm _).mem_iff.mpr (by simp))
  | @rejected first rest full worse =>
    refine .inr ⟨rfl, full, ?_⟩
    intro sorted slot inside
    rcases List.mem_cons.mp inside with rfl | later
    · exact worse
    · exact UInt32.le_trans worse (List.rel_of_pairwise_cons sorted later)
  | displaced => exact .inl ((env.sort_perm _).mem_iff.mpr List.mem_cons_self)

theorem Offered.once (once : (pool.map Candidate.key).Nodup) : (next.map Candidate.key).Nodup := by
  have sorted {list : List Candidate} (distinct : (list.map Candidate.key).Nodup) : ((env.sort list).map Candidate.key).Nodup :=
    ((env.sort_perm list).map Candidate.key).nodup_iff.mpr distinct
  cases offered with
  | refreshed => exact sorted (by rw [refresh_keys]; exact once)
  | added new =>
    apply sorted
    rw [List.map_append, List.map_singleton, ← List.concat_eq_append, List.nodup_concat]
    exact ⟨new, once⟩
  | rejected => exact once
  | displaced new =>
    rw [List.map_cons] at once new
    exact sorted (List.nodup_cons.mpr ⟨fun later => new (List.mem_cons_of_mem _ later), once.of_cons⟩)

theorem Offered.size (size : pool.length ≤ evictionPoolSize) : next.length ≤ evictionPoolSize := by
  cases offered with
  | refreshed =>
    have same := congrArg List.length (refresh_keys pool cand.key cand.score)
    rw [List.length_map, List.length_map] at same
    rw [(env.sort_perm _).length_eq, same]
    exact size
  | added _ room =>
    rw [(env.sort_perm _).length_eq, List.length_append]
    exact room
  | rejected => exact size
  | displaced =>
    rw [(env.sort_perm _).length_eq]
    exact size

/-- A pool is sorted, unless it was full and is left as it was. -/
theorem Offered.sorted : next.Pairwise (fun a b => a.score ≤ b.score) ∨ next = pool ∧ evictionPoolSize ≤ pool.length := by
  cases offered with
  | refreshed | added | displaced => exact .inl (env.sort_sorted _)
  | rejected full => exact .inr ⟨rfl, full⟩

end

/-- Between rounds the pool has room for a candidate, and has no key twice. -/
structure Pooled (s : Store) : Prop where
  room : s.evPool.length < evictionPoolSize
  once : (s.evPool.map Candidate.key).Nodup

/-- In the middle of a round: for each key offered so far the pool has one of them that is
at least as good. That one is in the map, whatever became of the others. -/
structure Sampling (seen pool : List Candidate) : Prop where
  once : (pool.map Candidate.key).Nodup
  size : pool.length ≤ evictionPoolSize
  filled : evictionPoolSize ≤ pool.length → seen ≠ []
  sorted : seen ≠ [] → pool.Pairwise fun a b => a.score ≤ b.score
  best : ∀ offer ∈ seen, ∃ slot ∈ pool, slot.key ∈ seen.map Candidate.key ∧ offer.score ≤ slot.score

theorem Pooled.sampling (pooled : Pooled s) : Sampling [] s.evPool :=
  ⟨pooled.once, pooled.room.le, fun full => absurd pooled.room (Nat.not_lt.mpr full), fun some => absurd rfl some, nofun⟩

theorem Sampling.offered {seen pool next : List Candidate} {cand : Candidate} (sampling : Sampling seen pool)
    (new : cand.key ∉ seen.map Candidate.key) (offered : Offered env cand pool next) : Sampling (seen ++ [cand]) next := by
  have named : cand.key ∈ (seen ++ [cand]).map Candidate.key := by simp
  have before {key : Bytes} (inside : key ∈ seen.map Candidate.key) : key ∈ (seen ++ [cand]).map Candidate.key := by
    rw [List.map_append]
    exact List.mem_append_left _ inside
  refine ⟨offered.once sampling.once, offered.size sampling.size, fun _ => by simp, fun _ => ?_, ?_⟩
  · rcases offered.sorted with sorted | ⟨rfl, full⟩
    · exact sorted
    · exact sampling.sorted (sampling.filled full)
  · intro offer among
    rcases List.mem_append.mp among with earlier | last
    · obtain ⟨slot, inside, known, better⟩ := sampling.best offer earlier
      have other : slot.key ≠ cand.key := fun same => new (same ▸ known)
      rcases offered.keeps inside other with stays | ⟨beaten, lands⟩
      · exact ⟨slot, stays, before known, better⟩
      · exact ⟨cand, lands, named, UInt32.le_trans better (UInt32.le_of_lt beaten)⟩
    · obtain rfl := List.mem_singleton.mp last
      rcases offered.lands with lands | ⟨rfl, full, worse⟩
      · exact ⟨offer, lands, named, UInt32.le_refl _⟩
      · -- Something offered in this round is in the full pool, and the candidate is no better.
        obtain ⟨first, _⟩ := List.exists_mem_of_ne_nil _ (sampling.filled full)
        obtain ⟨slot, inside, known, _⟩ := sampling.best first ‹_›
        exact ⟨slot, inside, before known, worse (sampling.sorted (sampling.filled full)) slot inside⟩

theorem Pooled.sampled (pooled : Pooled s) (env : Env) (samples : Nat) :
    Sampling (roundOffers env samples s) (roundPool env samples s) := by
  have distinct := roundOffers_nodup env samples s
  apply roundPool_run env samples s Sampling pooled.sampling
  intro seen cand rest pool next list before
  rw [list, List.map_append, List.map_cons, List.nodup_append] at distinct
  exact before.offered fun inside => distinct.2.2 cand.key inside cand.key List.mem_cons_self rfl

theorem Pooled.empty (none : s.evPool = []) : Pooled s := by
  constructor
  · rw [none]
    decide
  · rw [none]
    exact List.nodup_nil

/-- A round takes at least one slot from the pool. -/
theorem Pooled.round {samples : Nat} (pooled : Pooled s) (ran : Store.evictionRound env samples s = .ok after) : Pooled after := by
  have sampling := pooled.sampled env samples
  obtain ⟨n, _, ⟨front, cand, dead, pool, _, _, rfl⟩ | ⟨_, rfl⟩⟩ := evictionRound_choice ran
  · have size := sampling.size
    have once := sampling.once
    rw [pool, List.length_append, List.length_cons] at size
    rw [pool, List.map_append] at once
    constructor
    · rw [removeKey_evPool]
      dsimp only
      omega
    · rw [removeKey_evPool]
      exact (List.nodup_append.mp once).1
  · exact .empty rfl

theorem Reached.pooled (reached : Reached policy s) : Pooled s := by
  refine Reached.invariant Pooled ?_ ?_ (.empty rfl) reached
  · intro s after edited pooled
    exact ⟨by rw [edited.evPool]; exact pooled.room, by rw [edited.evPool]; exact pooled.once⟩
  · intro env s after samples maxBytes evicted pooled
    exact (performEvictions_run Pooled (fun samples s next _ before round => before.round round) pooled evicted).1

/-- Rounds of eviction one after the other. -/
abbrev Rounds (env : Env) (samples : Nat) : Store → Store → Prop :=
  Relation.ReflTransGen fun s next => Store.evictionRound env samples s = .ok next

theorem Pooled.rounds {samples : Nat} (pooled : Pooled s) (rounds : Rounds env samples s after) : Pooled after := by
  induction rounds with
  | refl => exact pooled
  | tail _ round before => exact before.round round

/-- If a round of eviction removes a key, then the score that the pool has for it is at
least the score of every key in the round's sample. -/
theorem evicted_key_scores_highest (reached : Reached policy s) (env : Env) (samples : Nat) {there next : Store} {key : Bytes}
    (begins : Rounds env samples s there) (round : Store.evictionRound env samples there = .ok next) (present : key ∈ there.data)
    (gone : key ∉ next.data) :
    ∃ cand ∈ roundPool env samples there, cand.key = key ∧ (∀ other ∈ roundPool env samples there, other.key = key → other = cand) ∧
      ∀ offer ∈ roundOffers env samples there, offer.score ≤ cand.score := by
  have pooled : Pooled there := reached.pooled.rounds begins
  have sampling := pooled.sampled env samples
  obtain ⟨n, _, ⟨front, cand, dead, pool, stale, _, removed⟩ | ⟨_, cleared⟩⟩ := evictionRound_choice round
  · have inside : cand ∈ roundPool env samples there := by simp [pool]
    have named : cand.key = key := by
      by_contra other
      apply gone
      rw [removed, ← AList.lookup_isSome, lookup_removeKey, if_neg (Ne.symm other)]
      exact AList.lookup_isSome.mpr present
    refine ⟨cand, inside, named, ?_, ?_⟩
    · intro other among same
      exact List.inj_on_of_nodup_map sampling.once among inside (same.trans named.symm)
    · intro offer sampled
      obtain ⟨slot, among, known, better⟩ := sampling.best offer sampled
      have sorted := sampling.sorted (List.ne_nil_of_mem sampled)
      have lives : slot.key ∈ there.data := by
        obtain ⟨origin, offered, same⟩ := List.mem_map.mp known
        exact same ▸ roundOffers_present env samples there origin offered
      rw [pool] at among sorted
      rcases List.mem_append.mp among with below | above
      · exact UInt32.le_trans better ((List.pairwise_append.mp sorted).2.2 slot below cand List.mem_cons_self)
      · rcases List.mem_cons.mp above with rfl | after
        · exact better
        · exact absurd ⟨slot, after, lives⟩ stale
  · rw [cleared] at gone
    exact absurd present gone

theorem only_key_scores_highest :
    ∃ cand ∈ roundPool (.still 0) 5 storeOfOne, cand.key = ascii "k" ∧
      (∀ other ∈ roundPool (.still 0) 5 storeOfOne, other.key = ascii "k" → other = cand) ∧
      ∀ offer ∈ roundOffers (.still 0) 5 storeOfOne, offer.score ≤ cand.score :=
  evicted_key_scores_highest storeOfOne_reached (.still 0) 5 .refl rfl (by decide) (by decide)

end Rediska.Proofs
