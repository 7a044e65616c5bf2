import Rediska.Proofs.EvictionRounds

/-! The pool of candidates at every step of the store, also in the middle of an eviction. -/

namespace Rediska.Proofs
open Go Storage Commands

/-- The stores there are between two steps: after calls, commands and replay, after a
change of the policy, and after each step that a round of eviction is made of. -/
inductive Occurs : Store → Prop
  | new : Occurs (.new .noeviction)
  | policy {s : Store} (before : Occurs s) (policy : Policy) : Occurs (s.setPolicy policy)
  | call {env : Env} {s after : Store} {call : Call} (before : Occurs s) (ran : call.run env s = .ok after) : Occurs after
  | command {env : Env} {cfg : Config} {w after : World} {cmd : Command} {reply : Bytes} (before : Occurs w.store)
      (ran : dispatch env cfg w cmd = .ok (reply, after)) : Occurs after.store
  | replayed {env : Env} {cfg : Config} {s after : Store} {cmd : Command} (before : Occurs s)
      (ran : replay env cfg s cmd = .ok after) : Occurs after
  | sample {env : Env} {s after : Store} {samples : Nat} {keys : List Bytes} (before : Occurs s)
      (ran : s.sampleKeys env samples = .ok (keys, after)) : Occurs after
  | score {s : Store} (before : Occurs s) (env : Env) (e : Entry) : Occurs (s.evictionScore env e).2
  | offer {s : Store} (before : Occurs s) (env : Env) (key : Bytes) (score : UInt32) : Occurs (s.poolInsert env key score)
  /-- `append(s.evPool[:i], s.evPool[i+1:]...)` -/
  | drop {s : Store} (before : Occurs s) (i : Nat) : Occurs { s with evPool := s.evPool.eraseIdx i }
  | remove {s : Store} (before : Occurs s) (key : Bytes) : Occurs (s.removeKey key)

/-- No more slots than there may be, the least score first, and no key twice. -/
structure Ranked (pool : List Candidate) : Prop where
  size : pool.length ≤ evictionPoolSize
  sorted : pool.Pairwise fun a b => a.score ≤ b.score
  once : (pool.map Candidate.key).Nodup

variable {env : Env} {s after : Store} {cand : Candidate} {pool next : List Candidate}

theorem Ranked.nil : Ranked [] := ⟨Nat.zero_le _, .nil, List.nodup_nil⟩

theorem Ranked.sublist (ranked : Ranked pool) (fewer : next.Sublist pool) : Ranked next :=
  ⟨fewer.length_le.trans ranked.size, ranked.sorted.sublist fewer, ranked.once.sublist (fewer.map Candidate.key)⟩

theorem Ranked.offered (ranked : Ranked pool) (offered : Offered env cand pool next) : Ranked next := by
  refine ⟨offered.size ranked.size, ?_, offered.once ranked.once⟩
  rcases offered.sorted with sorted | ⟨rfl, _⟩
  · exact sorted
  · exact ranked.sorted

theorem Ranked.round {samples : Nat} (ranked : Ranked s.evPool) (ran : Store.evictionRound env samples s = .ok after) :
    Ranked after.evPool := by
  have filled : Ranked (roundPool env samples s) :=
    roundPool_run env samples s (fun _ => Ranked) ranked fun _ _ _ _ _ _ before offered => before.offered offered
  obtain ⟨n, _, ⟨front, cand, dead, parts, _, _, rfl⟩ | ⟨_, rfl⟩⟩ := evictionRound_choice ran
  · rw [removeKey_evPool]
    apply filled.sublist
    rw [parts]
    exact List.sublist_append_left front _
  · exact .nil

theorem Ranked.evicted {samples maxBytes : Int} (ran : s.performEvictions env samples maxBytes = .ok after) (ranked : Ranked s.evPool) :
    Ranked after.evPool :=
  (performEvictions_run (fun s => Ranked s.evPool) (fun _ _ _ _ before round => before.round round) ranked ran).1

theorem Ranked.altered (edited : Altered s after) (ranked : Ranked s.evPool) : Ranked after.evPool := by
  rw [edited.evPool]
  exact ranked

theorem sampleKeys_same_pool {samples : Nat} {keys : List Bytes} (ran : s.sampleKeys env samples = .ok (keys, after)) :
    after.evPool = s.evPool := by
  unfold Store.sampleKeys at ran
  split at ran
  · cases ran
  · cases ran
    rfl

theorem Occurs.ranked (occurs : Occurs s) : Ranked s.evPool := by
  induction occurs with
  | new => exact .nil
  | policy _ _ ih => exact ih
  | sample _ ran ih =>
    rw [sampleKeys_same_pool ran]
    exact ih
  | call _ ran ih => exact Call.preserves (fun s => Ranked s.evPool) Ranked.altered Ranked.evicted ran ih
  | command _ ran ih => exact dispatch_preserves (fun s => Ranked s.evPool) Ranked.altered Ranked.evicted ran ih
  | replayed _ ran ih => exact replay_preserves (fun s => Ranked s.evPool) Ranked.altered ran ih
  | @score s _ env e ih =>
    obtain ⟨n, ticked⟩ := evictionScore_ticked env s e
    rw [ticked]
    exact ih
  | @offer s _ env key score ih =>
    obtain ⟨pool, inserted, offered⟩ := poolInsert_offered env s key score
    rw [inserted]
    exact ih.offered offered
  | drop _ i ih => exact ih.sublist (List.eraseIdx_sublist _ i)
  | remove _ key ih =>
    rw [removeKey_evPool]
    exact ih

/-- Of a full pool and a candidate with a new key, one of the least score is lost. -/
theorem Ranked.keeps_best (ranked : Ranked pool) (full : pool.length = evictionPoolSize) (new : cand.key ∉ pool.map Candidate.key)
    (offered : Offered env cand pool next) :
    ∃ lost ∈ cand :: pool, (∀ slot ∈ cand :: pool, lost.score ≤ slot.score) ∧ (lost :: next).Perm (cand :: pool) := by
  cases offered with
  | refreshed known => exact absurd known new
  | added _ room => exact absurd full (Nat.ne_of_lt room)
  | @rejected first rest _ worse =>
    refine ⟨cand, List.mem_cons_self, ?_, .refl _⟩
    intro slot inside
    rcases List.mem_cons.mp inside with rfl | pooled
    · exact UInt32.le_refl _
    · rcases List.mem_cons.mp pooled with rfl | later
      · exact worse
      · exact UInt32.le_trans worse (List.rel_of_pairwise_cons ranked.sorted later)
  | @displaced first rest _ better =>
    refine ⟨first, List.mem_cons_of_mem _ List.mem_cons_self, ?_, ?_⟩
    · intro slot inside
      rcases List.mem_cons.mp inside with rfl | pooled
      · exact UInt32.le_of_lt better
      · rcases List.mem_cons.mp pooled with rfl | later
        · exact UInt32.le_refl _
        · exact List.rel_of_pairwise_cons ranked.sorted later
    · exact ((env.sort_perm (cand :: rest)).cons first).trans (.swap cand first rest)

/-- At every step the pool has sixteen slots at most, in the order of their scores, and no
key twice. A new key that is offered to a full pool leaves sixteen of the seventeen candidates,
and the one that is lost has the least score. -/
theorem pool_keeps_best (occurs : Occurs s) :
    s.evPool.length ≤ 16 ∧ s.evPool.Pairwise (fun a b => a.score ≤ b.score) ∧ (s.evPool.map Candidate.key).Nodup ∧
    ∀ (env : Env) (key : Bytes) (score : UInt32), s.evPool.length = 16 → key ∉ s.evPool.map Candidate.key →
      (s.poolInsert env key score).evPool.length = 16 ∧
      ∃ lost ∈ ⟨key, score⟩ :: s.evPool, (∀ slot ∈ ⟨key, score⟩ :: s.evPool, lost.score ≤ slot.score) ∧
        (lost :: (s.poolInsert env key score).evPool).Perm (⟨key, score⟩ :: s.evPool) := by
  have ranked := occurs.ranked
  refine ⟨ranked.size, ranked.sorted, ranked.once, ?_⟩
  intro env key score full new
  obtain ⟨pool, inserted, offered⟩ := poolInsert_offered env s key score
  obtain ⟨lost, among, least, parts⟩ := ranked.keeps_best full new offered
  rw [inserted]
  refine ⟨?_, lost, among, least, parts⟩
  have count := parts.length_eq
  rw [List.length_cons, List.length_cons, full] at count
  exact Nat.succ.inj count

/-- Sixteen keys offered one after the other, with higher and higher scores. -/
def fullPool : Store :=
  (List.range 16).foldl (fun s i => s.poolInsert (.still 0) [UInt8.ofNat i] (UInt32.ofNat i)) (.new .noeviction)

theorem fullPool_occurs : Occurs fullPool :=
  List.foldlRecOn (motive := Occurs) (List.range 16) _ .new fun _ before i _ => before.offer (.still 0) [UInt8.ofNat i] (UInt32.ofNat i)

/-- A seventeenth key takes the place of one. -/
theorem fullPool_keeps_best :
    fullPool.evPool.length = 16 ∧ (fullPool.poolInsert (.still 0) (ascii "k") 7).evPool.length = 16 ∧
    ∃ lost ∈ ⟨ascii "k", 7⟩ :: fullPool.evPool, (∀ slot ∈ ⟨ascii "k", 7⟩ :: fullPool.evPool, lost.score ≤ slot.score) ∧
      (lost :: (fullPool.poolInsert (.still 0) (ascii "k") 7).evPool).Perm (⟨ascii "k", 7⟩ :: fullPool.evPool) := by
  have full : fullPool.evPool.length = 16 := by decide
  have new : ascii "k" ∉ fullPool.evPool.map Candidate.key := by decide
  exact ⟨full, (pool_keeps_best fullPool_occurs).2.2.2 (.still 0) (ascii "k") 7 full new⟩

end Rediska.Proofs
