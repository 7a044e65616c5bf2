import Mathlib.Data.Finset.Card
import Rediska.Proofs.EncodingVisibility
import Rediska.Proofs.RespRoundTrip
import Rediska.Server.Run

/-! What one round of active expiry removes, in whatever order the map is visited, and
why the rounds that follow each other come to an end. -/

namespace Rediska.Proofs
open Go Core Storage Commands Server

/-- The key holds an entry with a deadline, which counts against the budget of a round. -/
def timed (s : Store) (key : Bytes) : Bool := (s.data.lookup key).any (·.expiresAt.isSome)

theorem timed_of_expired {s : Store} {key : Bytes} {e : Entry} {now : Int} (held : s.data.lookup key = some e)
    (expired : expiredAt now e = true) : timed s key = true := by
  unfold expiredAt at expired
  cases deadline : e.expiresAt with
  | none =>
    rw [deadline] at expired
    cases expired
  | some instant => simp [timed, held, deadline]

/-- What visiting some keys does once `checked` of the budget is spent: `removed` lists
the keys it removes. -/
structure Round (env : Env) (checked : Nat) (keys : List Bytes) (s : Store) (removed : List Bytes) (after : Store) : Prop where
  visited : removed.Sublist keys
  data : ∀ key, after.data.lookup key = if key ∈ removed then none else s.data.lookup key
  expired : ∀ key ∈ removed, ∃ e, s.data.lookup key = some e ∧
    ∃ i, s.tick ≤ i ∧ i < after.tick ∧ expiredAt (env.clock i) e = true
  later : s.tick ≤ after.tick
  budget : removed.length ≤ Store.maxExpiryKeys - checked
  complete : checked + keys.countP (timed s) ≤ Store.maxExpiryKeys → ∀ key ∈ keys, ∀ e, s.data.lookup key = some e →
    expiredAt (env.clock s.tick) e = true → key ∈ removed

namespace Round
variable {env : Env} {checked spent : Nat} {key : Bytes} {keys removed : List Bytes} {s next after : Store}

/-- The round ends: the budget is spent, or nothing is left to visit. -/
theorem stop (ends : Store.maxExpiryKeys ≤ checked ∨ keys = []) : Round env checked keys s [] s where
  visited := List.nil_sublist keys
  data _ := by simp
  expired := by simp
  later := Nat.le_refl _
  budget := Nat.zero_le _
  complete := by
    intro fits key visited e held expired
    rcases ends with spent | rfl
    · have counted : 0 < keys.countP (timed s) := List.countP_pos_iff.mpr ⟨key, visited, timed_of_expired held expired⟩
      omega
    · cases visited

/-- A key that stays: there is no entry, or none that is expired. -/
theorem pass (same : next.data = s.data) (ticked : s.tick ≤ next.tick)
    (alive : ∀ e, s.data.lookup key = some e → expiredAt (env.clock s.tick) e = false)
    (counted : spent = checked + if timed s key then 1 else 0) (round : Round env spent keys next removed after) :
    Round env checked (key :: keys) s removed after where
  visited := round.visited.cons key
  data j := by rw [round.data, same]
  expired j gone := by
    obtain ⟨e, held, i, reached, within, expired⟩ := round.expired j gone
    exact ⟨e, same ▸ held, i, Nat.le_trans ticked reached, within, expired⟩
  later := Nat.le_trans ticked round.later
  budget := Nat.le_trans round.budget (by omega)
  complete := by
    intro fits j visited e held expired
    have alike : timed next = timed s := by
      funext key
      rw [timed, same, timed]
    rw [List.countP_cons] at fits
    rcases List.mem_cons.mp visited with rfl | visited
    · rw [alive e held] at expired
      cases expired
    · apply round.complete _ j visited e (same ▸ held)
      · exact expiredAt_mono (env.forward _ _ ticked) expired
      · rw [alike]
        omega

/-- The visited key is the only one that goes, and it is not visited again. -/
theorem remove {e : Entry} (held : s.data.lookup key = some e) (expired : expiredAt (env.clock s.tick) e = true)
    (unspent : checked < Store.maxExpiryKeys) (once : key ∉ keys)
    (round : Round env (checked + 1) keys (Store.removeKey { s with tick := s.tick + 1 } key) removed after) :
    Round env checked (key :: keys) s (key :: removed) after where
  visited := round.visited.cons_cons key
  data j := by
    rw [round.data, lookup_removeKey]
    by_cases same : j = key <;> simp [same]
  expired j gone := by
    have later := round.later
    rw [removeKey_tick] at later
    rcases List.mem_cons.mp gone with rfl | gone
    · exact ⟨e, held, s.tick, Nat.le_refl _, later, expired⟩
    · obtain ⟨other, found, i, reached, within, dead⟩ := round.expired j gone
      have apart : j ≠ key := fun same => once (same ▸ round.visited.subset gone)
      rw [lookup_removeKey, if_neg apart] at found
      rw [removeKey_tick] at reached
      exact ⟨other, found, i, Nat.le_trans (Nat.le_succ _) reached, within, dead⟩
  later := by
    have later := round.later
    rw [removeKey_tick] at later
    exact Nat.le_trans (Nat.le_succ _) later
  budget := by
    have budget := round.budget
    rw [List.length_cons]
    omega
  complete := by
    intro fits j visited other found dead
    have apart {k : Bytes} (inside : k ∈ keys) : k ≠ key := fun same => once (same ▸ inside)
    rcases List.mem_cons.mp visited with rfl | visited
    · exact List.mem_cons_self
    · apply List.mem_cons_of_mem
      have alike : keys.countP (timed (Store.removeKey { s with tick := s.tick + 1 } key)) = keys.countP (timed s) := by
        apply List.countP_congr
        intro k inside
        rw [timed, lookup_removeKey, if_neg (apart inside), timed]
      rw [List.countP_cons, timed_of_expired held expired] at fits
      apply round.complete _ j visited other
      · rw [lookup_removeKey, if_neg (apart visited)]
        exact found
      · rw [removeKey_tick]
        exact expiredAt_mono (env.forward _ _ (Nat.le_succ s.tick)) dead
      · rw [alike]
        simp only [if_true] at fits
        omega

end Round

theorem deleteExpiredFrom_round (env : Env) {keys : List Bytes} (nodup : keys.Nodup) (checked : Nat) (deleted : Int) (s : Store) :
    ∃ removed, Round env checked keys s removed (Store.deleteExpiredFrom env keys checked deleted s).2 ∧
      (Store.deleteExpiredFrom env keys checked deleted s).1 = deleted + removed.length := by
  induction keys generalizing checked deleted s with
  | nil => exact ⟨[], .stop (.inr rfl), by simp [Store.deleteExpiredFrom]⟩
  | cons key rest ih =>
    obtain ⟨once, nodup⟩ := List.nodup_cons.mp nodup
    simp only [Store.deleteExpiredFrom]
    split
    next spent => exact ⟨[], .stop (.inl spent), by simp⟩
    next unspent =>
      split
      next absent =>
        obtain ⟨removed, round, counted⟩ := ih nodup checked deleted s
        refine ⟨removed, round.pass rfl (Nat.le_refl _) ?_ ?_, counted⟩
        · intro e held
          rw [absent] at held
          cases held
        · simp [timed, absent]
      next e held =>
        have only (other : Entry) (found : s.data.lookup key = some other) : other = e := by
          rw [held] at found
          exact (Option.some.inj found).symm
        split
        next untimed =>
          obtain ⟨removed, round, counted⟩ := ih nodup checked deleted s
          refine ⟨removed, round.pass rfl (Nat.le_refl _) ?_ ?_, counted⟩
          · intro other found
            rw [only other found, expiredAt, untimed]
          · simp [timed, held, untimed]
        next limited =>
          have ticks : (s.isExpired env e).2 = { s with tick := s.tick + 1 } := by rw [isExpired_ticks, if_neg limited]
          rw [isExpired_expiredAt, ticks]
          split
          next expired =>
            obtain ⟨removed, round, counted⟩ := ih nodup (checked + 1) (deleted + 1) (Store.removeKey { s with tick := s.tick + 1 } key)
            refine ⟨key :: removed, round.remove held expired (Nat.not_le.mp unspent) once, ?_⟩
            rw [counted, List.length_cons]
            omega
          next alive =>
            obtain ⟨removed, round, counted⟩ := ih nodup (checked + 1) deleted { s with tick := s.tick + 1 }
            have same : ({ s with tick := s.tick + 1 } : Store).data = s.data := rfl
            refine ⟨removed, round.pass same (Nat.le_succ _) ?_ ?_, counted⟩
            · intro other found
              rw [only other found]
              exact Bool.eq_false_iff.mpr alive
            · simp [timed, held, Option.isSome_iff_ne_none.mpr limited]

/-- A round over the whole map, in the order the iteration takes. -/
theorem deleteExpired_round (env : Env) (s : Store) :
    ∃ removed, Round env 0 (env.order s.tick s.data.keys) { s with tick := s.tick + 1 } removed (s.deleteExpired env).2 ∧
      removed.Nodup ∧ (s.deleteExpired env).1 = removed.length := by
  have nodup := (env.order_perm s.tick s.data.keys).nodup_iff.mpr s.data.keys_nodup
  obtain ⟨removed, round, counted⟩ := deleteExpiredFrom_round env nodup 0 0 { s with tick := s.tick + 1 }
  refine ⟨removed, round, nodup.sublist round.visited, ?_⟩
  rw [Store.deleteExpired, counted, Int.zero_add]

/-- The keys that were there before and are not there after. -/
def goneKeys (s after : Store) : Finset Bytes := s.data.keys.toFinset \ after.data.keys.toFinset

theorem mem_keys_held {s : Store} {key : Bytes} : key ∈ s.data.keys ↔ ∃ e, s.data.lookup key = some e := by
  rw [← AList.mem_keys, ← AList.lookup_isSome, Option.isSome_iff_exists]

theorem mem_goneKeys {s after : Store} {key : Bytes} :
    key ∈ goneKeys s after ↔ (∃ e, s.data.lookup key = some e) ∧ after.data.lookup key = none := by
  rw [goneKeys, Finset.mem_sdiff, List.mem_toFinset, List.mem_toFinset, mem_keys_held, ← AList.mem_keys, ← AList.lookup_eq_none]

/-- The count a round returns is the number of keys that are gone. -/
theorem deleteExpired_counts (env : Env) (s : Store) :
    (s.deleteExpired env).1 = (goneKeys s (s.deleteExpired env).2).card := by
  obtain ⟨removed, round, nodup, counted⟩ := deleteExpired_round env s
  have gone : goneKeys s (s.deleteExpired env).2 = removed.toFinset := by
    ext key
    rw [mem_goneKeys, List.mem_toFinset, round.data]
    constructor
    · intro ⟨⟨e, held⟩, missing⟩
      by_contra kept
      rw [if_neg kept, held] at missing
      cases missing
    · intro inside
      obtain ⟨e, held, _⟩ := round.expired key inside
      exact ⟨⟨e, held⟩, if_pos inside⟩
  rw [counted, gone, List.toFinset_card_of_nodup nodup]

theorem deleteExpired_shorter (env : Env) (s : Store) :
    (s.deleteExpired env).1 + ((s.deleteExpired env).2.data.keys.length : Int) = s.data.keys.length := by
  have inside : (s.deleteExpired env).2.data.keys.toFinset ⊆ s.data.keys.toFinset := by
    intro key present
    obtain ⟨removed, round, _, _⟩ := deleteExpired_round env s
    obtain ⟨e, held⟩ := mem_keys_held.mp (List.mem_toFinset.mp present)
    rw [round.data] at held
    split at held
    · cases held
    · exact List.mem_toFinset.mpr (mem_keys_held.mpr ⟨e, held⟩)
  have sizes := Finset.card_sdiff_add_card_eq_card inside
  rw [List.toFinset_card_of_nodup (AList.keys_nodup _), List.toFinset_card_of_nodup (AList.keys_nodup _)] at sizes
  rw [deleteExpired_counts, goneKeys]
  omega

/-- The reply of a round is read back as the count. -/
theorem deleteExpired_decodes (env : Env) (s : Store) :
    decodeInteger (encodeInteger (s.deleteExpired env).1) = some (s.deleteExpired env).1 := by
  obtain ⟨removed, round, _, counted⟩ := deleteExpired_round env s
  apply decodeInteger_encodeInteger
  have budget : removed.length ≤ 20 := round.budget
  rw [counted]
  constructor <;> simp only [minInt64, maxInt64] <;> omega

/-- Neither the cluster nor the memory limit stands in the way of a round. -/
theorem expiryRequest_runs (env : Env) (cfg : Config) (w : World) :
    dispatchWorker env cfg w expiryRequest =
      .ok (encodeInteger (w.store.deleteExpired env).1, { w with store := (w.store.deleteExpired env).2 }) := by
  have known : lookupCommand expiryRequest.cmd.name = some .expiry := by decide
  have passed : checkCluster cfg expiryRequest.cmd = none := by
    rw [checkCluster, keysOf, known]
    unfold checkKeys
    cases cfg.current <;> rfl
  have room : checkMemory env cfg .expiry w.store = .ok (w.store, true) := by
    rw [checkMemory, if_neg]
    intro denied
    cases denied.1
  have dispatched := dispatch_checked (w := w) known passed room
  rw [if_pos rfl, runHandler, ok_bind] at dispatched
  have logged : appendAOF { w with store := (w.store.deleteExpired env).2 } .expiry expiryRequest.cmd
      (encodeInteger (w.store.deleteExpired env).1) = { w with store := (w.store.deleteExpired env).2 } := by
    unfold appendAOF
    split
    · rw [if_neg]
      intro written
      cases written.1
    · rfl
  exact dispatched.trans (congrArg (fun world => Except.ok (_, world)) logged)

/-- A round that is repeated has removed five keys or more. -/
theorem expiryRounds_end (env : Env) (cfg : Config) (rounds : Nat) (w : World) (enough : w.store.data.keys.length < 5 * rounds) :
    ∃ after, expiryRounds env cfg rounds w = .ok (some after) := by
  induction rounds generalizing w with
  | zero => omega
  | succ rounds ih =>
    simp only [expiryRounds, expiryRequest_runs, ok_bind, deleteExpired_decodes]
    split
    · exact ⟨_, rfl⟩
    next many =>
      apply ih
      have shorter := deleteExpired_shorter env w.store
      dsimp only
      omega

/-- One round removes expired entries only and reports how many, and all of them while
the budget covers every entry with a deadline. The clock is read for each entry, so an
entry may expire during the round. The rounds end, since the store has only so many keys. -/
theorem active_expiry_exact (env : Env) (cfg : Config) (w : World) :
    (∀ key ∈ goneKeys w.store (w.store.deleteExpired env).2, ∃ e, w.store.data.lookup key = some e ∧
      ∃ i, w.store.tick ≤ i ∧ i < (w.store.deleteExpired env).2.tick ∧ expiredAt (env.clock i) e = true) ∧
    (w.store.deleteExpired env).1 = (goneKeys w.store (w.store.deleteExpired env).2).card ∧
    (∀ key, key ∉ goneKeys w.store (w.store.deleteExpired env).2 →
      (w.store.deleteExpired env).2.data.lookup key = w.store.data.lookup key) ∧
    (w.store.data.keys.countP (timed w.store) ≤ 20 → ∀ key e, w.store.data.lookup key = some e →
      expiredAt (env.clock w.store.tick) e = true → (w.store.deleteExpired env).2.data.lookup key = none) ∧
    ∀ rounds, w.store.data.keys.length < 5 * rounds → ∃ after, expiryRounds env cfg rounds w = .ok (some after) := by
  obtain ⟨removed, round, nodup, counted⟩ := deleteExpired_round env w.store
  refine ⟨?_, deleteExpired_counts env w.store, ?_, ?_, fun rounds => expiryRounds_end env cfg rounds w⟩
  · intro key gone
    obtain ⟨⟨e, held⟩, missing⟩ := mem_goneKeys.mp gone
    have inside : key ∈ removed := by
      by_contra kept
      rw [round.data, if_neg kept, held] at missing
      cases missing
    obtain ⟨found, held, i, reached, within, expired⟩ := round.expired key inside
    exact ⟨found, held, i, Nat.le_of_succ_le reached, within, expired⟩
  · intro key stays
    rw [round.data]
    split
    next inside =>
      obtain ⟨e, held, _⟩ := round.expired key inside
      have missing : (w.store.deleteExpired env).2.data.lookup key = none := by rw [round.data, if_pos inside]
      exact absurd (mem_goneKeys.mpr ⟨⟨e, held⟩, missing⟩) stays
    · rfl
  · intro few key e held expired
    have order := env.order_perm w.store.tick w.store.data.keys
    rw [round.data, if_pos]
    apply round.complete _ key (order.mem_iff.mpr (mem_keys_held.mpr ⟨e, held⟩)) e held
    · exact expiredAt_mono (env.forward _ _ (Nat.le_succ _)) expired
    · rw [order.countP_eq, Nat.zero_add]
      exact few

end Rediska.Proofs
