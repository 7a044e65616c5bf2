import Rediska.Logic.ClockFace
import Rediska.Storage.Evict

/-! The clocks of access stamps, and what the idle times read off them are worth. -/

namespace Rediska.Proofs
open Go Storage Logic

/-- The ticks of the clock of recency, which counts seconds. -/
def secondTicks (now : Int) : Int := (now / 1000000).tdiv 1000

/-- The ticks of the clock of frequency, which counts minutes. -/
def minuteTicks (now : Int) : Int := (now / 1000000000).tdiv 60

theorem secondTicks_mono {a now : Int} (order : a ≤ now) : secondTicks a ≤ secondTicks now := by
  have whole := Int.ediv_le_ediv (by decide : (0 : Int) < 1000000) order
  exact Int.tdiv_le_tdiv (by decide) whole

theorem minuteTicks_mono {a now : Int} (order : a ≤ now) : minuteTicks a ≤ minuteTicks now := by
  have whole := Int.ediv_le_ediv (by decide : (0 : Int) < 1000000000) order
  exact Int.tdiv_le_tdiv (by decide) whole

/-- Less than `n` seconds apart means at most `n` ticks. -/
theorem secondTicks_near {a now : Int} {n : Nat} (near : now - a < n * 1000000000) : secondTicks now ≤ secondTicks a + n := by
  have sign : (1000 : Int).sign = 1 := rfl
  unfold secondTicks
  rw [Int.tdiv_eq_ediv, Int.tdiv_eq_ediv, sign]
  split <;> split <;> omega

theorem lruClock_hand (now : Int) : (lruClock now).toNat = hand (2 ^ 24) (secondTicks now) := by
  have small := hand_lt (by decide : 0 < 2 ^ 24) (secondTicks now)
  exact UInt32.toNat_ofNat_of_lt' (small.trans (by decide))

theorem lruClock_lt (now : Int) : (lruClock now).toNat < 2 ^ 24 := by
  rw [lruClock_hand]
  exact hand_lt (by decide) _

theorem lfuClock_hand (now : Int) : (lfuClock now).toNat = hand (2 ^ 16) (minuteTicks now) := by
  have small := hand_lt (by decide : 0 < 2 ^ 16) (minuteTicks now)
  exact UInt16.toNat_ofNat_of_lt' small

/-- The idle time is the way of the hand, one tick short over the end of the face. -/
theorem lruIdle_way (now a : Int) :
    (lruIdle (lruClock now) (lruClock a)).toNat = way (2 ^ 24) (hand (2 ^ 24) (secondTicks now)) (hand (2 ^ 24) (secondTicks a)) := by
  have stamped := lruClock_lt a
  have clock := lruClock_lt now
  have last : lruClockMax.toNat = 2 ^ 24 - 1 := rfl
  rw [← lruClock_hand, ← lruClock_hand]
  unfold lruIdle way
  by_cases forward : lruClock a ≤ lruClock now
  · rw [if_pos forward, if_pos (UInt32.le_iff_toNat_le.mp forward), UInt32.toNat_sub_of_le _ _ forward]
  · have below : lruClock a ≤ lruClockMax := UInt32.le_iff_toNat_le.mpr (by omega)
    have behind : ¬ (lruClock a).toNat ≤ (lruClock now).toNat := fun le => forward (UInt32.le_iff_toNat_le.mpr le)
    rw [if_neg forward, if_neg behind, UInt32.toNat_add, UInt32.toNat_sub_of_le _ _ below, last]
    omega

theorem ldtIdle_way (now a : Int) :
    (ldtIdle (lfuClock now) (lfuClock a)).toNat = way (2 ^ 16) (hand (2 ^ 16) (minuteTicks now)) (hand (2 ^ 16) (minuteTicks a)) := by
  have stored := (lfuClock a).toNat_lt
  have clock := (lfuClock now).toNat_lt
  have last : (65535 : UInt16).toNat = 2 ^ 16 - 1 := rfl
  rw [← lfuClock_hand, ← lfuClock_hand]
  unfold ldtIdle way
  by_cases forward : lfuClock a ≤ lfuClock now
  · rw [if_pos forward, if_pos (UInt16.le_iff_toNat_le.mp forward), UInt16.toNat_sub_of_le _ _ forward]
  · have below : lfuClock a ≤ 65535 := UInt16.le_iff_toNat_le.mpr (by omega)
    have behind : ¬ (lfuClock a).toNat ≤ (lfuClock now).toNat := fun le => forward (UInt16.le_iff_toNat_le.mpr le)
    rw [if_neg forward, if_neg behind, UInt16.toNat_add, UInt16.toNat_sub_of_le _ _ below, last]
    omega

/-- The idle time of a stamp is the number of seconds that have begun since. -/
def CountsSeconds (a now : Int) : Prop := ((lruIdle (lruClock now) (lruClock a)).toNat : Int) = secondTicks now - secondTicks a

/-- The idle time of a counter is the number of minutes that have begun since. -/
def CountsMinutes (a now : Int) : Prop := ((ldtIdle (lfuClock now) (lfuClock a)).toNat : Int) = minuteTicks now - minuteTicks a

/-- The older entry is evicted before the newer one. -/
def OlderFirst (env : Env) (s : Store) (older newer : Entry) : Prop := (s.evictionScore env newer).1 < (s.evictionScore env older).1

theorem evictionScore_way (env : Env) {s : Store} (recency : s.isLFU = false) {e : Entry} {a : Int} (stamped : e.lru = lruClock a) :
    (s.evictionScore env e).1.toNat = way (2 ^ 24) (hand (2 ^ 24) (secondTicks (env.clock s.tick))) (hand (2 ^ 24) (secondTicks a)) := by
  simp only [Store.evictionScore, recency, Bool.false_eq_true, if_false, Store.now, stamped]
  exact lruIdle_way (env.clock s.tick) a

/-- Idle times are exact as long as the clock has not wrapped since the stamp, and not
afterwards. Of two entries the older one has the higher score, unless its stamp looks
like that of the present moment again, or the two were stamped in the last second of a
turn and in the first of the next. -/
theorem wrapping_clocks_exact_iff (a now : Int) (env : Env) (s : Store) (older newer : Entry) (b : Int) :
    (a ≤ now → (CountsSeconds a now ↔ secondTicks now / 2 ^ 24 = secondTicks a / 2 ^ 24)) ∧
    (a ≤ now → (CountsMinutes a now ↔ minuteTicks now / 2 ^ 16 = minuteTicks a / 2 ^ 16)) ∧
    (s.isLFU = false → older.lru = lruClock a → newer.lru = lruClock b →
      secondTicks a < secondTicks b → b ≤ env.clock s.tick → env.clock s.tick - a < 2 ^ 24 * 1000000000 →
      (OlderFirst env s older newer ↔ secondTicks (env.clock s.tick) ≠ secondTicks a + 2 ^ 24 ∧
        ¬ (secondTicks b = secondTicks a + 1 ∧ secondTicks b % 2 ^ 24 = 0))) := by
  refine ⟨?_, ?_, ?_⟩
  · intro order
    rw [CountsSeconds, lruIdle_way]
    exact way_eq_iff (by decide) (secondTicks_mono order)
  · intro order
    rw [CountsMinutes, ldtIdle_way]
    exact way_eq_iff (by decide) (minuteTicks_mono order)
  · intro recency first last order passed near
    have order' := secondTicks_mono passed
    have near' := secondTicks_near (n := 2 ^ 24) near
    rw [OlderFirst, UInt32.lt_iff_toNat_lt, evictionScore_way env recency first, evictionScore_way env recency last]
    by_cases full : secondTicks (env.clock s.tick) = secondTicks a + 2 ^ 24
    · -- The stamp of a whole turn ago is the present one.
      have again : hand (2 ^ 24) (secondTicks a) = hand (2 ^ 24) (secondTicks (env.clock s.tick)) := by
        rw [full, hand, hand]
        simp
      have none : way (2 ^ 24) (hand (2 ^ 24) (secondTicks (env.clock s.tick))) (hand (2 ^ 24) (secondTicks a)) = 0 := by
        rw [again, way]
        simp
      rw [none]
      simp [full]
    · rw [way_lt_iff (by decide) order order' (by push_cast at near' ⊢; omega)]
      push_cast
      omega

theorem clocks_exact_in_first_turn :
    CountsSeconds 5000000000 60000000000 ∧ CountsMinutes 5000000000 60000000000 ∧
      OlderFirst (.still 60000000000) (Store.new .allkeysLRU) ⟨.int, 1, none, none, none, lruClock 5000000000⟩
        ⟨.int, 2, none, none, none, lruClock 7000000000⟩ := by
  obtain ⟨seconds, minutes, first⟩ := wrapping_clocks_exact_iff 5000000000 60000000000 (.still 60000000000) (Store.new .allkeysLRU)
    ⟨.int, 1, none, none, none, lruClock 5000000000⟩ ⟨.int, 2, none, none, none, lruClock 7000000000⟩ 7000000000
  have present : (Env.still 60000000000).clock (Store.new .allkeysLRU).tick = 60000000000 := rfl
  rw [present] at first
  refine ⟨(seconds (by decide)).mpr (by decide), (minutes (by decide)).mpr (by decide), ?_⟩
  exact (first rfl rfl rfl (by decide) (by decide) (by decide)).mpr (by decide)

/-- Stamped in the last second of a turn and looked at in the next: no time has passed. -/
theorem wrap_loses_a_second :
    ¬ ((∀ a now, a ≤ now → now - a < 2 ^ 24 * 1000000000 → CountsSeconds a now) ∧
      (∀ a now, a ≤ now → now - a < 2 ^ 16 * 60000000000 → CountsMinutes a now) ∧
      ∀ (env : Env) (s : Store) (older newer : Entry) (a b : Int), s.isLFU = false → older.lru = lruClock a →
        newer.lru = lruClock b → secondTicks a < secondTicks b → b ≤ env.clock s.tick →
        env.clock s.tick - a < 2 ^ 24 * 1000000000 → OlderFirst env s older newer) := by
  rintro ⟨seconds, _, _⟩
  have counted := seconds (16777215 * 1000000000) (16777216 * 1000000000) (by decide) (by decide)
  have idle : lruIdle (lruClock (16777216 * 1000000000)) (lruClock (16777215 * 1000000000)) = 0 := by decide
  have passed : secondTicks (16777216 * 1000000000) - secondTicks (16777215 * 1000000000) = 1 := by decide
  rw [CountsSeconds, idle, passed] at counted
  cases counted

end Rediska.Proofs
