import Rediska.Proofs.StampClocks

/-! The access counter of LFU in its packed field: how it grows and decays, and what the
evictor makes of it. -/

namespace Rediska.Proofs
open Go Storage

theorem lfuDecay_value {decayTime : UInt32} (nonzero : decayTime ≠ 0) (counter : UInt8) (idleMinutes : UInt16) :
    ∃ left, lfuDecay decayTime counter idleMinutes = .ok left ∧
      left.toNat = counter.toNat - idleMinutes.toNat / decayTime.toNat := by
  have steps : (idleMinutes.toUInt32 / decayTime).toNat = idleMinutes.toNat / decayTime.toNat := by
    rw [UInt32.toNat_div, UInt16.toNat_toUInt32]
  simp only [lfuDecay, if_neg nonzero]
  split
  next none =>
    refine ⟨counter, rfl, ?_⟩
    rw [← steps, none]
    rfl
  · split
    next exhausted =>
      refine ⟨0, rfl, ?_⟩
      have bound := UInt32.le_iff_toNat_le.mp exhausted
      rw [UInt8.toNat_toUInt32, steps] at bound
      exact (Nat.sub_eq_zero_of_le bound).symm
    next left =>
      -- fewer steps than the counter counts fit the byte they are cut to
      have bound := Nat.not_le.mp (fun le => left (UInt32.le_iff_toNat_le.mpr le))
      rw [UInt8.toNat_toUInt32] at bound
      have small := counter.toNat_lt
      have cut : (idleMinutes.toUInt32 / decayTime).toUInt8.toNat = (idleMinutes.toUInt32 / decayTime).toNat := by
        rw [UInt32.toNat_toUInt8]
        omega
      refine ⟨_, rfl, ?_⟩
      rw [UInt8.toNat_sub_of_le, cut, steps]
      apply UInt8.le_iff_toNat_le.mpr
      omega

theorem lfuDecodeCounter_toNat (packed : UInt32) : (lfuDecodeCounter packed).toNat = packed.toNat % 2 ^ 8 := by
  have mask : (255 : UInt32).toNat = 2 ^ 8 - 1 := rfl
  rw [lfuDecodeCounter, UInt32.toNat_toUInt8, UInt32.toNat_and, mask, Nat.and_two_pow_sub_one_eq_mod, Nat.mod_mod]

theorem lfuEncode_toNat (ldt : UInt16) (counter : UInt8) : (lfuEncode ldt counter).toNat = ldt.toNat * 2 ^ 8 + counter.toNat := by
  have minutes := ldt.toNat_lt
  have eight : (8 : UInt32).toNat % 32 = 8 := rfl
  rw [lfuEncode, UInt32.toNat_or, UInt32.toNat_shiftLeft, eight, UInt16.toNat_toUInt32, UInt8.toNat_toUInt32, Nat.shiftLeft_eq,
    Nat.mod_eq_of_lt (by omega), ← Nat.shiftLeft_eq, ← Nat.shiftLeft_add_eq_or_of_lt counter.toNat_lt, Nat.shiftLeft_eq]

theorem lfuDecodeLdt_toNat (packed : UInt32) : (lfuDecodeLdt packed).toNat = packed.toNat / 2 ^ 8 % 2 ^ 16 := by
  have mask : (65535 : UInt32).toNat = 2 ^ 16 - 1 := rfl
  have eight : (8 : UInt32).toNat % 32 = 8 := rfl
  rw [lfuDecodeLdt, UInt32.toNat_toUInt16, UInt32.toNat_and, mask, Nat.and_two_pow_sub_one_eq_mod, Nat.mod_mod,
    UInt32.toNat_shiftRight, eight, Nat.shiftRight_eq_div_pow]

@[simp] theorem lfuDecodeLdt_encode (ldt : UInt16) (counter : UInt8) : lfuDecodeLdt (lfuEncode ldt counter) = ldt := by
  have small := counter.toNat_lt
  have minutes := ldt.toNat_lt
  apply UInt16.toNat_inj.mp
  rw [lfuDecodeLdt_toNat, lfuEncode_toNat]
  omega

@[simp] theorem lfuDecodeCounter_encode (ldt : UInt16) (counter : UInt8) : lfuDecodeCounter (lfuEncode ldt counter) = counter := by
  have small := counter.toNat_lt
  apply UInt8.toNat_inj.mp
  rw [lfuDecodeCounter_toNat, lfuEncode_toNat]
  omega

/-- The increment stays within the byte. -/
theorem lfuLogIncr_value (logFactor : UInt32) (draw : Nat → Bool) (counter : UInt8) :
    (lfuLogIncr logFactor draw counter).toNat = counter.toNat ∨
      counter.toNat < 255 ∧ (lfuLogIncr logFactor draw counter).toNat = counter.toNat + 1 := by
  simp only [lfuLogIncr]
  split
  · exact .inl rfl
  next below =>
    split
    · have last : counter.toNat ≠ 255 := fun same => below (UInt8.toNat_inj.mp same)
      have small := counter.toNat_lt
      have one : (1 : UInt8).toNat = 1 := rfl
      refine .inr ⟨by omega, ?_⟩
      rw [UInt8.toNat_add, one]
      omega
    · exact .inl rfl

theorem le_lfuLogIncr (logFactor : UInt32) (draw : Nat → Bool) (counter : UInt8) : counter ≤ lfuLogIncr logFactor draw counter := by
  apply UInt8.le_iff_toNat_le.mpr
  rcases lfuLogIncr_value logFactor draw counter with same | ⟨_, more⟩
  · exact same.ge
  · omega

/-- An access in the minute of the last one does not lower the counter, whatever is drawn. -/
theorem lfuTouch_same_minute {logFactor decayTime : UInt32} {draw : Nat → Bool} {packed stamp : UInt32}
    (touched : lfuTouch logFactor decayTime draw packed (lfuDecodeLdt packed) = .ok stamp) :
    lfuDecodeCounter packed ≤ lfuDecodeCounter stamp := by
  have still : ldtIdle (lfuDecodeLdt packed) (lfuDecodeLdt packed) = 0 := by simp [ldtIdle]
  obtain ⟨counter, decayed, touched⟩ := bind_ok touched
  cases touched
  rw [lfuDecodeCounter_encode]
  by_cases nonzero : decayTime = 0
  · rw [lfuDecay, if_pos nonzero] at decayed
    cases decayed
  · obtain ⟨left, value, same⟩ := lfuDecay_value nonzero (lfuDecodeCounter packed) 0
    rw [still, value] at decayed
    cases decayed
    have kept : lfuDecodeCounter packed = counter := UInt8.toNat_inj.mp (by simpa using same.symm)
    rw [kept]
    exact le_lfuLogIncr logFactor draw counter

/-- An entry last decayed at an instant within one turn of the clock of minutes. -/
structure IdleSince (e : Entry) (a now : Int) : Prop where
  stamped : lfuDecodeLdt e.lru = lfuClock a
  past : a ≤ now
  span : minuteTicks now - minuteTicks a < 2 ^ 16

def idleMinutes (a now : Int) : Nat := (minuteTicks now - minuteTicks a).toNat

/-- The score of an entry is 255 minus its decayed counter. It starts with 255 minus the
counter and rises by one with every decay step, until the counter is exhausted. -/
structure ScoresIdleness (env : Env) (s : Store) (e : Entry) (a : Int) : Prop where
  decayed : (lfuDecay env.lfuDecayTime (lfuDecodeCounter e.lru) (UInt16.ofNat (idleMinutes a (env.clock s.tick)))).map
    (fun counter => (255 - counter).toUInt32) = .ok (s.evictionScore env e).1
  rises : (s.evictionScore env e).1.toNat = 255 - (lfuDecodeCounter e.lru).toNat +
    min (lfuDecodeCounter e.lru).toNat (idleMinutes a (env.clock s.tick) / env.lfuDecayTime.toNat)

theorem complement_toNat (counter : UInt8) : (255 - counter).toUInt32.toNat = 255 - counter.toNat := by
  have small := counter.toNat_lt
  have last : (255 : UInt8).toNat = 255 := rfl
  have below : counter ≤ 255 := UInt8.le_iff_toNat_le.mpr (by omega)
  rw [UInt8.toNat_toUInt32, UInt8.toNat_sub_of_le _ _ below, last]

/-- Within one turn of the clock the minutes fit the word they are decayed by. -/
theorem IdleSince.minutes {e : Entry} {a now : Int} (idle : IdleSince e a now) :
    (UInt16.ofNat (idleMinutes a now)).toNat = idleMinutes a now := by
  have inside : idleMinutes a now < 2 ^ 16 := by
    rw [idleMinutes, Int.toNat_lt' (by decide)]
    exact idle.span
  exact UInt16.toNat_ofNat_of_lt' inside

theorem evictionScore_counter (env : Env) {s : Store} (frequency : s.isLFU = true) (e : Entry) :
    (s.evictionScore env e).1 = (255 - lfuDecodeCounter e.lru).toUInt32 := by
  simp only [Store.evictionScore, frequency, if_true]

/-- The evictor reads the counter as it was left by the last access. What it sees is what
idleness makes of it exactly if no decay step is due, or nothing is left to decay. -/
theorem score_counts_idleness_iff (env : Env) (s : Store) (e : Entry) (a : Int) (frequency : s.isLFU = true)
    (idle : IdleSince e a (env.clock s.tick)) :
    ScoresIdleness env s e a ↔ env.lfuDecayTime ≠ 0 ∧
      (idleMinutes a (env.clock s.tick) < env.lfuDecayTime.toNat ∨ lfuDecodeCounter e.lru = 0) := by
  have small := (lfuDecodeCounter e.lru).toNat_lt
  have score := evictionScore_counter env frequency e
  have empty : lfuDecodeCounter e.lru = 0 ↔ (lfuDecodeCounter e.lru).toNat = 0 := UInt8.toNat_inj.symm
  by_cases zero : env.lfuDecayTime = 0
  · constructor
    · intro scores
      have decayed := scores.decayed
      rw [lfuDecay, if_pos zero] at decayed
      cases decayed
    · intro ⟨nonzero, _⟩
      exact absurd zero nonzero
  · have positive : 0 < env.lfuDecayTime.toNat := Nat.pos_of_ne_zero (fun none => zero (UInt32.toNat_inj.mp none))
    have due : idleMinutes a (env.clock s.tick) < env.lfuDecayTime.toNat ↔
        idleMinutes a (env.clock s.tick) / env.lfuDecayTime.toNat = 0 := by
      rw [Nat.div_eq_zero_iff]
      omega
    obtain ⟨left, value, reduced⟩ := lfuDecay_value zero (lfuDecodeCounter e.lru) (UInt16.ofNat (idleMinutes a (env.clock s.tick)))
    rw [idle.minutes] at reduced
    rw [due, empty]
    constructor
    · intro scores
      have rises := scores.rises
      rw [score, complement_toNat] at rises
      refine ⟨zero, ?_⟩
      generalize idleMinutes a (env.clock s.tick) / env.lfuDecayTime.toNat = steps at rises ⊢
      omega
    · intro ⟨_, current⟩
      have same : left.toNat = (lfuDecodeCounter e.lru).toNat := by
        rcases current with none | exhausted
        · rw [reduced, none, Nat.sub_zero]
        · rw [reduced, exhausted, Nat.zero_sub]
      constructor
      · rw [value, score, UInt8.toNat_inj.mp same]
        rfl
      · rw [score, complement_toNat]
        generalize idleMinutes a (env.clock s.tick) / env.lfuDecayTime.toNat = steps at current ⊢
        omega

/-- Read in the minute of its last access, an entry has the score it should have. -/
theorem fresh_counter_scores :
    ScoresIdleness (.still 60000000000) (Store.new .allkeysLFU) ⟨.int, 1, none, none, none, lfuEncode 1 200⟩ 60000000000 := by
  apply (score_counts_idleness_iff (.still 60000000000) (Store.new .allkeysLFU) ⟨.int, 1, none, none, none, lfuEncode 1 200⟩
    60000000000 rfl ⟨by decide, by decide, by decide⟩).mpr
  decide

/-- A key that was hot once and then idle for two hundred minutes still scores as hot. -/
theorem idle_counter_stays_hot :
    ¬ ∀ (env : Env) (s : Store) (e : Entry) (a : Int), s.isLFU = true → IdleSince e a (env.clock s.tick) →
      ScoresIdleness env s e a := by
  intro scores
  have rises := (scores (.still 12000000000000) (Store.new .allkeysLFU) ⟨.int, 1, none, none, none, lfuEncode 0 200⟩ 0 rfl
    ⟨by decide, by decide, by decide⟩).rises
  have seen : ((Store.new .allkeysLFU).evictionScore (.still 12000000000000) ⟨.int, 1, none, none, none, lfuEncode 0 200⟩).1.toNat = 55 := by
    decide
  have due : 255 - (lfuDecodeCounter (lfuEncode 0 200)).toNat +
      min (lfuDecodeCounter (lfuEncode 0 200)).toNat (idleMinutes 0 12000000000000 / 1) = 255 := by decide
  rw [seen] at rises
  exact absurd (rises.trans due) (by decide)

end Rediska.Proofs
