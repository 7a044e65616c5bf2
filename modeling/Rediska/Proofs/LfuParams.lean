import Rediska.Proofs.LfuCounters
import Rediska.Proofs.TextFidelity

/-! The parameters of LFU as the startup flags set them, and the accesses made with them. -/

namespace Rediska.Proofs
open Go Storage

/-- No access can divide by zero, whatever the counter, the idle time, the store and the
draws. -/
structure SafeAccess (p : LFUParams) : Prop where
  positive : 1 ≤ p.decayTime
  decays : ∀ counter idleMinutes, ∃ left, lfuDecay p.decayTime counter idleMinutes = .ok left
  stamps : ∀ (env : Env) (s : Store) (current : UInt32), ∃ stamped, s.stampAccess (env.tuned p) current = .ok stamped

/-- What a call accepts is in force afterwards, as the number it was given. -/
structure TakesEffect (logFactor decayTime : Int) (after : LFUParams) : Prop where
  growth : 0 ≤ logFactor → (after.logFactor.toNat : Int) = logFactor
  decay : 1 ≤ decayTime → (after.decayTime.toNat : Int) = decayTime

theorem one_le_iff (n : UInt32) : 1 ≤ n ↔ n ≠ 0 := by
  rw [UInt32.le_iff_toNat_le, Ne, ← UInt32.toNat_inj]
  exact Nat.one_le_iff_ne_zero

theorem safeAccess_iff (p : LFUParams) : SafeAccess p ↔ 1 ≤ p.decayTime := by
  constructor
  · intro safe
    exact safe.positive
  · intro positive
    have nonzero := (one_le_iff _).mp positive
    refine ⟨positive, ?_, ?_⟩
    · intro counter idleMinutes
      obtain ⟨left, decayed, _⟩ := lfuDecay_value nonzero counter idleMinutes
      exact ⟨left, decayed⟩
    · intro env s current
      have tuned : (env.tuned p).lfuDecayTime ≠ 0 := nonzero
      obtain ⟨stamp, stamped⟩ := stampAccess_returns tuned s current
      exact ⟨_, stamped⟩

/-- The conversion keeps a number exactly if it has room for it. -/
theorem truncated_eq_iff {n : Int} (nonneg : 0 ≤ n) : ((UInt32.ofNat (n % 2 ^ 32).toNat).toNat : Int) = n ↔ n < 2 ^ 32 := by
  have small : (n % 2 ^ 32).toNat < 2 ^ 32 := by omega
  rw [UInt32.toNat_ofNat_of_lt' small]
  omega

theorem setLFUParams_takes_effect_iff (p : LFUParams) (logFactor decayTime : Int) :
    TakesEffect logFactor decayTime (setLFUParams p logFactor decayTime) ↔ logFactor < 2 ^ 32 ∧ decayTime < 2 ^ 32 := by
  constructor
  · intro taken
    constructor
    · by_contra large
      have accepted : 0 ≤ logFactor := by omega
      have same := taken.growth accepted
      simp only [setLFUParams, if_pos accepted] at same
      exact large ((truncated_eq_iff accepted).mp same)
    · by_contra large
      have accepted : 1 ≤ decayTime := by omega
      have same := taken.decay accepted
      simp only [setLFUParams, if_pos accepted] at same
      exact large ((truncated_eq_iff (by omega)).mp same)
  · intro ⟨growth, decay⟩
    constructor
    · intro accepted
      simp only [setLFUParams, if_pos accepted]
      exact (truncated_eq_iff accepted).mpr growth
    · intro accepted
      simp only [setLFUParams, if_pos accepted]
      exact (truncated_eq_iff (by omega)).mpr decay

/-- A divisor that is refused leaves the one before; one that takes effect is positive. -/
theorem setLFUParams_safe {p : LFUParams} {logFactor decayTime : Int} (safe : SafeAccess p)
    (taken : TakesEffect logFactor decayTime (setLFUParams p logFactor decayTime)) : SafeAccess (setLFUParams p logFactor decayTime) := by
  apply (safeAccess_iff _).mpr
  by_cases accepted : 1 ≤ decayTime
  · have same := taken.decay accepted
    apply UInt32.le_iff_toNat_le.mpr
    have one : (1 : UInt32).toNat = 1 := rfl
    omega
  · simp only [setLFUParams, if_neg accepted]
    exact safe.positive

/-- Calls one after the other, each taking effect, with safe accesses before and after. -/
def CallsSound (p : LFUParams) : List (Int × Int) → Prop
  | [] => SafeAccess p
  | (logFactor, decayTime) :: rest =>
    SafeAccess p ∧ TakesEffect logFactor decayTime (setLFUParams p logFactor decayTime) ∧
      CallsSound (setLFUParams p logFactor decayTime) rest

theorem callsSound_iff {p : LFUParams} (safe : SafeAccess p) (calls : List (Int × Int)) :
    CallsSound p calls ↔ ∀ call ∈ calls, call.1 < 2 ^ 32 ∧ call.2 < 2 ^ 32 := by
  induction calls generalizing p with
  | nil => exact iff_of_true safe (by simp)
  | cons call rest ih =>
    obtain ⟨logFactor, decayTime⟩ := call
    rw [List.forall_mem_cons, ← setLFUParams_takes_effect_iff p]
    constructor
    · intro ⟨_, taken, later⟩
      exact ⟨taken, (ih (setLFUParams_safe safe taken)).mp later⟩
    · intro ⟨taken, later⟩
      exact ⟨safe, taken, (ih (setLFUParams_safe safe taken)).mpr later⟩

/-- From the defaults on, every parameter that is accepted is in force as given and no
access divides by zero, exactly if no call passes a number of more than 32 bits. -/
theorem lfu_params_sound_iff (calls : List (Int × Int)) :
    CallsSound .initial calls ↔ ∀ call ∈ calls, call.1 < 2 ^ 32 ∧ call.2 < 2 ^ 32 := by
  apply callsSound_iff
  exact (safeAccess_iff _).mpr (by decide)

/-- A decay time of 2³² passes the test for at least one and is stored as zero. -/
theorem large_decay_time_divides_by_zero :
    ¬ ∀ calls : List (Int × Int), (∀ call ∈ calls, IsInt64 call.1 ∧ IsInt64 call.2) → CallsSound .initial calls := by
  intro sound
  obtain ⟨_, _, after⟩ := sound [(10, 4294967296)] (by decide)
  obtain ⟨left, decayed⟩ := SafeAccess.decays after 5 0
  have zero : lfuDecay (setLFUParams .initial 10 4294967296).decayTime 5 0 = .error .divideByZero := by decide
  rw [zero] at decayed
  cases decayed

end Rediska.Proofs
