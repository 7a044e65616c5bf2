import Rediska.Proofs.LfuCounters

/-! What accesses make of the packed LFU field, one after the other. -/

namespace Rediska.Proofs
open Go Storage

/-- What an access meets: the parameters in force, the draw, and the clock of minutes. -/
structure Touch where
  logFactor : UInt32
  decayTime : UInt32
  positive : 1 ≤ decayTime
  draw : Nat → Bool
  nowLdt : UInt16

def Touch.run (t : Touch) (packed : UInt32) : Panics UInt32 := lfuTouch t.logFactor t.decayTime t.draw packed t.nowLdt

/-- The counter of a packed field, as a number. -/
def counterOf (packed : UInt32) : Nat := (lfuDecodeCounter packed).toNat

/-- The counter less one for each decay step of the idle minutes, but not below zero. -/
def Touch.decayed (t : Touch) (packed : UInt32) : Nat :=
  counterOf packed - (ldtIdle t.nowLdt (lfuDecodeLdt packed)).toNat / t.decayTime.toNat

/-- What an access leaves. Neither the decay nor the increment leaves the range of a byte:
`left` is the decayed counter as a number, and `after` holds it or one more. -/
structure Touched (t : Touch) (packed : UInt32) (left : UInt8) (after : UInt32) : Prop where
  decay : lfuDecay t.decayTime (lfuDecodeCounter packed) (ldtIdle t.nowLdt (lfuDecodeLdt packed)) = .ok left
  value : left.toNat = t.decayed packed
  packs : after.toNat < 2 ^ 24
  minutes : lfuDecodeLdt after = t.nowLdt
  counter : lfuDecodeCounter after = lfuLogIncr t.logFactor t.draw left
  lower : t.decayed packed ≤ counterOf after
  upper : counterOf after ≤ min 255 (t.decayed packed + 1)

theorem lfuEncode_lt (ldt : UInt16) (counter : UInt8) : (lfuEncode ldt counter).toNat < 2 ^ 24 := by
  have minutes := ldt.toNat_lt
  have small := counter.toNat_lt
  rw [lfuEncode_toNat]
  omega

theorem Touch.touched (t : Touch) (packed : UInt32) : ∃ left after, t.run packed = .ok after ∧ Touched t packed left after := by
  have nonzero : t.decayTime ≠ 0 := by
    intro zero
    have positive := UInt32.le_iff_toNat_le.mp t.positive
    rw [zero] at positive
    exact absurd positive (by decide)
  obtain ⟨left, decay, value⟩ := lfuDecay_value nonzero (lfuDecodeCounter packed) (ldtIdle t.nowLdt (lfuDecodeLdt packed))
  have after : counterOf (lfuEncode t.nowLdt (lfuLogIncr t.logFactor t.draw left)) = (lfuLogIncr t.logFactor t.draw left).toNat := by
    rw [counterOf, lfuDecodeCounter_encode]
  have same : left.toNat = t.decayed packed := value
  have small := left.toNat_lt
  refine ⟨left, lfuEncode t.nowLdt (lfuLogIncr t.logFactor t.draw left), ?_, decay, same, lfuEncode_lt _ _, ?_, ?_, ?_, ?_⟩
  · simp only [Touch.run, lfuTouch, decay, ok_bind]
  · apply lfuDecodeLdt_encode
  · apply lfuDecodeCounter_encode
  · rw [after, ← same]
    exact UInt8.le_iff_toNat_le.mp (le_lfuLogIncr t.logFactor t.draw left)
  · rw [after, ← same]
    rcases lfuLogIncr_value t.logFactor t.draw left with kept | ⟨room, more⟩ <;> omega

/-- An access gains one at most. -/
theorem Touched.gain {t : Touch} {packed after : UInt32} {left : UInt8} (touched : Touched t packed left after) :
    counterOf after ≤ counterOf packed + 1 := by
  have upper := touched.upper
  have lower : t.decayed packed ≤ counterOf packed := Nat.sub_le _ _
  omega

theorem counterOf_le (packed : UInt32) : counterOf packed ≤ 255 := Nat.le_of_lt_succ (lfuDecodeCounter packed).toNat_lt

theorem touches_gain (touches : List Touch) (packed : UInt32) :
    ∃ final, forEach touches Touch.run packed = .ok final ∧ counterOf final ≤ counterOf packed + touches.length := by
  induction touches generalizing packed with
  | nil => exact ⟨packed, rfl, Nat.le_refl _⟩
  | cons t rest ih =>
    obtain ⟨left, after, ran, touched⟩ := t.touched packed
    obtain ⟨final, later, gained⟩ := ih after
    refine ⟨final, by rw [forEach, ran, ok_bind, later], ?_⟩
    have one := touched.gain
    rw [List.length_cons]
    omega

/-- Whatever the field, the clock, the parameters and the draw: an access takes the decay
steps off the counter and adds one at most, within the byte. So accesses in a row keep the
counter in its range, and the next one adds one at most again. -/
theorem touches_stay_in_range (packed : UInt32) :
    (∀ t : Touch, ∃ left after, t.run packed = .ok after ∧ Touched t packed left after) ∧
    ∀ touches : List Touch, ∃ final, forEach touches Touch.run packed = .ok final ∧
      counterOf final ≤ 255 ∧ counterOf final ≤ counterOf packed + touches.length ∧
      ∀ t : Touch, ∃ left after, t.run final = .ok after ∧ Touched t final left after ∧
        counterOf after ≤ counterOf final + 1 := by
  refine ⟨fun t => t.touched packed, ?_⟩
  intro touches
  obtain ⟨final, ran, gained⟩ := touches_gain touches packed
  refine ⟨final, ran, counterOf_le final, gained, ?_⟩
  intro t
  obtain ⟨left, after, last, touched⟩ := t.touched final
  exact ⟨left, after, last, touched, touched.gain⟩

end Rediska.Proofs
