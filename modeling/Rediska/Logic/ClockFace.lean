import Mathlib.Data.Int.ModEq

/-! Clocks that wrap around: what the way of the hand says about the ticks in between. -/

namespace Rediska.Logic

/-- Where the hand stands after some ticks, on a face with `size` positions. -/
def hand (size : Nat) (tick : Int) : Nat := (tick % size).toNat

/-- The way of the hand from an earlier position to the present one, over the end of the
face if it has to be. The step from the last position to the first is not counted. -/
def way (size present earlier : Nat) : Nat :=
  if earlier ≤ present then present - earlier else present + (size - 1 - earlier)

variable {size : Nat} {earlier middle present : Int}

section
variable (face : 0 < size)
include face

theorem hand_lt (tick : Int) : hand size tick < size := by
  have low := Int.emod_nonneg tick (by omega : (size : Int) ≠ 0)
  have high := Int.emod_lt_of_pos tick (by omega : 0 < (size : Int))
  unfold hand
  omega

/-- A tick is a number of whole turns and a position. -/
theorem tick_eq (tick : Int) : tick = size * (tick / size) + hand size tick := by
  have low := Int.emod_nonneg tick (by omega : (size : Int) ≠ 0)
  have parts := Int.mul_ediv_add_emod tick size
  unfold hand
  omega

theorem turn_mono (order : earlier ≤ present) : earlier / size ≤ present / size := Int.ediv_le_ediv (by omega) order

/-- Less than a face later it is at most the next turn. -/
theorem turn_near (near : present < earlier + size) : present / size ≤ earlier / size + 1 := by
  have mono := Int.ediv_le_ediv (by omega : 0 < (size : Int)) near.le
  rwa [Int.add_ediv_of_dvd_right (Int.dvd_refl _), Int.ediv_self (by omega)] at mono

theorem way_lt (present earlier : Int) : way size (hand size present) (hand size earlier) < size := by
  have first := hand_lt face earlier
  have last := hand_lt face present
  unfold way
  split <;> omega

/-- Within a turn the hand goes forward. -/
theorem way_same_turn (order : earlier ≤ present) (turn : present / size = earlier / size) :
    (way size (hand size present) (hand size earlier) : Int) = present - earlier := by
  have first := tick_eq face earlier
  have last := tick_eq face present
  rw [turn] at last
  unfold way
  split <;> omega

/-- Over the end of the face a tick is missing. -/
theorem way_next_turn (near : present < earlier + size) (turn : earlier / size < present / size) :
    (way size (hand size present) (hand size earlier) : Int) = present - earlier - 1 := by
  have first := tick_eq face earlier
  have last := tick_eq face present
  have position := hand_lt face earlier
  have next : present / (size : Int) = earlier / size + 1 := by
    have most := turn_near face near
    omega
  rw [next, Int.mul_add, Int.mul_one] at last
  unfold way
  split <;> omega

/-- The way of the hand is the time that has passed exactly if it was all one turn. -/
theorem way_eq_iff (order : earlier ≤ present) :
    (way size (hand size present) (hand size earlier) : Int) = present - earlier ↔ present / size = earlier / size := by
  refine ⟨?_, way_same_turn face order⟩
  intro exact_
  by_contra other
  have turn : earlier / size < present / size := lt_of_le_of_ne (turn_mono face order) (Ne.symm other)
  by_cases near : present < earlier + size
  · have missing := way_next_turn face near turn
    omega
  · have short := way_lt face present earlier
    omega

/-- Of two positions the earlier one is further away, unless the two are the last of a
turn and the first of the next. -/
theorem way_lt_iff (order : earlier < middle) (passed : middle ≤ present) (near : present < earlier + size) :
    way size (hand size present) (hand size middle) < way size (hand size present) (hand size earlier) ↔
      ¬ (middle = earlier + 1 ∧ earlier / size < middle / size) := by
  have most := turn_near face near
  have first := turn_mono face order.le
  have last := turn_mono face passed
  by_cases same : present / size = earlier / size
  · have far := way_same_turn face (order.le.trans passed) same
    have close := way_same_turn face passed (by omega)
    omega
  · have far := way_next_turn face near (by omega)
    by_cases wrapped : present / size = middle / size
    · have close := way_same_turn face passed wrapped
      omega
    · have close := way_next_turn face (by omega : present < middle + size) (by omega)
      omega

end
end Rediska.Logic
