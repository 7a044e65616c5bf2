import Mathlib.Algebra.BigOperators.Group.Finset.Basic
import Mathlib.Order.Lattice.Nat
import Rediska.Logic.Dialogue

/-! Runs that cannot but reach a goal, and measures for them. -/

namespace Rediska.Logic
open Go

variable {σ : Type} {step : σ → σ → Prop} {goal : σ → Prop}

/-- However the steps are chosen, the goal is reached: as long as it is not, there is a
step to take, and no choice leads on for ever. -/
inductive Inevitable (step : σ → σ → Prop) (goal : σ → Prop) : σ → Prop
  | now {s : σ} (reached : goal s) : Inevitable step goal s
  | later {s : σ} (moves : ∃ t, step s t) (every : ∀ t, step s t → Inevitable step goal t) : Inevitable step goal s

theorem Inevitable.of_measure {holds : σ → Prop} (measure : σ → Nat) (keeps : ∀ s t, holds s → step s t → holds t)
    (moves : ∀ s, holds s → goal s ∨ ∃ t, step s t) (falls : ∀ s t, holds s → step s t → measure t < measure s) {s : σ}
    (start : holds s) : Inevitable step goal s := by
  induction size : measure s using Nat.strong_induction_on generalizing s with
  | _ n ih =>
    rcases moves s start with reached | some
    · exact .now reached
    · refine .later some ?_
      intro t moved
      exact ih (measure t) (size ▸ falls s t start moved) (keeps s t start moved) rfl

/-- Of a measure that is a sum, one share changes. -/
theorem sum_exchange {f g : Nat → Nat} {n i : Nat} (inside : i < n) (others : ∀ j, j ≠ i → f j = g j) :
    (∑ j ∈ Finset.range n, f j) + g i = (∑ j ∈ Finset.range n, g j) + f i := by
  have here := Finset.mem_range.mpr inside
  have rest : ∑ j ∈ (Finset.range n).erase i, f j = ∑ j ∈ (Finset.range n).erase i, g j :=
    Finset.sum_congr rfl fun j other => others j (Finset.ne_of_mem_erase other)
  have left := Finset.add_sum_erase _ f here
  have right := Finset.add_sum_erase _ g here
  omega

/-! What a program may still ask for. -/

namespace Dialogue
variable {Q R α : Type}

/-- With any answers, the questions cost at most so much together, what the result weighs
included. -/
inductive Within (cost : Q → Nat) (weight : α → Nat) : Nat → Dialogue Q R α → Prop
  | done {n : Nat} {a : α} (fits : weight a ≤ n) : Within cost weight n (.done a)
  | ask {n m : Nat} {q : Q} {next : R → Dialogue Q R α} (fits : m + cost q + 1 ≤ n) (later : ∀ r, Within cost weight m (next r)) :
      Within cost weight n (.ask q next)
  | failed {n : Nat} (p : Panic) : Within cost weight n (.failed p)

noncomputable def rank (cost : Q → Nat) (weight : α → Nat) (program : Dialogue Q R α) : Nat := sInf { n | Within cost weight n program }

variable {cost : Q → Nat} {weight : α → Nat} {program : Dialogue Q R α} {n : Nat}

theorem rank_le (within : Within cost weight n program) : program.rank cost weight ≤ n := Nat.sInf_le within

theorem within_rank (within : Within cost weight n program) : Within cost weight (program.rank cost weight) program := by
  have some : { n | Within cost weight n program }.Nonempty := ⟨n, within⟩
  exact Nat.sInf_mem some

theorem rank_done (a : α) : (Dialogue.done a : Dialogue Q R α).rank cost weight = weight a := by
  apply Nat.le_antisymm (rank_le (.done (Nat.le_refl _)))
  have least : Within cost weight ((Dialogue.done a : Dialogue Q R α).rank cost weight) (.done a : Dialogue Q R α) :=
    within_rank (.done (Nat.le_refl _))
  generalize (Dialogue.done a : Dialogue Q R α).rank cost weight = m at least
  cases least with
  | done fits => exact fits

/-- Each question is paid for before the answer comes. -/
theorem rank_next {q : Q} {next : R → Dialogue Q R α} (within : Within cost weight n (.ask q next)) (r : R) :
    (next r).rank cost weight + cost q + 1 ≤ (Dialogue.ask q next).rank cost weight := by
  have least := within_rank within
  generalize (Dialogue.ask q next).rank cost weight = m at least
  cases least with
  | ask fits later =>
    have below := rank_le (later r)
    omega

theorem Within.ran {τ : Type} {serve : τ → Q → Panics (R × τ)} (within : Within cost weight n program) {s : τ} {result : α × τ}
    (ran : program.run serve s = .ok result) : weight result.1 ≤ n := by
  induction within generalizing s with
  | done fits =>
    cases ran
    exact fits
  | ask fits _ ih =>
    obtain ⟨⟨r, t⟩, _, ran⟩ := bind_ok ran
    exact Nat.le_trans (ih r ran) (by omega)
  | failed => cases ran

theorem Within.next {q : Q} {next : R → Dialogue Q R α} (within : Within cost weight n (.ask q next)) (r : R) :
    ∃ m, Within cost weight m (next r) := by
  cases within with
  | ask _ later => exact ⟨_, later r⟩

end Dialogue
end Rediska.Logic
