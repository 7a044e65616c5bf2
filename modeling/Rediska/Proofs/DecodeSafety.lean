import Rediska.Proofs.Frames

/-! Which input the decoder survives. A panic in one connection's goroutine, or while
the append-only file is replayed, takes the whole server down. -/

namespace Rediska.Proofs
open Go Core

section
variable {ρ τ : Type} [Source ρ] [Source τ] {abs : ρ → τ}

theorem readLine_refines (refines : Refines abs) (r : ρ) :
    readLine (abs r) = ((readLine r).1, abs (readLine r).2) := by
  simp only [readLine, refines.readString]
  rcases Source.readString r with ⟨line, rest⟩
  cases line with
  | none => rfl
  | some line => simp only; split <;> rfl

theorem readInteger_refines (refines : Refines abs) (r : ρ) :
    readInteger (abs r) = ((readInteger r).1, abs (readInteger r).2) := by
  simp only [readInteger, readLine_refines refines]
  rcases readLine r with ⟨outcome, rest⟩
  cases outcome with
  | value line => simp only; split <;> rfl
  | error e => rfl
  | panic p => rfl

theorem readBody_refines (refines : Refines abs) (length : Int) (r : ρ) (scratch : Scratch) :
    readBody length (abs r) scratch =
      ((readBody length r scratch).1, abs (readBody length r scratch).2.1, (readBody length r scratch).2.2) := by
  simp only [readBody, refines.readFull]
  split
  · rfl
  · split <;> rfl

theorem readBulkString_refines (refines : Refines abs) (r : ρ) (scratch : Scratch) :
    readBulkString (abs r) scratch =
      ((readBulkString r scratch).1, abs (readBulkString r scratch).2.1, (readBulkString r scratch).2.2) := by
  simp only [readBulkString, readLine_refines refines]
  rcases readLine r with ⟨outcome, rest⟩
  cases outcome with
  | error e => rfl
  | panic p => rfl
  | value line =>
    simp only
    split
    · rfl
    · split
      · rfl
      · exact readBody_refines refines _ rest scratch

omit [Source ρ] [Source τ] in
theorem readElements_refines {onReader : ρ → Scratch → Outcome Value × ρ × Scratch}
    {onInput : τ → Scratch → Outcome Value × τ × Scratch}
    (same : ∀ r scratch, onInput (abs r) scratch = ((onReader r scratch).1, abs (onReader r scratch).2.1, (onReader r scratch).2.2))
    (left index : Nat) (r : ρ) (scratch : Scratch) :
    readElements onInput left index (abs r) scratch =
      ((readElements onReader left index r scratch).1, abs (readElements onReader left index r scratch).2.1,
        (readElements onReader left index r scratch).2.2) := by
  induction left generalizing index r scratch with
  | zero => rfl
  | succ left ih =>
    simp only [readElements, same]
    rcases onReader r scratch with ⟨outcome, rest, after⟩
    cases outcome with
    | error e => rfl
    | panic p => rfl
    | value v => simp only [ih]

theorem decodeFuel_refines (refines : Refines abs) (fuel : Nat) (r : ρ) (scratch : Scratch) :
    decodeFuel fuel (abs r) scratch =
      ((decodeFuel fuel r scratch).1, abs (decodeFuel fuel r scratch).2.1, (decodeFuel fuel r scratch).2.2) := by
  induction fuel generalizing r scratch with
  | zero => rfl
  | succ fuel ih =>
    have array (r : ρ) : readArray (decodeFuel fuel) (abs r) scratch =
        ((readArray (decodeFuel fuel) r scratch).1, abs (readArray (decodeFuel fuel) r scratch).2.1,
          (readArray (decodeFuel fuel) r scratch).2.2) := by
      simp only [readArray, readLine_refines refines]
      rcases readLine r with ⟨outcome, rest⟩
      cases outcome with
      | error e => rfl
      | panic p => rfl
      | value line =>
        simp only
        split
        · rfl
        · split
          · rfl
          · exact readElements_refines ih _ _ rest scratch
    simp only [decodeFuel, refines.readByte]
    rcases Source.readByte r with ⟨typeByte, rest⟩
    cases typeByte with
    | none => rfl
    | some typeByte =>
      simp only [readSimpleString, readError, readLine_refines refines, readInteger_refines refines,
        readBulkString_refines refines, array]
      split_ifs <;> rfl

/-- The decoder's answer depends on the bytes alone, not on how they arrive. -/
theorem decode_refines (refines : Refines abs) (r : ρ) (scratch : Scratch) :
    decode (abs r) scratch = ((decode r scratch).1, abs (decode r scratch).2.1, (decode r scratch).2.2) := by
  simp only [decode, refines.remaining]
  exact decodeFuel_refines refines _ r scratch

end

/-- A call that comes back, with a value or with an error. -/
def Returns {α : Type} (outcome : Outcome α) : Prop := (∃ v, outcome = .value v) ∨ ∃ e, outcome = .error e

theorem returns_iff {α : Type} (outcome : Outcome α) : Returns outcome ↔ ¬ outcome.IsPanic := by
  cases outcome <;> simp [Returns, Outcome.IsPanic]

/-- The decoder returns on exactly the input that reaches no hostile length, whatever
the chunks it arrives in, the nesting, and the scratch buffer left by earlier calls. -/
theorem decode_returns_iff (r : Reader) (scratch : Scratch) :
    Returns (decode r scratch).1 ↔ ¬ Hostile r.bytes := by
  have same : (decode r.bytes scratch).1 = (decode r scratch).1 :=
    congrArg Prod.fst (decode_refines Reader.refines r scratch)
  rw [returns_iff, ← same, decode_panics_iff]

/-- Five bytes from any client: an array of minus one elements. -/
theorem decode_negative_count : ¬ ∀ (r : Reader) (scratch : Scratch), Returns (decode r scratch).1 := by
  intro returns
  have panics : (decode (⟨[], [ascii "*-1\r\n"]⟩ : Reader) none).1 = .panic .makeSlice := rfl
  exact (returns_iff _).mp (returns _ _) ⟨_, panics⟩

end Rediska.Proofs
