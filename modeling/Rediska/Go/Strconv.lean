import Rediska.Go.Basic

/-! Decimal text and integers, as package strconv converts them. `Atoi`,
`ParseInt(s, 10, 64)` and the `%d` verb agree on 64-bit platforms. -/

namespace Rediska.Go

def digitValue (b : UInt8) : Option Nat :=
  if 48 ≤ b.toNat ∧ b.toNat ≤ 57 then some (b.toNat - 48) else none

/-- Read a run of digits after what has been read so far. -/
def parseDigits (sofar : Nat) : Bytes → Option Nat
  | [] => some sofar
  | b :: rest => (digitValue b).bind fun d => parseDigits (10 * sofar + d) rest

def parseUnsigned (s : Bytes) : Option Nat :=
  if s = [] then none else parseDigits 0 s

/-- A sign is accepted on either side of zero, so several texts denote one
integer; a value outside int64 is an error, never a wrapped number. -/
def parseInt (s : Bytes) : Option Int :=
  let value : Option Int := match s with
    | 43 :: rest => (parseUnsigned rest).map fun n : Nat => (n : Int)
    | 45 :: rest => (parseUnsigned rest).map fun n : Nat => -(n : Int)
    | _ => (parseUnsigned s).map fun n : Nat => (n : Int)
  value.filter (fun n => IsInt64 n)

def atoi (s : Bytes) : Option Int := parseInt s

def natText (n : Nat) : Bytes := (Nat.toDigits 10 n).map fun c => UInt8.ofNat c.toNat

def itoa (n : Int) : Bytes :=
  if n < 0 then 45 :: natText n.natAbs else natText n.natAbs

theorem parseDigits_append (sofar : Nat) (first rest : Bytes) :
    parseDigits sofar (first ++ rest) = (parseDigits sofar first).bind (fun n => parseDigits n rest) := by
  induction first generalizing sofar with
  | nil => rfl
  | cons b first ih =>
    simp only [List.cons_append, parseDigits]
    cases digitValue b with
    | none => rfl
    | some d => exact ih (10 * sofar + d)

theorem digitValue_digitChar {d : Nat} (small : d < 10) :
    digitValue (UInt8.ofNat d.digitChar.toNat) = some d := by
  revert d
  decide

theorem natText_eq (n : Nat) :
    natText n = if n < 10 then [UInt8.ofNat n.digitChar.toNat]
      else natText (n / 10) ++ [UInt8.ofNat (n % 10).digitChar.toNat] := by
  unfold natText
  rw [Nat.toDigits_eq_if (by decide)]
  split <;> simp

theorem natText_ne_nil (n : Nat) : natText n ≠ [] := by
  simp [natText]

theorem parseDigits_natText (n : Nat) : parseDigits 0 (natText n) = some n := by
  induction n using Nat.strongRecOn with
  | ind n ih =>
    rw [natText_eq]
    split
    next small => simp [parseDigits, digitValue_digitChar small]
    next large =>
      rw [parseDigits_append, ih (n / 10) (by omega)]
      simp only [Option.bind_some, parseDigits, digitValue_digitChar (Nat.mod_lt n (by decide))]
      congr 1
      omega

theorem parseUnsigned_natText (n : Nat) : parseUnsigned (natText n) = some n := by
  simp [parseUnsigned, natText_ne_nil, parseDigits_natText]

/-- Every character of a decimal text is a digit, so no sign, line break or
RESP type byte can occur inside one. -/
theorem natText_digits (n : Nat) : ∀ b ∈ natText n, 48 ≤ b.toNat ∧ b.toNat ≤ 57 := by
  induction n using Nat.strongRecOn with
  | ind n ih =>
    have digit : ∀ d, d < 10 → 48 ≤ (UInt8.ofNat d.digitChar.toNat).toNat ∧
        (UInt8.ofNat d.digitChar.toNat).toNat ≤ 57 := by decide
    intro b member
    rw [natText_eq] at member
    split at member
    next small =>
      obtain rfl := List.mem_singleton.mp member
      exact digit n small
    next large =>
      rcases List.mem_append.mp member with earlier | last
      · exact ih (n / 10) (by omega) b earlier
      · obtain rfl := List.mem_singleton.mp last
        exact digit _ (Nat.mod_lt n (by decide))

theorem parseInt_natText {n : Nat} (fits : (n : Int) ≤ maxInt64) : parseInt (natText n) = some (n : Int) := by
  have shape : ∀ s : Bytes, s ≠ [] → (∀ b ∈ s, 48 ≤ b.toNat) →
      parseInt s = ((parseUnsigned s).map fun n : Nat => (n : Int)).filter (fun n => IsInt64 n) := by
    intro s present digits
    cases s with
    | nil => exact absurd rfl present
    | cons b rest =>
      have first := digits b (by simp)
      unfold parseInt
      split
      next same => cases same; exact absurd first (by decide)
      next same => cases same; exact absurd first (by decide)
      next => rfl
  rw [shape _ (natText_ne_nil n) (fun b member => (natText_digits n b member).1), parseUnsigned_natText]
  have inside : IsInt64 (n : Int) := ⟨by simp only [minInt64]; omega, fits⟩
  simp [inside]

theorem parseInt_itoa {n : Int} (fits : IsInt64 n) : parseInt (itoa n) = some n := by
  unfold itoa
  split
  next negative =>
    obtain ⟨m, rfl⟩ : ∃ m : Nat, n = -(m : Int) := ⟨n.natAbs, by omega⟩
    simp [parseInt, parseUnsigned_natText, fits]
  next positive =>
    have value : (n.natAbs : Int) = n := by omega
    rw [parseInt_natText (by rw [value]; exact fits.2), value]

theorem parseInt_isInt64 {s : Bytes} {n : Int} (read : parseInt s = some n) : IsInt64 n := by
  have kept := (Option.filter_eq_some_iff.mp read).2
  simpa using kept

theorem natText_injective {m n : Nat} (same : natText m = natText n) : m = n := by
  have read := parseUnsigned_natText m
  rw [same, parseUnsigned_natText] at read
  exact (Option.some.inj read).symm

theorem itoa_injective {m n : Int} (same : itoa m = itoa n) : m = n := by
  have unsigned (k : Nat) (text : Bytes) : natText k ≠ 45 :: text := by
    intro signed
    have digit := natText_digits k 45 (by rw [signed]; exact List.mem_cons_self)
    exact absurd digit (by decide)
  unfold itoa at same
  split at same <;> split at same
  · have equal := natText_injective (List.cons.inj same).2
    omega
  · exact absurd same.symm (unsigned _ _)
  · exact absurd same (unsigned _ _)
  · have equal := natText_injective same
    omega

end Rediska.Go
