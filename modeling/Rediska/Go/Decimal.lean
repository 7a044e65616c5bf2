import Mathlib.Data.List.Induction
import Rediska.Go.Strconv

/-! Of the texts that `ParseInt` reads as one integer, `FormatInt` writes a single one. -/

namespace Rediska.Go

def Digits (text : Bytes) : Prop := ∀ b ∈ text, 48 ≤ b.toNat ∧ b.toNat ≤ 57

/-- The number that digits stand for. -/
def decimal (digits : Bytes) : Nat := digits.foldl (fun n b => 10 * n + (b.toNat - 48)) 0

theorem decimal_append (digits : Bytes) (b : UInt8) : decimal (digits ++ [b]) = 10 * decimal digits + (b.toNat - 48) := by
  rw [decimal, List.foldl_append]
  rfl

theorem parseDigits_eq_some {sofar m : Nat} {text : Bytes} :
    parseDigits sofar text = some m ↔ Digits text ∧ text.foldl (fun n b => 10 * n + (b.toNat - 48)) sofar = m := by
  induction text generalizing sofar with
  | nil => simp [parseDigits, Digits]
  | cons b rest ih =>
    rw [parseDigits, List.foldl_cons, digitValue]
    split
    next digit =>
      rw [Option.bind_some, ih]
      simp [Digits, digit]
    next other => simp [Digits, other]

theorem parseUnsigned_eq_some {m : Nat} {text : Bytes} :
    parseUnsigned text = some m ↔ text ≠ [] ∧ Digits text ∧ decimal text = m := by
  unfold parseUnsigned
  split
  next empty => simp [empty]
  next present => simp [present, parseDigits_eq_some, decimal]

/-- The first digit of a number is not zero. -/
theorem natText_head {n : Nat} (positive : n ≠ 0) (rest : Bytes) : natText n ≠ 48 :: rest := by
  have nonzero : ∀ d, d < 10 → d ≠ 0 → UInt8.ofNat d.digitChar.toNat ≠ 48 := by decide
  induction n using Nat.strongRecOn generalizing rest with
  | ind n ih =>
    rw [natText_eq]
    split
    next small =>
      intro same
      exact nonzero n small positive (List.cons.inj same).1
    next large =>
      intro same
      obtain ⟨first, others, text⟩ := List.exists_cons_of_ne_nil (natText_ne_nil (n / 10))
      rw [text, List.cons_append] at same
      obtain ⟨rfl, _⟩ := List.cons.inj same
      exact ih (n / 10) (by omega) (by omega) others text

theorem digitChar_of_digit {b : UInt8} (low : 48 ≤ b.toNat) (high : b.toNat ≤ 57) :
    UInt8.ofNat (b.toNat - 48).digitChar.toNat = b := by
  have table : ∀ d, d < 10 → (UInt8.ofNat d.digitChar.toNat).toNat = d + 48 := by decide
  apply UInt8.toNat_inj.mp
  rw [table _ (by omega)]
  omega

/-- Digits without a zero in front are how their number is written. -/
theorem natText_decimal {digits : Bytes} (present : digits ≠ []) (all : Digits digits)
    (plain : ∀ rest, digits = 48 :: rest → rest = []) : natText (decimal digits) = digits := by
  induction digits using List.reverseRecOn with
  | nil => exact absurd rfl present
  | append_singleton front b ih =>
    obtain ⟨low, high⟩ := all b (by simp)
    rw [decimal_append]
    cases front with
    | nil =>
      have small : 10 * decimal [] + (b.toNat - 48) = b.toNat - 48 := by simp [decimal]
      rw [small, natText_eq, if_pos (by omega), digitChar_of_digit low high]
      rfl
    | cons first front =>
      have nonzero : first ≠ 48 := by
        rintro rfl
        simpa using plain (front ++ [b]) rfl
      have before := ih (by simp) (fun c inside => all c (by simp only [List.mem_append]; exact .inl inside))
        (fun rest same => absurd (List.cons.inj same).1 nonzero)
      have positive : decimal (first :: front) ≠ 0 := by
        intro zero
        rw [zero] at before
        exact nonzero (List.cons.inj before).1.symm
      have next : (10 * decimal (first :: front) + (b.toNat - 48)) / 10 = decimal (first :: front) := by omega
      have last : (10 * decimal (first :: front) + (b.toNat - 48)) % 10 = b.toNat - 48 := by omega
      rw [natText_eq, if_neg (by omega), next, last, before, digitChar_of_digit low high]

/-- An integer of 64 bits written with a plus sign, with a zero in front, or as minus zero. -/
inductive Padded : Bytes → Prop
  | plus {digits : Bytes} (present : digits ≠ []) (all : Digits digits) (fits : (decimal digits : Int) ≤ maxInt64) :
      Padded (43 :: digits)
  | zero {digits : Bytes} (present : digits ≠ []) (all : Digits digits) (fits : (decimal digits : Int) ≤ maxInt64) :
      Padded (48 :: digits)
  | minus {digits : Bytes} (all : Digits digits) (fits : minInt64 ≤ -(decimal digits : Int)) : Padded (45 :: 48 :: digits)

/-- How a text that was read stands for its integer. -/
inductive Read : Bytes → Int → Prop
  | plus {digits : Bytes} (present : digits ≠ []) (all : Digits digits) (fits : (decimal digits : Int) ≤ maxInt64) :
      Read (43 :: digits) (decimal digits)
  | minus {digits : Bytes} (present : digits ≠ []) (all : Digits digits) (fits : minInt64 ≤ -(decimal digits : Int)) :
      Read (45 :: digits) (-(decimal digits : Int))
  | bare {digits : Bytes} (present : digits ≠ []) (all : Digits digits) (fits : (decimal digits : Int) ≤ maxInt64) :
      Read digits (decimal digits)

theorem parseInt_read {text : Bytes} {n : Int} (read : parseInt text = some n) : Read text n := by
  obtain ⟨value, _⟩ := Option.filter_eq_some_iff.mp read
  have fits := parseInt_isInt64 read
  split at value
  · obtain ⟨m, parsed, rfl⟩ := Option.map_eq_some_iff.mp value
    obtain ⟨present, all, rfl⟩ := parseUnsigned_eq_some.mp parsed
    exact .plus present all fits.2
  · obtain ⟨m, parsed, rfl⟩ := Option.map_eq_some_iff.mp value
    obtain ⟨present, all, rfl⟩ := parseUnsigned_eq_some.mp parsed
    exact .minus present all fits.1
  · obtain ⟨m, parsed, rfl⟩ := Option.map_eq_some_iff.mp value
    obtain ⟨present, all, rfl⟩ := parseUnsigned_eq_some.mp parsed
    exact .bare present all fits.2

/-- Only signs and digits are read. -/
theorem parseInt_chars {text : Bytes} {n : Int} (read : parseInt text = some n) :
    ∀ b ∈ text, b = 43 ∨ b = 45 ∨ 48 ≤ b.toNat ∧ b.toNat ≤ 57 := by
  intro b inside
  cases parseInt_read read with
  | plus _ all =>
    rcases List.mem_cons.mp inside with rfl | later
    · exact .inl rfl
    · exact .inr (.inr (all b later))
  | minus _ all =>
    rcases List.mem_cons.mp inside with rfl | later
    · exact .inr (.inl rfl)
    · exact .inr (.inr (all b later))
  | bare _ all => exact .inr (.inr (all b inside))

theorem parseInt_of_padded {text : Bytes} (padded : Padded text) : ∃ n, parseInt text = some n := by
  cases padded with
  | @plus digits present all fits =>
    have parsed := parseUnsigned_eq_some.mpr ⟨present, all, rfl⟩
    have inside : IsInt64 (decimal digits : Int) := ⟨by simp only [minInt64]; omega, fits⟩
    exact ⟨decimal digits, by simp [parseInt, parsed, inside]⟩
  | @zero digits present all fits =>
    have all' : Digits (48 :: digits) := List.forall_mem_cons.mpr ⟨by decide, all⟩
    have parsed := parseUnsigned_eq_some.mpr ⟨List.cons_ne_nil 48 digits, all', rfl⟩
    have inside : IsInt64 (decimal (48 :: digits) : Int) := ⟨by simp only [minInt64]; omega, fits⟩
    exact ⟨decimal (48 :: digits), by simp [parseInt, parsed, inside]⟩
  | @minus digits all fits =>
    have all' : Digits (48 :: digits) := List.forall_mem_cons.mpr ⟨by decide, all⟩
    have parsed := parseUnsigned_eq_some.mpr ⟨List.cons_ne_nil 48 digits, all', rfl⟩
    have inside : IsInt64 (-(decimal (48 :: digits) : Int)) := ⟨fits, by simp only [maxInt64]; omega⟩
    exact ⟨-(decimal (48 :: digits) : Int), by simp [parseInt, parsed, inside]⟩

theorem itoa_natCast (n : Nat) : itoa n = natText n := by
  rw [itoa, if_neg (by omega), Int.natAbs_natCast]

theorem itoa_neg {n : Nat} (positive : n ≠ 0) : itoa (-(n : Int)) = 45 :: natText n := by
  rw [itoa, if_pos (by omega), Int.natAbs_neg, Int.natAbs_natCast]

/-- No integer is written in a padded way. -/
theorem itoa_not_padded (n : Int) : ¬ Padded (itoa n) := by
  have bare (m : Nat) : ¬ Padded (natText m) := by
    intro padded
    generalize same : natText m = text at padded
    have digit (b : UInt8) (inside : b ∈ text) : 48 ≤ b.toNat := (natText_digits m b (same ▸ inside)).1
    cases padded with
    | plus => exact absurd (digit 43 List.mem_cons_self) (by decide)
    | minus => exact absurd (digit 45 List.mem_cons_self) (by decide)
    | zero present =>
      by_cases nothing : m = 0
      · subst nothing
        exact present (List.cons.inj same).2.symm
      · exact natText_head nothing _ same
  by_cases negative : n < 0
  · obtain ⟨m, rfl⟩ : ∃ m : Nat, n = -(m : Int) := ⟨n.natAbs, by omega⟩
    have positive : m ≠ 0 := by omega
    rw [itoa_neg positive]
    intro padded
    generalize same : natText m = text at padded
    cases padded
    exact natText_head positive _ same
  · obtain ⟨m, rfl⟩ : ∃ m : Nat, n = (m : Int) := ⟨n.natAbs, by omega⟩
    rw [itoa_natCast]
    exact bare m

/-- What was read is written back as it stood, unless it was padded. -/
theorem itoa_parseInt {text : Bytes} {n : Int} (read : parseInt text = some n) : itoa n = text ↔ ¬ Padded text := by
  constructor
  · rintro rfl
    exact itoa_not_padded n
  · intro plain
    cases parseInt_read read with
    | plus present all fits => exact absurd (.plus present all fits) plain
    | @minus digits present all fits =>
      have zeroless (rest : Bytes) (same : digits = 48 :: rest) : False := by
        subst same
        exact plain (.minus (fun b inside => all b (.tail _ inside)) fits)
      have text := natText_decimal present all fun rest same => (zeroless rest same).elim
      have positive : decimal digits ≠ 0 := by
        intro zero
        rw [zero] at text
        exact zeroless [] text.symm
      rw [itoa_neg positive, text]
    | bare present all fits =>
      rw [itoa_natCast]
      refine natText_decimal present all fun rest same => ?_
      subst same
      by_contra more
      exact plain (.zero more (fun b inside => all b (.tail _ inside)) fits)

end Rediska.Go
