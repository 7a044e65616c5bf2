import Rediska.Go.Basic

/-! Package strings and unicode/utf8 on arbitrary bytes. Case mapping goes rune by
rune once a byte outside ASCII occurs, and an invalid byte becomes U+FFFD there. -/

namespace Rediska.Go

def runeError : Nat := 0xFFFD

def continuation (b : UInt8) : Bool := 0x80 ≤ b.toNat && b.toNat ≤ 0xBF

/-- The bounds utf8 puts on the second byte after this first byte, which rule out
overlong forms, surrogates and values above U+10FFFF. -/
def secondInRange (first second : UInt8) : Bool :=
  let low := if first.toNat = 0xE0 then 0xA0 else if first.toNat = 0xF0 then 0x90 else 0x80
  let high := if first.toNat = 0xED then 0x9F else if first.toNat = 0xF4 then 0x8F else 0xBF
  low ≤ second.toNat && second.toNat ≤ high

/-- The first rune of a string and the number of bytes it takes. -/
def decodeRune : Bytes → Nat × Nat
  | [] => (runeError, 0)
  | b0 :: rest =>
    let x := b0.toNat
    if x < 0x80 then (x, 1)
    else match rest with
      | [] => (runeError, 1)
      | b1 :: rest =>
        if !secondInRange b0 b1 then (runeError, 1)
        else if 0xC2 ≤ x ∧ x ≤ 0xDF then ((x - 0xC0) * 64 + (b1.toNat - 0x80), 2)
        else match rest with
          | [] => (runeError, 1)
          | b2 :: rest =>
            if !continuation b2 then (runeError, 1)
            else if 0xE0 ≤ x ∧ x ≤ 0xEF then
              ((x - 0xE0) * 4096 + (b1.toNat - 0x80) * 64 + (b2.toNat - 0x80), 3)
            else match rest with
              | [] => (runeError, 1)
              | b3 :: _ =>
                if !continuation b3 then (runeError, 1)
                else if 0xF0 ≤ x ∧ x ≤ 0xF4 then
                  ((x - 0xF0) * 262144 + (b1.toNat - 0x80) * 4096 + (b2.toNat - 0x80) * 64 + (b3.toNat - 0x80), 4)
                else (runeError, 1)

/-- The runes a `for range` loop sees; `pending` bytes still belong to the last. -/
def runesFrom (pending : Nat) : Bytes → List Nat
  | [] => []
  | b :: rest => match pending with
    | pending + 1 => runesFrom pending rest
    | 0 => (decodeRune (b :: rest)).1 :: runesFrom ((decodeRune (b :: rest)).2 - 1) rest

def runes (s : Bytes) : List Nat := runesFrom 0 s

def encodeRune (r : Nat) : Bytes :=
  if r < 0x80 then [UInt8.ofNat r]
  else if r < 0x800 then [UInt8.ofNat (0xC0 + r / 64), UInt8.ofNat (0x80 + r % 64)]
  else
    let r := if r > 0x10FFFF ∨ (0xD800 ≤ r ∧ r ≤ 0xDFFF) then runeError else r
    if r < 0x10000 then
      [UInt8.ofNat (0xE0 + r / 4096), UInt8.ofNat (0x80 + r / 64 % 64), UInt8.ofNat (0x80 + r % 64)]
    else
      [UInt8.ofNat (0xF0 + r / 262144), UInt8.ofNat (0x80 + r / 4096 % 64),
        UInt8.ofNat (0x80 + r / 64 % 64), UInt8.ofNat (0x80 + r % 64)]

/-- The tables of package unicode for runes outside ASCII. All that is used of them
is that they never turn such a rune into a line break. -/
structure CaseTable where
  upper : Nat → Nat
  lower : Nat → Nat
  upper_line : ∀ r, 0x80 ≤ r → upper r ≠ 13 ∧ upper r ≠ 10
  lower_line : ∀ r, 0x80 ≤ r → lower r ≠ 13 ∧ lower r ≠ 10

def asciiUpper (b : UInt8) : UInt8 := if 97 ≤ b.toNat ∧ b.toNat ≤ 122 then b - 32 else b
def asciiLower (b : UInt8) : UInt8 := if 65 ≤ b.toNat ∧ b.toNat ≤ 90 then b + 32 else b

/-- `strings.ToUpper` and `strings.ToLower` differ only in their two tables. -/
def mapCase (onAscii : UInt8 → UInt8) (table : Nat → Nat) (s : Bytes) : Bytes :=
  if s.all (fun b => b.toNat < 0x80) then s.map onAscii
  else (runes s).flatMap fun r => encodeRune (if r < 0x80 then (onAscii (UInt8.ofNat r)).toNat else table r)

def toUpper (unicode : CaseTable) (s : Bytes) : Bytes := mapCase asciiUpper unicode.upper s
def toLower (unicode : CaseTable) (s : Bytes) : Bytes := mapCase asciiLower unicode.lower s

/-- `unicode.IsSpace`. -/
def isSpace (r : Nat) : Bool :=
  (9 ≤ r && r ≤ 13) || r = 0x20 || r = 0x85 || r = 0xA0 || r = 0x1680 || (0x2000 ≤ r && r ≤ 0x200A) ||
    r = 0x2028 || r = 0x2029 || r = 0x202F || r = 0x205F || r = 0x3000

/-- `strings.Fields`: `field` is the open field, and `pending` bytes still belong to
the last rune, which was white space or not. -/
def fieldsFrom (pending : Nat) (space : Bool) (field : Bytes) : Bytes → List Bytes
  | [] => if field = [] then [] else [field]
  | b :: rest => match pending with
    | pending + 1 => fieldsFrom pending space (if space then field else field ++ [b]) rest
    | 0 =>
      let (r, width) := decodeRune (b :: rest)
      if isSpace r then
        (if field = [] then [] else [field]) ++ fieldsFrom (width - 1) true [] rest
      else fieldsFrom (width - 1) false (field ++ [b]) rest

def fields (s : Bytes) : List Bytes := fieldsFrom 0 false [] s

/-- `strings.Cut` at a single byte. -/
def cut (s : Bytes) (separator : UInt8) : Bytes × Bytes × Bool :=
  let before := s.takeWhile (· ≠ separator)
  if separator ∈ s then (before, s.drop (before.length + 1), true) else (s, [], false)

/-- `strings.LastIndexByte`; `none` stands for -1. -/
def lastIndexByte (s : Bytes) (c : UInt8) : Option Nat :=
  (s.reverse.idxOf? c).map (fun i => s.length - 1 - i)

theorem lastIndexByte_none {s : Bytes} {c : UInt8} : lastIndexByte s c = none ↔ c ∉ s := by
  rw [lastIndexByte, Option.map_eq_none_iff, List.idxOf?_eq_none_iff, List.mem_reverse]

def indexByte (s : Bytes) (c : UInt8) : Option Nat := s.idxOf? c

def maxScanTokenSize : Nat := 64 * 1024

/-- The lines bufio.Scanner yields: cut at line feeds, one carriage return dropped
before each, and no line after a final line feed. It stops at a line that does not fit
its buffer, which the second component tells. -/
def scanLines (s : Bytes) : List Bytes × Bool :=
  let pieces := s.splitOn lf
  let pieces := if pieces.getLast? = some [] then pieces.dropLast else pieces
  let lines := pieces.takeWhile fun line => line.length < maxScanTokenSize
  (lines.map fun line => if line.getLast? = some cr then line.dropLast else line, decide (lines.length < pieces.length))

theorem decodeRune_ascii {b : UInt8} (small : b.toNat < 0x80) (rest : Bytes) :
    decodeRune (b :: rest) = (b.toNat, 1) := by
  simp [decodeRune, small]

/-- No rune outside ASCII decodes to an ASCII value, since overlong forms are invalid. -/
theorem decodeRune_not_ascii {b : UInt8} (large : 0x80 ≤ b.toNat) (rest : Bytes) :
    0x80 ≤ (decodeRune (b :: rest)).1 := by
  unfold decodeRune
  simp only [if_neg (Nat.not_lt.mpr large)]
  split
  · simp [runeError]
  · split
    · simp [runeError]
    next second =>
      simp only [secondInRange, Bool.not_eq_true', Bool.not_eq_false, Bool.and_eq_true, decide_eq_true_eq] at second
      split
      · simp only; omega
      · split
        · simp [runeError]
        · split
          · simp [runeError]
          · split
            · simp only; split at second <;> omega
            · split
              · simp [runeError]
              · split
                · simp [runeError]
                · split
                  · simp only; split at second <;> split at second <;> omega
                  · simp [runeError]

/-- The next `pending` bytes belong to a rune that has already begun. -/
def Continues (pending : Nat) (rest : Bytes) : Prop := ∀ b ∈ rest.take pending, 0x80 ≤ b.toNat

theorem decodeRune_continues (b : UInt8) (rest : Bytes) : Continues ((decodeRune (b :: rest)).2 - 1) rest := by
  intro c member
  unfold decodeRune at member
  simp only at member
  split at member
  · simp at member
  · split at member
    · simp at member
    next b1 rest =>
      split at member
      · simp at member
      next second =>
        have secondLarge : 0x80 ≤ b1.toNat := by
          simp only [secondInRange, Bool.not_eq_true', Bool.not_eq_false, Bool.and_eq_true, decide_eq_true_eq] at second
          split_ifs at second <;> omega
        split at member
        · simp at member; exact member ▸ secondLarge
        · split at member
          · simp at member
          next b2 rest =>
            split at member
            · simp at member
            next third =>
              simp only [continuation, Bool.not_eq_true', Bool.not_eq_false, Bool.and_eq_true, decide_eq_true_eq] at third
              split at member
              · simp at member
                rcases member with rfl | rfl
                · exact secondLarge
                · exact third.1
              · split at member
                · simp at member
                next b3 rest =>
                  split at member
                  · simp at member
                  next fourth =>
                    simp only [continuation, Bool.not_eq_true', Bool.not_eq_false, Bool.and_eq_true,
                      decide_eq_true_eq] at fourth
                    split at member
                    · simp at member
                      rcases member with rfl | rfl | rfl
                      · exact secondLarge
                      · exact third.1
                      · exact fourth.1
                    · simp at member

theorem Continues.tail {pending : Nat} {b : UInt8} {rest : Bytes} (open_ : Continues (pending + 1) (b :: rest)) :
    0x80 ≤ b.toNat ∧ Continues pending rest :=
  ⟨open_ b (by simp), fun c member => open_ c (by simp [member])⟩

theorem mem_runesFrom {c : UInt8} (small : c.toNat < 0x80) (pending : Nat) (s : Bytes)
    (open_ : Continues pending s) : c.toNat ∈ runesFrom pending s ↔ c ∈ s := by
  induction s generalizing pending with
  | nil => simp [runesFrom]
  | cons b rest ih =>
    cases pending with
    | succ pending =>
      obtain ⟨large, tail⟩ := open_.tail
      have different : c ≠ b := by rintro rfl; omega
      simp only [runesFrom, ih pending tail, List.mem_cons, different, false_or]
    | zero =>
      simp only [runesFrom, List.mem_cons, ih _ (decodeRune_continues b rest)]
      by_cases ascii : b.toNat < 0x80
      · simp only [decodeRune_ascii ascii]
        constructor
        · rintro (same | later)
          · exact Or.inl (UInt8.toNat_inj.mp same)
          · exact Or.inr later
        · rintro (rfl | later)
          · exact Or.inl rfl
          · exact Or.inr later
      · have value := decodeRune_not_ascii (Nat.not_lt.mp ascii) rest
        have different : c ≠ b := by rintro rfl; exact ascii small
        have differentRune : c.toNat ≠ (decodeRune (b :: rest)).1 := by omega
        simp only [differentRune, different, false_or]

theorem encodeRune_ascii {r : Nat} (small : r < 0x80) : encodeRune r = [UInt8.ofNat r] := by
  simp [encodeRune, small]

theorem encodeRune_not_ascii {r : Nat} (large : 0x80 ≤ r) : ∀ b ∈ encodeRune r, 0x80 ≤ b.toNat := by
  have byte : ∀ n, 0x80 ≤ n → n < 0x100 → 0x80 ≤ (UInt8.ofNat n).toNat := by
    intro n low high
    simp only [UInt8.toNat_ofNat']
    omega
  intro b member
  unfold encodeRune at member
  rw [if_neg (by omega)] at member
  split at member
  · simp only [List.mem_cons, List.not_mem_nil, or_false] at member
    rcases member with rfl | rfl <;> exact byte _ (by omega) (by omega)
  · generalize shape : (if r > 0x10FFFF ∨ (0xD800 ≤ r ∧ r ≤ 0xDFFF) then runeError else r) = q at member
    have bound : q ≤ 0x10FFFF := by
      simp only [runeError] at shape
      split at shape <;> omega
    simp only at member
    split at member
    · simp only [List.mem_cons, List.not_mem_nil, or_false] at member
      rcases member with rfl | rfl | rfl <;> exact byte _ (by omega) (by omega)
    · simp only [List.mem_cons, List.not_mem_nil, or_false] at member
      rcases member with rfl | rfl | rfl | rfl <;> exact byte _ (by omega) (by omega)

/-- Case mapping neither adds nor removes a line break, also on invalid UTF-8. -/
theorem mem_mapCase_line {onAscii : UInt8 → UInt8} {table : Nat → Nat} {c : UInt8} (small : c.toNat < 0x80)
    (fixed : ∀ b : UInt8, onAscii b = c ↔ b = c) (ascii : ∀ b : UInt8, b.toNat < 0x80 → (onAscii b).toNat < 0x80)
    (outside : ∀ r, 0x80 ≤ r → table r ≠ c.toNat) (s : Bytes) : c ∈ mapCase onAscii table s ↔ c ∈ s := by
  unfold mapCase
  split
  · simp only [List.mem_map]
    exact ⟨fun ⟨b, member, same⟩ => (fixed b).mp same ▸ member, fun member => ⟨c, member, (fixed c).mpr rfl⟩⟩
  · rw [← mem_runesFrom small 0 s (by simp [Continues]), List.mem_flatMap]
    have mapped : ∀ r, c ∈ encodeRune (if r < 0x80 then (onAscii (UInt8.ofNat r)).toNat else table r) ↔ r = c.toNat := by
      intro r
      by_cases low : r < 0x80
      · have value : (UInt8.ofNat r).toNat = r := by simp; omega
        rw [if_pos low, encodeRune_ascii (ascii _ (by omega))]
        simp only [UInt8.ofNat_toNat, List.mem_singleton]
        rw [eq_comm, fixed]
        constructor
        · rintro rfl; exact value.symm
        · rintro rfl; simp
      · rw [if_neg low]
        have differs := outside r (Nat.not_lt.mp low)
        constructor
        · intro member
          by_cases tableLow : table r < 0x80
          · rw [encodeRune_ascii tableLow, List.mem_singleton] at member
            exact absurd (by rw [member]; simp; omega) differs
          · have := encodeRune_not_ascii (Nat.not_lt.mp tableLow) c member
            omega
        · rintro rfl; exact absurd small low
    simp only [mapped]
    exact ⟨fun ⟨r, member, same⟩ => same ▸ member, fun member => ⟨_, member, rfl⟩⟩

private theorem asciiUpper_toNat (b : UInt8) :
    (asciiUpper b).toNat = if 97 ≤ b.toNat ∧ b.toNat ≤ 122 then b.toNat - 32 else b.toNat := by
  unfold asciiUpper
  split
  next letter => exact UInt8.toNat_sub_of_le _ _ (UInt8.le_iff_toNat_le.mpr (Nat.le_trans (by decide) letter.1))
  next => rfl

private theorem asciiLower_toNat (b : UInt8) :
    (asciiLower b).toNat = if 65 ≤ b.toNat ∧ b.toNat ≤ 90 then b.toNat + 32 else b.toNat := by
  unfold asciiLower
  split
  next letter =>
    rw [UInt8.toNat_add]
    exact Nat.mod_eq_of_lt (by simp; omega)
  next => rfl

theorem asciiUpper_line (b : UInt8) : (asciiUpper b = cr ↔ b = cr) ∧ (asciiUpper b = lf ↔ b = lf) := by
  simp only [← UInt8.toNat_inj, asciiUpper_toNat, cr, lf, UInt8.reduceToNat]
  split <;> omega

theorem asciiLower_line (b : UInt8) : (asciiLower b = cr ↔ b = cr) ∧ (asciiLower b = lf ↔ b = lf) := by
  simp only [← UInt8.toNat_inj, asciiLower_toNat, cr, lf, UInt8.reduceToNat]
  split <;> omega

theorem asciiUpper_small (b : UInt8) (small : b.toNat < 0x80) : (asciiUpper b).toNat < 0x80 := by
  rw [asciiUpper_toNat]
  split <;> omega

theorem asciiLower_small (b : UInt8) (small : b.toNat < 0x80) : (asciiLower b).toNat < 0x80 := by
  rw [asciiLower_toNat]
  split <;> omega

theorem line_mem_toUpper (unicode : CaseTable) (s : Bytes) :
    (cr ∈ toUpper unicode s ↔ cr ∈ s) ∧ (lf ∈ toUpper unicode s ↔ lf ∈ s) :=
  ⟨mem_mapCase_line (by decide) (fun b => (asciiUpper_line b).1) asciiUpper_small
      (fun r large => (unicode.upper_line r large).1) s,
    mem_mapCase_line (by decide) (fun b => (asciiUpper_line b).2) asciiUpper_small
      (fun r large => (unicode.upper_line r large).2) s⟩

theorem line_mem_toLower (unicode : CaseTable) (s : Bytes) :
    (cr ∈ toLower unicode s ↔ cr ∈ s) ∧ (lf ∈ toLower unicode s ↔ lf ∈ s) :=
  ⟨mem_mapCase_line (by decide) (fun b => (asciiLower_line b).1) asciiLower_small
      (fun r large => (unicode.lower_line r large).1) s,
    mem_mapCase_line (by decide) (fun b => (asciiLower_line b).2) asciiLower_small
      (fun r large => (unicode.lower_line r large).2) s⟩

private theorem not_line_of_large {b : UInt8} (large : 0x80 ≤ b.toNat) : b ≠ cr ∧ b ≠ lf := by
  constructor <;> (rintro rfl; exact absurd large (by decide))

/-- Line breaks are white space, so no field carries one into a reply. -/
theorem fieldsFrom_line (pending : Nat) (space : Bool) (field s : Bytes) (open_ : Continues pending s)
    (clean : cr ∉ field ∧ lf ∉ field) : ∀ f ∈ fieldsFrom pending space field s, cr ∉ f ∧ lf ∉ f := by
  induction s generalizing pending space field with
  | nil =>
    intro f member
    simp only [fieldsFrom] at member
    split at member
    · simp at member
    · obtain rfl := List.mem_singleton.mp member
      exact clean
  | cons b rest ih =>
    have extended (fine : b ≠ cr ∧ b ≠ lf) : cr ∉ field ++ [b] ∧ lf ∉ field ++ [b] := by
      simp [clean.1, clean.2, Ne.symm fine.1, Ne.symm fine.2]
    cases pending with
    | succ pending =>
      obtain ⟨large, tail⟩ := open_.tail
      apply ih pending space _ tail
      split
      · exact clean
      · exact extended (not_line_of_large large)
    | zero =>
      have next := decodeRune_continues b rest
      intro f member
      simp only [fieldsFrom] at member
      split at member
      next white =>
        rcases List.mem_append.mp member with closed | later
        · split at closed
          · simp at closed
          · obtain rfl := List.mem_singleton.mp closed
            exact clean
        · exact ih _ true [] next (by simp) f later
      next dark =>
        have fine : b ≠ cr ∧ b ≠ lf := by
          constructor <;> (rintro rfl; exact absurd (by rw [decodeRune_ascii (by decide)]; decide) dark)
        exact ih _ false _ next (extended fine) f member

theorem fields_line (s : Bytes) : ∀ f ∈ fields s, cr ∉ f ∧ lf ∉ f :=
  fieldsFrom_line 0 false [] s (by simp [Continues]) (by simp)

end Rediska.Go
